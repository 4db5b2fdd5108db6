import ThemeMigration.Proofs.Component.Alike
import ThemeMigration.Proofs.Component.Counts
import ThemeMigration.Proofs.Migration.Untouched

/-!
# Bodies that were changed

In the body of a changed component nothing has an edit of its own but the body and the literals
that are replaced.  Markup in it stays markup, since no edit reaches the last name of a callee.
The property literals of the new body are those of the old one that were not replaced, with the
same verdicts, so nothing is left to replace.
-/

namespace ThemeMigration

open Script SyntaxTree

namespace Migration

variable {m : Migration} {file : SourceFile} {r : Recoloring}

/-! ## What has an edit in the body -/

section Body

variable (changed : Changed m file r)

include changed

/-- A node with a text stands in one body only. -/
theorem Changed.eq_of_occurs {q : Recoloring} (other : Changed m file q) {x : SyntaxTree}
    (first : Occurs r.component.body x) (second : Occurs q.component.body x)
    (room : x.start < x.stop) : r = q := by
  rcases bodies_apart changed.member other.member with same | apart
  · exact same
  · have left := (wellFormed_occurs changed.body_wellFormed first).2
    have right := (wellFormed_occurs other.body_wellFormed second).2
    exact absurd (apart.stop_le_start left right) (Nat.not_le_of_lt room)

/-- A node of the body with an edit of its own is the body or a literal that is replaced. -/
theorem Changed.special_cases {x : SyntaxTree} (below : Occurs r.component.body x)
    (special : Special m file x) :
    x ∈ m.replacedLiterals file ∨ (x = r.component.body ∧ x ∈ m.boundBodies file) := by
  cases special with
  | literal member => exact Or.inl member
  | body member =>
    rcases mem_boundBodies_iff.1 member with ⟨q, other, fresh, rfl⟩
    rw [changed.eq_of_occurs other below (.here _) other.body_nonempty]
    exact Or.inr ⟨rfl, mem_boundBodies_iff.2 ⟨q, other, fresh, rfl⟩⟩
  | list joined =>
    rcases accessorList_of_joined joined with ⟨v, list⟩
    exact absurd below (changed.not_occurs_list list)

/-- A node that stands in the body and is not the whole body does not wrap it. -/
theorem Changed.not_wraps {k : SyntaxTree} (below : Occurs r.component.body k)
    (part : k ≠ r.component.body) : m.wraps file k ≠ true := by
  intro wraps
  rcases List.any_eq_true.1 wraps with ⟨body, member, holds⟩
  rw [Bool.and_eq_true, decide_eq_true_eq] at holds
  have inBody := below.trans holds.2
  rcases changed.special_cases inBody (.body member) with literal | ⟨same, _⟩
  · exact not_literal_of_bound member literal
  · rw [same] at holds
    cases below with
    | here => exact part rfl
    | deeper inChildren inChild =>
      exact not_occurs_of_mem_children inChildren (inChild.trans holds.2)

/-- The literal of a pair is replaced only as the value of that pair. -/
theorem Changed.edit?_isSome {l : PropertyLiteral} (found : l ∈ r.component.literals)
    (replaced : l.literal ∈ m.replacedLiterals file) :
    (l.edit? m.palette file.text).isSome = true := by
  rcases mem_replacedLiterals_iff.1 replaced with ⟨q, other, k, member, edited, same⟩
  have below := PropertyLiteral.literal_occurs found
  have room := PropertyLiteral.literal_nonempty changed.body_wellFormed found
  have inOther := PropertyLiteral.literal_occurs member
  rw [same] at inOther
  have one := changed.eq_of_occurs other below inOther room
  subst one
  have first := PropertyLiteral.isValue_of_mem_inside _ _ found
  have second := PropertyLiteral.isValue_of_mem_inside _ _ member
  have pair : k.property = l.property :=
    parent_unique changed.body_wellFormed room second.1 first.1 (same ▸ second.2.member)
      first.2.member
  have literal : k = l := by
    cases k
    cases l
    cases pair
    cases same
    rfl
  rw [← literal]
  exact edited

/-- An edit that meets a part of the body replaces a literal that stands in the part. -/
theorem Changed.edit_in_part {d k : SyntaxTree} (member : d ∈ r.component.body.children)
    (below : Occurs d k) {e : Edit} (planned : e ∈ (m.plan file).edits) :
    e.span.Apart k.span ∨ ∃ x, x.kind = .string ∧ Occurs k x ∧ e.span = x.span := by
  have wellFormed := changed.body_wellFormed
  have inBody : Occurs r.component.body k := .deeper member below
  have within := (wellFormed_occurs wellFormed inBody).2
  cases mem_plan_edits_iff.1 planned with
  | replacement q other replaced =>
    rcases bodies_apart changed.member other.member with same | apart
    · subst same
      rcases Component.exists_literal_of_mem_replacements replaced with ⟨l, found, _, span⟩
      have literal := PropertyLiteral.literal_occurs found
      have string := (PropertyLiteral.isValue_of_mem_inside _ l found).2.isString
      rw [span]
      rcases occurs_or_apart wellFormed inBody literal with inside | outside | apart
      · exact Or.inr ⟨l.literal, string, inside, rfl⟩
      · have leaf := children_eq_nil (wellFormed_occurs wellFormed literal).1 (by rw [string]; rfl)
        rw [outside.eq_of_children_eq_nil leaf]
        exact Or.inr ⟨l.literal, string, .here _, rfl⟩
      · exact Or.inl apart.symm
    · exact Or.inl (apart.symm.mono (replacement_in_body other replaced) within)
  | imported change found =>
    exact Or.inl ((import_apart_of_body change found changed).mono (.refl _) within)
  | binding q other fresh inserted =>
    left
    rcases bodies_apart changed.member other.member with same | apart
    · subst same
      have inChild := (wellFormed_occurs (wellFormed_child wellFormed member).1 below).2
      exact (Component.insertion_apart_of_child wellFormed changed.literals_ne_nil inserted
        member).mono (.refl _) inChild
    · exact apart.symm.mono (binding_in_body other inserted) within

end Body

/-! ## Markup -/

/-- A quoted text ends in a quote. -/
theorem exists_quote_of_isQuoted {text : String} (h : isQuoted text = true) :
    ∃ front q, text = front ++ String.singleton q ∧ isQuote q = true := by
  have ofCharacters : ∀ (q : Char) (rest : List Char), text.toList = q :: rest →
      rest.getLast? = some q → text = String.ofList (q :: rest.dropLast) ++ String.singleton q := by
    intro q rest characters last
    apply String.toList_inj.1
    have split := List.dropLast_append_getLast? q last
    simp only [String.toList_append, String.toList_ofList, String.toList_singleton, characters,
      List.cons_append, split]
  unfold isQuoted at h
  split at h
  · rename_i rest characters
    exact ⟨_, _, ofCharacters _ rest characters (beq_iff_eq.1 h), rfl⟩
  · rename_i rest characters
    exact ⟨_, _, ofCharacters _ rest characters (beq_iff_eq.1 h), rfl⟩
  · cases h

/-- A quoted text inside a span ends before any part without quotes that ends the span. -/
theorem stop_le_of_isQuoted {source : String} {outer inner : SyntaxTree} {cut : Nat}
    (wellFormed : outer.wellFormed source = true) (inside : Occurs outer inner)
    (quoted : isQuoted (inner.text source) = true)
    (boundary : Text.isBoundary source cut = true) (behind : outer.start ≤ cut)
    (plain : (Text.slice source cut outer.stop).toList.any isQuote = false) :
    inner.stop ≤ cut := by
  refine Nat.le_of_not_lt fun late => ?_
  have facts := wellFormed_occurs wellFormed inside
  have start := start_boundary wellFormed
  have first := start_boundary facts.1
  have last := stop_boundary facts.1
  have ordered := start_le_stop facts.1
  rcases exists_quote_of_isQuoted quoted with ⟨front, q, text, quote⟩
  -- Up to the end of the inner text, the outer one is cut at two places.
  have whole := Text.slice_append_slice start first last facts.2.1 ordered
  have other := Text.slice_append_slice start boundary last behind (Nat.le_of_lt late)
  rw [show Text.slice source inner.start inner.stop = _ from text, ← String.append_assoc] at whole
  have sizes := congrArg String.utf8ByteSize whole
  have inFront := Text.size_slice start boundary behind
  rw [Text.size_slice start last (Nat.le_trans facts.2.1 ordered), String.utf8ByteSize_append]
    at sizes
  have one : (String.singleton q).utf8ByteSize = 1 := by
    simp only [isQuote, Bool.or_eq_true, beq_iff_eq] at quote
    rcases quote with (rfl | rfl) | rfl <;> rfl
  rcases Text.exists_append_of_append_eq (other.trans whole.symm) (by omega) with ⟨m, _, piece⟩
  have rest := Text.slice_append_slice boundary last (stop_boundary wellFormed) (Nat.le_of_lt late)
    facts.2.2
  have inTail : q ∈ (Text.slice source cut outer.stop).toList := by
    rw [← rest, piece]
    simp
  rw [List.any_eq_true.2 ⟨q, inTail, quote⟩] at plain
  cases plain

section Body

variable (changed : Changed m file r)

include changed

/-- No edit reaches beyond the last literal of a part of the body. -/
theorem Changed.edit_before {d k : SyntaxTree} (member : d ∈ r.component.body.children)
    (below : Occurs d k) {cut : Nat} (boundary : Text.isBoundary file.text cut = true)
    (behind : k.start ≤ cut)
    (plain : (Text.slice file.text cut k.stop).toList.any isQuote = false) {e : Edit}
    (planned : e ∈ (m.plan file).edits) :
    e.span.Apart k.span ∨ (k.span.Contains e.span ∧ e.span.stop ≤ cut) := by
  rcases changed.edit_in_part member below planned with apart | ⟨x, string, inside, span⟩
  · exact Or.inl apart
  · have wellFormed := (wellFormed_occurs changed.body_wellFormed (.deeper member below)).1
    have inner := wellFormed_occurs wellFormed inside
    rw [span]
    exact Or.inr ⟨inner.2, stop_le_of_isQuoted wellFormed inside (isQuoted_text inner.1 string)
      boundary behind plain⟩

/-- A callee of the body that creates elements is one that creates elements still. -/
theorem Changed.isElementFactory {d k k' : SyntaxTree} (member : d ∈ r.component.body.children)
    (below : Occurs d k)
    (lands : k'.span = Edit.landed file.text (m.plan file).edits k.span)
    (factory : Component.isElementFactory (k.text file.text) = true) :
    Component.isElementFactory (k'.text (m.edited file)) = true := by
  have wellFormed := (wellFormed_occurs changed.body_wellFormed (.deeper member below)).1
  have start := start_boundary wellFormed
  have stop := stop_boundary wellFormed
  have ordered := start_le_stop wellFormed
  have noQuotes : ".createElement".toList.any isQuote = false := by decide +kernel
  rw [Component.isElementFactory, Bool.or_eq_true, beq_iff_eq, List.isSuffixOf_iff_suffix]
    at factory
  rcases factory with whole | ⟨front, suffix⟩
  · have apart : ∀ e ∈ (m.plan file).edits, e.span.Apart k.span := by
      intro e planned
      have plain : (Text.slice file.text k.start k.stop).toList.any isQuote = false := by
        rw [show Text.slice file.text k.start k.stop = _ from whole]
        decide +kernel
      rcases changed.edit_before member below start (Nat.le_refl _) plain planned with
        apart | ⟨_, early⟩
      · exact apart
      · exact Or.inl early
    rw [text_landed wellFormed apart lands, whole]
    rfl
  · have split : Text.slice file.text k.start k.stop = String.ofList front ++ ".createElement" := by
      apply String.toList_inj.1
      rw [String.toList_append, String.toList_ofList]
      exact suffix.symm
    rcases Text.slice_of_slice_eq_append start stop ordered split with
      ⟨boundary, before, _, rest⟩
    have room : k.start + (String.ofList front).utf8ByteSize < k.stop := by
      refine Nat.lt_of_le_of_ne before fun none => ?_
      rw [Text.slice_eq_empty (Nat.le_of_eq none.symm)] at rest
      exact absurd rest (by decide)
    have kept := Edit.exists_sliceSpan_landed_append (s := k.span)
      (fun _ => sound_of_mem_plan) (plan_edits_apart m file) start boundary stop
      (Nat.le_add_right _ _) room
      (fun e planned => changed.edit_before member below boundary (Nat.le_add_right _ _)
        (by rw [rest]; exact noQuotes) planned)
    rcases kept with ⟨front', text⟩
    rw [SyntaxTree.text, lands]
    rw [show Text.sliceSpan (m.edited file) _ = _ from text,
      show Text.slice file.text _ k.span.stop = _ from rest]
    rw [Component.isElementFactory, Bool.or_eq_true, List.isSuffixOf_iff_suffix,
      String.toList_append]
    exact Or.inr (List.suffix_append _ _)

/-- A node below the body is no special one unless it is a literal that is replaced. -/
theorem Changed.plain_child {t c : SyntaxTree} (below : Occurs r.component.body t)
    (member : c ∈ t.children) (kept : c ∉ m.replacedLiterals file) : ¬ Special m file c := by
  intro special
  rcases changed.special_cases (below.trans (.child member)) special with literal | ⟨same, _⟩
  · exact kept literal
  · exact not_occurs_of_mem_children member (same ▸ below)

omit changed in
/-- A literal that is replaced is the value of its property. -/
theorem label_of_literal {c : SyntaxTree} (literal : c ∈ m.replacedLiterals file) :
    c.label = some .value := by
  rcases mem_replacedLiterals_iff.1 literal with ⟨_, _, l, found, _, rfl⟩
  exact (PropertyLiteral.isValue_of_mem_inside _ l found).2.label

/-- The part of a node that is no value is not replaced. -/
theorem Changed.plain_part {t c : SyntaxTree} {l : Label} (below : Occurs r.component.body t)
    (part : t.part? l = some c) (other : l ≠ .value) :
    c ∉ m.replacedLiterals file ∧ ¬ Special m file c := by
  have kept : c ∉ m.replacedLiterals file := by
    intro literal
    have labels := (label_of_part? part).symm.trans (label_of_literal literal)
    exact other (Option.some.inj labels)
  exact ⟨kept, changed.plain_child below (mem_children_of_part? part) kept⟩

theorem Changed.isMarkup {t t' : SyntaxTree} (below : Occurs r.component.body t)
    (kind : t'.kind = t.kind) (children : List.Forall₂ (Regrows m file) t.children t'.children)
    (markup : Component.isMarkup file.text t = true) :
    Component.isMarkup (m.edited file) t' = true := by
  rw [Component.isMarkup] at markup
  rw [Component.isMarkup, kind]
  split at markup
  case h_4 =>
    rcases rel_cases (keeps_regrows.part? children .callee) with
      ⟨none, _⟩ | ⟨k, k', part, part', related⟩
    · rw [none] at markup
      cases markup
    · rw [part, Option.map_some, Option.getD_some] at markup
      rw [part', Option.map_some, Option.getD_some]
      have isChild := mem_children_of_part? part
      have plain := (changed.plain_part below part (by decide)).2
      have notWhole : k ≠ r.component.body := by
        rintro rfl
        exact not_occurs_of_mem_children isChild below
      have lands := (related.of_plain plain).2.2.1.resolve_left
        (changed.not_wraps (below.trans (.child isChild)) notWhole)
      rcases below with _ | ⟨inBody, inChild⟩
      · exact changed.isElementFactory isChild (.here k) lands markup
      · exact changed.isElementFactory inBody (inChild.trans (.child isChild)) lands markup
  case h_5 => cases markup
  all_goals rfl

omit changed in
theorem containsMarkup_of_child {source : String} {t c : SyntaxTree} (member : c ∈ t.children)
    (markup : Component.containsMarkup source c = true) :
    Component.containsMarkup source t = true := by
  rw [Component.containsMarkup_eq, Bool.or_eq_true, List.any_eq_true]
  exact Or.inr ⟨c, member, markup⟩

/-- What makes markup in the body makes markup still. -/
theorem Changed.containsMarkup {t t' : SyntaxTree} (below : Occurs r.component.body t)
    (related : Regrows m file t t') (markup : Component.containsMarkup file.text t = true) :
    Component.containsMarkup (m.edited file) t' = true := by
  induction t using childInduction generalizing t' with
  | step t ih =>
    rw [Component.containsMarkup_eq, Bool.or_eq_true, List.any_eq_true] at markup
    -- A node of the same kind makes markup if it has all the children of the old one.
    have ofKind : ∀ d : SyntaxTree, d.kind = t.kind →
        List.Forall₂ (Regrows m file) t.children d.children →
        Component.containsMarkup (m.edited file) d = true := by
      intro d kind children
      rcases markup with own | ⟨c, member, inChild⟩
      · rw [Component.containsMarkup_eq, changed.isMarkup below kind children own, Bool.true_or]
      · rcases exists_of_forall₂_mem children member with ⟨c', member', regrown⟩
        exact containsMarkup_of_child member'
          (ih c member (below.trans (.child member)) regrown inChild)
    by_cases special : Special m file t
    · rcases changed.special_cases below special with literal | ⟨_, bound⟩
      · rcases literal_facts literal with ⟨_, _, _, _, string⟩
        have leaf := children_eq_nil (wellFormed_occurs changed.body_wellFormed below).1
          (by rw [string]; rfl)
        rcases markup with own | ⟨c, member, _⟩
        · rw [Component.isMarkup, string] at own
          cases own
        · rw [leaf] at member
          cases member
      · rcases related.of_body bound with
          ⟨_, _, ⟨block, spliced⟩ | ⟨_, b, e, l, o, children, _, kind, rest⟩⟩
        · rcases markup with own | ⟨c, member, inChild⟩
          · rw [Component.isMarkup, block] at own
            cases own
          · rcases spliced.exists_of_mem member with ⟨c', member', regrown⟩
            exact containsMarkup_of_child member'
              (ih c member (below.trans (.child member)) regrown inChild)
        · have inReturn : Component.containsMarkup (m.edited file)
              (.node .returnStatement l o [e]) = true :=
            containsMarkup_of_child List.mem_cons_self (ofKind e kind rest)
          apply containsMarkup_of_child _ inReturn
          rw [children]
          exact List.mem_cons_of_mem _ List.mem_cons_self
    · have plain := related.of_plain special
      exact ofKind t' plain.1 plain.2.2.2

end Body

/-! ## Literals -/

/-- The statement that binds the accessor holds no property literal. -/
theorem inside_of_isBinding {t : SyntaxTree} (h : m.isBinding file t = true) :
    PropertyLiteral.inside t = [] := by
  unfold isBinding at h
  split at h
  · simp [PropertyLiteral.inside, PropertyLiteral.insideParts, kind]
  · cases h

/-- The verdict on a literal of the old body is the one on a literal of the new body. -/
def SameVerdict (m : Migration) (file : SourceFile) (l l' : PropertyLiteral) : Prop :=
  l'.verdict m.palette (m.edited file) = l.verdict m.palette file.text

section Literals

variable (changed : Changed m file r)

include changed

/-- The key of a property in the body spells the same name as before. -/
theorem Changed.key_eq {t t' : SyntaxTree} (below : Occurs r.component.body t)
    (children : List.Forall₂ (Regrows m file) t.children t'.children) :
    (t'.part? .key).bind (PropertyLiteral.keyName? (m.edited file)) =
      (t.part? .key).bind (PropertyLiteral.keyName? file.text) := by
  rcases rel_cases (keeps_regrows.part? children .key) with
    ⟨none, none'⟩ | ⟨key, key', part, part', related⟩
  · rw [none, none', Option.bind_none, Option.bind_none]
  · rw [part, part', Option.bind_some, Option.bind_some]
    have plain := changed.plain_part below part (by decide)
    have kind := (related.of_plain plain.2).1
    cases atom : key.kind.isAtomic with
    | true =>
      have inBody := below.trans (.child (mem_children_of_part? part))
      have reads := (untouched_of_atom changed.declaration_mem (changed.body_occurs.trans inBody)
        atom changed.kind_of_declaration plain.1).reads related
      exact PropertyLiteral.keyName?_congr kind reads.text
    | false =>
      rw [PropertyLiteral.keyName?, PropertyLiteral.keyName?, kind]
      split <;> rename_i isKey
      · rw [isKey] at atom
        cases atom
      · rw [isKey] at atom
        cases atom
      · rw [isKey] at atom
        cases atom
      · rfl

variable (free : m.palette.tokens.isStringFree = true)

include free

/-- No node of the body has become a string. -/
theorem Changed.kind_of_string {t c c' : SyntaxTree} (below : Occurs r.component.body t)
    (member : c ∈ t.children) (related : Regrows m file c c') (string : c'.kind = .string) :
    c.kind = .string := by
  by_cases literal : c ∈ m.replacedLiterals file
  · exact absurd string ((related.of_literal literal).2.2.2 free)
  · rw [← (related.of_plain (changed.plain_child below member literal)).1]
    exact string

/-- The string value of a property stays, or it is replaced and nothing comes in its place. -/
theorem Changed.forall₂_of_value {t t' c c' : SyntaxTree} (below : Occurs r.component.body t)
    (kind : t'.kind = t.kind) (children : List.Forall₂ (Regrows m file) t.children t'.children)
    (value : PropertyLiteral.IsValue t c) (related : Regrows m file c c') :
    List.Forall₂ (SameVerdict m file)
      (PropertyLiteral.kept m.palette file.text (PropertyLiteral.ofChild t c))
      (PropertyLiteral.ofChild t' c') := by
  have found : ⟨t, c⟩ ∈ r.component.literals :=
    PropertyLiteral.mem_inside_of_isValue changed.body_wellFormed below value
  have own : PropertyLiteral.ofChild t c = [⟨t, c⟩] := by
    simp [PropertyLiteral.ofChild, value.kind, value.label, value.isString]
  rw [own, PropertyLiteral.kept, List.filter_cons, List.filter_nil]
  by_cases literal : c ∈ m.replacedLiterals file
  · have become := related.of_literal literal
    have none : PropertyLiteral.ofChild t' c' = [] := by
      simp [PropertyLiteral.ofChild, become.2.2.2 free, become.2.2.1]
    rw [none, Option.isNone_eq_false_iff.2 (changed.edit?_isSome found literal)]
    exact .nil
  · have inBody := below.trans (.child value.member)
    have reads := (untouched_of_atom changed.declaration_mem (changed.body_occurs.trans inBody)
      (by rw [value.isString]; rfl) changed.kind_of_declaration literal).reads related
    have own' : PropertyLiteral.ofChild t' c' = [⟨t', c'⟩] := by
      simp [PropertyLiteral.ofChild, kind, value.kind, value.label, value.isString, reads.kind,
        reads.label]
    have stays : (PropertyLiteral.edit? m.palette file.text ⟨t, c⟩).isNone = true := by
      rw [← Bool.not_eq_false, Option.isNone_eq_false_iff]
      intro edited
      exact literal (mem_replacedLiterals_iff.2 ⟨r, changed, _, found, edited, rfl⟩)
    rw [own', stays]
    exact .cons (PropertyLiteral.verdict_congr (changed.key_eq below children) reads.text) .nil

/-- The literals of a node that keeps its kind and its children are those that stay, if it is so
for the children. -/
theorem Changed.forall₂_of_children {t t' : SyntaxTree} (below : Occurs r.component.body t)
    (kind : t'.kind = t.kind) (children : List.Forall₂ (Regrows m file) t.children t'.children)
    (ih : ∀ c ∈ t.children, ∀ c', Regrows m file c c' →
      List.Forall₂ (SameVerdict m file)
        (PropertyLiteral.kept m.palette file.text (PropertyLiteral.inside c))
        (PropertyLiteral.inside c')) :
    List.Forall₂ (SameVerdict m file)
      (PropertyLiteral.kept m.palette file.text (PropertyLiteral.inside t))
      (PropertyLiteral.inside t') := by
  rw [PropertyLiteral.inside_eq t, PropertyLiteral.inside_eq t', kind]
  split
  · exact .nil
  rw [PropertyLiteral.kept, List.filter_flatMap, List.flatMap_def, List.flatMap_def]
  refine List.rel_flatten ?_
  refine List.rel_map ?_ (forall₂_with_mem children)
  rintro c c' ⟨member, related⟩
  change List.Forall₂ (SameVerdict m file)
    (PropertyLiteral.kept m.palette file.text (PropertyLiteral.ofChild t c))
    (PropertyLiteral.ofChild t' c')
  by_cases value : t.kind = .pair ∧ c.label = some .value ∧ c.kind = .string
  · exact changed.forall₂_of_value free below kind children
      ⟨value.1, member, value.2.1, value.2.2⟩ related
  · -- The child is no literal itself, and it has not become one.
    have value' : ¬ (t'.kind = .pair ∧ c'.label = some .value ∧ c'.kind = .string) := by
      rintro ⟨pair, labelled, string⟩
      exact value ⟨kind ▸ pair, keeps_regrows.label related ▸ labelled,
        changed.kind_of_string free below member related string⟩
    rw [PropertyLiteral.ofChild_of_not value, PropertyLiteral.ofChild_of_not value']
    exact ih c member c' related

/-- The literals of the new body are those of the old one that stay. -/
theorem Changed.forall₂_inside {t t' : SyntaxTree} (below : Occurs r.component.body t)
    (related : Regrows m file t t') :
    List.Forall₂ (SameVerdict m file)
      (PropertyLiteral.kept m.palette file.text (PropertyLiteral.inside t))
      (PropertyLiteral.inside t') := by
  induction t using childInduction generalizing t' with
  | step t ih =>
    have deeper : ∀ c ∈ t.children, ∀ c', Regrows m file c c' →
        List.Forall₂ (SameVerdict m file)
          (PropertyLiteral.kept m.palette file.text (PropertyLiteral.inside c))
          (PropertyLiteral.inside c') := by
      intro c member c' regrown
      exact ih c member (below.trans (.child member)) regrown
    by_cases special : Special m file t
    · rcases changed.special_cases below special with literal | ⟨_, bound⟩
      · rcases literal_facts literal with ⟨_, _, _, _, string⟩
        have leaf := children_eq_nil (wellFormed_occurs changed.body_wellFormed below).1
          (by rw [string]; rfl)
        rw [PropertyLiteral.inside_eq_nil_of_children leaf, (related.of_literal literal).2.2.1]
        exact .nil
      · rcases related.of_body bound with
          ⟨kind, _, ⟨block, spliced⟩ | ⟨_, b, e, l, o, children, binding, kind', rest⟩⟩
        · rcases spliced.split with ⟨before, new, after, split, binding, rest⟩
          -- The binding adds no literal, so the block may as well be without it.
          have without : PropertyLiteral.inside t' =
              PropertyLiteral.inside (.node .statementBlock none t'.span (before ++ after)) := by
            rw [PropertyLiteral.inside_of_block kind, PropertyLiteral.inside_of_block rfl, split]
            simp [SyntaxTree.children, inside_of_isBinding binding]
          rw [without]
          exact changed.forall₂_of_children free below block.symm rest deeper
        · have inReturn : PropertyLiteral.inside t' = PropertyLiteral.inside e := by
            rw [PropertyLiteral.inside_of_block kind, children]
            simp [inside_of_isBinding binding,
              PropertyLiteral.inside_eq (.node .returnStatement l o [e]), PropertyLiteral.ofChild,
              SyntaxTree.children, SyntaxTree.kind]
          rw [inReturn]
          exact changed.forall₂_of_children free below kind' rest deeper
    · have plain := related.of_plain special
      exact changed.forall₂_of_children free below plain.1 plain.2.2.2 deeper

/-- What is left to count in the new body is what was not replaced in the old one. -/
theorem Changed.literalCounts_eq {c : Component}
    (related : Regrows m file r.component.body c.body) :
    c.literalCounts m.palette (m.edited file) =
      { r.component.literalCounts m.palette file.text with replaced := 0 } := by
  have verdicts := map_eq_of_forall₂ (changed.forall₂_inside free (.here _) related)
    (f := fun l => (l.verdict m.palette file.text).counts)
    (g := fun l => (l.verdict m.palette (m.edited file)).counts)
    fun l l' _ same => congrArg Verdict.counts same
  have totals := congrArg (List.foldl (· + ·) ({} : LiteralCounts)) verdicts
  rw [List.foldl_map, List.foldl_map] at totals
  exact totals.trans (PropertyLiteral.total_kept m.palette file.text r.component.literals)

end Literals

end Migration

end ThemeMigration
