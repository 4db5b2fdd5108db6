import ThemeMigration.Proofs.Script.BoundNames
import ThemeMigration.Proofs.Script.Reading

/-!
# Patterns that the grammar reads

What the readers of binding patterns, of the targets of assignments and of parameter lists yield are
patterns, however deep the nodes are, and comments that are put into them do not change this.  So
what such a node binds are the words in it that stand for targets, in every script.
-/

namespace ThemeMigration.Script

/-! ## What readers yield -/

namespace Reader

variable {α β : Type} {P : α → Prop} {Q : β → Prop} {r s : Reader α}

/-- Whatever a reader yields has a property. -/
def Yields (P : α → Prop) (r : Reader α) : Prop := ∀ c a d, r c = some (a, d) → P a

theorem yields_pure {a : α} (h : P a) : Yields P (pure a) := by
  intro c b d found
  cases found
  exact h

theorem yields_fail : Yields P fail := by
  intro c a d found
  cases found

theorem yields_bind {r : Reader β} {f : β → Reader α} (first : Yields Q r)
    (next : ∀ b, Q b → Yields P (f b)) : Yields P (r >>= f) := by
  intro c a d found
  rw [bind_apply] at found
  rcases Option.bind_eq_some_iff.1 found with ⟨⟨b, e⟩, head, rest⟩
  exact next b (first c b e head) e a d rest

/-- What stands in front does not matter to a property of what follows. -/
theorem yields_bind_of_next {r : Reader β} {f : β → Reader α} (next : ∀ b, Yields P (f b)) :
    Yields P (r >>= f) :=
  yields_bind (fun _ _ _ _ => trivial) fun b (_ : True) => next b

theorem yields_orElse (first : Yields P r) (second : Yields P s) : Yields P (r <|> s) := by
  intro c a d found
  rw [orElse_apply] at found
  rcases Option.or_eq_some_iff.1 found with found | ⟨-, found⟩
  · exact first c a d found
  · exact second c a d found

theorem yields_many (h : Yields P r) : Yields (fun as => ∀ a ∈ as, P a) (many r) := by
  have go : ∀ n found c as d, (∀ a ∈ found, P a) → many.go r n found c = some (as, d) →
      ∀ a ∈ as, P a := by
    intro n
    induction n with
    | zero =>
      intro found c as d all finished a member
      cases finished
      exact all a (List.mem_reverse.1 member)
    | succ n ih =>
      intro found c as d all finished
      simp only [many.go] at finished
      split at finished
      · cases finished
        exact fun a member => all a (List.mem_reverse.1 member)
      · rename_i b e more
        have longer : ∀ a ∈ b :: found, P a := by
          intro a member
          rcases List.mem_cons.1 member with rfl | member
          · exact h c a e more
          · exact all a member
        split at finished
        · exact ih (b :: found) e as d longer finished
        · cases finished
          exact fun a member => longer a (List.mem_reverse.1 member)
  intro c as d found
  exact go c.bound [] c as d (fun a none => absurd none List.not_mem_nil) found

end Reader

namespace Grammar

open Reader SyntaxTree

variable {P : SyntaxTree → Prop} {kind : Kind} {start : Nat} {ts : List SyntaxTree}

theorem yields_leaf (h : ∀ s, P (.node kind none s [])) : Yields P (leaf kind) := by
  intro c t d found
  cases found
  exact h c.tokenSpan

theorem yields_close (h : ∀ s, P (.node kind none s ts)) : Yields P (close kind start ts) := by
  intro c t d found
  cases found
  exact h _

theorem yields_within {Q : List SyntaxTree → Prop} {r : Reader (List SyntaxTree)}
    (children : Yields Q r) (h : ∀ s ts, Q ts → P (.node kind none s ts)) :
    Yields P (within kind r) :=
  yields_bind_of_next fun _ => yields_bind children fun ts all => yields_close fun s => h s ts all

theorem yields_listUntil {closing : Punct} {item : Reader (List SyntaxTree)}
    (h : Yields (fun ts => ∀ t ∈ ts, P t) item) :
    Yields (fun ts => ∀ t ∈ ts, P t) (listUntil closing item) := by
  refine yields_bind (yields_many (P := fun ts => ∀ t ∈ ts, P t) ?_) fun items all => ?_
  · refine yields_bind_of_next fun _ => yields_bind_of_next fun _ => yields_bind h fun ts all => ?_
    exact yields_bind_of_next fun _ => yields_bind_of_next fun _ => yields_bind_of_next fun _ =>
      yields_pure all
  · refine yields_bind_of_next fun _ => yields_pure fun t member => ?_
    rcases List.mem_flatten.1 member with ⟨ts, among, member⟩
    exact all ts among t member

theorem yields_extend {step : SyntaxTree → Reader SyntaxTree} {t : SyntaxTree} (first : P t)
    (next : ∀ u, P u → Yields P (step u)) : Yields P (extend step t) := by
  have go : ∀ n u c v d, P u → extend.go step n u c = some (v, d) → P v := by
    intro n
    induction n with
    | zero =>
      intro u c v d holds found
      cases found
      exact holds
    | succ n ih =>
      intro u c v d holds found
      simp only [extend.go] at found
      split at found
      · cases found
        exact holds
      · rename_i w e more
        exact ih w e v d (next u holds c w e more) found
  intro c v d found
  exact go c.bound t c v d first found

theorem yields_nameLeaf (h : ∀ s, P (.node kind none s [])) : Yields P (nameLeaf kind) := by
  refine yields_bind_of_next fun token => ?_
  split
  · exact yields_leaf h
  · exact yields_fail

/-! ## Patterns -/

theorem isPattern_labelled {t : SyntaxTree} {l : Label} (h : IsPattern t) :
    IsPattern (t.labelled l) := by
  cases t with
  | node k m s ts =>
    cases h with
    | name kind => exact .name kind
    | expression kind => exact .expression kind
    | comment isComment => exact .comment isComment
    | members holds all => exact .members holds all
    | part label all => exact .part label all

/-- A pattern in the first part that is labelled as the one of the targets. -/
theorem isPattern_of_part {kind : Kind} {l : Label} {s : Span} {ts back : List SyntaxTree}
    {t : SyntaxTree} (isForm : targetLabel? kind = some l) (front : List SyntaxTree)
    (split : ts = front ++ t.labelled l :: back) (plain : ∀ c ∈ front, c.label ≠ some l)
    (isPattern : IsPattern t) : IsPattern (.node kind none s ts) := by
  refine .part isForm fun c part => ?_
  have inFront : front.find? (fun c => c.label == some l) = none :=
    List.find?_eq_none.2 fun c member => by simpa using plain c member
  have labelled : ((t.labelled l).label == some l) = true := by
    cases t
    exact beq_self_eq_true _
  change ts.find? (fun c => c.label == some l) = some c at part
  rw [split, List.find?_append, inFront, Option.none_or, List.find?_cons, labelled] at part
  cases part
  exact isPattern_labelled isPattern

variable {g : Rules}

theorem yields_identifier : Yields IsPattern identifier := by
  refine yields_bind_of_next fun token => ?_
  split
  · refine yields_leaf fun s => ?_
    split
    · exact .expression rfl
    · exact .name (Or.inl rfl)
  · exact yields_fail

section

variable (h : Yields IsPattern (g.read .pattern))

include h

theorem yields_restPattern : Yields IsPattern (restPattern g) := by
  refine yields_within (Q := fun ts => ∀ t ∈ ts, IsPattern t) ?_ fun s ts all => .members rfl all
  refine yields_bind_of_next fun _ => yields_bind h fun t isPattern => yields_pure ?_
  exact List.forall_mem_singleton.2 isPattern

omit h in
/-- What a default is put behind is the first of the two nodes. -/
theorem yields_withDefault {kind : Kind} {t : SyntaxTree} (isPattern : IsPattern t)
    (isDefault : targetLabel? kind = some .left) : Yields IsPattern (withDefault g kind t) := by
  refine yields_bind_of_next fun found => ?_
  cases found with
  | false => exact yields_pure isPattern
  | true =>
    exact yields_bind_of_next fun value => yields_close fun s =>
      isPattern_of_part isDefault [] rfl (List.forall_mem_nil _) isPattern

theorem yields_patternMember : Yields IsPattern (patternMember g) := by
  refine yields_orElse (yields_restPattern h) (yields_orElse ?_ ?_)
  · refine yields_bind_of_next fun key => yields_bind_of_next fun _ => yields_bind h
      fun target isPattern => yields_bind (yields_withDefault isPattern rfl)
        fun value isPattern => yields_close fun s => ?_
    refine isPattern_of_part rfl [key.labelled .key] rfl ?_ isPattern
    refine List.forall_mem_singleton.2 ?_
    cases key
    exact fun same => by cases same
  · exact yields_bind (yields_nameLeaf fun s => .name (Or.inr rfl))
      fun name isPattern => yields_withDefault isPattern rfl

theorem yields_objectPattern : Yields IsPattern (objectPattern g) := by
  refine yields_within (Q := fun ts => ∀ t ∈ ts, IsPattern t) ?_ fun s ts all => .members rfl all
  refine yields_bind_of_next fun _ => yields_listUntil ?_
  exact yields_bind (yields_patternMember h)
    fun t isPattern => yields_pure (List.forall_mem_singleton.2 isPattern)

theorem yields_arrayPattern : Yields IsPattern (arrayPattern g) := by
  refine yields_within (Q := fun ts => ∀ t ∈ ts, IsPattern t) ?_ fun s ts all => .members rfl all
  refine yields_bind_of_next fun _ => yields_listUntil (yields_bind_of_next fun leftOut => ?_)
  cases leftOut with
  | true => exact yields_pure fun t none => absurd none List.not_mem_nil
  | false =>
    exact yields_bind h fun target isPattern => yields_bind (yields_withDefault isPattern rfl)
      fun t isPattern => yields_pure (List.forall_mem_singleton.2 isPattern)

theorem yields_bindingPattern : Yields IsPattern (bindingPattern g) := by
  refine yields_bind_of_next fun token => ?_
  split
  · exact yields_objectPattern h
  · exact yields_arrayPattern h
  · exact yields_nameLeaf fun s => .name (Or.inl rfl)

theorem yields_patternGoal : Yields IsPattern (patternGoal g) := by
  refine yields_bind_of_next fun token => ?_
  split
  · exact yields_restPattern h
  · refine yields_bind yields_identifier fun t isPattern => yields_extend isPattern fun u _ => ?_
    refine yields_orElse ?_ ?_
    · exact yields_bind_of_next fun _ => yields_bind_of_next fun _ =>
        yields_close fun s => .expression rfl
    · exact yields_bind_of_next fun _ => yields_bind_of_next fun _ => yields_bind_of_next fun _ =>
        yields_close fun s => .expression rfl
  · exact yields_bindingPattern h

/-- Decorators have no part in the parameter, so the pattern is the first part that has one. -/
theorem yields_parameter : Yields IsPattern (parameter g) := by
  refine yields_bind_of_next fun c => ?_
  split
  · have noLabel : Yields (fun t => t.label = none) (decorator g) :=
      yields_within (Q := fun _ => True) (fun _ _ _ _ => trivial) fun _ _ _ => rfl
    refine yields_bind (yields_many noLabel) fun decorators plain => yields_bind_of_next fun _ => ?_
    have pattern : Yields IsPattern ((do expectWord "this"; close .expression c.start []) <|>
        g.read .pattern) :=
      yields_orElse (yields_bind_of_next fun _ => yields_close fun s => .expression rfl) h
    refine yields_bind pattern fun t isPattern => yields_bind_of_next fun isOptional =>
      yields_bind_of_next fun type => yields_bind_of_next fun value => yields_close fun s => ?_
    have isParameter : targetLabel? (if isOptional then .optionalParameter
        else .requiredParameter) = some .pattern := by
      cases isOptional <;> rfl
    refine isPattern_of_part isParameter decorators (List.append_assoc ..) ?_ isPattern
    intro e member
    rw [plain e member]
    decide
  · refine yields_bind h fun t isPattern => yields_bind_of_next fun found => ?_
    cases found with
    | false => exact yields_pure isPattern
    | true =>
      exact yields_bind_of_next fun value => yields_close fun s =>
        isPattern_of_part rfl [] rfl (List.forall_mem_nil _) isPattern

theorem yields_formalParameters : Yields IsPattern (formalParameters g) := by
  refine yields_within (Q := fun ts => ∀ t ∈ ts, IsPattern t) ?_ fun s ts all => .members rfl all
  refine yields_bind_of_next fun _ => yields_listUntil ?_
  exact yields_bind (yields_parameter h)
    fun t isPattern => yields_pure (List.forall_mem_singleton.2 isPattern)

end

/-- What is read as a pattern is one, however deep it is. -/
theorem yields_pattern (language : Language) (depth : Nat) :
    Yields IsPattern (parse language depth .pattern) := by
  induction depth with
  | zero => exact yields_fail
  | succ depth ih => exact yields_patternGoal ih

end Grammar

/-! ## Patterns with comments -/

namespace SyntaxTree

variable {t c : SyntaxTree} {ts : List SyntaxTree}

theorem weave_kind (cs : List Span) (t : SyntaxTree) : (weave cs t).kind = t.kind := by
  cases t
  rfl

theorem weave_label (cs : List Span) (t : SyntaxTree) : (weave cs t).label = t.label := by
  cases t
  rfl

theorem weave_children (cs : List Span) (t : SyntaxTree) :
    (weave cs t).children = weaveAll cs t.children := by
  cases t
  rfl

/-- The nodes of a row with comments are the comments and the old nodes. -/
theorem mem_weaveAll {cs : List Span} (h : c ∈ weaveAll cs ts) :
    c.isComment = true ∨ ∃ u ∈ ts, ∃ inside, c = weave inside u := by
  induction ts generalizing cs with
  | nil =>
    rcases List.mem_map.1 h with ⟨s, -, rfl⟩
    exact Or.inl rfl
  | cons u us ih =>
    rcases List.mem_append.1 h with before | after
    · rcases List.mem_map.1 before with ⟨s, -, rfl⟩
      exact Or.inl rfl
    · rcases List.mem_cons.1 after with rfl | after
      · exact Or.inr ⟨u, List.mem_cons_self, _, rfl⟩
      · rcases ih after with comment | ⟨v, member, inside, same⟩
        · exact Or.inl comment
        · exact Or.inr ⟨v, List.mem_cons_of_mem _ member, inside, same⟩

/-- Comments have no label, so each part is what it was. -/
theorem part?_weave {cs : List Span} {l : Label} (h : (weave cs t).part? l = some c) :
    ∃ u, t.part? l = some u ∧ ∃ inside, c = weave inside u := by
  have row : ∀ ts cs, (weaveAll cs ts).find? (fun u => u.label == some l) = some c →
      ∃ u, ts.find? (fun u => u.label == some l) = some u ∧ ∃ inside, c = weave inside u := by
    have comments : ∀ cs : List Span,
        (cs.map ofComment).find? (fun u => u.label == some l) = none := by
      intro cs
      refine List.find?_eq_none.2 fun u member => ?_
      rcases List.mem_map.1 member with ⟨s, -, rfl⟩
      exact Bool.false_ne_true
    intro ts
    induction ts with
    | nil =>
      intro cs found
      rw [weaveAll, comments] at found
      cases found
    | cons u us ih =>
      intro cs found
      simp only [weaveAll, List.find?_append, comments, Option.none_or, List.find?_cons,
        weave_label] at found
      rw [List.find?_cons]
      split at found
      · cases found
        exact ⟨u, rfl, _, rfl⟩
      · exact ih _ found
  rw [part?, weave_children] at h
  exact row t.children cs h

/-- A pattern with comments in it is a pattern. -/
theorem IsPattern.weave (h : IsPattern t) (cs : List Span) : IsPattern (weave cs t) := by
  induction h generalizing cs with
  | @name t isName => exact .name (by rwa [weave_kind])
  | @expression t kind => exact .expression (by rwa [weave_kind])
  | @comment t isComment => exact .comment (by rwa [SyntaxTree.isComment, weave_kind])
  | @members t holds _ ih =>
    refine .members (by rwa [weave_kind]) fun c member => ?_
    rw [weave_children] at member
    rcases mem_weaveAll member with isComment | ⟨u, inside, cs', rfl⟩
    · exact .comment isComment
    · exact ih u inside cs'
  | @part t l label _ ih =>
    refine .part (by rwa [weave_kind]) fun c part => ?_
    rcases part?_weave part with ⟨u, inBare, cs', rfl⟩
    exact ih u inBare cs'

/-- A node is a pattern or a parameter list as the grammar of a language reads it, at some place of
a text, with the comments in it: the target of a declaration, a pattern in another one, a list of
parameters, or the one parameter of a function without parentheses. -/
def IsReadPattern (t : SyntaxTree) : Prop :=
  ∃ language depth,
    let g : Rules := ⟨language, Grammar.parse language depth⟩
    ∃ r ∈ [Grammar.bindingPattern g, g.read .pattern, Grammar.formalParameters g,
        Grammar.nameLeaf .identifier],
      ∃ c bare d comments, r c = some (bare, d) ∧ t = weave comments bare

theorem IsReadPattern.isPattern (h : IsReadPattern t) : IsPattern t := by
  rcases h with ⟨language, depth, r, member, c, bare, d, comments, read, rfl⟩
  refine IsPattern.weave ?_ comments
  have inner := Grammar.yields_pattern language depth
  simp only [List.mem_cons, List.not_mem_nil, or_false] at member
  rcases member with rfl | rfl | rfl | rfl
  · exact Grammar.yields_bindingPattern inner c bare d read
  · exact inner c bare d read
  · exact Grammar.yields_formalParameters inner c bare d read
  · exact Grammar.yields_nameLeaf (fun s => .name (Or.inl rfl)) c bare d read

end SyntaxTree

end ThemeMigration.Script
