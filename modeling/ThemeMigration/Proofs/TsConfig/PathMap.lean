import Mathlib.Data.Prod.Lex
import Mathlib.Order.WithBot
import ThemeMigration.Proofs.Text.Slice
import ThemeMigration.TsConfig.Basic

/-!
# The entry that the path map chooses

An entry with a target leads a specifier to a text, if its pattern is the specifier or has a star
that can stand for a part of it.  Of the entries that do, one whose pattern has no star is better
than any other, then one with more bytes in front of its first star, and of equally good entries the
first is chosen.  So the order of entries matters only among those that are equally good.  What a
star stands for lies between two character boundaries, in their order, whenever the specifier begins
with the one part of the pattern, ends with the other and is as long as both.
-/

namespace ThemeMigration

open Text

namespace TsConfig

/-- A pattern of the path map with its targets. -/
abbrev Entry := String × List String

/-! ## Stars -/

theorem splitStar_eq_none_iff {cs : List Char} : splitStar cs = none ↔ '*' ∉ cs := by
  induction cs with
  | nil => simp [splitStar]
  | cons c cs ih =>
    rw [splitStar]
    by_cases star : c = '*'
    · simp [star]
    · simp [star, ih, Ne.symm star]

theorem splitStar_eq_some_iff {cs before after : List Char} :
    splitStar cs = some (before, after) ↔ '*' ∉ before ∧ cs = before ++ '*' :: after := by
  induction cs generalizing before with
  | nil => simp [splitStar]
  | cons c cs ih =>
    rw [splitStar]
    by_cases star : c = '*'
    · subst star
      cases before with
      | nil => simp
      | cons d before =>
        simp only [beq_self_eq_true, if_true, List.mem_cons, not_or, List.cons_append]
        refine iff_of_false (by simp) ?_
        rintro ⟨⟨different, _⟩, same⟩
        exact different (List.cons.inj same).1
    · rw [if_neg (by simpa using star)]
      cases before with
      | nil => simp [star]
      | cons d before =>
        have inner := @ih before
        simp only [Option.map_eq_some_iff, Prod.mk.injEq, List.cons.injEq, Prod.exists,
          List.mem_cons, not_or, List.cons_append]
        constructor
        · rintro ⟨front, _, split, ⟨rfl, rfl⟩, rfl⟩
          exact ⟨⟨Ne.symm star, (inner.1 split).1⟩, rfl, (inner.1 split).2⟩
        · rintro ⟨⟨_, plain⟩, rfl, split⟩
          exact ⟨before, after, inner.2 ⟨plain, split⟩, ⟨rfl, rfl⟩, rfl⟩

/-- The text that a star stands for has its place between the two parts. -/
theorem captured?_eq_some_iff {before after text middle : List Char} :
    captured? before after text = some middle ↔ text = before ++ middle ++ after := by
  rw [captured?]
  constructor
  · intro found
    split at found
    · rename_i begins
      rcases List.isPrefixOf_iff_prefix.1 begins with ⟨rest, rfl⟩
      rw [List.drop_left] at found
      dsimp only at found
      split at found
      · rename_i ends
        rcases List.isSuffixOf_iff_suffix.1 ends with ⟨middle', rfl⟩
        cases found
        simp
      · cases found
    · cases found
  · rintro rfl
    have begins : before.isPrefixOf (before ++ middle ++ after) = true :=
      List.isPrefixOf_iff_prefix.2 ⟨middle ++ after, by simp⟩
    have ends : after.isSuffixOf (middle ++ after) = true :=
      List.isSuffixOf_iff_suffix.2 ⟨middle, rfl⟩
    rw [if_pos begins, List.append_assoc, List.drop_left]
    dsimp only
    rw [if_pos ends]
    simp

/-- A target with a text in the place of its first star. -/
inductive Filled (middle : String) : String → String → Prop
  | star {before after : String} : '*' ∉ before.toList →
      Filled middle (before ++ "*" ++ after) (before ++ middle ++ after)
  | plain {target : String} : '*' ∉ target.toList → Filled middle target target

theorem toList_star (before after : String) :
    (before ++ "*" ++ after).toList = before.toList ++ '*' :: after.toList := by
  simp

theorem filled_iff {middle target text : String} :
    Filled middle target text ↔ fillStar target.toList middle.toList = text.toList := by
  constructor
  · rintro (plain | plain)
    · rw [fillStar, splitStar_eq_some_iff.2 ⟨plain, toList_star _ _⟩]
      simp
    · rw [fillStar, splitStar_eq_none_iff.2 plain]
  · intro filled
    rw [fillStar] at filled
    cases split : splitStar target.toList with
    | none =>
      rw [split] at filled
      obtain rfl : target = text := String.toList_inj.1 filled
      exact .plain (splitStar_eq_none_iff.1 split)
    | some parts =>
      rcases parts with ⟨before, after⟩
      rw [split] at filled
      rcases splitStar_eq_some_iff.1 split with ⟨plain, whole⟩
      obtain rfl : target = String.ofList before ++ "*" ++ String.ofList after :=
        String.toList_inj.1 (by simp [whole])
      obtain rfl : text = String.ofList before ++ middle ++ String.ofList after :=
        String.toList_inj.1 (by simp [← filled])
      exact .star (by simpa using plain)

/-! ## Entries that match -/

/-- The text that an entry leads a specifier to: its first target, with what the first star of the
pattern stands for in the place of the first star of the target. -/
inductive Leads (specifier : String) : Entry → String → Prop
  | whole {target : String} {more : List String} : '*' ∉ specifier.toList →
      Leads specifier (specifier, target :: more) target
  | star {before middle after target text : String} {more : List String} : '*' ∉ before.toList →
      specifier = before ++ middle ++ after → Filled middle target text →
      Leads specifier (before ++ "*" ++ after, target :: more) text

/-- The entry has a target and its pattern fits the specifier. -/
def Matches (specifier : String) (e : Entry) : Prop := ∃ text, Leads specifier e text

/-- How good a pattern is: the best has no star, and of the others the one that has the most bytes
in front of its first star. -/
def rank (pattern : String) : WithTop Nat :=
  if '*' ∈ pattern.toList then .some (byteLength (pattern.toList.takeWhile (· ≠ '*'))) else ⊤

theorem rank_whole {pattern : String} (plain : '*' ∉ pattern.toList) : rank pattern = ⊤ :=
  if_neg plain

theorem rank_star {before after : String} (plain : '*' ∉ before.toList) :
    rank (before ++ "*" ++ after) = .some (byteLength before.toList) := by
  have front : (before ++ "*" ++ after).toList.takeWhile (· ≠ '*') = before.toList := by
    have others : ∀ c ∈ before.toList, decide (c ≠ '*') = true := by
      intro c member
      rw [decide_eq_true_eq]
      rintro rfl
      exact plain member
    rw [toList_star, List.takeWhile_append_of_pos others]
    simp
  rw [rank, if_pos (by simp), front]

/-- An entry that fits has a target, and its pattern is the specifier or has a star that stands for
the text between its two parts. -/
theorem fit?_eq_some_iff {specifier : String} {e : Entry} {f : Fit} :
    fit? specifier.toList e = some f ↔
      (∃ target more, e = (specifier, target :: more) ∧ '*' ∉ specifier.toList ∧
        f = ⟨true, 0, target.toList⟩) ∨
      ∃ before middle after target : String, ∃ more : List String,
        e = (before ++ "*" ++ after, target :: more) ∧ '*' ∉ before.toList ∧
          specifier = before ++ middle ++ after ∧
            f = ⟨false, before.toList.length, fillStar target.toList middle.toList⟩ := by
  constructor
  · intro fits
    rcases e with ⟨pattern, targets⟩
    cases targets with
    | nil => cases fits
    | cons target more =>
      rw [fit?] at fits
      cases split : splitStar pattern.toList with
      | none =>
        simp only [split, Option.ite_none_right_eq_some, beq_iff_eq, Option.some.injEq] at fits
        rcases fits with ⟨same, rfl⟩
        obtain rfl : pattern = specifier := String.toList_inj.1 same
        exact Or.inl ⟨target, more, rfl, splitStar_eq_none_iff.1 split, rfl⟩
      | some parts =>
        rcases parts with ⟨before, after⟩
        simp only [split, Option.map_eq_some_iff] at fits
        rcases fits with ⟨middle, captured, rfl⟩
        rcases splitStar_eq_some_iff.1 split with ⟨plain, whole⟩
        refine Or.inr ⟨String.ofList before, String.ofList middle, String.ofList after, target,
          more, ?_, by simpa using plain, ?_, by simp only [String.toList_ofList]⟩
        · exact congrArg (·, target :: more) (String.toList_inj.1 (by simp [whole]))
        · exact String.toList_inj.1 (by simp [captured?_eq_some_iff.1 captured])
  · rintro (⟨target, more, rfl, plain, rfl⟩ |
      ⟨before, middle, after, target, more, rfl, plain, spelled, rfl⟩)
    · rw [fit?, splitStar_eq_none_iff.2 plain]
      exact if_pos (beq_self_eq_true _)
    · have captured := captured?_eq_some_iff.2
        (show specifier.toList = before.toList ++ middle.toList ++ after.toList by simp [spelled])
      rw [fit?, splitStar_eq_some_iff.2 ⟨plain, toList_star _ _⟩]
      dsimp only
      rw [captured]
      rfl

/-- What an entry leads to is how it fits. -/
theorem leads_iff {specifier text : String} {e : Entry} :
    Leads specifier e text ↔ ∃ f, fit? specifier.toList e = some f ∧ f.target = text.toList := by
  simp only [fit?_eq_some_iff]
  constructor
  · intro leads
    cases leads with
    | whole plain => exact ⟨_, Or.inl ⟨_, _, rfl, plain, rfl⟩, rfl⟩
    | star plain spelled filled =>
      exact ⟨_, Or.inr ⟨_, _, _, _, _, rfl, plain, spelled, rfl⟩, filled_iff.1 filled⟩
  · rintro ⟨_, ⟨target, more, rfl, plain, rfl⟩ |
      ⟨before, middle, after, target, more, rfl, plain, spelled, rfl⟩, reached⟩
    · obtain rfl : target = text := String.toList_inj.1 reached
      exact .whole plain
    · exact .star plain spelled (filled_iff.2 reached)

theorem matches_iff {specifier : String} {e : Entry} :
    Matches specifier e ↔ ∃ f, fit? specifier.toList e = some f := by
  simp only [Matches, leads_iff]
  constructor
  · rintro ⟨_, f, found, _⟩
    exact ⟨f, found⟩
  · rintro ⟨f, found⟩
    exact ⟨String.ofList f.target, f, found, by simp⟩

instance (specifier : String) (e : Entry) : Decidable (Matches specifier e) :=
  decidable_of_iff ((fit? specifier.toList e).isSome = true)
    (Option.isSome_iff_exists.trans matches_iff.symm)

/-! ## Better fits -/

/-- Of two beginnings of one text, the longer one has more bytes. -/
theorem byteLength_lt_iff {cs ds text : List Char} (first : cs <+: text) (second : ds <+: text) :
    byteLength cs < byteLength ds ↔ cs.length < ds.length := by
  have grows {as bs : List Char} (front : as <+: bs) :
      as.length ≤ bs.length ∧ byteLength as ≤ byteLength bs ∧
        (byteLength as < byteLength bs ↔ as.length < bs.length) := by
    rcases front with ⟨more, rfl⟩
    rw [byteLength_append, List.length_append]
    refine ⟨by omega, by omega, ?_⟩
    cases more with
    | nil => simp
    | cons c more =>
      have positive := c.utf8Size_pos
      rw [byteLength_cons, List.length_cons]
      omega
  rcases List.prefix_or_prefix_of_prefix first second with front | front
  · exact (grows front).2.2
  · have lengths := grows front
    omega

namespace Fit

/-- What decides between two fits. -/
def grade (f : Fit) : Bool ×ₗ Nat := toLex (f.whole, f.length)

theorem beats_iff {f g : Fit} : f.beats g = true ↔ g.grade < f.grade := by
  rw [grade, grade, Prod.Lex.toLex_lt_toLex, beats, Bool.or_eq_true, Bool.and_eq_true,
    Bool.and_eq_true, Bool.lt_iff, Bool.not_eq_true', beq_iff_eq, decide_eq_true_eq]
  exact or_congr and_comm (and_congr_left fun _ => eq_comm)

theorem not_beats_iff {f g : Fit} : f.beats g = false ↔ f.grade ≤ g.grade := by
  rw [Bool.eq_false_iff, ne_eq, beats_iff, not_lt]

theorem best?_eq_none_iff {fs : List Fit} : best? fs = none ↔ fs = [] := by
  cases fs with
  | nil => simp [best?]
  | cons f fs =>
    rw [best?]
    cases best? fs <;> simp

/-- The best fit is better than all in front of it, and none behind it is better. -/
theorem best?_eq_some_iff {fs : List Fit} {f : Fit} :
    best? fs = some f ↔
      ∃ front back, fs = front ++ f :: back ∧ (∀ g ∈ front, g.grade < f.grade) ∧
        ∀ g ∈ back, g.grade ≤ f.grade := by
  induction fs generalizing f with
  | nil => simp [best?]
  | cons x xs ih =>
    rw [best?]
    constructor
    · intro found
      cases rest : best? xs with
      | none =>
        rw [rest] at found
        cases found
        rw [best?_eq_none_iff] at rest
        exact ⟨[], [], by rw [rest]; rfl, nofun, nofun⟩
      | some g =>
        rw [rest] at found
        rcases ih.1 rest with ⟨front, back, rfl, worse, noBetter⟩
        rcases le_or_gt g.grade x.grade with noGain | gain
        · simp only [not_beats_iff.2 noGain, Bool.false_eq_true, if_false, Option.some.injEq]
            at found
          subst found
          refine ⟨[], _, rfl, nofun, fun h member => ?_⟩
          rcases List.mem_append.1 member with inFront | inBack
          · exact le_trans (le_of_lt (worse h inFront)) noGain
          · rcases List.mem_cons.1 inBack with rfl | inBack
            · exact noGain
            · exact le_trans (noBetter h inBack) noGain
        · simp only [beats_iff.2 gain, if_true, Option.some.injEq] at found
          subst found
          exact ⟨x :: front, back, rfl, List.forall_mem_cons.2 ⟨gain, worse⟩, noBetter⟩
    · rintro ⟨front, back, whole, worse, noBetter⟩
      cases front with
      | nil =>
        cases whole
        cases rest : best? xs with
        | none => rfl
        | some g =>
          rcases ih.1 rest with ⟨before, after, rfl, _⟩
          simp [not_beats_iff.2 (noBetter g (by simp))]
      | cons y front =>
        cases whole
        rw [List.forall_mem_cons] at worse
        rw [ih.2 ⟨front, back, rfl, worse.2, noBetter⟩]
        simp [beats_iff.2 worse.1]

end Fit

/-! ## The chosen entry -/

variable {specifier : String}

/-- The pattern of an entry that fits has no star, or it begins the specifier up to its star. -/
theorem rank_of_fit {e : Entry} {f : Fit} (fits : fit? specifier.toList e = some f) :
    (f.grade = toLex (true, 0) ∧ rank e.1 = ⊤) ∨
      ∃ before, f.grade = toLex (false, before.length) ∧ before <+: specifier.toList ∧
        rank e.1 = .some (byteLength before) := by
  rcases fit?_eq_some_iff.1 fits with ⟨_, _, rfl, plain, rfl⟩ |
    ⟨before, middle, after, _, _, rfl, plain, spelled, rfl⟩
  · exact Or.inl ⟨rfl, rank_whole plain⟩
  · refine Or.inr ⟨before.toList, rfl, ?_, rank_star plain⟩
    rw [spelled, String.toList_append, String.toList_append, List.append_assoc]
    exact List.prefix_append _ _

/-- Of two entries that match, the better one has the better fit. -/
theorem rank_lt_iff {e e' : Entry} {f f' : Fit} (first : fit? specifier.toList e = some f)
    (second : fit? specifier.toList e' = some f') : rank e.1 < rank e'.1 ↔ f.grade < f'.grade := by
  rcases rank_of_fit first with ⟨grade, best⟩ | ⟨before, grade, begins, bytes⟩ <;>
    rcases rank_of_fit second with ⟨grade', best'⟩ | ⟨before', grade', begins', bytes'⟩
  · simp [grade, grade', best, best']
  · simp [grade, grade', best, bytes', Prod.Lex.toLex_lt_toLex]
  · simp [grade, grade', bytes, best', Prod.Lex.toLex_lt_toLex]
  · simp [grade, grade', bytes, bytes', Prod.Lex.toLex_lt_toLex, byteLength_lt_iff begins begins']

/-- The entry matches, it is better than those in front of it that match, and as good as those
behind it. -/
def IsChosen (specifier : String) (es : List Entry) (e : Entry) : Prop :=
  Matches specifier e ∧
    ∃ front back, es = front ++ e :: back ∧
      (∀ other ∈ front, Matches specifier other → rank other.1 < rank e.1) ∧
        ∀ other ∈ back, Matches specifier other → rank other.1 ≤ rank e.1

/-- The best fit is that of the chosen entry. -/
theorem best?_eq_some_iff {es : List Entry} {f : Fit} :
    Fit.best? (es.filterMap (fit? specifier.toList)) = some f ↔
      ∃ e, IsChosen specifier es e ∧ fit? specifier.toList e = some f := by
  rw [Fit.best?_eq_some_iff]
  constructor
  · rintro ⟨before, after, split, worse, noBetter⟩
    rcases List.filterMap_eq_append_iff.1 split with ⟨early, late, rfl, rfl, found⟩
    rcases List.filterMap_eq_cons_iff.1 found with ⟨between, e, back, rfl, none, fits, rfl⟩
    refine ⟨e, ⟨matches_iff.2 ⟨f, fits⟩, early ++ between, back, by simp, ?_, ?_⟩, fits⟩
    · intro other member isMatch
      rcases matches_iff.1 isMatch with ⟨g, fitsToo⟩
      rcases List.mem_append.1 member with inFront | skipped
      · exact (rank_lt_iff fitsToo fits).2
          (worse g (List.mem_filterMap.2 ⟨other, inFront, fitsToo⟩))
      · rw [none other skipped] at fitsToo
        cases fitsToo
    · intro other member isMatch
      rcases matches_iff.1 isMatch with ⟨g, fitsToo⟩
      rw [← not_lt, rank_lt_iff fits fitsToo, not_lt]
      exact noBetter g (List.mem_filterMap.2 ⟨other, member, fitsToo⟩)
  · rintro ⟨e, ⟨_, front, back, rfl, worse, noBetter⟩, fits⟩
    refine ⟨front.filterMap (fit? specifier.toList), back.filterMap (fit? specifier.toList),
      by rw [List.filterMap_append, List.filterMap_cons_some fits], ?_, ?_⟩
    · intro g member
      rcases List.mem_filterMap.1 member with ⟨other, inFront, fitsToo⟩
      exact (rank_lt_iff fitsToo fits).1 (worse other inFront (matches_iff.2 ⟨g, fitsToo⟩))
    · intro g member
      rcases List.mem_filterMap.1 member with ⟨other, inBack, fitsToo⟩
      have le := noBetter other inBack (matches_iff.2 ⟨g, fitsToo⟩)
      rwa [← not_lt, rank_lt_iff fits fitsToo, not_lt] at le

theorem mapSpecifier?_eq_none_iff {t : TsConfig} :
    t.mapSpecifier? specifier = none ↔ ∀ e ∈ t.paths, ¬ Matches specifier e := by
  rw [mapSpecifier?, Option.map_eq_none_iff, Fit.best?_eq_none_iff, List.filterMap_eq_nil_iff]
  refine forall₂_congr fun e _ => ?_
  rw [matches_iff, Option.eq_none_iff_forall_ne_some, not_exists]

theorem mapSpecifier?_eq_some_iff {t : TsConfig} {path : Path} :
    t.mapSpecifier? specifier = some path ↔
      ∃ e text, IsChosen specifier t.paths e ∧ Leads specifier e text ∧
        path = (t.pathsBase ++ ⟨text⟩).normalize := by
  simp only [mapSpecifier?, Option.map_eq_some_iff, best?_eq_some_iff, leads_iff]
  constructor
  · rintro ⟨f, ⟨e, chosen, fits⟩, rfl⟩
    exact ⟨e, String.ofList f.target, chosen, ⟨f, fits, by simp⟩, rfl⟩
  · rintro ⟨e, text, chosen, ⟨f, fits, reached⟩, rfl⟩
    exact ⟨f, ⟨e, chosen, fits⟩, by rw [reached, String.ofList_toList]⟩

/-! ## The order of the entries -/

/-- The entries of a rank that match, in their order. -/
def equals (specifier : String) (r : WithTop Nat) (es : List Entry) : List Entry :=
  es.filter fun e => Matches specifier e ∧ rank e.1 = r

theorem mem_equals {r : WithTop Nat} {es : List Entry} {e : Entry} :
    e ∈ equals specifier r es ↔ e ∈ es ∧ Matches specifier e ∧ rank e.1 = r := by
  rw [equals, List.mem_filter, decide_eq_true_eq]

/-- The same entries in another order, in which those that match and are equally good keep
theirs. -/
structure Reorders (specifier : String) (es other : List Entry) : Prop where
  perm : other.Perm es
  keeps : ∀ r, equals specifier r other = equals specifier r es

/-- Neighbours may change places, unless both match and are equally good. -/
theorem Reorders.swap {front back : List Entry} {a b : Entry}
    (apart : ¬(Matches specifier a ∧ Matches specifier b ∧ rank a.1 = rank b.1)) :
    Reorders specifier (front ++ a :: b :: back) (front ++ b :: a :: back) where
  perm := List.Perm.append_left front (List.Perm.swap a b back)
  keeps r := by
    have one : ¬(Matches specifier a ∧ rank a.1 = r) ∨ ¬(Matches specifier b ∧ rank b.1 = r) := by
      by_contra both
      rw [not_or, not_not, not_not] at both
      exact apart ⟨both.1.1, both.2.1, both.1.2.trans both.2.2.symm⟩
    simp only [equals, List.filter_append, List.filter_cons, decide_eq_true_eq]
    rcases one with first | second
    · rw [if_neg first, if_neg first]
    · rw [if_neg second, if_neg second]

theorem Reorders.isChosen {es other : List Entry} (h : Reorders specifier es other) {e : Entry}
    (chosen : IsChosen specifier es e) : IsChosen specifier other e := by
  rcases chosen with ⟨isMatch, front, back, rfl, worse, noBetter⟩
  have highest : ∀ d ∈ other, Matches specifier d → rank d.1 ≤ rank e.1 := by
    intro d member matchesToo
    rcases List.mem_append.1 (h.perm.subset member) with inFront | inBack
    · exact le_of_lt (worse d inFront matchesToo)
    · rcases List.mem_cons.1 inBack with rfl | inBack
      · exact le_refl _
      · exact noBetter d inBack matchesToo
  -- The chosen entry is the first of its rank, in the old order and so in the new one.
  have first : equals specifier (rank e.1) other =
      e :: equals specifier (rank e.1) back := by
    have none : equals specifier (rank e.1) front = [] := by
      rw [List.eq_nil_iff_forall_not_mem]
      intro d member
      rcases mem_equals.1 member with ⟨inFront, matchesToo, same⟩
      exact absurd same (ne_of_lt (worse d inFront matchesToo))
    rw [h.keeps, equals, List.filter_append, List.filter_cons_of_pos (by simp [isMatch])]
    exact congrArg (· ++ _) none
  rcases List.filter_eq_cons_iff.1 first with ⟨early, late, rfl, none, _, _⟩
  refine ⟨isMatch, early, late, rfl, ?_, ?_⟩
  · intro d member matchesToo
    refine lt_of_le_of_ne (highest d (List.mem_append_left _ member) matchesToo) fun same => ?_
    exact absurd (none d member) (by simp [matchesToo, same])
  · intro d member
    exact highest d (List.mem_append_right _ (List.mem_cons_of_mem _ member))

theorem Reorders.mapSpecifier?_eq {t : TsConfig} {other : List Entry}
    (h : Reorders specifier t.paths other) :
    mapSpecifier? { t with paths := other } specifier = t.mapSpecifier? specifier := by
  cases found : t.mapSpecifier? specifier with
  | none =>
    rw [mapSpecifier?_eq_none_iff] at found ⊢
    exact fun e member => found e (h.perm.subset member)
  | some path =>
    rcases mapSpecifier?_eq_some_iff.1 found with ⟨e, text, chosen, leads, same⟩
    exact mapSpecifier?_eq_some_iff.2 ⟨e, text, h.isChosen chosen, leads, same⟩

/-! ## What a star stands for, by its bytes -/

/-- A text begins with one part, ends with another, and has no fewer bytes than both. -/
structure Frames (before after text : String) : Prop where
  begins : before.toList <+: text.toList
  ends : after.toList <:+ text.toList
  room : before.utf8ByteSize + after.utf8ByteSize ≤ text.utf8ByteSize

/-- The two parts do not overlap. -/
theorem frames_iff {before after text : String} :
    Frames before after text ↔ ∃ middle, text = before ++ middle ++ after := by
  constructor
  · rintro ⟨⟨rest, begins⟩, ⟨front, ends⟩, room⟩
    obtain rfl : text = before ++ String.ofList rest := String.toList_inj.1 (by simp [begins])
    have split : before ++ String.ofList rest = String.ofList front ++ after :=
      String.toList_inj.1 (by rw [← ends, String.toList_append, String.toList_ofList])
    have fits : before.utf8ByteSize ≤ (String.ofList front).utf8ByteSize := by
      rw [split, String.utf8ByteSize_append] at room
      omega
    rcases exists_append_of_append_eq split fits with ⟨middle, _, rest_eq⟩
    exact ⟨middle, by rw [rest_eq, String.append_assoc]⟩
  · rintro ⟨middle, rfl⟩
    refine ⟨⟨middle.toList ++ after.toList, by simp⟩, ⟨before.toList ++ middle.toList, by simp⟩, ?_⟩
    rw [String.utf8ByteSize_append, String.utf8ByteSize_append]
    omega

/-- What stands between the two parts is cut out at two boundaries. -/
theorem slice?_between (before middle after : String) :
    slice? (before ++ middle ++ after) before.utf8ByteSize
      ((before ++ middle ++ after).utf8ByteSize - after.utf8ByteSize) = some middle := by
  have stop : (before ++ middle ++ after).utf8ByteSize - after.utf8ByteSize =
      before.utf8ByteSize + middle.utf8ByteSize := by
    rw [String.utf8ByteSize_append, String.utf8ByteSize_append]
    omega
  have first := isBoundary_size_append before (middle ++ after)
  have second := isBoundary_size_append (before ++ middle) after
  rw [← String.append_assoc] at first
  rw [String.utf8ByteSize_append] at second
  rw [stop, slice?_eq first second (Nat.le_add_right _ _), slice_append]

/-- A specifier is mapped by the entry that is chosen, to its first target with what the star
stands for in the place of the first star; without an entry that matches, it is not mapped.  What a
star stands for is cut out between boundaries of the specifier.  Entries that match and are equally
good are all whose order matters. -/
theorem mapSpecifier_chosen (t : TsConfig) (specifier : String) :
    (t.mapSpecifier? specifier = none ↔ ∀ e ∈ t.paths, ¬ Matches specifier e) ∧
      (∀ path, t.mapSpecifier? specifier = some path ↔
        ∃ e text, IsChosen specifier t.paths e ∧ Leads specifier e text ∧
          path = (t.pathsBase ++ ⟨text⟩).normalize) ∧
      (∀ before after, Frames before after specifier →
        ∃ middle, captured? before.toList after.toList specifier.toList = some middle.toList ∧
          slice? specifier before.utf8ByteSize
            (specifier.utf8ByteSize - after.utf8ByteSize) = some middle) ∧
      (∀ before after, ¬ Frames before after specifier →
        captured? before.toList after.toList specifier.toList = none) ∧
      ∀ other, Reorders specifier t.paths other →
        mapSpecifier? { t with paths := other } specifier = t.mapSpecifier? specifier := by
  refine ⟨mapSpecifier?_eq_none_iff, fun path => mapSpecifier?_eq_some_iff, ?_, ?_, ?_⟩
  · intro before after frames
    rcases frames_iff.1 frames with ⟨middle, rfl⟩
    exact ⟨middle, captured?_eq_some_iff.2 (by simp), slice?_between before middle after⟩
  · intro before after noFrames
    rw [Option.eq_none_iff_forall_ne_some]
    intro middle captured
    refine noFrames (frames_iff.2 ⟨String.ofList middle, String.toList_inj.1 ?_⟩)
    simp [captured?_eq_some_iff.1 captured]
  · intro other reorders
    exact reorders.mapSpecifier?_eq

/-- The pattern that is the specifier has no target, one has fewer bytes in front of its star, the
parts of one overlap, and the last is as good as the chosen one.  The chosen target has two stars.
-/
theorem mapSpecifier_chosen_tied :
    let specifier := "ü/é/x"
    let early : Entry := ("ü/*x", ["a/*"])
    let chosen : Entry := ("ü/é*", ["c/*/*", "z"])
    let late : List Entry := [("ü/é*é/x", ["b"]), ("ü/é*x", ["d"])]
    let t : TsConfig :=
      ⟨⟨"/p/tsconfig.json"⟩, none, [(specifier, [])] ++ early :: chosen :: late, ⟨"/p"⟩⟩
    (t.mapSpecifier? specifier = some ⟨"/p/c/x/*"⟩ ∧
        ∃ e text, IsChosen specifier t.paths e ∧ Leads specifier e text ∧
          Path.mk "/p/c/x/*" = (t.pathsBase ++ ⟨text⟩).normalize) ∧
      (Frames "ü/é" "" specifier ∧ slice? specifier 5 7 = some "/x") ∧
      (¬ Frames "ü/é" "é/x" specifier ∧
        captured? "ü/é".toList "é/x".toList specifier.toList = none) ∧
      Reorders specifier t.paths ([(specifier, [])] ++ chosen :: early :: late) ∧
      mapSpecifier? { t with paths := [(specifier, [])] ++ chosen :: early :: late } specifier =
        some ⟨"/p/c/x/*"⟩ := by
  intro specifier early chosen late t
  rcases mapSpecifier_chosen t specifier with ⟨_, mapped, framed, unframed, ordered⟩
  have found : t.mapSpecifier? specifier = some ⟨"/p/c/x/*"⟩ := by decide +kernel
  have frames : Frames "ü/é" "" specifier := frames_iff.2 ⟨"/x", by decide⟩
  have overlap : ¬ Frames "ü/é" "é/x" specifier := fun h => absurd h.room (by decide)
  have apart : ¬(Matches specifier early ∧ Matches specifier chosen ∧
      rank early.1 = rank chosen.1) := by
    decide +kernel
  have swapped : Reorders specifier t.paths ([(specifier, [])] ++ chosen :: early :: late) :=
    .swap apart
  refine ⟨⟨found, (mapped _).1 found⟩, ⟨frames, ?_⟩, ⟨overlap, unframed _ _ overlap⟩, swapped,
    (ordered _ swapped).trans found⟩
  rcases framed _ _ frames with ⟨middle, captured, cut⟩
  obtain rfl : middle = "/x" := by
    have same : captured? "ü/é".toList "".toList specifier.toList = some "/x".toList := by decide
    exact String.toList_inj.1 (Option.some.inj (captured.symm.trans same))
  exact cut

end TsConfig

end ThemeMigration
