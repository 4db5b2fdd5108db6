import Mathlib.Logic.Function.Basic
import ThemeMigration.Proofs.Discovery.Places
import ThemeMigration.Proofs.Run.Schedule

/-!
# Courses of a run

Workers share one file tree.  A worker asks whether the run is cancelled before it begins a file;
then it reads the file and transforms it in memory, and in a last step it writes what has changed.
Steps for different files come in any order, the run can be cancelled between any two of them, and
the system can refuse to read a file, refuse to write it, or break the write off.  A course is one
way in which all this can go, together with a way in which the partial results are merged.  Whatever
the system refuses there is a course, and one file after the other, with nothing refused, is one.
-/

namespace ThemeMigration

/-- What the system refuses about a file whatever the tree holds, with the causes that it names. -/
structure Refusals where
  reading : Option String := none
  writing : Option FileTree.WriteFault := none
  deriving DecidableEq, Repr, Inhabited

/-- A write that the system does not let through is refused before it opens the file, as by a system
that replaces files as a whole. -/
def Refusals.WritesWhole (f : Refusals) : Prop := ∀ fault ∈ f.writing, fault.written = none

namespace Visit

/-- Read a file, if the system lets it be read, and transform its text. -/
def tryRead (f : Refusals) (m : Migration) (t : FileTree) (p : Path) : Visit :=
  match f.reading with
  | some cause => .refused (.unreadable p cause)
  | none => read m t p

end Visit

namespace Run

/-- How far the migration of a file has come. -/
inductive Progress where
  | waiting
  /-- The run was cancelled before the file was begun. -/
  | passedOver
  | begun
  /-- The file is read and transformed, and nothing is written yet. -/
  | read (visit : Visit)
  | finished (visit : Visit)
  deriving DecidableEq, Repr, Inhabited

namespace Progress

def visit? : Progress → Option Visit
  | finished v => some v
  | _ => none

/-- Nothing more will be done about the file. -/
def isSettled : Progress → Bool
  | passedOver | finished _ => true
  | _ => false

end Progress

/-- A moment of a run. -/
structure Moment where
  tree : FileTree
  cancelled : Bool
  progress : Path → Progress

inductive Event where
  | cancel
  /-- The worker that has a file takes its next step. -/
  | advance (file : Path)
  deriving DecidableEq, Repr, Inhabited

namespace Moment

def mark (s : Moment) (p : Path) (x : Progress) : Moment :=
  { s with progress := Function.update s.progress p x }

/-- The next step for a file. -/
def advance (m : Migration) (f : Path → Refusals) (s : Moment) (p : Path) : Moment :=
  match s.progress p with
  | .waiting => s.mark p (if s.cancelled then .passedOver else .begun)
  | .begun => s.mark p (.read (Visit.tryRead (f p) m s.tree p))
  | .read v =>
    let saved := v.save (f p).writing m s.tree p
    { s with tree := saved.2 }.mark p (.finished saved.1)
  | _ => s

def step (m : Migration) (f : Path → Refusals) (s : Moment) : Event → Moment
  | .cancel => { s with cancelled := true }
  | .advance p => s.advance m f p

def play (m : Migration) (f : Path → Refusals) (events : List Event) (s : Moment) : Moment :=
  events.foldl (step m f) s

/-- The moment before the first step. Files of the run wait, others are not its business. -/
def start (t : FileTree) (files : List Path) : Moment :=
  ⟨t, false, fun p => if p ∈ files then .waiting else .passedOver⟩

/-- What became of the files that are finished. -/
def visits (s : Moment) (files : List Path) : List (Path × Visit) :=
  files.filterMap fun p => (s.progress p).visit?.map fun v => (p, v)

section

variable {m : Migration} {f : Path → Refusals} {s : Moment} {p q : Path}

/-- What holds at a moment holds at all later ones, if no step breaks it. -/
theorem play_induction {motive : Moment → Prop} (events : List Event) (begins : motive s)
    (cancel : ∀ s, motive s → motive { s with cancelled := true })
    (advance : ∀ s p, motive s → motive (s.advance m f p)) : motive (s.play m f events) := by
  induction events generalizing s with
  | nil => exact begins
  | cons e events ih =>
    cases e with
    | cancel => exact ih (cancel s begins)
    | advance p => exact ih (advance s p begins)

theorem mem_visits {files : List Path} {v : Visit} :
    (p, v) ∈ s.visits files ↔ p ∈ files ∧ s.progress p = .finished v := by
  rw [visits, List.mem_filterMap]
  constructor
  · rintro ⟨q, member, made⟩
    rcases Option.map_eq_some_iff.1 made with ⟨w, finished, pair⟩
    cases pair
    refine ⟨member, ?_⟩
    cases progress : s.progress p <;> rw [progress] at finished <;> cases finished
    rfl
  · rintro ⟨member, finished⟩
    exact ⟨p, member, by rw [finished]; rfl⟩

@[simp] theorem mark_progress (x : Progress) : (s.mark p x).progress p = x :=
  Function.update_self ..

theorem mark_progress_of_ne {x : Progress} (other : q ≠ p) :
    (s.mark p x).progress q = s.progress q :=
  Function.update_of_ne other ..

theorem progress_mark_cases {x y : Progress} (h : (s.mark p x).progress q = y) :
    q = p ∧ x = y ∨ q ≠ p ∧ s.progress q = y := by
  by_cases same : q = p
  · subst same
    rw [mark_progress] at h
    exact Or.inl ⟨rfl, h⟩
  · rw [mark_progress_of_ne same] at h
    exact Or.inr ⟨same, h⟩

@[simp] theorem advance_cancelled : (s.advance m f p).cancelled = s.cancelled := by
  rw [Moment.advance]
  split <;> rfl

/-- A run that has been cancelled stays cancelled. -/
theorem cancelled_of_play (events : List Event) (h : s.cancelled = true) :
    (s.play m f events).cancelled = true :=
  play_induction (motive := fun s => s.cancelled = true) events h (fun _ _ => rfl)
    fun _ _ h => advance_cancelled.trans h

end

end Moment

/-- One way in which a run over files can go: what happens in which order until nothing more will
be done about any file, and how the partial results are merged. -/
structure Course (r : Run) (t : FileTree) (f : Path → Refusals) (files : List Path) where
  events : List Event
  settled : ∀ p ∈ files,
    (((Moment.start t files).play r.migration f events).progress p).isSettled = true
  schedule : Schedule
  merged : schedule.visits.Perm (((Moment.start t files).play r.migration f events).visits files)

namespace Course

variable {r : Run} {t : FileTree} {f : Path → Refusals} {files : List Path}

/-- The moment at which the run ends. -/
def last (c : Course r t f files) : Moment := (Moment.start t files).play r.migration f c.events

/-- The tree that the run leaves. -/
def tree (c : Course r t f files) : FileTree := c.last.tree

/-- Whether the run is cancelled when it ends. -/
def cancelled (c : Course r t f files) : Bool := c.last.cancelled

/-- What became of the files that were begun, in the order of the files. -/
def visits (c : Course r t f files) : List (Path × Visit) := c.last.visits files

/-- What the run returns. -/
def result (c : Course r t f files) : Collected Report :=
  r.settle c.cancelled (c.schedule.result r.migration.root)

theorem mem_visits (c : Course r t f files) {p : Path} {v : Visit} :
    (p, v) ∈ c.visits ↔ p ∈ files ∧ c.last.progress p = .finished v :=
  Moment.mem_visits

/-- A file of the run was passed over, or its visit is finished. -/
theorem progress_cases (c : Course r t f files) {p : Path} (member : p ∈ files) :
    c.last.progress p = .passedOver ∨ ∃ v, c.last.progress p = .finished v := by
  have settled := c.settled p member
  change (c.last.progress p).isSettled = true at settled
  cases progress : c.last.progress p with
  | passedOver => exact Or.inl rfl
  | finished v => exact Or.inr ⟨v, rfl⟩
  | _ => rw [progress] at settled; cases settled

/-- The entries of the report are those of the visits that changed their files. -/
theorem mem_result_files (c : Course r t f files) {e : FileEntry} :
    e ∈ c.result.value.files ↔
      ∃ v ∈ c.visits, Visit.modified? r.migration.root v = some e := by
  have entries : c.result.value.files =
      (c.schedule.result r.migration.root).value.finish.files := by
    rw [result, settle]
    split <;> rfl
  rw [entries, (Report.finish_files_perm _).mem_iff, Schedule.result_eq, files_recordAll,
    List.mem_filterMap]
  constructor <;> rintro ⟨v, member, made⟩
  · exact ⟨v, c.merged.mem_iff.1 member, made⟩
  · exact ⟨v, c.merged.mem_iff.2 member, made⟩

end Course

/-! ## One file after the other -/

/-- The events of a run that does one file after the other. -/
def inOrder (files : List Path) : List Event :=
  files.flatMap fun p => [.advance p, .advance p, .advance p]

namespace Moment

variable {m : Migration} {s : Moment} {p : Path}

/-- The three steps for a file that waits. -/
theorem play_file (waits : s.progress p = .waiting) (active : s.cancelled = false) :
    s.play m (fun _ => {}) [.advance p, .advance p, .advance p] =
      let saved := (Visit.read m s.tree p).save none m s.tree p
      { s with tree := saved.2 }.mark p (.finished saved.1) := by
  have begins : s.advance m (fun _ => {}) p = s.mark p .begun := by
    rw [Moment.advance, waits]
    simp only [active, Bool.false_eq_true, if_false]
  have reads : (s.mark p .begun).advance m (fun _ => {}) p =
      s.mark p (.read (Visit.read m s.tree p)) := by
    rw [Moment.advance, mark_progress]
    simp [mark, Visit.tryRead]
  have saves : (s.mark p (.read (Visit.read m s.tree p))).advance m (fun _ => {}) p =
      let saved := (Visit.read m s.tree p).save none m s.tree p
      { s with tree := saved.2 }.mark p (.finished saved.1) := by
    rw [Moment.advance, mark_progress]
    simp [mark]
  rw [play, List.foldl_cons, List.foldl_cons, List.foldl_cons, List.foldl_nil]
  simp only [step, begins, reads, saves]

end Moment

/-- Files done one after the other are migrated as by `migrate`. -/
theorem play_inOrder {r : Run} {files : List Path} (distinct : files.Nodup) {s : Moment}
    (waits : ∀ p ∈ files, s.progress p = .waiting) (active : s.cancelled = false)
    (result : Collected Report) :
    let e := s.play r.migration (fun _ => {}) (inOrder files)
    e.tree = (files.foldl r.step ⟨s.tree, result⟩).tree ∧ e.cancelled = false ∧
      (∀ p, p ∉ files → e.progress p = s.progress p) ∧
      (∀ p ∈ files, (e.progress p).isSettled = true) ∧
      e.visits files = r.visits s.tree files := by
  induction files generalizing s result with
  | nil => exact ⟨rfl, active, fun _ _ => rfl, by simp, rfl⟩
  | cons p files ih =>
    rw [List.nodup_cons] at distinct
    rw [List.forall_mem_cons] at waits
    have first := Moment.play_file (m := r.migration) waits.1 active
    rcases kept : (Visit.read r.migration s.tree p).save none r.migration s.tree p with ⟨v, u⟩
    rw [kept] at first
    dsimp only at first
    have whole : s.play r.migration (fun _ => {}) (inOrder (p :: files)) =
        ({ s with tree := u }.mark p (.finished v)).play r.migration (fun _ => {})
          (inOrder files) := by
      rw [← first, inOrder, List.flatMap_cons, Moment.play, List.foldl_append]
      rfl
    have still : ∀ q ∈ files,
        ({ s with tree := u }.mark p (.finished v)).progress q = .waiting := by
      intro q member
      have other : q ≠ p := by
        rintro rfl
        exact distinct.1 member
      rw [Moment.mark_progress_of_ne other]
      exact waits.2 q member
    have next : r.step ⟨s.tree, result⟩ p = ⟨u, v.record r.migration.root p result⟩ := by
      rw [Run.step, kept]
    rcases ih distinct.2 still active (v.record r.migration.root p result) with
      ⟨tree, running, others, settled, visits⟩
    have done := others p distinct.1
    rw [Moment.mark_progress] at done
    rw [whole]
    refine ⟨?_, running, fun q other => ?_, ?_, ?_⟩
    · rw [tree, List.foldl_cons, next]
      rfl
    · rw [List.mem_cons, not_or] at other
      rw [others q other.2, Moment.mark_progress_of_ne other.1]
    · rw [List.forall_mem_cons, done]
      exact ⟨rfl, settled⟩
    · rw [Run.visits, kept, Moment.visits, List.filterMap_cons, done]
      exact congrArg ((p, v) :: ·) visits

/-- To migrate files one after the other is a course of a run in which the system refuses nothing
and no one cancels. -/
theorem exists_course_of_migrate (r : Run) (t : FileTree) {files : List Path}
    (distinct : files.Nodup) :
    ∃ c : Course r t (fun _ => {}) files, c.cancelled = false ∧
      c.schedule.visits = c.visits ∧ c.tree = (r.migrate t files).tree ∧
      c.schedule.result r.migration.root = (r.migrate t files).result := by
  have waits : ∀ p ∈ files, (Moment.start t files).progress p = .waiting :=
    fun p member => if_pos member
  rcases play_inOrder distinct waits rfl .blank with ⟨tree, running, _, settled, visits⟩
  refine ⟨⟨inOrder files, settled, .chunk _, .refl _⟩, running, rfl, tree, ?_⟩
  rw [result_migrate, Schedule.result_eq]
  exact congrArg (fun v => recordAll r.migration.root v .blank) visits

/-! ## Whatever the system refuses -/

/-- At most how many steps for the file are still to be taken. -/
def Progress.stepsLeft : Progress → Nat
  | waiting => 3
  | begun => 2
  | read _ => 1
  | passedOver | finished _ => 0

theorem Progress.isSettled_of_stepsLeft {x : Progress} (h : x.stepsLeft = 0) :
    x.isSettled = true := by
  cases x <;> first | rfl | cases h

namespace Moment

variable {m : Migration} {f : Path → Refusals} {s : Moment} {p q : Path}

/-- A step for a file brings its end nearer. -/
theorem stepsLeft_advance : ((s.advance m f p).progress p).stepsLeft =
    if s.progress p = .waiting ∧ s.cancelled = true then 0 else (s.progress p).stepsLeft - 1 := by
  rw [Moment.advance]
  cases progress : s.progress p with
  | waiting => cases s.cancelled <;> simp [Progress.stepsLeft]
  | passedOver => simp [progress, Progress.stepsLeft]
  | finished v => simp [progress, Progress.stepsLeft]
  | _ => simp [Progress.stepsLeft]

theorem advance_progress_of_ne (other : q ≠ p) :
    (s.advance m f p).progress q = s.progress q := by
  rw [Moment.advance]
  split
  · exact mark_progress_of_ne other
  · exact mark_progress_of_ne other
  · exact mark_progress_of_ne (s := { s with tree := _ }) other
  · rfl

theorem stepsLeft_advance_le : ((s.advance m f p).progress q).stepsLeft ≤
    (s.progress q).stepsLeft - if q = p then 1 else 0 := by
  by_cases same : q = p
  · subst same
    rw [stepsLeft_advance, if_pos rfl]
    split <;> omega
  · rw [advance_progress_of_ne same, if_neg same]
    exact Nat.le_refl _

/-- Three steps for each file settle all of them. -/
theorem stepsLeft_inOrder (files : List Path) :
    ((s.play m f (inOrder files)).progress q).stepsLeft ≤
      (s.progress q).stepsLeft - 3 * files.count q := by
  induction files generalizing s with
  | nil => exact Nat.le_refl _
  | cons p files ih =>
    have first := stepsLeft_advance_le (m := m) (f := f) (s := s) (p := p) (q := q)
    have second := stepsLeft_advance_le (m := m) (f := f) (s := s.advance m f p) (p := p) (q := q)
    have third := stepsLeft_advance_le (m := m) (f := f) (s := (s.advance m f p).advance m f p)
      (p := p) (q := q)
    have rest := ih (s := ((s.advance m f p).advance m f p).advance m f p)
    have whole : s.play m f (inOrder (p :: files)) =
        (((s.advance m f p).advance m f p).advance m f p).play m f (inOrder files) := rfl
    rw [whole, List.count_cons]
    by_cases same : q = p
    · simp only [same, if_true, beq_self_eq_true] at first second third rest ⊢
      omega
    · have apart : (p == q) = false := beq_eq_false_iff_ne.2 (Ne.symm same)
      simp only [same, apart, if_false, Bool.false_eq_true] at first second third ⊢
      omega

theorem cancelled_inOrder (files : List Path) :
    (s.play m f (inOrder files)).cancelled = s.cancelled := by
  induction files generalizing s with
  | nil => rfl
  | cons p files ih =>
    have whole : s.play m f (inOrder (p :: files)) =
        (((s.advance m f p).advance m f p).advance m f p).play m f (inOrder files) := rfl
    rw [whole, ih, advance_cancelled, advance_cancelled, advance_cancelled]

end Moment

/-- There is a course that no one cancels, whatever the system refuses. -/
theorem exists_course (r : Run) (t : FileTree) (f : Path → Refusals) (files : List Path) :
    ∃ c : Course r t f files, c.cancelled = false := by
  refine ⟨⟨inOrder files, fun p member => ?_, .chunk _, .refl _⟩, Moment.cancelled_inOrder files⟩
  have left := Moment.stepsLeft_inOrder (m := r.migration) (f := f) (s := .start t files) (q := p)
    files
  have begins : ((Moment.start t files).progress p).stepsLeft = 3 := by
    simp only [Moment.start, if_pos member, Progress.stepsLeft]
  have counted : 0 < files.count p := List.count_pos_iff.2 member
  exact Progress.isSettled_of_stepsLeft (by omega)

/-- Work that goes by courses that no one cancels, whatever run, tree and files it is given. -/
def Work.GoesByCourses (work : Work) (f : Path → Refusals) : Prop :=
  ∀ (r : Run) (files : List Path) (t : FileTree), files.Nodup →
    ∃ c : Course r t f files, c.cancelled = false ∧
      work r files t = (c.schedule.result r.migration.root, c.tree)

theorem goesByCourses_inTurn : inTurn.GoesByCourses fun _ => {} := by
  intro r files t distinct
  rcases exists_course_of_migrate r t distinct with ⟨c, active, _, tree, result⟩
  refine ⟨c, active, ?_⟩
  rw [tree, result]
  rfl

theorem exists_goesByCourses (f : Path → Refusals) : ∃ work : Work, work.GoesByCourses f := by
  choose c active using fun (r : Run) (files : List Path) (t : FileTree) =>
    exists_course r t f files
  exact ⟨fun r files t => ((c r files t).schedule.result r.migration.root, (c r files t).tree),
    fun r files t _ => ⟨c r files t, active r files t, rfl⟩⟩

/-! ## Nothing at all -/

namespace Moment

/-- Once the run is cancelled, files that wait are passed over, and nothing else changes. -/
theorem play_cancelled {m : Migration} {f : Path → Refusals} {files : List Path} {s : Moment}
    (waits : ∀ p ∈ files, s.progress p = .waiting ∨ s.progress p = .passedOver)
    (cancelled : s.cancelled = true) :
    let e := s.play m f (files.map .advance)
    e.tree = s.tree ∧ (∀ p ∈ files, e.progress p = .passedOver) ∧
      ∀ p, s.progress p = .passedOver → e.progress p = .passedOver := by
  induction files generalizing s with
  | nil => exact ⟨rfl, by simp, fun _ passed => passed⟩
  | cons p files ih =>
    rw [List.forall_mem_cons] at waits
    have first : s.advance m f p = s.mark p .passedOver := by
      rcases waits.1 with waiting | skipped
      · rw [Moment.advance, waiting]
        simp only [cancelled, if_true]
      · have still : s.mark p .passedOver = s := by
          rw [mark, ← skipped, Function.update_eq_self]
        rw [Moment.advance, skipped, still]
    have own : (s.mark p .passedOver).progress p = .passedOver := mark_progress _
    have kept : ∀ q, s.progress q = .passedOver →
        (s.mark p .passedOver).progress q = .passedOver := by
      intro q passed
      by_cases same : q = p
      · rw [same, own]
      · rw [mark_progress_of_ne same, passed]
    have still : ∀ q ∈ files, (s.mark p .passedOver).progress q = .waiting ∨
        (s.mark p .passedOver).progress q = .passedOver := by
      intro q member
      by_cases same : q = p
      · exact Or.inr (same ▸ own)
      · rw [mark_progress_of_ne same]
        exact waits.2 q member
    have whole : s.play m f ((p :: files).map .advance) =
        (s.mark p .passedOver).play m f (files.map .advance) := by
      rw [← first]
      rfl
    rcases ih still cancelled with ⟨tree, others, passed⟩
    rw [whole]
    exact ⟨tree, List.forall_mem_cons.2 ⟨passed p own, others⟩, fun q h => passed q (kept q h)⟩

end Moment

/-- To start no file because the run is cancelled is a course. -/
theorem exists_course_of_cancelled (r : Run) (t : FileTree) (files : List Path) :
    ∃ c : Course r t (fun _ => {}) files, c.cancelled = true ∧
      c.schedule.visits = c.visits ∧ c.tree = t ∧ c.result = r.settle true .blank := by
  let s : Moment := { Moment.start t files with cancelled := true }
  have waits : ∀ p ∈ files, s.progress p = .waiting ∨ s.progress p = .passedOver :=
    fun p member => Or.inl (if_pos member)
  rcases Moment.play_cancelled (m := r.migration) (f := fun _ => {}) waits rfl with
    ⟨tree, passed, _⟩
  have cancelled := Moment.cancelled_of_play (m := r.migration) (f := fun _ => {}) (s := s)
    (files.map .advance) rfl
  have visits : (s.play r.migration (fun _ => {}) (files.map .advance)).visits files = [] := by
    rw [Moment.visits, List.filterMap_eq_nil_iff]
    intro p member
    rw [passed p member]
    rfl
  refine ⟨⟨.cancel :: files.map .advance, fun p member => ?_, .chunk [], ?_⟩, cancelled,
    visits.symm, tree, congrArg (fun b => r.settle b .blank) cancelled⟩
  · have skipped := passed p member
    change ((s.play r.migration (fun _ => {}) (files.map .advance)).progress p).isSettled = true
    rw [skipped]
    rfl
  · exact visits ▸ List.Perm.refl []

/-- To execute a run is to discover its files and to have them migrated; a fault of discovery ends
it before that. -/
theorem start_execute (r : Run) (work : Work) (cancelled : Bool) (t : FileTree) :
    (r.execute work cancelled).start t =
      match Discovery.run t r.migration.root r.config with
      | .error e => (.error (.scan e), t)
      | .ok d =>
        let done := work r (if cancelled then [] else d.files) t
        (.ok (r.settle cancelled done.1), done.2) := by
  rw [execute, Session.start_check_bind]
  cases Discovery.run t r.migration.root r.config <;> rfl

/-- What is executed in turn is a course over the files that discovery finds. -/
theorem exists_course_of_execute {r : Run} {t u : FileTree} (wellFormed : t.WellFormed)
    {cancelled : Bool} {result : Collected Report}
    (executed : (r.execute inTurn cancelled).start t = (.ok result, u)) :
    ∃ d, Discovery.run t r.migration.root r.config = .ok d ∧
      ∃ c : Course r t (fun _ => {}) d.files, c.cancelled = cancelled ∧
        c.schedule.visits = c.visits ∧ c.tree = u ∧ c.result = result := by
  rw [start_execute] at executed
  cases found : Discovery.run t r.migration.root r.config with
  | error e =>
    rw [found] at executed
    cases executed
  | ok d =>
    rw [found] at executed
    cases executed
    refine ⟨d, rfl, ?_⟩
    cases cancelled with
    | true => exact exists_course_of_cancelled r t d.files
    | false =>
      rcases exists_course_of_migrate r t (Discovery.keepsApart wellFormed found).distinct with
        ⟨c, active, inOrder, tree, result⟩
      refine ⟨c, active, inOrder, tree, ?_⟩
      rw [Course.result, active, result]
      rfl

end Run

end ThemeMigration
