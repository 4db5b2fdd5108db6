import ThemeMigration.Proofs.Discovery.Places
import ThemeMigration.Proofs.Migration.Inspection
import ThemeMigration.Proofs.Run.Acceptance
import ThemeMigration.Proofs.Run.Visits

/-!
# Files of a run do not disturb each other

Whatever the order of the steps, whatever the system refuses and whenever the run is cancelled, what
becomes of a file that is begun is decided by its own content and by what the system refuses about
it.  Between the steps of a run a file has its old content until its visit is finished, and then
what the attempt to write it has left: exactly the text that the migration of the old content gives,
or a part of it if the system broke the write off.  A system that writes files as a whole or not at
all leaves no such parts.
-/

namespace ThemeMigration

namespace Run

/-- What is in a file when its visit is finished, by what was in it at the beginning. -/
def finalContent (m : Migration) (f : Path → Refusals) (t : FileTree) (p : Path)
    (old : ByteArray) : ByteArray :=
  (Visit.tryRead (f p) m t p).contentAfter (f p) m old

section

variable {m : Migration} {f : Path → Refusals} {t : FileTree} {p : Path}

/-- At the end a file has its old content, or the text of its migration, or as much of that as was
written before the system broke the write off. -/
theorem finalContent_cases (m : Migration) (f : Path → Refusals) (t : FileTree) (p : Path) :
    (∀ old, finalContent m f t p old = old) ∨
      ∃ file text, SourceFile.load t p = .ok file ∧ (m.transform file).text = some text ∧
        ((∀ old, finalContent m f t p old = text.toUTF8) ∨
          ∃ fault n, (f p).writing = some fault ∧ fault.written = some n ∧
            ∀ old, finalContent m f t p old = text.toUTF8.extract 0 n) := by
  rcases Visit.contentAfter_cases (f p) m (Visit.tryRead (f p) m t p) with still |
    ⟨counts, text, _, read, left⟩
  · exact Or.inl still
  · rcases Visit.tryRead_eq_changed_iff.1 read with ⟨_, file, loaded, transformed⟩
    refine Or.inr ⟨file, text, loaded, by rw [transformed], ?_⟩
    rcases left with ⟨_, whole⟩ | cut
    · exact Or.inl whole
    · exact Or.inr cut

theorem finalContent_of_changed (kept : m.dryRun = false) {counts : FileCounts} {text : String}
    (changed : Visit.foretold (f p) m p (t.read p) = .changed counts text) (old : ByteArray) :
    finalContent m f t p old = text.toUTF8 := by
  rcases Visit.foretold_eq_changed_iff.1 changed with ⟨reading, writing, loaded⟩
  have read := Visit.tryRead_eq_changed_iff.2 ⟨reading, loaded⟩
  have writable : (f p).writing = none := writing.resolve_left (by simp [kept])
  simp only [finalContent, read, Visit.contentAfter, kept, writable, FileTree.contentAfter,
    Bool.false_eq_true, if_false]

/-- A file that is not changed keeps its content, if its write is not broken off. -/
theorem finalContent_self
    (still : ∀ counts text, Visit.foretold (f p) m p (t.read p) ≠ .changed counts text)
    (whole : (f p).WritesWhole ∨
      ∀ counts e, Visit.foretold (f p) m p (t.read p) ≠ .notWritten counts e) (old : ByteArray) :
    finalContent m f t p old = old := by
  rcases Visit.contentAfter_cases (f p) m (Visit.tryRead (f p) m t p) with same |
    ⟨counts, text, kept, read, ⟨writable, _⟩ | ⟨fault, n, refusal, cut, _⟩⟩
  · exact same old
  · rcases Visit.tryRead_eq_changed_iff.1 read with ⟨reading, loaded⟩
    exact absurd (Visit.foretold_eq_changed_iff.2 ⟨reading, Or.inr writable, loaded⟩)
      (still counts text)
  · rcases whole with whole | written
    · rw [whole fault refusal] at cut
      cases cut
    · have foretold := Visit.outcome_tryRead (f p) m t p
      rw [read] at foretold
      simp only [Visit.outcome, refusal, kept, Bool.false_eq_true, if_false] at foretold
      exact absurd foretold.symm (written _ _)

end

/-- What is in a file when its migration has come so far. -/
def Progress.content (final old : ByteArray) : Progress → ByteArray
  | finished _ => final
  | _ => old

theorem Progress.content_self (old : ByteArray) (x : Progress) : x.content old old = old := by
  cases x <;> rfl

namespace Moment

/-- At a moment of a run that began with a tree, visits are what the tree foretells, and only
files whose visit is finished have another content than there. -/
structure Isolated (m : Migration) (f : Path → Refusals) (t : FileTree) (files : List Path)
    (s : Moment) : Prop where
  outside : ∀ p, p ∉ files → s.progress p = .passedOver
  read : ∀ p v, s.progress p = .read v → v = Visit.tryRead (f p) m t p
  finished : ∀ p v, s.progress p = .finished v → v = Visit.foretold (f p) m p (t.read p)
  shape : t.SameShape s.tree
  elsewhere : ∀ l, (∀ p ∈ files, t.locate p ≠ .ok l) → s.tree.get? l = t.get? l
  content : ∀ p ∈ files, ∀ l c, t.locate p = .ok l → t.get? l = some (.file c) →
    s.tree.get? l = some (.file ((s.progress p).content (finalContent m f t p c) c))

variable {m : Migration} {f : Path → Refusals} {t : FileTree} {files : List Path} {s : Moment}

theorem isolated_start (m : Migration) (f : Path → Refusals) (t : FileTree) (files : List Path) :
    (start t files).Isolated m f t files where
  outside p other := if_neg other
  read p v h := by
    simp only [start] at h
    split at h <;> cases h
  finished p v h := by
    simp only [start] at h
    split at h <;> cases h
  shape := .refl t
  elsewhere _ _ := rfl
  content p member l c _ file := by
    simp only [start, if_pos member]
    exact file

namespace Isolated

/-- A step for one file keeps the contents of the others. -/
theorem mark (h : s.Isolated m f t files) (apart : t.KeepsApart files) {p : Path}
    (member : p ∈ files) {u : FileTree} {x : Progress}
    (read : ∀ v, x = .read v → v = Visit.tryRead (f p) m t p)
    (finished : ∀ v, x = .finished v → v = Visit.foretold (f p) m p (t.read p))
    (shape : t.SameShape u) (others : ∀ l, t.locate p ≠ .ok l → u.get? l = s.tree.get? l)
    (own : ∀ l c, t.locate p = .ok l → t.get? l = some (.file c) →
      u.get? l = some (.file (x.content (finalContent m f t p c) c))) :
    ({ s with tree := u }.mark p x).Isolated m f t files where
  outside q other := by
    have different : q ≠ p := by
      rintro rfl
      exact other member
    rw [mark_progress_of_ne different]
    exact h.outside q other
  read q v progress := by
    rcases progress_mark_cases progress with ⟨rfl, marked⟩ | ⟨_, before⟩
    · exact read v marked
    · exact h.read q v before
  finished q v progress := by
    rcases progress_mark_cases progress with ⟨rfl, marked⟩ | ⟨_, before⟩
    · exact finished v marked
    · exact h.finished q v before
  shape := shape
  elsewhere l free := (others l (free p member)).trans (h.elsewhere l free)
  content q inside l c located file := by
    by_cases same : q = p
    · subst same
      rw [mark_progress]
      exact own l c located file
    · have away : t.locate p ≠ .ok l := by
        intro there
        exact same (apart.apart q inside p member (located.trans there.symm))
      rw [mark_progress_of_ne same]
      exact (others l away).trans (h.content q inside l c located file)

/-- A step that writes nothing. -/
theorem mark_still (h : s.Isolated m f t files) (apart : t.KeepsApart files) {p : Path}
    (member : p ∈ files) {x : Progress}
    (read : ∀ v, x = .read v → v = Visit.tryRead (f p) m t p)
    (finished : ∀ v, x = .finished v → v = Visit.foretold (f p) m p (t.read p))
    (same : ∀ final c, x.content final c = (s.progress p).content final c) :
    (s.mark p x).Isolated m f t files := by
  refine h.mark apart member (u := s.tree) read finished h.shape (fun _ _ => rfl) ?_
  intro l c located file
  rw [same]
  exact h.content p member l c located file

/-- The content that a file of the run has, and the one it had at the beginning. -/
theorem exists_content (h : s.Isolated m f t files) (apart : t.KeepsApart files) {p : Path}
    (member : p ∈ files) {l : Location} (located : t.locate p = .ok l) :
    ∃ old, t.get? l = some (.file old) ∧ t.read p = .ok old ∧
      s.tree.get? l = some (.file ((s.progress p).content (finalContent m f t p old) old)) ∧
      s.tree.read p = .ok ((s.progress p).content (finalContent m f t p old) old) := by
  rcases apart.leads p member with ⟨k, leads⟩
  rcases leads.file with ⟨old, file⟩
  rw [leads.located] at located
  cases located
  have here := h.content p member l old leads.located file
  exact ⟨old, file, leads.read_eq file, here, (leads.of_sameShape h.shape).read_eq here⟩

/-- A file that nothing is written to reads as at the beginning. -/
theorem read_eq (h : s.Isolated m f t files) (apart : t.KeepsApart files) {p : Path}
    (member : p ∈ files)
    (old : ∀ c, (s.progress p).content (finalContent m f t p c) c = c) :
    s.tree.read p = t.read p := by
  rcases apart.leads p member with ⟨l, leads⟩
  rcases h.exists_content apart member leads.located with ⟨c, -, first, -, now⟩
  rw [first, now, old]

/-- When a read file is saved, its visit is finished as foretold, and what the attempt leaves is in
it. -/
theorem save (h : s.Isolated m f t files) (apart : t.KeepsApart files) {p : Path}
    (member : p ∈ files) {v : Visit} (progress : s.progress p = .read v) :
    ({ s with tree := (v.save (f p).writing m s.tree p).2 }.mark p
      (.finished (v.save (f p).writing m s.tree p).1)).Isolated m f t files := by
  rcases apart.leads p member with ⟨l, leads⟩
  rcases h.exists_content apart member leads.located with ⟨old, file, -, now, -⟩
  have here := leads.of_sameShape h.shape
  have read := h.read p v progress
  have final : v.contentAfter (f p) m old = finalContent m f t p old := by rw [read, finalContent]
  rw [progress] at now
  simp only [Visit.save_eq here now, Progress.content, final]
  refine h.mark apart member (by simp) ?_ (h.shape.trans (here.sameShape_put _)) ?_ ?_
  · intro w finished
    cases finished
    rw [read, Visit.outcome_tryRead]
  · intro k away
    refine FileTree.get?_put_of_ne _ fun same => away ?_
    rw [same]
    exact leads.located
  · intro k c located there
    rw [leads.located] at located
    cases located
    rw [file] at there
    cases there
    exact FileTree.get?_put_self _ leads.ne_nil

theorem advance (h : s.Isolated m f t files) (apart : t.KeepsApart files) (p : Path) :
    (s.advance m f p).Isolated m f t files := by
  have begun : s.progress p ≠ .passedOver → p ∈ files := by
    intro other
    by_contra absent
    exact other (h.outside p absent)
  rw [Moment.advance]
  cases progress : s.progress p with
  | waiting =>
    have member := begun (by simp [progress])
    cases s.cancelled <;>
    · refine h.mark_still apart member (by simp) (by simp) fun final c => ?_
      rw [progress]
      rfl
  | begun =>
    have member := begun (by simp [progress])
    have same := h.read_eq apart member (by simp [progress, Progress.content])
    refine h.mark_still apart member ?_ (by simp) fun final c => ?_
    · intro v read
      cases read
      exact Visit.tryRead_congr same
    · rw [progress]
      rfl
  | read v =>
    have member := begun (by simp [progress])
    exact h.save apart member progress
  | passedOver => exact h
  | finished v => exact h

theorem play (apart : t.KeepsApart files) (events : List Event) :
    ((start t files).play m f events).Isolated m f t files := by
  refine play_induction events (isolated_start m f t files) ?_ fun s p h => h.advance apart p
  intro s h
  exact ⟨h.outside, h.read, h.finished, h.shape, h.elsewhere, h.content⟩

/-- What a finished change comes from. -/
theorem changed (h : s.Isolated m f t files) {p : Path} {counts : FileCounts} {text : String}
    (progress : s.progress p = .finished (.changed counts text)) :
    (f p).reading = none ∧ (m.dryRun = true ∨ (f p).writing = none) ∧
      ∃ file, SourceFile.load t p = .ok file ∧ m.transform file = ⟨some text, counts⟩ :=
  Visit.foretold_eq_changed_iff.1 (h.finished p _ progress).symm

/-- The content of a file whose change is finished and kept. -/
theorem content_changed (h : s.Isolated m f t files) {p : Path} {counts : FileCounts}
    {text : String} (progress : s.progress p = .finished (.changed counts text))
    (kept : m.dryRun = false) (old : ByteArray) :
    (s.progress p).content (finalContent m f t p old) old = text.toUTF8 := by
  rw [progress]
  exact finalContent_of_changed kept (h.finished p _ progress).symm old

end Isolated

end Moment

namespace Course

variable {r : Run} {t : FileTree} {d : Discovery} {f : Path → Refusals}

/-- The report has an entry for a file. -/
def Lists {files : List Path} (c : Course r t f files) (p : Path) : Prop :=
  ∃ e ∈ c.result.value.files, e.path = p.below r.migration.root

theorem lists_iff (wellFormed : t.WellFormed)
    (found : Discovery.run t r.migration.root r.config = .ok d) (c : Course r t f d.files)
    {p : Path} (member : p ∈ d.files) :
    c.Lists p ↔ ∃ counts text, c.last.progress p = .finished (.changed counts text) := by
  constructor
  · rintro ⟨e, entry, path⟩
    rcases c.mem_result_files.1 entry with ⟨⟨q, v⟩, visited, made⟩
    cases v <;> cases made
    rename_i counts text
    rcases c.mem_visits.1 visited with ⟨inside, progress⟩
    have same : (q.below r.migration.root).same (p.below r.migration.root) = true := by
      change q.below r.migration.root = p.below r.migration.root at path
      rw [path, Path.same, beq_self_eq_true]
    rw [Discovery.below_inj wellFormed found inside member same] at progress
    exact ⟨counts, text, progress⟩
  · rintro ⟨counts, text, progress⟩
    exact ⟨_, c.mem_result_files.2 ⟨_, c.mem_visits.2 ⟨member, progress⟩, rfl⟩, rfl⟩

theorem isolated (wellFormed : t.WellFormed)
    (found : Discovery.run t r.migration.root r.config = .ok d) (c : Course r t f d.files) :
    c.last.Isolated r.migration f t d.files :=
  Moment.Isolated.play (Discovery.keepsApart wellFormed found) c.events

/-- An entry of the tree is as it was, or it is a file of the run that has the text of its
migration, or as much of that as was written before the system broke the write off. -/
theorem entry_cases (wellFormed : t.WellFormed)
    (found : Discovery.run t r.migration.root r.config = .ok d) (c : Course r t f d.files)
    (l : Location) :
    c.tree.get? l = t.get? l ∨
      ∃ p ∈ d.files, t.locate p = .ok l ∧ ∃ file text, SourceFile.load t p = .ok file ∧
        (r.migration.transform file).text = some text ∧
        (c.tree.get? l = some (.file text.toUTF8) ∨
          ∃ fault n, (f p).writing = some fault ∧ fault.written = some n ∧
            c.tree.get? l = some (.file (text.toUTF8.extract 0 n))) := by
  have isolated := c.isolated wellFormed found
  by_cases led : ∃ p ∈ d.files, t.locate p = .ok l
  · rcases led with ⟨p, member, located⟩
    rcases isolated.exists_content (Discovery.keepsApart wellFormed found) member located with
      ⟨old, before, -, here, -⟩
    rcases c.progress_cases member with skipped | ⟨v, finished⟩
    · rw [skipped] at here
      exact Or.inl (here.trans before.symm)
    · rw [finished] at here
      rcases finalContent_cases r.migration f t p with same |
        ⟨file, text, loaded, transformed, whole | ⟨fault, n, refusal, cut, left⟩⟩
      · exact Or.inl (here.trans ((same old).symm ▸ before.symm))
      · exact Or.inr ⟨p, member, located, file, text, loaded, transformed,
          Or.inl (whole old ▸ here)⟩
      · exact Or.inr ⟨p, member, located, file, text, loaded, transformed,
          Or.inr ⟨fault, n, refusal, cut, left old ▸ here⟩⟩
  · exact Or.inl (isolated.elsewhere l fun p member located => led ⟨p, member, located⟩)

/-- The listed files are those that were begun, that the system lets be read and written, and whose
migration has a text. -/
theorem lists_iff_begun (wellFormed : t.WellFormed)
    (found : Discovery.run t r.migration.root r.config = .ok d) (c : Course r t f d.files)
    (kept : r.migration.dryRun = false) {p : Path} (member : p ∈ d.files) :
    c.Lists p ↔ c.last.progress p ≠ .passedOver ∧ (f p).reading = none ∧ (f p).writing = none ∧
      ∃ file, SourceFile.load t p = .ok file ∧
        (r.migration.transform file).text.isSome = true := by
  have isolated := c.isolated wellFormed found
  rw [c.lists_iff wellFormed found member]
  constructor
  · rintro ⟨counts, text, progress⟩
    rcases isolated.changed progress with ⟨reading, writing, source, loaded, transformed⟩
    have begun : c.last.progress p ≠ .passedOver := by
      rw [progress]
      exact Progress.noConfusion
    refine ⟨begun, reading, writing.resolve_left ?_, source, loaded, ?_⟩
    · rw [kept]
      exact Bool.false_ne_true
    · rw [transformed]
      rfl
  · rintro ⟨begun, reading, writing, source, loaded, some⟩
    rcases Option.isSome_iff_exists.1 some with ⟨text, transformed⟩
    rcases (c.progress_cases member).resolve_left begun with ⟨v, progress⟩
    have changed : v = .changed (r.migration.transform source).counts text := by
      rw [isolated.finished p v progress, Visit.foretold_eq_changed_iff]
      exact ⟨reading, Or.inr writing, source, loaded, by rw [← transformed]⟩
    exact ⟨_, text, changed ▸ progress⟩

/-- A listed file of a run that is no dry one reads as the text of its migration. -/
theorem read_of_lists (wellFormed : t.WellFormed)
    (found : Discovery.run t r.migration.root r.config = .ok d) (c : Course r t f d.files)
    (kept : r.migration.dryRun = false) {p : Path} (member : p ∈ d.files) (listed : c.Lists p) :
    ∃ file text, SourceFile.load t p = .ok file ∧
      (r.migration.transform file).text = some text ∧ c.tree.read p = .ok text.toUTF8 := by
  have apart := Discovery.keepsApart wellFormed found
  have isolated := c.isolated wellFormed found
  rcases (c.lists_iff wellFormed found member).1 listed with ⟨counts, text, progress⟩
  rcases (isolated.changed progress).2.2 with ⟨source, loaded, transformed⟩
  rcases apart.leads p member with ⟨l, leads⟩
  rcases isolated.exists_content apart member leads.located with ⟨old, -, -, -, now⟩
  rw [isolated.content_changed progress kept] at now
  exact ⟨source, text, loaded, by rw [transformed], now⟩

/-- A file that is passed over or refused reads as before, and so does one whose write was refused
before it opened the file. -/
theorem read_of_left (wellFormed : t.WellFormed)
    (found : Discovery.run t r.migration.root r.config = .ok d) (c : Course r t f d.files)
    {p : Path} (member : p ∈ d.files)
    (left : c.last.progress p = .passedOver ∨ (∃ e, (p, .refused e) ∈ c.visits) ∨
      (f p).WritesWhole ∧ ∃ counts e, (p, .notWritten counts e) ∈ c.visits) :
    c.tree.read p = t.read p := by
  have isolated := c.isolated wellFormed found
  have told : ∀ {v}, (p, v) ∈ c.visits → v = Visit.foretold (f p) r.migration p (t.read p) :=
    fun visited => isolated.finished p _ (c.mem_visits.1 visited).2
  refine isolated.read_eq (Discovery.keepsApart wellFormed found) member fun old => ?_
  have kept : (∀ old, finalContent r.migration f t p old = old) →
      (c.last.progress p).content (finalContent r.migration f t p old) old = old := by
    intro same
    rw [same, Progress.content_self]
  rcases left with skipped | ⟨e, visited⟩ | ⟨whole, counts, e, visited⟩
  · rw [skipped]
    rfl
  · refine kept (finalContent_self ?_ (Or.inr ?_)) <;> rw [← told visited] <;> exact nofun
  · refine kept (finalContent_self ?_ (Or.inl whole))
    rw [← told visited]
    exact nofun

section

variable (wellFormed : t.WellFormed)
  (found : Discovery.run t r.migration.root r.config = .ok d) (c : Course r t f d.files)
  (whole : ∀ p ∈ d.files, (f p).WritesWhole)
include wellFormed found whole

/-- If the system writes files as a whole, a file of a run that is not listed reads as before. -/
theorem read_of_not_lists {p : Path} (member : p ∈ d.files) (other : ¬ c.Lists p) :
    c.tree.read p = t.read p := by
  have isolated := c.isolated wellFormed found
  rcases c.progress_cases member with skipped | ⟨v, finished⟩
  · exact c.read_of_left wellFormed found member (Or.inl skipped)
  · refine isolated.read_eq (Discovery.keepsApart wellFormed found) member fun old => ?_
    rw [finished, Progress.content]
    refine finalContent_self ?_ (Or.inl (whole p member)) old
    intro counts text changed
    rw [← isolated.finished p v finished] at changed
    exact other ((c.lists_iff wellFormed found member).2 ⟨counts, text, changed ▸ finished⟩)

/-- The listed files are those that read as their new texts, which differ from the old ones. -/
theorem lists_iff_read (kept : r.migration.dryRun = false) {p : Path} (member : p ∈ d.files) :
    c.Lists p ↔ ∃ file text, SourceFile.load t p = .ok file ∧
      (r.migration.transform file).text = some text ∧ c.tree.read p = .ok text.toUTF8 := by
  refine ⟨c.read_of_lists wellFormed found kept member, ?_⟩
  rintro ⟨source, text, loaded, transformed, read⟩
  by_contra other
  -- With its old content the file would read as its old text.
  rw [c.read_of_not_lists wellFormed found whole member other, SourceFile.read_of_load loaded]
    at read
  exact absurd (Except.ok.inj read).symm (Migration.text_ne_of_transform transformed)

/-- Unless the run is a dry one, the entries that differ afterwards are those of listed files. -/
theorem get?_ne_iff (kept : r.migration.dryRun = false) (l : Location) :
    c.tree.get? l ≠ t.get? l ↔ ∃ p ∈ d.files, t.locate p = .ok l ∧ c.Lists p := by
  have apart := Discovery.keepsApart wellFormed found
  have isolated := c.isolated wellFormed found
  -- The entry of a file of the run differs exactly if the file reads differently.
  have reads : ∀ p ∈ d.files, t.locate p = .ok l →
      (c.tree.get? l = t.get? l ↔ c.tree.read p = t.read p) := by
    intro p member located
    rcases isolated.exists_content apart member located with ⟨old, before, first, here, now⟩
    have tree : c.tree.get? l = c.last.tree.get? l := rfl
    rw [tree, here, before, first, Course.tree, now, Option.some.injEq, Except.ok.injEq,
      FileTree.Entry.file.injEq]
  constructor
  · intro different
    by_cases led : ∃ p ∈ d.files, t.locate p = .ok l
    · rcases led with ⟨p, member, located⟩
      refine ⟨p, member, located, ?_⟩
      by_contra other
      exact different ((reads p member located).2
        (c.read_of_not_lists wellFormed found whole member other))
    · exact absurd (isolated.elsewhere l fun p member located => led ⟨p, member, located⟩) different
  · rintro ⟨p, member, located, listed⟩ same
    rcases c.read_of_lists wellFormed found kept member listed with
      ⟨source, text, loaded, transformed, read⟩
    -- The old content is the text that was read, and the new text differs from it.
    have unchanged := read.symm.trans (((reads p member located).1 same).trans
      (SourceFile.read_of_load loaded))
    exact Migration.text_ne_of_transform transformed (Except.ok.inj unchanged)

end

end Course

/-! ## A project with files of three kinds -/

deriving instance DecidableEq for Palette, Migration, Run

namespace Mixed

def card : Path := ⟨"/project/Card.tsx"⟩
def list : Path := ⟨"/project/List.tsx"⟩
def menu : Path := ⟨"/project/Menu.tsx"⟩

/-- A component with a colour, a file that is not UTF-8, and a script without components. -/
def project : FileTree where
  entries := [
    (["project"], .directory),
    (["project", "tsconfig.json"], .file "\x7b\x7d".toUTF8),
    (["project", "Card.tsx"], .file "const Card=()=>(\x7bcolor:'#fff'\x7d)".toUTF8),
    (["project", "List.tsx"], .file ⟨#[255]⟩),
    (["project", "Menu.tsx"], .file "const size = 4".toUTF8)]
  workingDirectory := ⟨"/project"⟩

def config : Config := { project := { tsconfig := some "tsconfig.json", patterns := ["*.tsx"] } }

def run : Run where
  config := config
  migration := { Migration.standard with
    tsconfig := ⟨⟨"/project/tsconfig.json"⟩, none, [], ⟨"/project"⟩⟩ }

def files : List Path := [card, list, menu]

/-- Two workers, of which one has the component and the other one the file that is not UTF-8.  The
run is cancelled before the component is written and before the script is begun. -/
def events : List Event :=
  [.advance list, .advance card, .advance list, .advance card, .cancel, .advance menu,
    .advance card, .advance list]

theorem wellFormed : project.WellFormed := by decide

theorem prepare_project : prepare project ⟨"/project"⟩ config = .ok run := by
  have real : project.realPath? ⟨"/project"⟩ = some ⟨"/project"⟩ := by decide +kernel
  have tsconfig : TsConfig.load project ⟨"/project/tsconfig.json"⟩ =
      .ok run.migration.tsconfig := by
    decide +kernel
  refine prepare_eq_ok_iff.2 ⟨rfl, by decide, _, real, _, rfl, _, tsconfig, ?_⟩
  rw [Migration.ofConfig, TokenTable.ofConfig_eq]
  rfl

theorem migration_run :
    run.migration = { run.migration with
      palette :=
        ⟨⟨⟨TokenTable.defaultEntries, TokenTable.defaultEntries_ordered⟩⟩, ⟨[]⟩⟩ } :=
  Migration.eq_of_palette rfl

theorem exists_discovery :
    ∃ d, Discovery.run project run.migration.root run.config = .ok d ∧ d.files = files := by
  rcases Migration.exists_ok_of_any (x := Discovery.Filter.ofConfig run.config)
    (p := fun f => ((Discovery.walk project (Discovery.rules project run.config)
      ["project"]).filter fun x => f.eligibility x == .eligible).map
        (fun x => run.migration.root ++ x.relative) == files)
    (by decide +kernel) with ⟨f, made, eligible⟩
  exact Discovery.exists_run rfl made (eq_of_beq eligible) (by decide +kernel)

/-- The component has a new text. -/
theorem exists_text : ∃ file, SourceFile.load project card = .ok file ∧
    (run.migration.transform file).text.isSome = true := by
  refine Migration.exists_ok_of_any ?_
  rw [migration_run]
  decide +kernel

def course : Course run project (fun _ => {}) files where
  events := events
  settled := by decide +kernel
  schedule := .chunk (((Moment.start project files).play run.migration (fun _ => {}) events).visits
    files)
  merged := .refl _

theorem progress_course :
    course.cancelled = true ∧ course.last.progress card ≠ .passedOver ∧
      course.last.progress list = .finished (.refused (.notUtf8 list)) ∧
      course.last.progress menu = .passedOver := by
  rw [Course.cancelled, show course.last =
    (Moment.start project files).play run.migration (fun _ => {}) events from rfl, migration_run]
  decide +kernel

/-- The system refuses to write the component. -/
def refusals (p : Path) : Refusals :=
  if p = card then { writing := some { cause := "Permission denied (os error 13)" } } else {}

theorem writesWhole_refusals (p : Path) : (refusals p).WritesWhole := by
  intro fault refused
  rw [refusals] at refused
  split at refused <;> cases refused
  rfl

/-- One file after the other, with the write of the component refused. -/
def refusedCourse : Course run project refusals files where
  events := inOrder files
  settled := by decide +kernel
  schedule := .chunk (((Moment.start project files).play run.migration refusals
    (inOrder files)).visits files)
  merged := .refl _

theorem progress_refusedCourse :
    refusedCourse.last.progress card = .finished (.notWritten
      { components := 1, literals := { replaced := 1 }, importAdded := true, bindingsInserted := 1 }
      ⟨card, "Permission denied (os error 13)"⟩) := by
  rw [show refusedCourse.last =
    (Moment.start project files).play run.migration refusals (inOrder files) from rfl,
    migration_run]
  decide +kernel

end Mixed

/-! ## Isolation -/

end Run

end ThemeMigration
