import ThemeMigration.Proofs.Run.Course

/-!
# Visits by content

What a visit comes to depends on the content of the file alone and on what the system refuses about
the file, and so does the content that it leaves.  A visit that changes its file has a text that
differs from the text it was read with.
-/

namespace ThemeMigration

open Script

namespace SourceFile

theorem toUTF8_of_fromUTF8? {content : ByteArray} {text : String}
    (h : String.fromUTF8? content = some text) : text.toUTF8 = content := by
  rw [String.fromUTF8?] at h
  split at h
  · cases h
    rfl
  · cases h

theorem of_ofText {p : Path} {text : String} {file : SourceFile} (h : ofText p text = .ok file) :
    file.path = p ∧ file.text = text := by
  rw [ofText] at h
  split at h
  · cases h
  · rename_i language _
    rw [parse] at h
    cases parsed : Source.parse language text with
    | error line =>
      rw [parsed] at h
      cases h
    | ok s =>
      rw [parsed] at h
      cases h
      exact ⟨rfl, (Source.text_of_parse parsed).1⟩

theorem of_load {t : FileTree} {p : Path} {file : SourceFile} (h : load t p = .ok file) :
    file.path = p ∧ t.read p = .ok file.text.toUTF8 := by
  rw [load] at h
  split at h
  · cases h
  · rename_i content read
    split at h
    · cases h
    · rename_i text decoded
      rcases of_ofText h with ⟨path, kept⟩
      exact ⟨path, by rw [read, kept, toUTF8_of_fromUTF8? decoded]⟩

theorem path_of_load {t : FileTree} {p : Path} {file : SourceFile} (h : load t p = .ok file) :
    file.path = p := (of_load h).1

/-- A file that is loaded has the content of its text. -/
theorem read_of_load {t : FileTree} {p : Path} {file : SourceFile} (h : load t p = .ok file) :
    t.read p = .ok file.text.toUTF8 := (of_load h).2

end SourceFile

namespace Visit

variable {f : Refusals} {m : Migration} {t u : FileTree} {p : Path} {l : Location}

/-- The visit of a file by its content. -/
def ofContent (m : Migration) (p : Path) : Except FileTree.Failure ByteArray → Visit
  | .error fault => .refused (.unreadable p fault.message)
  | .ok content =>
    match String.fromUTF8? content with
    | none => .refused (.notUtf8 p)
    | some text =>
      match SourceFile.ofText p text with
      | .error e => .refused e
      | .ok file =>
        match (m.transform file).text with
        | none => .unchanged (m.transform file).counts
        | some text => .changed (m.transform file).counts text

/-- A visit after its last step, in a tree that does not stand in the way. -/
def outcome (f : Refusals) (m : Migration) (p : Path) (v : Visit) : Visit :=
  match v, f.writing with
  | .changed counts _, some fault => if m.dryRun then v else .notWritten counts ⟨p, fault.cause⟩
  | _, _ => v

/-- The content that the last step of a visit leaves of an old content. -/
def contentAfter (f : Refusals) (m : Migration) (old : ByteArray) : Visit → ByteArray
  | .changed _ text => if m.dryRun then old else FileTree.contentAfter f.writing old text.toUTF8
  | _ => old

/-- What becomes of a file that is begun. -/
def foretold (f : Refusals) (m : Migration) (p : Path)
    (content : Except FileTree.Failure ByteArray) : Visit :=
  match f.reading with
  | some cause => .refused (.unreadable p cause)
  | none => (ofContent m p content).outcome f m p

theorem read_eq (m : Migration) (t : FileTree) (p : Path) :
    read m t p = ofContent m p (t.read p) := by
  rw [read, SourceFile.load]
  cases t.read p with
  | error fault => rfl
  | ok content =>
    simp only [ofContent]
    cases String.fromUTF8? content with
    | none => rfl
    | some text => cases SourceFile.ofText p text <;> rfl

/-- The last step of a visit in a tree in which the path leads to the file. -/
theorem save_eq (leads : t.LeadsToFile p l) {old : ByteArray}
    (file : t.get? l = some (.file old)) (v : Visit) :
    v.save f.writing m t p = (v.outcome f m p, t.put l (.file (v.contentAfter f m old))) := by
  have still : t.put l (.file old) = t := FileTree.put_of_get? leads.ne_nil file
  cases v with
  | changed counts text =>
    cases dry : m.dryRun with
    | true =>
      simp only [save, FileTree.save, contentAfter, dry, if_true, still]
      cases refusal : f.writing <;> simp only [outcome, refusal, dry, if_true]
    | false =>
      have tried := leads.tryWrite_eq file text.toUTF8 f.writing
      simp only [save, FileTree.save, contentAfter, dry, Bool.false_eq_true, if_false, tried]
      cases refusal : f.writing <;>
        simp only [outcome, refusal, dry, Bool.false_eq_true, if_false, Except.mapError]
  | _ => simp [save, outcome, contentAfter, still]

/-- A visit leaves the old content, or the text it has read it into, or as much of that as was
written before the system broke the write off. -/
theorem contentAfter_cases (f : Refusals) (m : Migration) (v : Visit) :
    (∀ old, v.contentAfter f m old = old) ∨
      ∃ counts text, m.dryRun = false ∧ v = .changed counts text ∧
        (f.writing = none ∧ (∀ old, v.contentAfter f m old = text.toUTF8) ∨
          ∃ fault n, f.writing = some fault ∧ fault.written = some n ∧
            ∀ old, v.contentAfter f m old = text.toUTF8.extract 0 n) := by
  cases v with
  | changed counts text =>
    cases dry : m.dryRun with
    | true => exact Or.inl fun old => by simp [contentAfter, dry]
    | false =>
      rcases refusal : f.writing with _ | ⟨cause, _ | n⟩
      · exact Or.inr ⟨counts, text, rfl, rfl, Or.inl ⟨rfl, fun old => by
          simp [contentAfter, dry, refusal, FileTree.contentAfter]⟩⟩
      · exact Or.inl fun old => by simp [contentAfter, dry, refusal, FileTree.contentAfter]
      · exact Or.inr ⟨counts, text, rfl, rfl, Or.inr ⟨⟨cause, some n⟩, n, rfl, rfl, fun old => by
          simp [contentAfter, dry, refusal, FileTree.contentAfter]⟩⟩
  | _ => exact Or.inl fun old => rfl

theorem outcome_tryRead (f : Refusals) (m : Migration) (t : FileTree) (p : Path) :
    (tryRead f m t p).outcome f m p = foretold f m p (t.read p) := by
  rw [tryRead, foretold]
  cases f.reading with
  | some cause => rfl
  | none => rw [read_eq]

theorem tryRead_congr (same : t.read p = u.read p) : tryRead f m t p = tryRead f m u p := by
  rw [tryRead, tryRead, read_eq, read_eq, same]

theorem read_eq_changed_iff {counts : FileCounts} {text : String} :
    read m t p = .changed counts text ↔
      ∃ file, SourceFile.load t p = .ok file ∧ m.transform file = ⟨some text, counts⟩ := by
  rw [read]
  cases SourceFile.load t p with
  | error e => simp
  | ok file =>
    simp only [Except.ok.injEq, exists_eq_left']
    rcases m.transform file with ⟨_ | text', counts'⟩
    · simp
    · simp [and_comm]

theorem read_eq_unchanged_iff {counts : FileCounts} :
    read m t p = .unchanged counts ↔
      ∃ file, SourceFile.load t p = .ok file ∧ m.transform file = ⟨none, counts⟩ := by
  rw [read]
  cases SourceFile.load t p with
  | error e => simp
  | ok file =>
    simp only [Except.ok.injEq, exists_eq_left']
    rcases m.transform file with ⟨_ | text', counts'⟩ <;> simp

theorem tryRead_eq_changed_iff {counts : FileCounts} {text : String} :
    tryRead f m t p = .changed counts text ↔
      f.reading = none ∧
        ∃ file, SourceFile.load t p = .ok file ∧ m.transform file = ⟨some text, counts⟩ := by
  rw [← read_eq_changed_iff, tryRead]
  cases f.reading <;> simp

/-- A begun file is changed if the system lets it be read and written and its migration has a
text. -/
theorem foretold_eq_changed_iff {counts : FileCounts} {text : String} :
    foretold f m p (t.read p) = .changed counts text ↔
      f.reading = none ∧ (m.dryRun = true ∨ f.writing = none) ∧
        ∃ file, SourceFile.load t p = .ok file ∧ m.transform file = ⟨some text, counts⟩ := by
  rw [← read_eq_changed_iff, read_eq, foretold]
  cases f.reading with
  | some cause => simp
  | none =>
    cases visit : ofContent m p (t.read p) with
    | changed counts' text' =>
      cases refusal : f.writing <;> cases dry : m.dryRun <;> simp [outcome, refusal, dry]
    | _ => simp [outcome]

end Visit

namespace Migration

/-- A new text differs from the old one. -/
theorem text_ne_of_transform {m : Migration} {file : SourceFile} {text : String}
    (h : (m.transform file).text = some text) : text.toUTF8 ≠ file.text.toUTF8 := by
  rw [transform] at h
  dsimp only at h
  split at h
  · cases h
  · simp only at h
    split at h
    · rename_i different
      cases h
      intro same
      rw [digestChanged, same, bne_iff_ne] at different
      exact different rfl
    · cases h

end Migration

end ThemeMigration
