import ThemeMigration.FileTree

/-!
# Sessions

A session works on a file tree and can end with an error.  An error undoes nothing: the tree that a
session has reached stays, whatever was done to it before.  A check looks at the tree and leaves it
alone.
-/

namespace ThemeMigration

/-- Work on a file tree that can end with an error. -/
abbrev Session (ε : Type) := ExceptT ε (StateM FileTree)

namespace Session

variable {ε α β : Type}

/-- Ask something about the tree, which can bring an error to light. -/
def check (ask : FileTree → Except ε α) : Session ε α := ExceptT.mk fun t => (ask t, t)

/-- What a session that begins with a tree comes to, and the tree that it leaves. -/
def start (s : Session ε α) (t : FileTree) : Except ε α × FileTree := (s.run.run t).run

/-! ## Laws -/

@[simp] theorem start_check (ask : FileTree → Except ε α) (t : FileTree) :
    (check ask).start t = (ask t, t) := rfl

theorem start_bind (s : Session ε α) (next : α → Session ε β) (t : FileTree) :
    (s >>= next).start t =
      match s.start t with
      | (.ok a, u) => (next a).start u
      | (.error e, u) => (.error e, u) := by
  rw [start, start, ExceptT.run_bind, StateT.run_bind]
  rcases s.run.run t with ⟨e | a, u⟩ <;> rfl

/-- A check that comes first. -/
theorem start_check_bind (ask : FileTree → Except ε α) (next : α → Session ε β) (t : FileTree) :
    (check ask >>= next).start t =
      match ask t with
      | .ok a => (next a).start t
      | .error e => (.error e, t) := by
  rw [start_bind, start_check]
  cases ask t <;> rfl

end Session

end ThemeMigration
