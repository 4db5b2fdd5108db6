import ThemeMigration.Error

/-!
# Results with errors beside them

A run goes on after the error of a single file.  Its result is a value with the errors that were
collected on the way, in their order.
-/

namespace ThemeMigration

structure Collected (α : Type) where
  value : α
  errors : List RunError := []
  deriving DecidableEq, Repr, Inhabited

namespace Collected

variable {α : Type}

def add (r : Collected α) (e : RunError) : Collected α := { r with errors := r.errors ++ [e] }

def isClean (r : Collected α) : Bool := r.errors.isEmpty

def errorCount (r : Collected α) : Nat := r.errors.length

end Collected

end ThemeMigration
