/-!
# How a function ends

A function of the source may end the program: a check fails and it aborts, or
it follows a null pointer.  `Outcome` has the two apart from a result.  It is a
monad, so that what follows a call is not reached unless the call is done.
-/

namespace Base

/-- How a call ends. -/
inductive Outcome (α : Type) where
  | done (a : α)
  /-- A check has failed, and the program with it. -/
  | abort
  /-- A null pointer was followed. -/
  | crash
deriving DecidableEq

namespace Outcome

variable {α β : Type}

/-- One call after another. -/
def bind : Outcome α → (α → Outcome β) → Outcome β
  | done a, f => f a
  | abort, _ => abort
  | crash, _ => crash

instance : Monad Outcome where
  pure := done
  bind := bind

@[simp] theorem pure_eq (a : α) : (pure a : Outcome α) = done a := rfl

@[simp] theorem done_bind (a : α) (f : α → Outcome β) : (done a >>= f) = f a := rfl

@[simp] theorem abort_bind (f : α → Outcome β) : ((abort : Outcome α) >>= f) = abort := rfl

@[simp] theorem crash_bind (f : α → Outcome β) : ((crash : Outcome α) >>= f) = crash := rfl

instance : LawfulMonad Outcome := LawfulMonad.mk' Outcome
  (fun x => by cases x <;> rfl) (fun _ _ => rfl) (fun x _ _ => by cases x <;> rfl)

/-- What follows a null pointer is the call itself, or what comes after it. -/
theorem bind_ne_crash {x : Outcome α} {f : α → Outcome β} (hx : x ≠ crash)
    (hf : ∀ a, x = done a → f a ≠ crash) : (x >>= f) ≠ crash := by
  cases x with
  | done a => exact hf a rfl
  | abort => simp
  | crash => exact absurd rfl hx

end Outcome

end Base
