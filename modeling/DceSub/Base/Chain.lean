import Mathlib.Logic.Function.Basic

/-!
# Linked lists in a heap

A singly linked list is a head pointer and a `next` field per cell.  The cells
are of an arbitrary type `α` of addresses, `none` is the null pointer, and
`Chain next head l` says that following `next` from `head` visits exactly the
cells `l` and ends in null.

Pushing a cell that is not on the list is `Chain.push`, and popping is
`chain_cons`.  A write to a cell off the list does not disturb it
(`Chain.congr`).
-/

namespace Base

variable {α : Type}

/-- `l` is the list of cells reached from `head` along `next`. -/
def Chain (next : α → Option α) : Option α → List α → Prop
  | head, [] => head = none
  | head, a :: l => head = some a ∧ Chain next (next a) l
termination_by structural _ l => l

@[simp] theorem chain_nil {next : α → Option α} {head : Option α} :
    Chain next head [] ↔ head = none := Iff.rfl

@[simp] theorem chain_cons {next : α → Option α} {head : Option α} {a : α} {l : List α} :
    Chain next head (a :: l) ↔ head = some a ∧ Chain next (next a) l := Iff.rfl

/-- Whether a list is the chain can be checked by following it. -/
def decideChain [DecidableEq α] (next : α → Option α) :
    (head : Option α) → (l : List α) → Decidable (Chain next head l)
  | head, [] => inferInstanceAs (Decidable (head = none))
  | head, a :: l =>
      have := decideChain next (next a) l
      inferInstanceAs (Decidable (head = some a ∧ Chain next (next a) l))
termination_by structural _ l => l

instance [DecidableEq α] {next : α → Option α} {head : Option α} {l : List α} :
    Decidable (Chain next head l) := decideChain next head l

/-- A chain survives any change of `next` off its cells. -/
theorem Chain.congr {next next' : α → Option α} {l : List α} {head : Option α}
    (heq : ∀ a ∈ l, next' a = next a) (h : Chain next head l) : Chain next' head l := by
  induction l generalizing head with
  | nil => exact h
  | cons a l ih =>
      refine ⟨h.1, ?_⟩
      rw [heq a (List.mem_cons_self ..)]
      exact ih (fun b hb => heq b (List.mem_cons_of_mem _ hb)) h.2

/-- A cell off the list, once its `next` is the old head, heads the longer
list. -/
theorem Chain.push [DecidableEq α] {next : α → Option α} {head : Option α} {a : α} {l : List α}
    (h : Chain next head l) (ha : a ∉ l) :
    Chain (Function.update next a head) (some a) (a :: l) := by
  refine ⟨rfl, ?_⟩
  rw [Function.update_self]
  refine h.congr (fun b hb => ?_)
  rw [Function.update_of_ne]
  intro hba
  exact ha (hba ▸ hb)

end Base
