import Mathlib.Data.List.Perm.Basic

/-!
# Slots handed round

A fixed set of slots goes round between two parties.  The receiver keeps some
of them free and posts others on a ring, in order; the sender fills the posted
slots in that order; the receiver takes filled slots off the ring, reads them
one by one and frees each one it has read.

`Pool` is who has which slot.  A `Move` hands slots from one place to the next
and so permutes them (`Move.perm`).  `Mailbox` adds what is in the slots.  Its
sender overwrites whatever a slot holds, so that a value is safe only as long as
its slot is in one place: if no slot is in two places, the values read so far
and those still to be read are, in order, the values sent (`Step.fifo`).
-/

namespace Base

variable {α β : Type}

/-- Where the slots are. -/
structure Pool (α : Type) where
  free : List α
  /-- Posted, oldest first. -/
  ring : List α
  /-- Taken off the ring and not yet read. -/
  held : List α
deriving DecidableEq

namespace Pool

/-- All slots. -/
def all (p : Pool α) : List α := p.free ++ (p.ring ++ p.held)

/-- Slots go from the free list to the ring, from the ring to the reader, and
back to the free list. -/
inductive Move (p : Pool α) : Pool α → Prop where
  | post (l free : List α) : p.free = l ++ free → Move p ⟨free, p.ring ++ l, p.held⟩
  | take (l ring : List α) : p.ring = l ++ ring → Move p ⟨p.free, ring, p.held ++ l⟩
  | release (a : α) (held : List α) : p.held = a :: held → Move p ⟨a :: p.free, p.ring, held⟩

/-- A move neither loses nor duplicates a slot. -/
theorem Move.perm {p q : Pool α} (h : Move p q) : q.all.Perm p.all := by
  cases h with
  | post l free hfree =>
      simp only [all, hfree]
      have hring : (p.ring ++ l ++ p.held).Perm (l ++ (p.ring ++ p.held)) := by
        rw [← List.append_assoc l]
        exact List.perm_append_comm.append_right p.held
      have hmove : (free ++ (l ++ (p.ring ++ p.held))).Perm (l ++ free ++ (p.ring ++ p.held)) := by
        rw [← List.append_assoc]
        exact List.perm_append_comm.append_right (p.ring ++ p.held)
      exact (hring.append_left free).trans hmove
  | take l ring hring =>
      simp only [all, hring]
      refine List.Perm.append_left p.free ?_
      rw [← List.append_assoc, List.append_assoc l]
      exact List.perm_append_comm
  | release a held hheld =>
      simp only [all, hheld]
      rw [← List.append_assoc, ← List.append_assoc p.free]
      exact List.perm_middle.symm

/-- A slot of the ring is neither held nor on the ring twice. -/
theorem not_mem_of_ring {p : Pool α} (h : p.all.Nodup) {a : α} {before after : List α}
    (hring : p.ring = before ++ a :: after) : a ∉ p.held ++ before := by
  simp only [all, hring, List.nodup_append, List.mem_append, List.mem_cons] at h
  rw [List.mem_append]
  rintro (ha | ha)
  · exact h.2.1.2.2 a (.inr (.inl rfl)) a ha rfl
  · exact h.2.1.1.2.2 a ha a (.inl rfl) rfl

end Pool

/-! ## Contents -/

/-- Slots with their contents, and what has been sent and read. -/
structure Mailbox (α β : Type) where
  pool : Pool α
  /-- How many slots at the head of the ring are filled. -/
  filled : Nat
  val : α → β
  sent : List β
  read : List β

namespace Mailbox

variable [DecidableEq α]

/-- The receiver moves slots and reads those it frees, the sender fills the
oldest empty slot of the ring. -/
inductive Step (m : Mailbox α β) : Mailbox α β → Prop where
  | post (l free : List α) : m.pool.free = l ++ free →
      Step m { m with pool := ⟨free, m.pool.ring ++ l, m.pool.held⟩ }
  | fill (b : β) (a : α) (before after : List α) : m.pool.ring = before ++ a :: after →
      m.filled = before.length →
      Step m { m with
        filled := m.filled + 1
        val := Function.update m.val a b
        sent := m.sent ++ [b] }
  | take (l ring : List α) : m.pool.ring = l ++ ring → l.length ≤ m.filled →
      Step m { m with
        pool := ⟨m.pool.free, ring, m.pool.held ++ l⟩
        filled := m.filled - l.length }
  | release (a : α) (held : List α) : m.pool.held = a :: held →
      Step m { m with
        pool := ⟨a :: m.pool.free, m.pool.ring, held⟩
        read := m.read ++ [m.val a] }

/-- What is filled and not yet read, in order. -/
def unread (m : Mailbox α β) : List β := (m.pool.held ++ m.pool.ring.take m.filled).map m.val

/-- No slot is in two places, and what was sent has been read or is unread. -/
structure Fifo (m : Mailbox α β) : Prop where
  nodup : m.pool.all.Nodup
  filled : m.filled ≤ m.pool.ring.length
  order : m.read ++ m.unread = m.sent

theorem Step.all_perm {m m' : Mailbox α β} (h : Step m m') : m'.pool.all.Perm m.pool.all := by
  cases h with
  | post l free hfree => exact (Pool.Move.post l free hfree).perm
  | fill => exact List.Perm.refl _
  | take l ring hring => exact (Pool.Move.take l ring hring).perm
  | release a held hheld => exact (Pool.Move.release a held hheld).perm

/-- A step keeps the order.  Only `fill` writes, and to a slot that holds
nothing unread, because that slot is further down the ring. -/
theorem Step.fifo {m m' : Mailbox α β} (h : Step m m') (hm : m.Fifo) : m'.Fifo := by
  have hnodup : m'.pool.all.Nodup := h.all_perm.nodup_iff.mpr hm.nodup
  have hfilled := hm.filled
  have horder := hm.order
  cases h with
  | post l free hfree =>
      refine ⟨hnodup, ?_, ?_⟩
      · simp only [List.length_append]
        omega
      · simp only [unread, List.take_append_of_le_length hfilled] at horder ⊢
        exact horder
  | fill b a before after hring hbefore =>
      have hnew := Pool.not_mem_of_ring hm.nodup hring
      refine ⟨hnodup, ?_, ?_⟩
      · simp only [hring, hbefore, List.length_append, List.length_cons]
        omega
      · have hsame : (m.pool.held ++ before).map (Function.update m.val a b) =
            (m.pool.held ++ before).map m.val := by
          apply List.map_congr_left
          intro x hx
          refine Function.update_of_ne ?_ _ _
          rintro rfl
          exact hnew hx
        have htake : (before ++ a :: after).take (before.length + 1) = before ++ [a] := by
          rw [List.take_length_add_append, List.take_succ_cons, List.take_zero]
        simp only [unread, hring, hbefore, List.take_left, htake] at horder ⊢
        rw [← List.append_assoc m.pool.held, List.map_append, hsame, ← List.append_assoc m.read,
          horder, List.map_singleton, Function.update_self]
  | take l ring hring hle =>
      refine ⟨hnodup, ?_, ?_⟩
      · simp only [hring, List.length_append] at hfilled ⊢
        omega
      · have htake : (l ++ ring).take m.filled = l ++ ring.take (m.filled - l.length) := by
          rw [List.take_append, List.take_of_length_le hle]
        simp only [unread, hring, htake] at horder ⊢
        rw [List.append_assoc]
        exact horder
  | release a held hheld =>
      refine ⟨hnodup, hfilled, ?_⟩
      simp only [unread, hheld, List.cons_append, List.map_cons] at horder ⊢
      rw [List.append_assoc]
      exact horder

end Mailbox

end Base
