import Mathlib.Data.BitVec

/-!
# Wrapping counters

Counters of a fixed width `w` that wrap at `2 ^ w`.

*Queues.*  A queue that counts its insertions and removals in two wrapping
counters has its length as their difference, whatever the counters themselves
have wrapped to.  Read as a signed number the difference is the length as long
as the length stays below `2 ^ (w - 1)`.

*Serial numbers.*  A sender numbers its items `start, start + 1, ...` modulo
`2 ^ w`.  The distance of two numbers is the distance of the items modulo
`2 ^ w`, so a receiver sees a loss exactly when the number of lost items is not
a multiple of `2 ^ w`.
-/

namespace Base

/-! ## Queue lengths -/

/-- One more insertion is one more element. -/
theorem sub_eq_ofNat_succ {w n : Nat} {a r : BitVec w} (h : a - r = BitVec.ofNat w n) :
    a + 1 - r = BitVec.ofNat w (n + 1) := by
  rw [BitVec.ofNat_add, ← h, add_sub_right_comm]
  rfl

/-- One more removal is one element less. -/
theorem sub_succ_eq_ofNat {w n : Nat} {a r : BitVec w} (h : a - r = BitVec.ofNat w (n + 1)) :
    a - (r + 1) = BitVec.ofNat w n := by
  have h' : a - r - 1 = BitVec.ofNat w n := by
    rw [h, BitVec.ofNat_add]
    exact BitVec.add_sub_cancel _ _
  rw [← h', sub_sub]

/-- A length below half the range reads back as itself, signed. -/
theorem toInt_ofNat_of_lt {w n : Nat} (h : 2 * n < 2 ^ w) : (BitVec.ofNat w n).toInt = n := by
  have hn : n % 2 ^ w = n := Nat.mod_eq_of_lt (by omega)
  rw [BitVec.toInt_eq_toNat_cond, BitVec.toNat_ofNat, hn, if_pos h]

/-- Rounding the distance to a target down to a multiple of `k` reaches the
target when both ends are multiples of `k`. -/
theorem add_ofNat_div_mul {w k : Nat} {p a : BitVec w} (hw : k ∣ 2 ^ w)
    (hp : p.toNat % k = 0) (ha : a.toNat % k = 0) :
    p + BitVec.ofNat w ((a - p).toNat / k * k) = a := by
  have hpk : k ∣ p.toNat := Nat.dvd_of_mod_eq_zero hp
  have hak : k ∣ a.toNat := Nat.dvd_of_mod_eq_zero ha
  have hd : k ∣ (a - p).toNat := by
    rw [BitVec.toNat_sub]
    exact (Nat.dvd_mod_iff hw).mpr (Nat.dvd_add (Nat.dvd_sub hw hpk) hak)
  rw [Nat.div_mul_cancel hd, BitVec.ofNat_toNat, BitVec.setWidth_eq, BitVec.add_comm,
    BitVec.sub_add_cancel]

/-- Advancing by multiples of `k` keeps a counter a multiple of `k`. -/
theorem toNat_add_ofNat_mod {w k m : Nat} {p : BitVec w} (hw : k ∣ 2 ^ w)
    (hp : p.toNat % k = 0) (hm : k ∣ m) : (p + BitVec.ofNat w m).toNat % k = 0 := by
  rw [BitVec.toNat_add, BitVec.toNat_ofNat, Nat.add_mod_mod, Nat.mod_mod_of_dvd _ hw]
  exact Nat.mod_eq_zero_of_dvd (Nat.dvd_add (Nat.dvd_of_mod_eq_zero hp) hm)

/-! ## Serial numbers -/

/-- The number of item `j` of a sender that starts at `start`. -/
def serial {w : Nat} (start : BitVec w) (j : Nat) : BitVec w := start + BitVec.ofNat w j

/-- The distance of two serial numbers, less one, is the number of items between
them. -/
theorem serial_sub {w i j : Nat} (start : BitVec w) (h : i < j) :
    serial start j - serial start i - 1 = BitVec.ofNat w (j - i - 1) := by
  obtain ⟨k, rfl⟩ : ∃ k, j = i + (k + 1) := ⟨j - i - 1, by omega⟩
  have h1 : serial start (i + (k + 1)) - serial start i = BitVec.ofNat w (k + 1) := by
    rw [serial, serial, BitVec.ofNat_add i, ← BitVec.add_assoc]
    exact add_sub_cancel_left _ _
  rw [h1, BitVec.ofNat_add, show i + (k + 1) - i - 1 = k by omega]
  exact BitVec.add_sub_cancel _ _

/-- The next expected number differs from the one seen exactly when items are
missing modulo `2 ^ w`. -/
theorem serial_succ_ne_iff {w i j : Nat} (start : BitVec w) (h : i < j) :
    serial start i + 1 ≠ serial start j ↔ (j - i - 1) % 2 ^ w ≠ 0 := by
  have hd := serial_sub start h
  have hz : serial start i + 1 = serial start j ↔ BitVec.ofNat w (j - i - 1) = 0 := by
    rw [← hd]
    constructor
    · intro he
      rw [← he, sub_sub, sub_self]
    · intro he
      rw [sub_sub] at he
      exact (sub_eq_zero.mp he).symm
  rw [ne_eq, hz, ← BitVec.toNat_inj, BitVec.toNat_ofNat]
  simp

end Base
