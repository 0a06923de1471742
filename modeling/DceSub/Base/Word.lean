import Mathlib.Data.BitVec

/-!
# Machine words as numbers

Arithmetic on words of a fixed width, read as arithmetic on numbers while
nothing overflows: products, signed conversions to a wider type, the masks that
round down to a power of two, and the `|` that puts low bits below an aligned
word.
-/

namespace Base

/-! ## Products and conversions -/

/-- A number that fits the type. -/
theorem toNat_ofNat_of_lt {w n : Nat} (h : n < 2 ^ w) : (BitVec.ofNat w n).toNat = n := by
  rw [BitVec.toNat_ofNat, Nat.mod_eq_of_lt h]

/-- A product that fits its type. -/
theorem toNat_mul_of_lt {w : Nat} {x y : BitVec w} (h : x.toNat * y.toNat < 2 ^ w) :
    (x * y).toNat = x.toNat * y.toNat := by
  rw [BitVec.toNat_mul, Nat.mod_eq_of_lt h]

/-- A signed conversion of a number that is not negative. -/
theorem toNat_signExtend_of_lt {w v : Nat} {x : BitVec w} (hv : w ≤ v) (h : 2 * x.toNat < 2 ^ w) :
    (x.signExtend v).toNat = x.toNat := by
  have hmsb : x.msb = false := by
    rw [BitVec.msb_eq_decide, decide_eq_false_iff_not]
    cases w with
    | zero => omega
    | succ w =>
        rw [Nat.pow_succ] at h
        rw [Nat.add_sub_cancel]
        omega
  have hlt : x.toNat < 2 ^ v := Nat.lt_of_lt_of_le x.isLt (Nat.pow_le_pow_right (by decide) hv)
  rw [BitVec.signExtend_eq_setWidth_of_msb_false hmsb, BitVec.toNat_setWidth, Nat.mod_eq_of_lt hlt]

/-! ## Masks -/

/-- Clearing the low `k` bits rounds down to a multiple of `2 ^ k`. -/
theorem toNat_and_not_mask {w k : Nat} (x : BitVec w) :
    (x &&& ~~~(BitVec.ofNat w (2 ^ k - 1))).toNat = x.toNat / 2 ^ k * 2 ^ k := by
  have hmask : x &&& ~~~(BitVec.ofNat w (2 ^ k - 1)) = (x >>> k) <<< k := by
    apply BitVec.eq_of_getLsbD_eq
    intro i hi
    have hbit : (BitVec.ofNat w (2 ^ k - 1)).getLsbD i = decide (i < k) := by
      rw [BitVec.getLsbD_ofNat, Nat.testBit_two_pow_sub_one, decide_eq_true hi, Bool.true_and]
    rw [BitVec.getLsbD_and, BitVec.getLsbD_not, hbit, BitVec.getLsbD_shiftLeft,
      BitVec.getLsbD_ushiftRight]
    by_cases hik : i < k
    · simp [hik]
    · have hadd : k + (i - k) = i := by omega
      simp [hi, hik, hadd]
  have hle : x.toNat / 2 ^ k * 2 ^ k < 2 ^ w :=
    Nat.lt_of_le_of_lt (Nat.div_mul_le_self _ _) x.isLt
  rw [hmask, BitVec.toNat_shiftLeft, BitVec.toNat_ushiftRight, Nat.shiftLeft_eq,
    Nat.shiftRight_eq_div_pow, Nat.mod_eq_of_lt hle]

/-- The low `k` bits are the remainder. -/
theorem toNat_and_mask {w k : Nat} (x : BitVec w) (hk : k ≤ w) :
    (x &&& BitVec.ofNat w (2 ^ k - 1)).toNat = x.toNat % 2 ^ k := by
  have hpow : 2 ^ k ≤ 2 ^ w := Nat.pow_le_pow_right (by decide) hk
  have hpos : 0 < 2 ^ k := Nat.two_pow_pos k
  rw [BitVec.toNat_and, toNat_ofNat_of_lt (by omega), Nat.and_two_pow_sub_one_eq_mod]

/-- Low bits put below an aligned word are added to it. -/
theorem toNat_or_of_aligned {w k : Nat} {x y : BitVec w} (hx : x.toNat % 2 ^ k = 0)
    (hy : y.toNat < 2 ^ k) : (x ||| y).toNat = x.toNat + y.toNat := by
  have hdvd : 2 ^ k * (x.toNat / 2 ^ k) = x.toNat := by
    rw [Nat.mul_comm]
    exact Nat.div_mul_cancel (Nat.dvd_of_mod_eq_zero hx)
  have hor := Nat.two_pow_add_eq_or_of_lt hy (x.toNat / 2 ^ k)
  rw [hdvd] at hor
  rw [BitVec.toNat_or, hor]

end Base
