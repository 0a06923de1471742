import Mathlib.Algebra.Order.Field.Rat
import Mathlib.Algebra.Order.AbsoluteValue.Basic
import Mathlib.Tactic.FieldSimp
import Mathlib.Tactic.Linarith
import Mathlib.Tactic.Positivity
import DceSub.Base.Numeral

/-!
# Printing doubles

A double is given by its 64 bits.  The sign apart, the bits are a number that
grows with the magnitude: up to `infBits` it stands for a finite number, and the
magnitude is `scaled n` units of `2 ^ -1074` (`scaled_strictMono`).  At `infBits`
it is infinity, and above it are the NaNs.

`%.2f` prints the decimal nearest to the exact value, and the even one of two
that are equally near.  `Shown` is what is printed, before it is made a text, and
its text determines it (`Shown.text_inj`).  What is printed of a finite number is
off by half a unit of the last place at most (`shown_error`), and is any decimal
that the number is nearer to than that (`shown_of_near`).
-/

namespace Base

/-! ## Bits -/

/-- The bits without the sign. -/
def magBits (b : BitVec 64) : Nat := b.toNat % 2 ^ 63

/-- The sign. -/
def isNeg (b : BitVec 64) : Bool := 2 ^ 63 ≤ b.toNat

/-- The bits of infinity. -/
def infBits : Nat := 0x7ff0000000000000

/-- The magnitude of a finite number in units of `2 ^ -1074`. -/
def scaled (n : Nat) : Nat :=
  if n / 2 ^ 52 = 0 then n else (2 ^ 52 + n % 2 ^ 52) * 2 ^ (n / 2 ^ 52 - 1)

/-- The units in 1. -/
@[irreducible] def unitsPerOne : Nat := 2 ^ 1074

theorem unitsPerOne_pos : 0 < unitsPerOne := by
  unfold unitsPerOne
  apply Nat.pow_pos
  decide

theorem unitsPerOne_eq {i j : Nat} (h : i + j = 1074) : unitsPerOne = 2 ^ i * 2 ^ j := by
  unfold unitsPerOne
  exact (congrArg (2 ^ ·) h.symm).trans (Nat.pow_add ..)

/-- The magnitude grows with the bits. -/
theorem scaled_strictMono : StrictMono scaled := by
  refine strictMono_nat_of_lt_succ fun n => ?_
  by_cases hcarry : n % 2 ^ 52 + 1 < 2 ^ 52
  · have hdiv : (n + 1) / 2 ^ 52 = n / 2 ^ 52 := by omega
    have hmod : (n + 1) % 2 ^ 52 = n % 2 ^ 52 + 1 := by omega
    rw [scaled, scaled, hdiv, hmod]
    split
    · omega
    · exact Nat.mul_lt_mul_of_pos_right (by omega) (Nat.two_pow_pos _)
  · -- the fraction runs over into the exponent
    have hdiv : (n + 1) / 2 ^ 52 = n / 2 ^ 52 + 1 := by omega
    have hmod : (n + 1) % 2 ^ 52 = 0 := by omega
    rw [scaled, scaled, hdiv, hmod, if_neg (Nat.succ_ne_zero _), Nat.add_sub_cancel, Nat.add_zero]
    split
    next hzero =>
      rw [hzero, Nat.pow_zero, Nat.mul_one]
      omega
    next hpos =>
      obtain ⟨e, he⟩ : ∃ e, n / 2 ^ 52 = e + 1 := ⟨n / 2 ^ 52 - 1, by omega⟩
      have hpow : 2 ^ (e + 1) = 2 * 2 ^ e := Nat.pow_succ'
      rw [he, Nat.add_sub_cancel, hpow, ← Nat.mul_assoc]
      exact Nat.mul_lt_mul_of_pos_right (by omega) (Nat.two_pow_pos _)

/-- The value of a finite number. -/
def value (b : BitVec 64) : ℚ :=
  (if isNeg b then -1 else 1) * (scaled (magBits b) / unitsPerOne)

/-! ## Rounding -/

/-- The integer nearest to `num / den`, and the even one of two. -/
def roundHalfEven (num den : Nat) : Nat :=
  if 2 * (num % den) < den then num / den
  else if den < 2 * (num % den) then num / den + 1
  else num / den + num / den % 2

/-- Nearest: off by half at most. -/
theorem roundHalfEven_error (num : Nat) {den : Nat} (hden : 0 < den) :
    2 * num ≤ 2 * (roundHalfEven num den * den) + den ∧
      2 * (roundHalfEven num den * den) ≤ 2 * num + den := by
  have hdiv := Nat.div_add_mod num den
  rw [Nat.mul_comm] at hdiv
  rw [roundHalfEven]
  split
  next h => omega
  next h =>
    split
    next h' =>
      rw [Nat.add_mul]
      have hlt : num % den < den := Nat.mod_lt num hden
      omega
    next h' =>
      rw [Nat.add_mul]
      rcases Nat.mod_two_eq_zero_or_one (num / den) with h0 | h1
      · rw [h0, Nat.zero_mul]
        omega
      · rw [h1, Nat.one_mul]
        omega

/-- A number nearer than half is the nearest. -/
theorem roundHalfEven_of_near {num den t : Nat} (hlo : 2 * (t * den) < 2 * num + den)
    (hhi : 2 * num < 2 * (t * den) + den) : roundHalfEven num den = t := by
  have hden : 0 < den := by omega
  obtain ⟨h₁, h₂⟩ := roundHalfEven_error num hden
  generalize roundHalfEven num den = q at h₁ h₂
  by_contra hne
  rcases Nat.lt_or_gt_of_ne hne with hlt | hgt
  · have hmul : q * den + den ≤ t * den := by
      rw [← Nat.succ_mul]
      exact Nat.mul_le_mul_right den hlt
    omega
  · have hmul : t * den + den ≤ q * den := by
      rw [← Nat.succ_mul]
      exact Nat.mul_le_mul_right den hgt
    omega

/-- Rounding does not pass an integer. -/
theorem roundHalfEven_le {num den t : Nat} (hden : 0 < den) (h : num ≤ t * den) :
    roundHalfEven num den ≤ t := by
  obtain ⟨-, h₂⟩ := roundHalfEven_error num hden
  by_contra hgt
  have hmul : t * den + den ≤ roundHalfEven num den * den := by
    rw [← Nat.succ_mul]
    exact Nat.mul_le_mul_right den (by omega)
  omega

/-! ## What is printed -/

/-- What `%.pf` prints of a double. -/
inductive Shown where
  /-- So many units of the last place. -/
  | num (neg : Bool) (units : Nat)
  | inf (neg : Bool)
  | nan (neg : Bool)
deriving DecidableEq

/-- `%.pf`, before it is made a text. -/
def shown (p : Nat) (b : BitVec 64) : Shown :=
  if magBits b < infBits then
    .num (isNeg b) (roundHalfEven (scaled (magBits b) * 10 ^ p) unitsPerOne)
  else if magBits b = infBits then .inf (isNeg b)
  else .nan (isNeg b)

/-- The last `p` digits of a number. -/
def fracDigits : Nat → Nat → Text
  | 0, _ => []
  | p + 1, m => fracDigits p (m / 10) ++ [(m % 10).digitChar]

/-- The sign of what is printed. -/
def Shown.neg : Shown → Bool
  | num neg _ | inf neg | nan neg => neg

/-- What is printed behind the sign, with `p` places behind the point. -/
def Shown.body (p : Nat) : Shown → Text
  | num _ units => Nat.toDigits 10 (units / 10 ^ p) ++ '.' :: fracDigits p units
  | inf _ => "inf".toList
  | nan _ => "nan".toList

/-- What is printed. -/
def Shown.text (p : Nat) (s : Shown) : Text := (if s.neg then ['-'] else []) ++ s.body p

/-- `%.pf`, for a `p` that is not 0. -/
def printDouble (p : Nat) (b : BitVec 64) : Text := (shown p b).text p

/-- The number that is printed, if it is one. -/
def Shown.value (p : Nat) : Shown → Option ℚ
  | num neg units => some ((if neg then -1 else 1) * (units / 10 ^ p))
  | _ => none

section

variable {p : Nat} {b : BitVec 64}

theorem shown_of_finite (h : magBits b < infBits) :
    shown p b = .num (isNeg b) (roundHalfEven (scaled (magBits b) * 10 ^ p) unitsPerOne) :=
  if_pos h

/-- A finite number is printed with an error of half a unit of the last place at
most. -/
theorem shown_error (h : magBits b < infBits) :
    ∃ v, (shown p b).value p = some v ∧ |v - value b| ≤ 1 / (2 * 10 ^ p) := by
  rw [shown_of_finite h]
  refine ⟨_, rfl, ?_⟩
  obtain ⟨h₁, h₂⟩ := roundHalfEven_error (scaled (magBits b) * 10 ^ p) unitsPerOne_pos
  generalize roundHalfEven (scaled (magBits b) * 10 ^ p) unitsPerOne = k at h₁ h₂
  rw [value, ← mul_sub, abs_mul]
  have hsign : |(if isNeg b then -1 else 1 : ℚ)| = 1 := by split <;> simp
  have hu : (0 : ℚ) < unitsPerOne := Nat.cast_pos.mpr unitsPerOne_pos
  have hp : (0 : ℚ) < 10 ^ p := by positivity
  have h₁' : (2 * (scaled (magBits b) * 10 ^ p) : ℚ) ≤ 2 * (k * unitsPerOne) + unitsPerOne := by
    exact_mod_cast h₁
  have h₂' : (2 * (k * unitsPerOne) : ℚ) ≤ 2 * (scaled (magBits b) * 10 ^ p) + unitsPerOne := by
    exact_mod_cast h₂
  have hdiff : (k / 10 ^ p - scaled (magBits b) / unitsPerOne : ℚ) =
      (k * unitsPerOne - scaled (magBits b) * 10 ^ p) / (10 ^ p * unitsPerOne) := by
    field_simp
  rw [hsign, one_mul, hdiff, abs_le, le_div_iff₀ (mul_pos hp hu), div_le_iff₀ (mul_pos hp hu)]
  have hhalf : (1 / (2 * 10 ^ p) * (10 ^ p * unitsPerOne) : ℚ) = unitsPerOne / 2 := by
    field_simp
  rw [neg_mul, hhalf]
  constructor <;> linarith

/-- A decimal that is nearer than half a unit of the last place is printed. -/
theorem shown_of_near (h : magBits b < infBits) {t : Nat}
    (hnear : |value b - (if isNeg b then -1 else 1) * (t / 10 ^ p)| < 1 / (2 * 10 ^ p)) :
    shown p b = .num (isNeg b) t := by
  have hsign : |(if isNeg b then -1 else 1 : ℚ)| = 1 := by split <;> simp
  have hu : (0 : ℚ) < unitsPerOne := Nat.cast_pos.mpr unitsPerOne_pos
  have hp : (0 : ℚ) < 10 ^ p := by positivity
  have hdiff : (scaled (magBits b) / unitsPerOne - t / 10 ^ p : ℚ) =
      (scaled (magBits b) * 10 ^ p - t * unitsPerOne) / (10 ^ p * unitsPerOne) := by
    field_simp
  have hhalf : (1 / (2 * 10 ^ p) * (10 ^ p * unitsPerOne) : ℚ) = unitsPerOne / 2 := by
    field_simp
  rw [value, ← mul_sub, abs_mul, hsign, one_mul, hdiff, abs_lt, lt_div_iff₀ (mul_pos hp hu),
    div_lt_iff₀ (mul_pos hp hu), neg_mul, hhalf] at hnear
  obtain ⟨hlo, hhi⟩ := hnear
  have hlo' : (2 * (t * unitsPerOne) : ℚ) < 2 * (scaled (magBits b) * 10 ^ p) + unitsPerOne := by
    linarith
  have hhi' : (2 * (scaled (magBits b) * 10 ^ p) : ℚ) < 2 * (t * unitsPerOne) + unitsPerOne := by
    linarith
  rw [shown_of_finite h, roundHalfEven_of_near (by exact_mod_cast hlo') (by exact_mod_cast hhi')]

/-- Rounding does not take a magnitude past a whole number. -/
theorem shown_le {t : Nat} (h : magBits b < infBits)
    (hle : scaled (magBits b) ≤ t * unitsPerOne) :
    ∃ k, shown p b = .num (isNeg b) k ∧ k ≤ t * 10 ^ p := by
  refine ⟨_, shown_of_finite h, roundHalfEven_le unitsPerOne_pos ?_⟩
  calc scaled (magBits b) * 10 ^ p
      ≤ t * unitsPerOne * 10 ^ p := Nat.mul_le_mul_right _ hle
    _ = t * 10 ^ p * unitsPerOne := Nat.mul_right_comm ..

end

/-! ## Texts -/

/-- The characters `%.pf` prints. -/
def isDoubleChar (c : Char) : Bool := isDigit 10 c || c ∈ "-.infa".toList

theorem isDigit_digitChar {d : Nat} (h : d < 10) : isDigit 10 d.digitChar = true := by
  rw [isDigit, digitVal_digitChar d (by omega)]
  exact decide_eq_true h

theorem isDigit_of_mem_fracDigits {p m : Nat} {c : Char} (h : c ∈ fracDigits p m) :
    isDigit 10 c = true := by
  induction p generalizing m with
  | zero => cases h
  | succ p ih =>
      rw [fracDigits, List.mem_append, List.mem_singleton] at h
      rcases h with h | rfl
      · exact ih h
      · exact isDigit_digitChar (Nat.mod_lt _ (by decide))

theorem digitsVal_fracDigits (p m : Nat) : digitsVal 10 (fracDigits p m) = m % 10 ^ p := by
  induction p generalizing m with
  | zero => exact (Nat.mod_one m).symm
  | succ p ih =>
      have hlt := Nat.mod_lt m (by decide : 10 > 0)
      rw [fracDigits, digitsVal_concat, ih, digitVal_digitChar _ (by omega), Nat.pow_succ',
        Nat.mod_mul, Nat.add_comm]

theorem Shown.mem_body {p : Nat} {s : Shown} {c : Char} (h : c ∈ s.body p) :
    isDigit 10 c = true ∨ c ∈ ".infa".toList := by
  cases s with
  | num neg units =>
      rw [Shown.body, List.mem_append, List.mem_cons] at h
      rcases h with h | rfl | h
      · exact .inl (Base.isDigit_of_mem_toDigits h)
      · exact .inr (by decide)
      · exact .inl (isDigit_of_mem_fracDigits h)
  | inf neg =>
      have hall : ∀ c ∈ "inf".toList, c ∈ ".infa".toList := forall_mem_of_all (by decide)
      exact .inr (hall c h)
  | nan neg =>
      have hall : ∀ c ∈ "nan".toList, c ∈ ".infa".toList := forall_mem_of_all (by decide)
      exact .inr (hall c h)

theorem Shown.mem_text {p : Nat} {s : Shown} {c : Char} (h : c ∈ s.text p) :
    isDoubleChar c = true := by
  rw [isDoubleChar, Bool.or_eq_true, decide_eq_true_iff]
  rcases List.mem_append.mp h with h | h
  · split at h
    · obtain rfl := List.mem_singleton.mp h
      exact .inr (by decide)
    · cases h
  · rcases s.mem_body h with h | h
    · exact .inl h
    · have hall : ∀ c ∈ ".infa".toList, c ∈ "-.infa".toList := forall_mem_of_all (by decide)
      exact .inr (hall c h)

theorem Shown.minus_notMem_body (p : Nat) (s : Shown) : '-' ∉ s.body p := by
  intro h
  rcases s.mem_body h with h | h
  · exact absurd h (by decide)
  · exact absurd h (by decide)

/-- The text of a number without its sign determines its digits. -/
theorem num_body_inj {p units units' : Nat} {neg neg' : Bool}
    (h : (Shown.num neg units).body p = (Shown.num neg' units').body p) : units = units' := by
  have hpoint : ∀ n, '.' ∉ Nat.toDigits 10 n := by
    intro n hmem
    exact absurd (Base.isDigit_of_mem_toDigits hmem) (by decide)
  obtain ⟨hint, hfrac⟩ := append_sep_inj (hpoint _) (hpoint _) h
  have hdiv := congrArg (digitsVal 10) hint
  have hmod := congrArg (digitsVal 10) hfrac
  rw [digitsVal_toDigits, digitsVal_toDigits] at hdiv
  rw [digitsVal_fracDigits, digitsVal_fracDigits] at hmod
  rw [← Nat.div_add_mod units (10 ^ p), hdiv, hmod, Nat.div_add_mod]

theorem point_mem_body (p units : Nat) (neg : Bool) : '.' ∈ (Shown.num neg units).body p := by
  simp [Shown.body]

/-- What is printed is determined by its text. -/
theorem Shown.text_inj {p : Nat} {s s' : Shown} (h : s.text p = s'.text p) : s = s' := by
  -- the sign, by the only character that can be a minus
  have hneg : ∀ s : Shown, '-' ∈ s.text p ↔ s.neg = true := by
    intro s
    rw [Shown.text, List.mem_append]
    cases s.neg <;> simp [s.minus_notMem_body p]
  have hsign : s.neg = s'.neg := Bool.eq_iff_iff.mpr (by rw [← hneg s, ← hneg s', h])
  have hbody : s.body p = s'.body p := by
    rw [Shown.text, Shown.text, hsign] at h
    exact List.append_cancel_left h
  have hinf : '.' ∉ "inf".toList := by decide
  have hnan : '.' ∉ "nan".toList := by decide
  have hne : "inf".toList ≠ "nan".toList := by decide
  cases s with
  | num neg units =>
      have hmem := point_mem_body p units neg
      rw [hbody] at hmem
      cases s' with
      | num neg' units' =>
          obtain rfl := num_body_inj hbody
          exact congrArg (Shown.num · units) hsign
      | inf => exact absurd hmem hinf
      | nan => exact absurd hmem hnan
  | inf neg =>
      cases s' with
      | num neg' units' =>
          have hmem := point_mem_body p units' neg'
          rw [← hbody] at hmem
          exact absurd hmem hinf
      | inf => exact congrArg Shown.inf hsign
      | nan => exact absurd hbody hne
  | nan neg =>
      cases s' with
      | num neg' units' =>
          have hmem := point_mem_body p units' neg'
          rw [← hbody] at hmem
          exact absurd hmem hnan
      | inf => exact absurd hbody.symm hne
      | nan => exact congrArg Shown.nan hsign

end Base
