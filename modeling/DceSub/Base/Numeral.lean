import Mathlib.Data.BitVec
import Mathlib.Data.List.TakeWhile
import DceSub.Base.Strtok

/-!
# Numbers in C strings

`strtol` skips blanks, takes a sign, and reads the longest run of digits behind
it; in base 16 a leading `0x` is skipped.  It gives the value, clamped to the
range of a `long`, and the string behind the digits.  A string that does not
start with a number has the value 0 and is left as it is.  `atoi` is `strtol` in
base 10, cut to an `int`.

`strtol_digits` reads a given run of digits.  Its instances are `strtol_numeral`
for the usual decimal numeral of a number, and `strtol_hex` for the two
hexadecimal digits of a byte.
-/

namespace Base

/-! ## Reading -/

/-- `isspace`. -/
def isSpace (c : Char) : Bool := c = ' ' ∨ (9 ≤ c.toNat ∧ c.toNat ≤ 13)

/-- The value of a character as a digit; 36 if it is no digit in any base. -/
def digitVal (c : Char) : Nat :=
  if '0' ≤ c ∧ c ≤ '9' then c.toNat - 48
  else if 'a' ≤ c ∧ c ≤ 'z' then c.toNat - 87
  else if 'A' ≤ c ∧ c ≤ 'Z' then c.toNat - 55
  else 36

/-- A digit of the base. -/
def isDigit (base : Nat) (c : Char) : Bool := digitVal c < base

/-- The value of a run of digits. -/
def digitsVal (base : Nat) (ds : Text) : Nat := ds.foldl (fun v c => base * v + digitVal c) 0

/-- The nearest `long`. -/
def clampLong (v : Int) : Int := max (-2 ^ 63) (min v (2 ^ 63 - 1))

/-- The sign in front of a number, and what is behind it. -/
def takeSign (s : Text) : Bool × Text :=
  if s.head? = some '-' then (true, s.tail)
  else if s.head? = some '+' then (false, s.tail)
  else (false, s)

/-- In base 16, `0x` in front of a digit is skipped. -/
def skipHex (base : Nat) (s : Text) : Text :=
  if base = 16 ∧ s.head? = some '0' ∧ (s[1]? = some 'x' ∨ s[1]? = some 'X') ∧
      (s[2]?.any (isDigit 16)) = true then s.drop 2
  else s

/-- `strtol(s, &end, base)`: the value, and `end`. -/
def strtol (base : Nat) (s : Text) : Int × Text :=
  let sign := takeSign (s.dropWhile isSpace)
  let t := skipHex base sign.2
  if t.takeWhile (isDigit base) = [] then (0, s)
  else
    let v : Int := digitsVal base (t.takeWhile (isDigit base))
    (clampLong (if sign.1 then -v else v), t.dropWhile (isDigit base))

/-- `(int) v`. -/
def toInt32 (v : Int) : Int := (BitVec.ofInt 32 v).toInt

/-- `atoi(s)`. -/
def atoi (s : Text) : Int := toInt32 (strtol 10 s).1

theorem toInt32_of_range {v : Int} (hlo : -2 ^ 31 ≤ v) (hhi : v < 2 ^ 31) : toInt32 v = v := by
  rw [toInt32, BitVec.toInt_ofInt, Int.bmod_def]
  omega

theorem toInt32_range (v : Int) : -2 ^ 31 ≤ toInt32 v ∧ toInt32 v < 2 ^ 31 := by
  have h := (BitVec.ofInt 32 v).toInt_lt
  have h' := (BitVec.ofInt 32 v).le_toInt
  exact ⟨h', h⟩

/-! ## A run of digits -/

/-- The string does not go on with a digit. -/
def Ends (base : Nat) (s : Text) : Prop := ∀ c, s.head? = some c → isDigit base c = false

theorem ends_nil (base : Nat) : Ends base [] := by
  intro c hc
  cases hc

theorem takeWhile_digits {base : Nat} {ds rest : Text} (hds : ∀ c ∈ ds, isDigit base c = true)
    (hrest : Ends base rest) : (ds ++ rest).takeWhile (isDigit base) = ds := by
  rw [List.takeWhile_append_of_pos hds]
  cases rest with
  | nil => exact List.append_nil _
  | cons c cs => rw [List.takeWhile_cons_of_neg (by rw [hrest c rfl]; decide), List.append_nil]

theorem dropWhile_digits {base : Nat} {ds rest : Text} (hds : ∀ c ∈ ds, isDigit base c = true)
    (hrest : Ends base rest) : (ds ++ rest).dropWhile (isDigit base) = rest := by
  rw [List.dropWhile_append_of_pos hds]
  cases rest with
  | nil => rfl
  | cons c cs => rw [List.dropWhile_cons_of_neg (by rw [hrest c rfl]; decide)]

/-- A character that is a digit is neither a blank nor a sign. -/
theorem isDigit_plain {base : Nat} (hbase : base ≤ 36) {c : Char} (h : isDigit base c = true) :
    isSpace c = false ∧ c ≠ '-' ∧ c ≠ '+' := by
  have hlt : digitVal c < 36 := lt_of_lt_of_le (of_decide_eq_true h) hbase
  have hrange : 48 ≤ c.toNat := by
    unfold digitVal at hlt
    split at hlt
    next hc => exact hc.1
    next =>
      split at hlt
      next hc => exact le_trans (by decide) hc.1
      next =>
        split at hlt
        next hc => exact le_trans (by decide) hc.1
        next => omega
  refine ⟨?_, ?_, ?_⟩
  · rw [isSpace, decide_eq_false_iff_not]
    rintro (rfl | hc)
    · exact absurd hrange (by decide)
    · omega
  · rintro rfl
    exact absurd hrange (by decide)
  · rintro rfl
    exact absurd hrange (by decide)

/-- A run of digits that nothing precedes is read to its end. -/
theorem strtol_digits {base : Nat} {ds rest : Text} (hbase : base ≤ 36) (hne : ds ≠ [])
    (hds : ∀ c ∈ ds, isDigit base c = true) (hrest : Ends base rest)
    (hskip : skipHex base (ds ++ rest) = ds ++ rest) :
    strtol base (ds ++ rest) = (clampLong (digitsVal base ds), rest) := by
  obtain ⟨d, ds', rfl⟩ := List.exists_cons_of_ne_nil hne
  obtain ⟨hspace, hminus, hplus⟩ := isDigit_plain hbase (hds d (List.mem_cons_self ..))
  have hblank : (d :: ds' ++ rest).dropWhile isSpace = d :: ds' ++ rest := by
    rw [List.cons_append, List.dropWhile_cons_of_neg (by rw [hspace]; decide)]
  have hsign : takeSign (d :: ds' ++ rest) = (false, d :: ds' ++ rest) := by
    simp [takeSign, hminus, hplus]
  rw [strtol]
  simp only [hblank, hsign, hskip, takeWhile_digits hds hrest, dropWhile_digits hds hrest,
    if_neg hne, Bool.false_eq_true, if_false]

/-- A run of digits behind a minus sign. -/
theorem strtol_neg_digits {base : Nat} {ds rest : Text} (hne : ds ≠ [])
    (hds : ∀ c ∈ ds, isDigit base c = true) (hrest : Ends base rest)
    (hskip : skipHex base (ds ++ rest) = ds ++ rest) :
    strtol base ('-' :: (ds ++ rest)) = (clampLong (-(digitsVal base ds : Int)), rest) := by
  have hblank : ('-' :: (ds ++ rest)).dropWhile isSpace = '-' :: (ds ++ rest) :=
    List.dropWhile_cons_of_neg (by decide)
  have hsign : takeSign ('-' :: (ds ++ rest)) = (true, ds ++ rest) := rfl
  rw [strtol]
  simp only [hblank, hsign, hskip, takeWhile_digits hds hrest, dropWhile_digits hds hrest,
    if_neg hne, if_true]

/-! ## Decimal numerals -/

theorem digitVal_digitChar : ∀ d, d < 16 → digitVal d.digitChar = d := by decide

theorem isDigit_of_mem_toDigits {n : Nat} {c : Char} (h : c ∈ Nat.toDigits 10 n) :
    isDigit 10 c = true := by
  have hc := Nat.isDigit_of_mem_toDigits (by decide) (by decide) h
  rw [Char.isDigit, Bool.and_eq_true, decide_eq_true_iff, decide_eq_true_iff] at hc
  have hle : '0' ≤ c ∧ c ≤ '9' := hc
  have h9 : c.toNat ≤ 57 := hle.2
  rw [isDigit, digitVal, if_pos hle]
  exact decide_eq_true (by omega)

theorem digitsVal_concat (base : Nat) (ds : Text) (c : Char) :
    digitsVal base (ds ++ [c]) = base * digitsVal base ds + digitVal c := by
  rw [digitsVal, List.foldl_append]
  rfl

/-- The decimal numeral of a number has its value. -/
theorem digitsVal_toDigits (n : Nat) : digitsVal 10 (Nat.toDigits 10 n) = n := by
  induction n using Nat.strongRecOn with
  | _ n ih =>
      by_cases hn : n < 10
      · rw [Nat.toDigits_of_lt_base hn]
        exact (Nat.zero_add _).trans (digitVal_digitChar n (by omega))
      · rw [Nat.toDigits_of_base_le (by decide) (by omega), digitsVal_concat, ih _ (by omega),
          digitVal_digitChar _ (by omega)]
        omega

/-- What `%d` prints. -/
def numeral (z : Int) : Text :=
  if z < 0 then '-' :: Nat.toDigits 10 z.natAbs else Nat.toDigits 10 z.natAbs

theorem skipHex_of_ne {base : Nat} (h : base ≠ 16) (s : Text) : skipHex base s = s :=
  if_neg fun hs => h hs.1

/-- A decimal numeral is read to its end. -/
theorem strtol_numeral (z : Int) {rest : Text} (hrest : Ends 10 rest) :
    strtol 10 (numeral z ++ rest) = (clampLong z, rest) := by
  have hds : ∀ c ∈ Nat.toDigits 10 z.natAbs, isDigit 10 c = true :=
    fun c hc => isDigit_of_mem_toDigits hc
  have hskip := skipHex_of_ne (by decide : 10 ≠ 16) (Nat.toDigits 10 z.natAbs ++ rest)
  rw [numeral]
  split
  next hz =>
    rw [List.cons_append, strtol_neg_digits Nat.toDigits_ne_nil hds hrest hskip,
      digitsVal_toDigits, show -(z.natAbs : Int) = z by omega]
  next hz =>
    rw [strtol_digits (by decide) Nat.toDigits_ne_nil hds hrest hskip, digitsVal_toDigits,
      show (z.natAbs : Int) = z by omega]

theorem clampLong_of_range {v : Int} (hlo : -2 ^ 63 ≤ v) (hhi : v < 2 ^ 63) : clampLong v = v := by
  rw [clampLong]
  omega

theorem atoi_numeral {z : Int} {rest : Text} (hlo : -2 ^ 31 ≤ z) (hhi : z < 2 ^ 31)
    (hrest : Ends 10 rest) : atoi (numeral z ++ rest) = z := by
  rw [atoi, strtol_numeral z hrest, clampLong_of_range (by omega) (by omega),
    toInt32_of_range hlo hhi]

theorem numeral_ne_nil (z : Int) : numeral z ≠ [] := by
  rw [numeral]
  split
  · exact List.cons_ne_nil _ _
  · exact Nat.toDigits_ne_nil

/-- The characters of a numeral. -/
theorem mem_numeral {z : Int} {c : Char} (h : c ∈ numeral z) : c = '-' ∨ isDigit 10 c = true := by
  rw [numeral] at h
  split at h
  · rcases List.mem_cons.mp h with h | h
    · exact .inl h
    · exact .inr (isDigit_of_mem_toDigits h)
  · exact .inr (isDigit_of_mem_toDigits h)

/-! ## Hexadecimal bytes -/

/-- What `%02x` prints of a byte. -/
def hexByte (b : UInt8) : Text := [(b.toNat / 16).digitChar, (b.toNat % 16).digitChar]

theorem digitChar_ne_x : ∀ d, d < 16 → d.digitChar ≠ 'x' ∧ d.digitChar ≠ 'X' := by decide

/-- Two hexadecimal digits are read to their end. -/
theorem strtol_hex (b : UInt8) {rest : Text} (hrest : Ends 16 rest) :
    strtol 16 (hexByte b ++ rest) = ((b.toNat : Int), rest) := by
  have hb := b.toNat_lt
  have hhi : b.toNat / 16 < 16 := by omega
  have hlo : b.toNat % 16 < 16 := by omega
  have hds : ∀ c ∈ hexByte b, isDigit 16 c = true := by
    intro c hc
    rw [hexByte, List.mem_cons, List.mem_singleton] at hc
    rcases hc with rfl | rfl
    · rw [isDigit, digitVal_digitChar _ hhi]
      exact decide_eq_true hhi
    · rw [isDigit, digitVal_digitChar _ hlo]
      exact decide_eq_true hlo
  have hskip : skipHex 16 (hexByte b ++ rest) = hexByte b ++ rest := by
    obtain ⟨hx, hX⟩ := digitChar_ne_x _ hlo
    refine if_neg ?_
    rintro ⟨-, -, h | h, -⟩
    · exact hx (Option.some.inj h)
    · exact hX (Option.some.inj h)
  have hval : digitsVal 16 (hexByte b) = b.toNat := by
    show 16 * (16 * 0 + digitVal _) + digitVal _ = _
    rw [digitVal_digitChar _ hhi, digitVal_digitChar _ hlo]
    omega
  have hne : hexByte b ≠ [] := List.cons_ne_nil _ _
  rw [strtol_digits (by decide) hne hds hrest hskip, hval,
    clampLong_of_range (by omega) (by omega)]

end Base
