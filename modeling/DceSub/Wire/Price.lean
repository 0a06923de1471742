import DceSub.Base.Double
import DceSub.Wire.Log

/-!
# The prices of a printed record

`price > 0xffff` is decided on the bits of a double.  `exceeds_iff` says that
this is the comparison of the numbers: infinity and what is above 65535 exceeds,
and a NaN or a negative number does not.

What the line on `stdout` shows of a price follows, for every price of every
record and in the format of each program (`printRecord_showsPrices`): 0.0 for a
price that exceeds, and else the nearest decimal with one place, which is 65535.0
at most.  A price on a tick of a tenth, up to the error of its double, is printed
as it is (`printedPrice_tick`).
-/

namespace Wire

open Base

/-! ## The comparison -/

/-- The bits of 65535 stand for 65535. -/
theorem scaled_bitsOfFFFF : scaled bitsOfFFFF = 65535 * unitsPerOne := by
  have hexp : bitsOfFFFF / 2 ^ 52 = 1037 + 1 := by decide
  have hfrac : 2 ^ 52 + bitsOfFFFF % 2 ^ 52 = 65535 * 2 ^ 37 := by decide
  have hunits : unitsPerOne = 2 ^ 37 * 2 ^ 1037 := unitsPerOne_eq rfl
  rw [scaled, hexp, if_neg (Nat.succ_ne_zero _), Nat.add_sub_cancel, hfrac, hunits, Nat.mul_assoc]

variable {b : BitVec 64}

theorem lt_value_iff (hpos : isNeg b = false) :
    65535 < value b ↔ bitsOfFFFF < magBits b := by
  have hu : (0 : ℚ) < unitsPerOne := Nat.cast_pos.mpr unitsPerOne_pos
  rw [← scaled_strictMono.lt_iff_lt, scaled_bitsOfFFFF, value, hpos, if_neg Bool.false_ne_true,
    one_mul, lt_div_iff₀ hu]
  exact_mod_cast Iff.rfl

theorem value_nonpos (hneg : isNeg b = true) : value b ≤ 0 := by
  rw [value, hneg, if_pos rfl, neg_one_mul, neg_nonpos]
  positivity

/-- The test on the bits is the test on the numbers. -/
theorem exceeds_iff :
    exceeds b = true ↔
      isNeg b = false ∧ (magBits b = infBits ∨ magBits b < infBits ∧ 65535 < value b) := by
  have hlt : bitsOfFFFF < infBits := by decide
  have hinf : infBits < 2 ^ 63 := by decide
  have hb := b.isLt
  rw [exceeds, Bool.and_eq_true, decide_eq_true_iff, decide_eq_true_iff]
  by_cases hneg : isNeg b = true
  · have hle : 2 ^ 63 ≤ b.toNat := of_decide_eq_true hneg
    constructor
    · rintro ⟨-, h⟩
      omega
    · rintro ⟨h, -⟩
      rw [hneg] at h
      cases h
  · have hpos : isNeg b = false := Bool.eq_false_of_not_eq_true hneg
    have hmag : magBits b = b.toNat := by
      have : ¬ 2 ^ 63 ≤ b.toNat := of_decide_eq_false hpos
      exact Nat.mod_eq_of_lt (by omega)
    rw [lt_value_iff hpos, hmag]
    constructor
    · rintro ⟨h₁, h₂⟩
      exact ⟨hpos, by omega⟩
    · rintro ⟨-, h | ⟨h₁, h₂⟩⟩
      · omega
      · omega

/-! ## What is shown -/

/-- What a line is to show of a price. -/
inductive PriceShown (b : BitVec 64) : Shown → Prop where
  /-- A price that exceeds is no price. -/
  | over : isNeg b = false → magBits b = infBits ∨ magBits b < infBits ∧ 65535 < value b →
      PriceShown b (.num false 0)
  /-- The nearest decimal with one place. -/
  | near {units : Nat} {v : ℚ} : magBits b < infBits → value b ≤ 65535 →
      (Shown.num (isNeg b) units).value 1 = some v → |v - value b| ≤ 1 / 20 → v ≤ 65535 →
      PriceShown b (.num (isNeg b) units)
  | negInf : isNeg b = true → magBits b = infBits → PriceShown b (.inf true)
  | nan : infBits < magBits b → PriceShown b (.nan (isNeg b))

theorem shown_zero (p : Nat) : shown p 0 = .num false 0 := by
  have hmag : magBits 0 = 0 := rfl
  have hscaled : scaled 0 = 0 := rfl
  have hround : roundHalfEven 0 unitsPerOne = 0 := by
    have h := roundHalfEven_le unitsPerOne_pos (Nat.zero_le (0 * unitsPerOne))
    omega
  rw [shown_of_finite (by rw [hmag]; decide), hmag, hscaled, Nat.zero_mul, hround]
  rfl

/-- A number that does not exceed is shown by the nearest decimal. -/
theorem PriceShown.of_finite (hfin : magBits b < infBits) (hle : value b ≤ 65535) :
    PriceShown b (shown 1 b) := by
  obtain ⟨v, hv, herr⟩ := shown_error (p := 1) hfin
  rw [shown_of_finite hfin] at hv ⊢
  refine .near hfin hle hv (by norm_num at herr ⊢; exact herr) ?_
  cases hneg : isNeg b with
  | true =>
      rw [hneg] at hv
      obtain rfl := Option.some.inj hv
      have hnonneg : (0 : ℚ) ≤
          roundHalfEven (scaled (magBits b) * 10 ^ 1) unitsPerOne / 10 ^ 1 := by positivity
      rw [if_pos rfl]
      linarith
  | false =>
      -- rounding does not pass 65535
      have hscaled : scaled (magBits b) ≤ 65535 * unitsPerOne := by
        rw [← scaled_bitsOfFFFF, scaled_strictMono.le_iff_le, ← not_lt, ← lt_value_iff hneg, not_lt]
        exact hle
      obtain ⟨k, hk, hkle⟩ := shown_le (p := 1) hfin hscaled
      rw [shown_of_finite hfin] at hk
      obtain ⟨-, rfl⟩ := Shown.num.inj hk
      rw [hneg] at hv
      obtain rfl := Option.some.inj hv
      have hcast :
          (roundHalfEven (scaled (magBits b) * 10 ^ 1) unitsPerOne : ℚ) ≤ 65535 * 10 ^ 1 := by
        exact_mod_cast hkle
      rw [if_neg Bool.false_ne_true, one_mul, div_le_iff₀ (by norm_num)]
      exact hcast

/-- A price that does not exceed is shown as it is. -/
theorem PriceShown.of_not_exceeds (h : exceeds b = false) : PriceShown b (shown 1 b) := by
  have hnot := mt exceeds_iff.mpr (Bool.eq_false_iff.mp h)
  rcases Nat.lt_trichotomy (magBits b) infBits with hfin | hinf | hnan
  · refine .of_finite hfin (not_lt.mp fun hgt => hnot ⟨?_, .inr ⟨hfin, hgt⟩⟩)
    refine Bool.eq_false_of_not_eq_true fun hneg => ?_
    have := value_nonpos hneg
    linarith
  · have hneg : isNeg b = true := by
      cases hs : isNeg b with
      | true => rfl
      | false => exact absurd ⟨hs, .inl hinf⟩ hnot
    rw [shown, if_neg (by omega), if_pos hinf, hneg]
    exact .negInf hneg hinf
  · rw [shown, if_neg (by omega), if_neg (by omega)]
    exact .nan hnan

/-! ## Records -/

variable {k : Kind} {out : OutputData}

theorem Kind.prices_apart (k : Kind) : k.prices.Pairwise Apart := by
  cases k with
  | bestQuote => exact bestPrices_apart
  | depthUpdate => exact deepPrices_apart

theorem Kind.price_fits {off : Nat} (hoff : off ∈ k.prices) : off + 8 ≤ 256 := by
  have hall : ∀ k : Kind, ∀ off ∈ k.prices, off + 8 ≤ 256 := by
    intro k
    cases k <;> decide
  exact hall k off hoff

/-- The clean-up of one price of a record. -/
theorem u64le_capPrices {off : Nat} (hoff : off ∈ k.prices) :
    u64le (capPrices k.prices out).mem off =
      if exceeds (u64le out.mem off) then 0 else u64le out.mem off := by
  have hfits := Kind.price_fits hoff
  split
  next hex =>
    have hzero : u64le (capPrices k.prices out).mem off = u64le (fun _ => 0) off := by
      apply u64le_congr
      intro j hj
      rw [capPrices_mem k.prices_apart hoff (by omega) (by omega) (by omega), if_pos hex]
    rw [hzero]
    rfl
  next hex =>
    apply u64le_congr
    intro j hj
    rw [capPrices_mem k.prices_apart hoff (by omega) (by omega) (by omega), if_neg hex]

/-- What is left of a price after the clean-up, with one place. -/
theorem priceShown_capPrices {off : Nat} (hoff : off ∈ k.prices) :
    PriceShown (u64le out.mem off) (shown 1 (u64le (capPrices k.prices out).mem off)) := by
  rw [u64le_capPrices hoff]
  cases hex : exceeds (u64le out.mem off) with
  | true =>
      obtain ⟨hpos, hover⟩ := exceeds_iff.mp hex
      rw [if_pos rfl, shown_zero]
      exact .over hpos hover
  | false =>
      rw [if_neg Bool.false_ne_true]
      exact .of_not_exceeds hex

/-! ## Lines -/

/-- Where the prices of a record are among its fields, with their offsets.  The
turnover, in two programs, is in front of the last price of a best quote. -/
def Program.recordPrices (p : Program) : Kind → List (Nat × Nat)
  | .bestQuote =>
      [(1, 44), (2, 56)] ++
        match p with
        | efvi | rawsock => [(6, 20)]
        | exanic | socket => [(7, 20)]
  | .depthUpdate =>
      [(1, 68), (3, 56), (5, 44), (7, 32), (9, 20), (10, 80), (12, 92), (14, 104), (16, 116),
        (18, 128)]

/-- The fields of a line that are prices, with their offsets in the record. -/
def Program.priceFields (p : Program) (k : Kind) : List (Nat × Nat) :=
  (p.recordPrices k).map (Prod.map (p.headFields + ·) id)

/-- Every price that is cleaned up is printed, and once. -/
theorem Program.priceFields_perm (p : Program) (k : Kind) :
    ((p.priceFields k).map Prod.snd).Perm k.prices := by
  cases p <;> cases k <;> decide

/-- Prices are printed with `%.1f`. -/
theorem Program.priceFields_conv {p : Program} {k : Kind} {x : Nat × Nat}
    (hx : x ∈ p.priceFields k) : ∃ lit, (p.fmt k.line).items[x.1]? = some (.double 1, lit) := by
  have hall : ∀ p k, ∀ x ∈ Program.priceFields p k,
      ((p.fmt k.line).items[x.1]?).map Prod.fst = some (.double 1) := by
    intro p k
    cases p <;> cases k <;> decide
  obtain ⟨⟨c, lit⟩, hitem, rfl⟩ := Option.map_eq_some_iff.mp (hall p k x hx)
  exact ⟨lit, hitem⟩

theorem Program.recordPrices_arg {p : Program} {x : Nat × Nat} (hx : x ∈ p.recordPrices k)
    (out : OutputData) : (p.recordArgs k out)[x.1]? = some (out.price x.2) := by
  have hall : ∀ x ∈ p.recordPrices k, (p.recordArgs k out)[x.1]? = some (out.price x.2) := by
    cases p <;> cases k <;>
      simp [Program.recordPrices, Program.recordArgs, Program.bestArgs, deepArgs]
  exact hall x hx

/-- A price is printed in its field, as the clean-up leaves it. -/
theorem fields_price {p : Program} {ipId : BitVec 16} {size : Int} {call : PrintCall}
    (h : (printRecord k.code out size).1.call p ipId = some call) {x : Nat × Nat}
    (hx : x ∈ p.priceFields k) :
    (p.fields call)[x.1]? = some (printDouble 1 (u64le (capPrices k.prices out).mem x.2)) := by
  obtain ⟨lit, hitem⟩ := Program.priceFields_conv hx
  obtain ⟨head, hhead, rfl⟩ := call_printRecord h
  obtain ⟨y, hy, rfl⟩ := List.mem_map.mp hx
  have harg : (head ++ p.recordArgs k (capPrices k.prices out))[p.headFields + y.1]? =
      some ((capPrices k.prices out).price y.2) := by
    rw [← Program.headArgs_length hhead, List.getElem?_append_right (Nat.le_add_right ..),
      Nat.add_sub_cancel_left]
    exact Program.recordPrices_arg hy _
  exact Format.getElem?_fields hitem harg rfl

/-- A line on the `stdout` of a program shows the prices of a record as the
decoder left it: the line is made of its fields, and each price is in the field
for it. -/
def Line.ShowsPrices (p : Program) (ipId : BitVec 16) (line : Line) (decoded : Int × OutputData) :
    Prop :=
  ∀ k : Kind, decoded.1 = k.code → ∀ call, line.call p ipId = some call →
    p.printCall call = some ((p.fmt k.line).fill (p.fields call)) ∧
      ∀ off ∈ k.prices, ∃ i s, (i, off) ∈ p.priceFields k ∧
        (p.fields call)[i]? = some (s.text 1) ∧ PriceShown (u64le decoded.2.mem off) s

/-- The field of a price. -/
theorem Program.exists_priceField (p : Program) {off : Nat} (hoff : off ∈ k.prices) :
    ∃ i, (i, off) ∈ p.priceFields k := by
  obtain ⟨⟨i, off⟩, hx, rfl⟩ := List.mem_map.mp ((p.priceFields_perm k).symm.subset hoff)
  exact ⟨i, hx⟩

/-- Every price of every record that is printed: 0.0 if it is above 65535, and
else the nearest decimal with one place, which is not above 65535 either. -/
theorem printRecord_showsPrices (p : Program) (ipId : BitVec 16) (decoded : Int × OutputData)
    (size : Int) : (printRecord decoded.1 decoded.2 size).1.ShowsPrices p ipId decoded := by
  intro k hk call hcall
  rw [hk] at hcall
  have hkind : call.1 = k.line := by
    obtain ⟨head, -, rfl⟩ := call_printRecord hcall
    rfl
  refine ⟨hkind ▸ Line.printCall_fill hcall, fun off hoff => ?_⟩
  obtain ⟨i, hi⟩ := p.exists_priceField hoff
  exact ⟨i, _, hi, fields_price hcall hi, priceShown_capPrices hoff⟩

/-- A price on a tick of a tenth, or nearer to it than half a tenth, is printed as
the tick, whatever the program. -/
theorem printedPrice_tick (k : Kind) (out : OutputData) (size : Int) {off t : Nat}
    (hoff : off ∈ k.prices) (hfin : magBits (u64le out.mem off) < infBits)
    (hpos : isNeg (u64le out.mem off) = false) (hle : value (u64le out.mem off) ≤ 65535)
    (hnear : |value (u64le out.mem off) - t / 10| < 1 / 20) (p : Program) (ipId : BitVec 16)
    {call : PrintCall} (hcall : (printRecord k.code out size).1.call p ipId = some call) :
    p.printCall call = some ((p.fmt call.1).fill (p.fields call)) ∧
      ∃ i, (i, off) ∈ p.priceFields k ∧
        (p.fields call)[i]? = some (Nat.toDigits 10 (t / 10) ++ ['.', (t % 10).digitChar]) := by
  obtain ⟨i, hi⟩ := p.exists_priceField hoff
  refine ⟨Line.printCall_fill hcall, i, hi, ?_⟩
  have hex : exceeds (u64le out.mem off) ≠ true := by
    rw [ne_eq, exceeds_iff]
    rintro ⟨-, hinf | ⟨-, hgt⟩⟩
    · omega
    · linarith
  have hshown : shown 1 (u64le out.mem off) = .num false t := by
    rw [← hpos]
    apply shown_of_near hfin
    rw [hpos, if_neg Bool.false_ne_true, one_mul]
    norm_num at hnear ⊢
    exact hnear
  rw [fields_price hcall hi, u64le_capPrices hoff, if_neg hex, printDouble, hshown]
  rfl

/-- The last price of the sample is a `double` next to 3500.1.  The EF_VI client
prints it in the tenth field. -/
theorem printedPrice_tick_fullTime :
    ∃ call, (printRecord Kind.bestQuote.code fullTime 0).1.call .efvi 1 = some call ∧
      Program.efvi.printCall call =
        some ((Program.efvi.fmt call.1).fill (Program.efvi.fields call)) ∧
      ∃ i, (i, 20) ∈ Program.efvi.priceFields .bestQuote ∧
        (Program.efvi.fields call)[i]? = some "3500.1".toList := by
  obtain ⟨call, hcall⟩ : ∃ call, (printRecord Kind.bestQuote.code fullTime 0).1.call .efvi 1 =
      some call := Option.isSome_iff_exists.mp (by decide +kernel)
  exact ⟨call, hcall, printedPrice_tick (t := 35001) .bestQuote fullTime 0 (by decide)
    (by decide +kernel) (by decide +kernel) (by decide +kernel) (by decide +kernel) .efvi 1 hcall⟩

end Wire
