import DceSub.Base.CString
import DceSub.Wire.Output

/-!
# The text fields of a printed record

Both records start with `char contract_id[8]` and `char gen_time[12]`, and a
price follows.  The clients print the two with `%s`, some with a width for the
time, and none with a precision.  Nothing stands between the fields of a packed
record, so a text that fills its field goes on in the next one.  A time
`HH:MM:SS.mmm` fills its field, and is printed with the first bytes of the price
behind it unless the first of them is zero.

`printedTexts_exact_iff` says when the texts are printed as they are.
-/

namespace Wire

open Base

/-! ## Records and printers -/

/-- The records of `normal_udp.h`. -/
inductive Kind where
  | bestQuote
  | depthUpdate
deriving DecidableEq

/-- The code with which the decoder announces a record. -/
def Kind.code : Kind → Int
  | .bestQuote => bestQuoteMsg
  | .depthUpdate => depthUpdateMsg

/-- The prices that are cleaned up. -/
def Kind.prices : Kind → List Nat
  | .bestQuote => bestPrices
  | .depthUpdate => deepPrices

/-- `sizeof` the packed record. -/
def Kind.size : Kind → Nat
  | .bestQuote => 72
  | .depthUpdate => 140

/-- The clients that print both fields. -/
inductive Printer where
  /-- `%s, %12s` in `mc_client_efvi.cpp`. -/
  | efvi
  /-- `%s, %8s` in `dce-sub-exanic.c`. -/
  | exanic
  /-- `%s, %s` in `dce-sub-socket.c`. -/
  | socket
deriving DecidableEq

/-- The width given for `contract_id`. -/
def Printer.contractIdWidth : Printer → Nat
  | _ => 0

/-- The width given for `gen_time`. -/
def Printer.genTimeWidth : Printer → Nat
  | .efvi => 12
  | .exanic => 8
  | .socket => 0

/-- The decoder has written a record, and nothing else, over the zeroed buffer. -/
def Kind.Written (k : Kind) (out : OutputData) : Prop :=
  ∀ i, i < 256 → k.size ≤ i → out.mem i = 0

/-- The bytes of `output_data` from `off` on. -/
def OutputData.bytesFrom (out : OutputData) (off : Nat) : List UInt8 :=
  readBytes out.mem off (256 - off)

/-- The record in a line. -/
def Line.record : Line → Option OutputData
  | .best out => some out
  | .deep out => some out
  | .packetDecodeErr _ => none

/-- What a client prints for `contract_id`. -/
def Printer.contractId (c : Printer) (out : OutputData) : Option (List UInt8) :=
  (cString (out.bytesFrom 0)).map (padLeft 0x20 c.contractIdWidth)

/-- What a client prints for `gen_time`. -/
def Printer.genTime (c : Printer) (out : OutputData) : Option (List UInt8) :=
  (cString (out.bytesFrom 8)).map (padLeft 0x20 c.genTimeWidth)

/-- Both texts of a line are printed as the fields have them: up to the first NUL
or to the end of the field, and padded to the width. -/
def TextsExact (c : Printer) (line : Line) : Prop :=
  ∃ out, line.record = some out ∧
    c.contractId out = some (padLeft 0x20 c.contractIdWidth (fieldText 8 (out.bytesFrom 0))) ∧
    c.genTime out = some (padLeft 0x20 c.genTimeWidth (fieldText 12 (out.bytesFrom 8)))

/-- There is a NUL among the `n` bytes at `off`. -/
def HasNul (out : OutputData) (off n : Nat) : Prop := ∃ k, k < n ∧ out.mem (off + k) = 0

instance (out : OutputData) (off n : Nat) : Decidable (HasNul out off n) :=
  inferInstanceAs (Decidable (∃ k, k < n ∧ out.mem (off + k) = 0))

/-- The texts of a record as the decoder leaves it end where their fields do: in
the field, or with a NUL right behind it.  Behind `gen_time` that is the first
byte of a price, which the clean-up may have zeroed. -/
def TextsEnd (out : OutputData) : Prop :=
  (HasNul out 0 8 ∨ out.mem 8 = 0) ∧
    (HasNul out 8 12 ∨ out.mem 20 = 0 ∨ exceeds (u64le out.mem 20) = true)

instance (out : OutputData) : Decidable (TextsEnd out) := inferInstanceAs (Decidable (_ ∧ _))

/-! ## Printing a field -/

theorem mem_take_bytesFrom {out : OutputData} {off n : Nat} (h : off + n ≤ 256) :
    0 ∈ (out.bytesFrom off).take n ↔ HasNul out off n := by
  rw [List.mem_iff_getElem?]
  constructor
  · rintro ⟨k, hk⟩
    rw [List.getElem?_take] at hk
    split at hk
    next hlt =>
      rw [OutputData.bytesFrom, getElem?_readBytes (by omega)] at hk
      exact ⟨k, hlt, Option.some.inj hk⟩
    next => cases hk
  · rintro ⟨k, hk, h0⟩
    refine ⟨k, ?_⟩
    rw [List.getElem?_take_of_lt hk, OutputData.bytesFrom, getElem?_readBytes (by omega), h0]

/-- A field of `n` bytes at `off` is printed as it is when there is a NUL in it
or right behind it. -/
theorem printed_field_iff {out : OutputData} {width off n : Nat} (hw : width ≤ n)
    (h : off + n < 256) :
    (cString (out.bytesFrom off)).map (padLeft 0x20 width) =
        some (padLeft 0x20 width (fieldText n (out.bytesFrom off))) ↔
      HasNul out off n ∨ out.mem (off + n) = 0 := by
  have hbehind : (out.bytesFrom off)[n]? = some 0 ↔ out.mem (off + n) = 0 := by
    rw [OutputData.bytesFrom, getElem?_readBytes (by omega), Option.some.injEq]
  rw [padLeft_cString_iff hw, mem_take_bytesFrom (by omega), hbehind]

/-! ## Records after the clean-up -/

variable {k : Kind} {out : OutputData}

theorem printRecord_record (k : Kind) (out : OutputData) (size : Int) :
    (printRecord k.code out size).1.record = some (capPrices k.prices out) := by
  cases k with
  | bestQuote => rfl
  | depthUpdate => rfl

/-- The clean-up does not reach the text fields. -/
theorem capPrices_text {i : Nat} (hi : i < 20) : (capPrices k.prices out).mem i = out.mem i := by
  apply capPrices_mem_of_outside
  intro off hoff
  have hle : 20 ≤ off := by
    cases k with
    | bestQuote =>
        have : ∀ off ∈ bestPrices, 20 ≤ off := by decide
        exact this off hoff
    | depthUpdate =>
        have : ∀ off ∈ deepPrices, 20 ≤ off := by decide
        exact this off hoff
  omega

/-- The first byte of the price behind `gen_time`. -/
theorem capPrices_behind_genTime :
    (capPrices k.prices out).mem 20 = 0 ↔
      out.mem 20 = 0 ∨ exceeds (u64le out.mem 20) = true := by
  have hprices : k.prices.Pairwise Apart ∧ 20 ∈ k.prices := by
    cases k with
    | bestQuote => exact ⟨bestPrices_apart, by decide⟩
    | depthUpdate => exact ⟨deepPrices_apart, by decide⟩
  rw [capPrices_mem hprices.1 hprices.2 (by decide) (Nat.le_refl _) (by decide)]
  by_cases hex : exceeds (u64le out.mem 20) = true
  · simp [hex]
  · simp [hex]

theorem hasNul_capPrices {off n : Nat} (h : off + n ≤ 20) :
    HasNul (capPrices k.prices out) off n ↔ HasNul out off n := by
  constructor
  · rintro ⟨i, hi, h0⟩
    exact ⟨i, hi, by rwa [capPrices_text (by omega)] at h0⟩
  · rintro ⟨i, hi, h0⟩
    exact ⟨i, hi, by rwa [capPrices_text (by omega)]⟩

/-- The text of `contract_id` goes on in `gen_time`. -/
theorem printedContractId_iff (c : Printer) :
    c.contractId (capPrices k.prices out) =
        some (padLeft 0x20 c.contractIdWidth (fieldText 8 ((capPrices k.prices out).bytesFrom 0))) ↔
      HasNul out 0 8 ∨ out.mem 8 = 0 := by
  rw [Printer.contractId, printed_field_iff (by cases c <;> decide) (by decide),
    hasNul_capPrices (by decide), capPrices_text (by decide)]

/-- The text of `gen_time` goes on in the price behind it. -/
theorem printedGenTime_iff (c : Printer) :
    c.genTime (capPrices k.prices out) =
        some (padLeft 0x20 c.genTimeWidth (fieldText 12 ((capPrices k.prices out).bytesFrom 8))) ↔
      HasNul out 8 12 ∨ out.mem 20 = 0 ∨ exceeds (u64le out.mem 20) = true := by
  rw [Printer.genTime, printed_field_iff (by cases c <;> decide) (by decide),
    hasNul_capPrices (by decide), capPrices_behind_genTime]

/-- Whatever the decoder has left in `output_data`, each client prints the texts
of the record exactly if they end where their fields do. -/
theorem printedTexts_exact_iff (c : Printer) (k : Kind) (out : OutputData) (size : Int) :
    TextsExact c (printRecord k.code out size).1 ↔ TextsEnd out := by
  rw [TextsExact, printRecord_record, TextsEnd, ← printedContractId_iff (k := k) c,
    ← printedGenTime_iff (k := k) c]
  constructor
  · rintro ⟨rec, hrec, htexts⟩
    obtain rfl := Option.some.inj hrec
    exact htexts
  · intro htexts
    exact ⟨_, rfl, htexts⟩

/-- The beginning of a best quote: `m2409`, `09:30:00.500` and the price 3500.1. -/
def fullTimeBytes : List UInt8 :=
  [0x6d, 0x32, 0x34, 0x30, 0x39, 0x00, 0x00, 0x00,
    0x30, 0x39, 0x3a, 0x33, 0x30, 0x3a, 0x30, 0x30, 0x2e, 0x35, 0x30, 0x30,
    0x33, 0x33, 0x33, 0x33, 0x33, 0x58, 0xab, 0x40]

/-- A best quote with a time that fills its field. -/
def fullTime : OutputData := Vector.ofFn fun i => fullTimeBytes.getD i.val 0

theorem fullTime_written : Kind.bestQuote.Written fullTime := by
  intro i hi hle
  have hlen : fullTimeBytes.length ≤ i := Nat.le_trans (by decide) hle
  simp [OutputData.mem, fullTime, hi, hlen]

/-- A decoder that finds the same best quote in every packet. -/
def alwaysFullTime : PacketHandlerFull := fun _ _ => (bestQuoteMsg, fullTime)

/-- The price is printed as part of the time. -/
theorem genTime_spills :
    Kind.bestQuote.Written fullTime ∧
      Printer.efvi.genTime (capPrices bestPrices fullTime) =
        some ([0x30, 0x39, 0x3a, 0x33, 0x30, 0x3a, 0x30, 0x30, 0x2e, 0x35, 0x30, 0x30] ++
          [0x33, 0x33, 0x33, 0x33, 0x33, 0x58, 0xab, 0x40]) ∧
      ¬ TextsExact .efvi (printRecord bestQuoteMsg fullTime 28).1 := by
  refine ⟨fullTime_written, by decide +kernel, ?_⟩
  rintro ⟨out, hout, -, htime⟩
  obtain rfl := Option.some.inj hout
  have hend := (printedGenTime_iff (k := .bestQuote) .efvi).mp htime
  exact absurd hend (by decide +kernel)

/-! ## The buffer is never left -/

/-- A record ends in zeros, so that `%s` stops within `output_data`, spilling or
not. -/
theorem Kind.Written.isSome (h : k.Written out) {off : Nat} (hoff : off < 256) :
    (cString ((capPrices k.prices out).bytesFrom off)).isSome := by
  have hlast : (capPrices k.prices out).mem 255 = 0 := by
    rw [capPrices_mem_of_outside]
    · exact h 255 (by decide) (by cases k <;> decide)
    · cases k with
      | bestQuote => decide
      | depthUpdate => decide
  rw [cString_isSome_iff, List.mem_iff_getElem?]
  refine ⟨255 - off, ?_⟩
  rw [OutputData.bytesFrom, getElem?_readBytes (by omega), show off + (255 - off) = 255 by omega,
    hlast]

end Wire
