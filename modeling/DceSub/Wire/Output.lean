import DceSub.Base.Bytes
import DceSub.Base.Double

/-!
# The decoded record

`packet_handler_full` comes as a closed library.  It reads a packet and leaves
a packed record in `output_data`, whose kind is the code it returns: a best
quote, a depth update, or neither.  Before a record is printed, every price in
it above `0xffff` is set to zero.

The offsets are those of the packed structs of `normal_udp.h`.  A price is an
IEEE double, compared by its bits: among the bit patterns up to that of
infinity the order of doubles is the order of the patterns, and what lies above
(the NaNs and everything negative) is not greater than `0xffff`.
-/

namespace Wire

open Base

/-- `char output_data[256]`. -/
abbrev OutputData := Vector UInt8 256

/-- Buffers are compared in one pass over their lists. -/
instance : DecidableEq OutputData := fun a b =>
  decidable_of_iff (a.toList = b.toList) Vector.toList_inj

/-- The buffer after `memset(output_data, 0x00, 256)`. -/
def zeroOutput : OutputData := Vector.replicate 256 0

/-- `output_data` as a memory. -/
def OutputData.mem (out : OutputData) : Mem := fun k => (out[k]?).getD 0

/-- `int packet_handler_full(char *input_data, char *output_data)`: the input is
the memory seen from the pointer, the results are the code returned and what is
left in `output_data`. -/
abbrev PacketHandlerFull := Mem → OutputData → Int × OutputData

/-! ## Prices -/

/-- The bits of the double `65535.0`. -/
def bitsOfFFFF : Nat := 0x40efffe000000000

/-- `price > 0xffff`, on the bits of a double. -/
def exceeds (price : BitVec 64) : Bool := bitsOfFFFF < price.toNat && price.toNat ≤ infBits

/-- `if (price > 0xffff) price = 0;` for the price at `off`. -/
def capPrice (out : OutputData) (off : Nat) : OutputData :=
  if exceeds (u64le out.mem off) then
    Vector.ofFn fun i => if off ≤ i.val ∧ i.val < off + 8 then 0 else out.get i
  else out

/-- The prices of a `normal_best_quote` in the order they are capped:
`bid_price`, `ask_price`, `last_price`. -/
def bestPrices : List Nat := [44, 56, 20]

/-- The prices of a `normal_depth_update` in the order they are capped:
`bid1_price` to `bid5_price`, then `ask1_price` to `ask5_price`. -/
def deepPrices : List Nat := [20, 32, 44, 56, 68, 80, 92, 104, 116, 128]

/-- Cap the prices at the given offsets, one after another. -/
def capPrices (offs : List Nat) (out : OutputData) : OutputData := offs.foldl capPrice out

/-! ## What is printed -/

/-- The kinds of record, `BEST_QUOTE_MSG` and `DEPTH_UPDATE_MSG`. -/
def bestQuoteMsg : Int := 1
/-- See `bestQuoteMsg`. -/
def depthUpdateMsg : Int := 2

/-- The line printed for a packet: the fields of a record, or the decoding
error with the size it names. -/
inductive Line where
  | best : OutputData → Line
  | deep : OutputData → Line
  | packetDecodeErr : Int → Line
deriving DecidableEq

/-- From the result of `packet_handler_full` to the line printed and to what is
left in `output_data`. -/
def printRecord (result : Int) (out : OutputData) (size : Int) : Line × OutputData :=
  if result = bestQuoteMsg then (.best (capPrices bestPrices out), capPrices bestPrices out)
  else if result = depthUpdateMsg then (.deep (capPrices deepPrices out), capPrices deepPrices out)
  else (.packetDecodeErr size, out)

/-! ## Price clean-up -/

theorem capPrice_of_exceeds {out : OutputData} {off : Nat} (h : exceeds (u64le out.mem off) = true)
    {k : Nat} (hk : k < 256) (hoff : off ≤ k) (hlt : k < off + 8) :
    (capPrice out off).mem k = 0 := by
  simp [capPrice, h, OutputData.mem, hk, hoff, hlt]

/-- Capping a price leaves the bytes of every other field as they are. -/
theorem capPrice_mem_of_outside {out : OutputData} {off k : Nat} (h : k < off ∨ off + 8 ≤ k) :
    (capPrice out off).mem k = out.mem k := by
  unfold capPrice
  split
  · by_cases hk : k < 256
    · have hno : ¬ (off ≤ k ∧ k < off + 8) := by omega
      simp [OutputData.mem, hk, hno, Vector.get]
    · simp [OutputData.mem, hk]
  · rfl

/-- Two prices that do not overlap. -/
def Apart (a b : Nat) : Prop := a + 8 ≤ b ∨ b + 8 ≤ a

instance (a b : Nat) : Decidable (Apart a b) := inferInstanceAs (Decidable (_ ∨ _))

theorem capPrices_mem_of_outside {offs : List Nat} {out : OutputData} {k : Nat}
    (h : ∀ off ∈ offs, k < off ∨ off + 8 ≤ k) : (capPrices offs out).mem k = out.mem k := by
  induction offs generalizing out with
  | nil => rfl
  | cons off offs ih =>
      have hrest : (capPrices offs (capPrice out off)).mem k = (capPrice out off).mem k :=
        ih fun off' hoff' => h off' (List.mem_cons_of_mem _ hoff')
      exact hrest.trans (capPrice_mem_of_outside (h off (List.mem_cons_self ..)))

/-- The clean-up zeroes each price above `0xffff`, and leaves every other one as
it is. -/
theorem capPrices_mem {offs : List Nat} {out : OutputData} {off k : Nat}
    (hapart : offs.Pairwise Apart) (hoff : off ∈ offs) (hk : k < 256) (hle : off ≤ k)
    (hlt : k < off + 8) :
    (capPrices offs out).mem k = if exceeds (u64le out.mem off) then 0 else out.mem k := by
  induction offs generalizing out with
  | nil => cases hoff
  | cons a offs ih =>
      obtain ⟨ha, hapart⟩ := List.pairwise_cons.mp hapart
      show (capPrices offs (capPrice out a)).mem k = _
      by_cases hmem : off ∈ offs
      · have hdisj := ha off hmem
        rw [Apart] at hdisj
        have hprice : u64le (capPrice out a).mem off = u64le out.mem off :=
          u64le_congr fun j hj => capPrice_mem_of_outside (by omega)
        rw [ih hapart hmem, hprice, capPrice_mem_of_outside (by omega)]
      · obtain rfl : off = a := (List.mem_cons.mp hoff).resolve_right hmem
        rw [capPrices_mem_of_outside]
        · by_cases hex : exceeds (u64le out.mem off) = true
          · rw [if_pos hex, capPrice_of_exceeds hex hk hle hlt]
          · rw [if_neg hex, capPrice, if_neg hex]
        · intro b hb
          have hdisj := ha b hb
          rw [Apart] at hdisj
          omega

theorem bestPrices_apart : bestPrices.Pairwise Apart := by decide

theorem deepPrices_apart : deepPrices.Pairwise Apart := by decide

end Wire
