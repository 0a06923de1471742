import DceSub.Base.Chain
import DceSub.Base.Loop
import DceSub.Efvi.Memreg
import DceSub.Efvi.Rxq

/-!
# The resources of the EF_VI client

`struct resources` and the functions that work on nothing else: taking a packet
buffer by its id, freeing it, and `refill_rx_ring`.  Buffers are addressed as in
the source, by pointers into one array.  The headers at the start of the buffers
are in `heap`; the bytes behind them, where packets arrive, are not part of the
resources.

`Layout` is what none of these functions changes, and `FreeList` is the linked
list that all of them share.
-/

namespace Efvi

open Base

/-- `EV_POLL_BATCH_SIZE`. -/
def evPollBatchSize : Nat := 16

/-- `REFILL_BATCH_SIZE`. -/
def refillBatchSize : Nat := 16

/-- `struct pkt_buf`, the header of a packet buffer. -/
structure PktBuf where
  /-- The DMA address of the buffer. -/
  efviAddr : Nat
  /-- Where received packets start. -/
  rxPtr : Nat
  id : Nat
  /-- The next buffer of the free list; `none` is the null pointer. -/
  next : Option Nat

/-- `struct resources`.  `int` members that cannot become negative are natural
numbers. -/
structure Resources where
  vi : Rxq
  rxPrefixLen : Nat
  refillLevel : Int
  refillMin : Int
  /-- The start of the array of packet buffers. -/
  pktBufs : Nat
  pktBufsN : Nat
  freePktBufs : Option Nat
  freePktBufsN : Int
  nRxPkts : BitVec 64
  nRxBytes : BitVec 64
  /-- The headers in memory, by address. -/
  heap : Nat → PktBuf

namespace Resources

/-! ## Buffers and their free list -/

/-- `pkt_buf_from_id`: fails when its assertion does. -/
def pktBufFromId (res : Resources) (pktBufI : Nat) : Option Nat :=
  if pktBufI < res.pktBufsN then some (res.pktBufs + pktBufI * pktBufSize) else none

/-- `pkt_buf_free`. -/
def pktBufFree (res : Resources) (pktBuf : Nat) : Resources :=
  { res with
    heap := Function.update res.heap pktBuf { res.heap pktBuf with next := res.freePktBufs }
    freePktBufs := some pktBuf
    freePktBufsN := res.freePktBufsN + 1 }

/-- The `next` fields. -/
def next (res : Resources) (pktBuf : Nat) : Option Nat := (res.heap pktBuf).next

/-- The free list consists of the buffers `l`, and is counted. -/
structure FreeList (res : Resources) (l : List Nat) : Prop where
  chain : Chain res.next res.freePktBufs l
  count : res.freePktBufsN = l.length

theorem pktBufFree_next (res : Resources) (pktBuf : Nat) :
    (res.pktBufFree pktBuf).next = Function.update res.next pktBuf res.freePktBufs := by
  funext a
  by_cases ha : a = pktBuf
  · subst ha
    simp [next, pktBufFree]
  · simp [next, pktBufFree, Function.update_of_ne ha]

/-- Freeing a buffer that is not free puts it at the head of the list. -/
theorem FreeList.pktBufFree {res : Resources} {l : List Nat} {pktBuf : Nat}
    (h : res.FreeList l) (hnew : pktBuf ∉ l) :
    (res.pktBufFree pktBuf).FreeList (pktBuf :: l) where
  chain := by
    rw [pktBufFree_next]
    exact h.chain.push hnew
  count := by
    rw [List.length_cons, Nat.cast_succ, ← h.count]
    rfl

/-! ## What stays as it is -/

/-- What `init` sets up once and for all. -/
structure Layout where
  mask : Nat
  rxPrefixLen : Nat
  refillLevel : Int
  refillMin : Int
  pktBufs : Nat
  pktBufsN : Nat
  efviAddr : Nat → Nat
  rxPtr : Nat → Nat
  id : Nat → Nat

/-- The layout of the resources. -/
def layout (res : Resources) : Layout where
  mask := res.vi.mask
  rxPrefixLen := res.rxPrefixLen
  refillLevel := res.refillLevel
  refillMin := res.refillMin
  pktBufs := res.pktBufs
  pktBufsN := res.pktBufsN
  efviAddr := fun a => (res.heap a).efviAddr
  rxPtr := fun a => (res.heap a).rxPtr
  id := fun a => (res.heap a).id

@[simp] theorem pktBufFree_layout (res : Resources) (pktBuf : Nat) :
    (res.pktBufFree pktBuf).layout = res.layout := by
  have h : ∀ {β : Type} (f : PktBuf → β), (∀ b n, f { b with next := n } = f b) →
      (fun a => f ((res.pktBufFree pktBuf).heap a)) = fun a => f (res.heap a) := by
    intro β f hf
    funext a
    by_cases ha : a = pktBuf
    · subst ha
      simp [pktBufFree, hf]
    · simp [pktBufFree, Function.update_of_ne ha]
  have haddr := h PktBuf.efviAddr fun _ _ => rfl
  have hrx := h PktBuf.rxPtr fun _ _ => rfl
  have hid := h PktBuf.id fun _ _ => rfl
  rw [layout, haddr, hrx, hid]
  rfl

/-! ## `refill_rx_ring` -/

/-- The state of the loops of `refill_rx_ring`: the resources, and the codes
`ef_vi_receive_init` has returned, which the source ignores. -/
structure Refill where
  res : Resources
  rcs : List Int

/-- The body of the inner loop.  It fails when it follows a null pointer. -/
def refillOne (s : Refill) : Option Refill :=
  match s.res.freePktBufs with
  | none => none
  | some pktBuf =>
      let b := s.res.heap pktBuf
      let rx := s.res.vi.efViReceiveInit (b.efviAddr + rxDmaOff) b.id
      some {
        res := { s.res with
          freePktBufs := b.next
          freePktBufsN := s.res.freePktBufsN - 1
          vi := rx.2 }
        rcs := s.rcs ++ [rx.1] }

/-- The inner loop, which takes one batch. -/
def refillBatch (s : Refill) : Option Refill :=
  Loop.forLoop (fun _ => refillOne) refillBatchSize s

/-- The test of the outer loop. -/
def refillAgain (s : Refill) : Bool :=
  s.res.vi.efViReceiveFillLevel < s.res.refillMin ∧ s.res.freePktBufsN ≥ refillBatchSize

/-- `refill_rx_ring`.  Each pass of the outer loop takes a batch off the free
list, so that the number of free buffers is fuel enough. -/
def refillRxRing (res : Resources) : Option (Bool × Refill) :=
  if res.vi.efViReceiveFillLevel > res.refillLevel ∨ res.freePktBufsN < refillBatchSize then
    some (false, ⟨res, []⟩)
  else
    (Loop.doWhile refillAgain refillBatch res.freePktBufsN.toNat ⟨res, []⟩).map fun s =>
      (true, { s with res := { s.res with vi := s.res.vi.efViReceivePush } })

end Resources

end Efvi
