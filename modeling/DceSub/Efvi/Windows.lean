import DceSub.Base.Word
import DceSub.Efvi.Init

/-!
# DMA windows in machine words

What `init` computes with, in the types of the source: buffer counts and indices
are `int`, sizes and pointers are 64-bit words, and `ROUND_UP` mixes the two.
The product `i * PKT_BUF_SIZE` is an `int` that is widened afterwards, the mask
for `RX_DMA_OFF` is computed with 32 bits and the one for huge pages with 64.

The window of a buffer is where the NIC may write: the bytes from `RX_DMA_OFF`
on, as many as it delivers.  `dma_windows` says where the windows are in the
region, for any table of DMA pages: inside the memory allocated, within a page,
and clear of the headers and of the other buffers.  `init_words` relates the
words to the numbers of `Setup.init`.
-/

namespace Efvi

open Base

namespace Words

/-! ## Sizes -/

/-- `huge_page_size`, a `long long`. -/
def hugePageSize : BitVec 64 := 2 * 1024 * 1024

/-- `ROUND_UP(p, align)` for a 64-bit `p` and a `long long` `align`: unlike for
an `int`, the mask has 64 bits from the start. -/
def roundUpLL (p align : BitVec 64) : BitVec 64 := (p + align - 1) &&& ~~~(align - 1)

/-- `i * PKT_BUF_SIZE`, a product of `int`s, as a `size_t`. -/
def intOffset (i : BitVec 32) : BitVec 64 := (i * 2048).signExtend 64

/-- `alloc_size`, after rounding. -/
def allocSize (pktBufsN : BitVec 32) : BitVec 64 := roundUpLL (intOffset pktBufsN) hugePageSize

/-- `RX_DMA_OFF`, a `size_t`. -/
def rxDmaOff : BitVec 64 := roundUp sizeofPktBuf efViDmaAlign

/-- `ef_memreg_dma_addr`, on a table of DMA pages. -/
def efMemregDmaAddr (mrDmaAddrs : BitVec 64 → BitVec 64) (offset : BitVec 64) : BitVec 64 :=
  mrDmaAddrs (offset >>> 12) ||| (offset &&& 4095)

/-! ## The loops of `init` -/

/-- `struct pkt_buf`. -/
structure PktBuf where
  efviAddr : BitVec 64
  rxPtr : BitVec 64
  id : BitVec 32
  next : BitVec 64

/-- What the loops of `init` use of `struct resources`, with the headers in
memory. -/
structure Resources where
  pktBufs : BitVec 64
  pktBufsN : BitVec 32
  rxPrefixLen : BitVec 32
  freePktBufs : BitVec 64
  freePktBufsN : BitVec 32
  heap : BitVec 64 → PktBuf

namespace Resources

/-- `pkt_buf_from_id`: the assertion compares unsigned, and the product is one of
`size_t`. -/
def pktBufFromId (res : Resources) (pktBufI : BitVec 32) : Option (BitVec 64) :=
  if pktBufI < res.pktBufsN then some (res.pktBufs + pktBufI.signExtend 64 * 2048) else none

/-- A write to the header of a buffer. -/
def modify (res : Resources) (pktBuf : BitVec 64) (f : PktBuf → PktBuf) : Resources :=
  { res with heap := Function.update res.heap pktBuf (f (res.heap pktBuf)) }

/-- `pkt_buf_free`. -/
def pktBufFree (res : Resources) (pktBuf : BitVec 64) : Resources :=
  { res.modify pktBuf fun b => { b with next := res.freePktBufs } with
    freePktBufs := pktBuf
    freePktBufsN := res.freePktBufsN + 1 }

/-- The body of the carving loop. -/
def carveOne (i : Nat) (res : Resources) : Option Resources :=
  (res.pktBufFromId (BitVec.ofNat 32 i)).map fun pktBuf =>
    (res.modify pktBuf fun b =>
      { b with
        rxPtr := pktBuf + rxDmaOff + res.rxPrefixLen.signExtend 64
        id := BitVec.ofNat 32 i }).pktBufFree pktBuf

/-- The carving loop; its counter and its bound are `int`s. -/
def carve (res : Resources) : Option Resources :=
  Loop.forLoop carveOne res.pktBufsN.toInt.toNat res

/-- The body of the loop that looks up the DMA addresses. -/
def registerOne (mrDmaAddrs : BitVec 64 → BitVec 64) (i : Nat) (res : Resources) :
    Option Resources :=
  (res.pktBufFromId (BitVec.ofNat 32 i)).map fun pktBuf =>
    res.modify pktBuf fun b =>
      { b with efviAddr := efMemregDmaAddr mrDmaAddrs (intOffset (BitVec.ofNat 32 i)) }

/-- The loop that looks up the DMA addresses. -/
def register (mrDmaAddrs : BitVec 64 → BitVec 64) (res : Resources) : Option Resources :=
  Loop.forLoop (registerOne mrDmaAddrs) res.pktBufsN.toInt.toNat res

end Resources

/-! ## Sizes as numbers -/

theorem rxDmaOff_eq : rxDmaOff = 64 := by decide

theorem toNat_rxDmaOff : rxDmaOff.toNat = 64 := by rw [rxDmaOff_eq]; rfl

theorem toNat_intOffset {i : Nat} (h : 2048 * i < 2 ^ 31) :
    (intOffset (BitVec.ofNat 32 i)).toNat = 2048 * i := by
  have hi : (BitVec.ofNat 32 i).toNat = i := toNat_ofNat_of_lt (by omega)
  have hmul : (BitVec.ofNat 32 i * 2048).toNat = i * 2048 := by
    rw [toNat_mul_of_lt, hi]
    · rfl
    · rw [hi]
      show i * 2048 < 2 ^ 32
      omega
  rw [intOffset, toNat_signExtend_of_lt (by decide), hmul]
  · omega
  · rw [hmul]
    omega

theorem intOffset_eq {i : Nat} (h : 2048 * i < 2 ^ 31) :
    intOffset (BitVec.ofNat 32 i) = BitVec.ofNat 64 (2048 * i) := by
  apply BitVec.eq_of_toNat_eq
  rw [toNat_intOffset h, toNat_ofNat_of_lt (by omega)]

/-- Rounding up to huge pages. -/
theorem toNat_roundUpLL {p : BitVec 64} (h : p.toNat + 2 ^ 21 ≤ 2 ^ 64) :
    (roundUpLL p hugePageSize).toNat = (p.toNat + (2 ^ 21 - 1)) / 2 ^ 21 * 2 ^ 21 := by
  have hmask : hugePageSize - 1 = BitVec.ofNat 64 (2 ^ 21 - 1) := by decide
  have hsum : p + hugePageSize - 1 = p + BitVec.ofNat 64 (2 ^ 21 - 1) := by
    rw [← hmask, add_sub_assoc]
  rw [roundUpLL, hmask, hsum, toNat_and_not_mask, BitVec.toNat_add,
    toNat_ofNat_of_lt (show 2 ^ 21 - 1 < 2 ^ 64 by decide), Nat.mod_eq_of_lt (by omega)]

/-- The memory allocated is made of huge pages, and has room for all buffers. -/
theorem allocSize_spec {n : BitVec 32} (h : 2048 * n.toNat < 2 ^ 31) :
    (allocSize n).toNat % 2 ^ 21 = 0 ∧ 2048 * n.toNat ≤ (allocSize n).toNat := by
  have hoff : (intOffset n).toNat = 2048 * n.toNat := by
    have := toNat_intOffset h
    rwa [BitVec.ofNat_toNat, BitVec.setWidth_eq] at this
  rw [allocSize, toNat_roundUpLL (by omega), hoff]
  omega

/-! ## What the loops leave in the headers -/

namespace Resources

/-- The address of a buffer. -/
def bufAddr (res : Resources) (i : Nat) : BitVec 64 := res.pktBufs + BitVec.ofNat 64 (2048 * i)

variable {res₀ res : Resources} {i j : Nat}

theorem pktBufFromId_eq (h : 2048 * res.pktBufsN.toNat < 2 ^ 31) (hi : i < res.pktBufsN.toNat) :
    res.pktBufFromId (BitVec.ofNat 32 i) = some (res.bufAddr i) := by
  have hnat : (BitVec.ofNat 32 i).toNat = i := toNat_ofNat_of_lt (by omega)
  have hext : ((BitVec.ofNat 32 i).signExtend 64).toNat = i := by
    rw [toNat_signExtend_of_lt (by decide) (by omega), hnat]
  have hoff : (BitVec.ofNat 32 i).signExtend 64 * 2048 = BitVec.ofNat 64 (2048 * i) := by
    apply BitVec.eq_of_toNat_eq
    rw [BitVec.toNat_mul, hext, BitVec.toNat_ofNat, Nat.mul_comm]
    rfl
  rw [pktBufFromId, if_pos (by rw [BitVec.lt_def, hnat]; exact hi), hoff, bufAddr]

/-- Different buffers have different addresses. -/
theorem bufAddr_inj (res : Resources) (hi : 2048 * i < 2 ^ 64) (hj : 2048 * j < 2 ^ 64)
    (h : res.bufAddr i = res.bufAddr j) : i = j := by
  have hoff := congrArg BitVec.toNat (add_left_cancel h)
  rw [toNat_ofNat_of_lt hi, toNat_ofNat_of_lt hj] at hoff
  omega

@[simp] theorem modify_heap_self (res : Resources) (pktBuf : BitVec 64) (f : PktBuf → PktBuf) :
    (res.modify pktBuf f).heap pktBuf = f (res.heap pktBuf) := Function.update_self ..

theorem modify_heap_of_ne (res : Resources) {a pktBuf : BitVec 64} (f : PktBuf → PktBuf)
    (h : a ≠ pktBuf) : (res.modify pktBuf f).heap a = res.heap a := Function.update_of_ne h ..

/-- A write to the header of a buffer leaves those of the others. -/
theorem modify_heap_bufAddr {f : PktBuf → PktBuf} (hi : 2048 * i < 2 ^ 64)
    (hj : 2048 * j < 2 ^ 64) :
    (res.modify (res₀.bufAddr i) f).heap (res₀.bufAddr j) =
      if j = i then f (res.heap (res₀.bufAddr i)) else res.heap (res₀.bufAddr j) := by
  by_cases hji : j = i
  · rw [if_pos hji, hji, modify_heap_self]
  · rw [if_neg hji, modify_heap_of_ne _ _ fun heq => hji (res₀.bufAddr_inj hj hi heq)]

/-- A write that keeps a member of the header. -/
theorem modify_heap_member {α : Type} (member : PktBuf → α) {f : PktBuf → PktBuf}
    (hf : ∀ b, member (f b) = member b) (a pktBuf : BitVec 64) :
    member ((res.modify pktBuf f).heap a) = member (res.heap a) := by
  by_cases ha : a = pktBuf
  · rw [ha, modify_heap_self, hf]
  · rw [modify_heap_of_ne _ _ ha]

/-- After `i` passes of the carving loop over `res₀`, the first `i` headers have
their pointer and their id. -/
structure Carving (res₀ : Resources) (i : Nat) (res : Resources) : Prop where
  rxPtr : ∀ j, j < i → (res.heap (res₀.bufAddr j)).rxPtr =
    res₀.bufAddr j + rxDmaOff + res₀.rxPrefixLen.signExtend 64
  id : ∀ j, j < i → (res.heap (res₀.bufAddr j)).id = BitVec.ofNat 32 j
  frame : ∃ heap head n,
    res = { res₀ with heap := heap, freePktBufs := head, freePktBufsN := n }

/-- What one pass of the carving loop leaves in the header of its buffer. -/
def carvedHeader (res : Resources) (i : Nat) (b : PktBuf) : PktBuf where
  efviAddr := b.efviAddr
  rxPtr := res.bufAddr i + rxDmaOff + res.rxPrefixLen.signExtend 64
  id := BitVec.ofNat 32 i
  next := res.freePktBufs

theorem carveOne_eq (h : 2048 * res.pktBufsN.toNat < 2 ^ 31) (hi : i < res.pktBufsN.toNat) :
    carveOne i res = some { res.modify (res.bufAddr i) (res.carvedHeader i) with
      freePktBufs := res.bufAddr i
      freePktBufsN := res.freePktBufsN + 1 } := by
  rw [carveOne, pktBufFromId_eq h hi]
  simp [pktBufFree, modify, carvedHeader]

theorem carveOne_carving (h : 2048 * res₀.pktBufsN.toNat < 2 ^ 31) (hi : i < res₀.pktBufsN.toNat)
    (hc : Carving res₀ i res) :
    ∃ res', carveOne i res = some res' ∧ Carving res₀ (i + 1) res' := by
  obtain ⟨heap, head, n, hframe⟩ := hc.frame
  have hn : res.pktBufsN = res₀.pktBufsN := by rw [hframe]
  have haddr : ∀ j, res.bufAddr j = res₀.bufAddr j := fun j => by rw [hframe]; rfl
  have hlen : res.rxPrefixLen = res₀.rxPrefixLen := by rw [hframe]
  refine ⟨_, carveOne_eq (hn ▸ h) (hn ▸ hi), ?_⟩
  -- the header of `j` is the one just written, or an older one at another address
  constructor
  case rxPtr =>
    intro j hj
    show ((res.modify _ _).heap _).rxPtr = _
    rw [haddr i, modify_heap_bufAddr (by omega) (by omega)]
    split
    next hji => rw [hji, carvedHeader, haddr, hlen]
    next hji => exact hc.rxPtr j (by omega)
  case id =>
    intro j hj
    show ((res.modify _ _).heap _).id = _
    rw [haddr i, modify_heap_bufAddr (by omega) (by omega)]
    split
    next hji => rw [hji, carvedHeader]
    next hji => exact hc.id j (by omega)
  case frame =>
    exact ⟨_, _, _, by rw [hframe]; rfl⟩

/-- After `i` passes of the second loop over `res₀`, the first `i` headers have
their DMA address; pointers and ids stay as they are. -/
structure Registering (mrDmaAddrs : BitVec 64 → BitVec 64) (res₀ : Resources) (i : Nat)
    (res : Resources) : Prop where
  efviAddr : ∀ j, j < i → (res.heap (res₀.bufAddr j)).efviAddr =
    efMemregDmaAddr mrDmaAddrs (BitVec.ofNat 64 (2048 * j))
  rxPtr : ∀ a, (res.heap a).rxPtr = (res₀.heap a).rxPtr
  id : ∀ a, (res.heap a).id = (res₀.heap a).id
  frame : ∃ heap, res = { res₀ with heap := heap }

variable {mrDmaAddrs : BitVec 64 → BitVec 64}

theorem registerOne_registering (h : 2048 * res₀.pktBufsN.toNat < 2 ^ 31)
    (hi : i < res₀.pktBufsN.toNat) (hr : Registering mrDmaAddrs res₀ i res) :
    ∃ res', registerOne mrDmaAddrs i res = some res' ∧
      Registering mrDmaAddrs res₀ (i + 1) res' := by
  obtain ⟨heap, hframe⟩ := hr.frame
  have hid : res.pktBufFromId (BitVec.ofNat 32 i) = some (res₀.bufAddr i) := by
    rw [hframe]
    exact pktBufFromId_eq h hi
  refine ⟨_, by rw [registerOne, hid]; rfl, ?_⟩
  rw [intOffset_eq (by omega)]
  constructor
  case efviAddr =>
    intro j hj
    rw [modify_heap_bufAddr (by omega) (by omega)]
    split
    next hji => rw [hji]
    next hji => exact hr.efviAddr j (by omega)
  case rxPtr =>
    intro a
    rw [← hr.rxPtr a]
    apply modify_heap_member PktBuf.rxPtr
    intro b
    rfl
  case id =>
    intro a
    rw [← hr.id a]
    apply modify_heap_member PktBuf.id
    intro b
    rfl
  case frame => exact ⟨_, by rw [hframe]; rfl⟩

/-- Both loops end, and leave in every header its DMA address, its pointer and
its id. -/
theorem carve_register (h : 2048 * res₀.pktBufsN.toNat < 2 ^ 31)
    (mrDmaAddrs : BitVec 64 → BitVec 64) :
    ∃ res, res₀.carve.bind (register mrDmaAddrs) = some res ∧
      (∃ heap head n, res = { res₀ with heap := heap, freePktBufs := head, freePktBufsN := n }) ∧
      ∀ i, i < res₀.pktBufsN.toNat →
        (res.heap (res₀.bufAddr i)).efviAddr =
            efMemregDmaAddr mrDmaAddrs (BitVec.ofNat 64 (2048 * i)) ∧
          (res.heap (res₀.bufAddr i)).rxPtr =
            res₀.bufAddr i + rxDmaOff + res₀.rxPrefixLen.signExtend 64 ∧
          (res.heap (res₀.bufAddr i)).id = BitVec.ofNat 32 i := by
  have hcount : res₀.pktBufsN.toInt.toNat = res₀.pktBufsN.toNat := by
    rw [BitVec.toInt_eq_toNat_cond, if_pos (by omega), Int.toNat_natCast]
  have hc0 : Carving res₀ 0 res₀ :=
    ⟨fun j hj => absurd hj (Nat.not_lt_zero j), fun j hj => absurd hj (Nat.not_lt_zero j),
      ⟨_, _, _, rfl⟩⟩
  obtain ⟨mid, hmid, hcarved⟩ := Loop.forLoop_inv (Carving res₀) hc0
    fun i res hi hc => carveOne_carving h hi hc
  obtain ⟨heap, head, n, rfl⟩ := hcarved.frame
  have hr0 : Registering mrDmaAddrs
      { res₀ with heap := heap, freePktBufs := head, freePktBufsN := n } 0
      { res₀ with heap := heap, freePktBufs := head, freePktBufsN := n } :=
    ⟨fun j hj => absurd hj (Nat.not_lt_zero j), fun _ => rfl, fun _ => rfl, ⟨_, rfl⟩⟩
  obtain ⟨res, hres, hreg⟩ := Loop.forLoop_inv (n := res₀.pktBufsN.toNat) (Registering mrDmaAddrs _)
    hr0 fun i res hi hr => registerOne_registering h hi hr
  obtain ⟨heap', hframe⟩ := hreg.frame
  refine ⟨res, ?_, ⟨heap', head, n, by rw [hframe]⟩, fun i hi => ⟨?_, ?_, ?_⟩⟩
  · rw [carve, hcount, hmid, Option.bind_some, register, hcount]
    exact hres
  · exact hreg.efviAddr i hi
  · rw [hreg.rxPtr]
    exact hcarved.rxPtr i hi
  · rw [hreg.id]
    exact hcarved.id i hi

end Resources

/-! ## Windows -/

/-- A DMA address, as a number. -/
theorem toNat_efMemregDmaAddr {mrDmaAddrs : BitVec 64 → BitVec 64} {offset : BitVec 64}
    (h : (mrDmaAddrs (offset >>> 12)).toNat % 4096 = 0) :
    (efMemregDmaAddr mrDmaAddrs offset).toNat =
      (mrDmaAddrs (offset >>> 12)).toNat + offset.toNat % 4096 := by
  have hlow : (offset &&& 4095).toNat = offset.toNat % 4096 :=
    toNat_and_mask (k := 12) offset (by decide)
  have hlt : (offset &&& 4095).toNat < 2 ^ 12 := by
    rw [hlow]
    exact Nat.mod_lt _ (by decide)
  rw [efMemregDmaAddr, toNat_or_of_aligned h hlt, hlow]

/-- Within a page, DMA addresses advance as offsets do. -/
theorem efMemregDmaAddr_add {mrDmaAddrs : BitVec 64 → BitVec 64} {off k : Nat}
    (h : (mrDmaAddrs (BitVec.ofNat 64 off >>> 12)).toNat % 4096 = 0)
    (hlt : off + k < 2 ^ 64) (hpage : off % 4096 + k < 4096) :
    efMemregDmaAddr mrDmaAddrs (BitVec.ofNat 64 off) + BitVec.ofNat 64 k =
      efMemregDmaAddr mrDmaAddrs (BitVec.ofNat 64 (off + k)) := by
  have hoff : (BitVec.ofNat 64 off).toNat = off := toNat_ofNat_of_lt (by omega)
  have hsum : (BitVec.ofNat 64 (off + k)).toNat = off + k := toNat_ofNat_of_lt hlt
  have hsame : BitVec.ofNat 64 (off + k) >>> 12 = BitVec.ofNat 64 off >>> 12 := by
    apply BitVec.eq_of_toNat_eq
    rw [BitVec.toNat_ushiftRight, BitVec.toNat_ushiftRight, hsum, hoff, Nat.shiftRight_eq_div_pow,
      Nat.shiftRight_eq_div_pow]
    omega
  have hbound := (mrDmaAddrs (BitVec.ofNat 64 off >>> 12)).isLt
  apply BitVec.eq_of_toNat_eq
  rw [BitVec.toNat_add, toNat_efMemregDmaAddr h, toNat_efMemregDmaAddr (hsame ▸ h), hsame, hoff,
    hsum, BitVec.toNat_ofNat]
  omega

/-- The window of buffer `i`: the bytes of the region from `2048 * i + 64` on, as
many as the NIC delivers, where a buffer has 2048 bytes and its header 32. -/
structure Window (mrDmaAddrs : BitVec 64 → BitVec 64) (res : Resources) (i : Nat)
    (pktBuf : BitVec 64) : Prop where
  buffer : pktBuf = res.pktBufs + BitVec.ofNat 64 (2048 * i)
  dma : ∀ o, o < receiveBufferLen →
    (res.heap pktBuf).efviAddr + rxDmaOff + BitVec.ofNat 64 o =
      efMemregDmaAddr mrDmaAddrs (BitVec.ofNat 64 (2048 * i + 64 + o))
  allocated : ∀ o, o < receiveBufferLen → 2048 * i + 64 + o < (allocSize res.pktBufsN).toNat
  headers : ∀ o, o < receiveBufferLen → ∀ j, j < res.pktBufsN.toNat →
    ¬ (2048 * j ≤ 2048 * i + 64 + o ∧ 2048 * i + 64 + o < 2048 * j + 32)
  slots : ∀ o, o < receiveBufferLen → ∀ j, j < res.pktBufsN.toNat → j ≠ i →
    ¬ (2048 * j ≤ 2048 * i + 64 + o ∧ 2048 * i + 64 + o < 2048 * j + 2048)
  aligned : ((res.heap pktBuf).efviAddr + rxDmaOff).toNat % 64 = 0
  rxPtr : (res.heap pktBuf).rxPtr =
    res.pktBufs + BitVec.ofInt 64 (2048 * i + 64 + res.rxPrefixLen.toInt)

/-- The page of a buffer is one of the region. -/
theorem page_lt {n : BitVec 32} {i : Nat} (h : 2048 * n.toNat < 2 ^ 31) (hi : i < n.toNat) :
    (BitVec.ofNat 64 (2048 * i) >>> 12).toNat * 4096 < (allocSize n).toNat := by
  have hle := (allocSize_spec h).2
  rw [BitVec.toNat_ushiftRight, toNat_ofNat_of_lt (by omega),
    Nat.shiftRight_eq_div_pow]
  omega

/-- A pointer with a window's offset added to it in steps. -/
theorem rxPtr_eq (base : BitVec 64) (i : Nat) (rxPrefixLen : BitVec 32) :
    base + BitVec.ofNat 64 (2048 * i) + rxDmaOff + rxPrefixLen.signExtend 64 =
      base + BitVec.ofInt 64 (2048 * i + 64 + rxPrefixLen.toInt) := by
  have h64 : rxDmaOff = BitVec.ofInt 64 64 := rxDmaOff_eq
  have hnat : BitVec.ofNat 64 (2048 * i) = BitVec.ofInt 64 (2048 * i) := by
    rw [← BitVec.ofInt_natCast, Nat.cast_mul]
    rfl
  rw [BitVec.ofInt_add, BitVec.ofInt_add, ← h64, ← hnat, BitVec.signExtend, BitVec.add_assoc base,
    BitVec.add_assoc base]

/-- DMA windows never touch bookkeeping.  Whatever table of aligned DMA pages is
used, the loops of `init` end, and every buffer has its window: inside the
memory allocated and on one page, in no header and in no other buffer, aligned
to 64 bytes; `rx_ptr` points to byte `rx_prefix_len` of it.  The memory
allocated is made of huge pages and holds all buffers. -/
theorem dma_windows (res₀ : Resources) (mrDmaAddrs : BitVec 64 → BitVec 64)
    (hsmall : 2048 * res₀.pktBufsN.toNat < 2 ^ 31)
    (hpages : ∀ p, p.toNat * 4096 < (allocSize res₀.pktBufsN).toNat →
      (mrDmaAddrs p).toNat % 4096 = 0) :
    (∃ res, res₀.carve.bind (Resources.register mrDmaAddrs) = some res ∧
        res.pktBufs = res₀.pktBufs ∧ res.pktBufsN = res₀.pktBufsN ∧
        res.rxPrefixLen = res₀.rxPrefixLen ∧
        ∀ i, i < res₀.pktBufsN.toNat →
          ∃ pktBuf, res.pktBufFromId (BitVec.ofNat 32 i) = some pktBuf ∧
            Window mrDmaAddrs res i pktBuf) ∧
      (allocSize res₀.pktBufsN).toNat % 2 ^ 21 = 0 ∧
      res₀.pktBufsN.toNat * 2048 ≤ (allocSize res₀.pktBufsN).toNat := by
  obtain ⟨hhuge, hroom⟩ := allocSize_spec hsmall
  obtain ⟨res, hres, ⟨heap, head, n, hframe⟩, hheaders⟩ :=
    Resources.carve_register hsmall mrDmaAddrs
  have hbase : res.pktBufs = res₀.pktBufs := by rw [hframe]
  have hn : res.pktBufsN = res₀.pktBufsN := by rw [hframe]
  have hlen : res.rxPrefixLen = res₀.rxPrefixLen := by rw [hframe]
  refine ⟨⟨res, hres, hbase, hn, hlen, fun i hi => ?_⟩, hhuge, by omega⟩
  obtain ⟨hefvi, hrx, -⟩ := hheaders i hi
  have haddr : res.bufAddr i = res₀.bufAddr i := by rw [hframe]; rfl
  have hpage := hpages _ (page_lt hsmall hi)
  have hdma : ∀ k, 64 + k < 2048 →
      efMemregDmaAddr mrDmaAddrs (BitVec.ofNat 64 (2048 * i)) + rxDmaOff + BitVec.ofNat 64 k =
        efMemregDmaAddr mrDmaAddrs (BitVec.ofNat 64 (2048 * i + 64 + k)) := by
    intro k hk
    rw [rxDmaOff_eq, BitVec.add_assoc, show (64 : BitVec 64) = BitVec.ofNat 64 64 from rfl,
      ← BitVec.ofNat_add, efMemregDmaAddr_add hpage (by omega) (by omega), Nat.add_assoc]
  refine ⟨res₀.bufAddr i, ?_, ?_⟩
  · rw [Resources.pktBufFromId_eq (hn ▸ hsmall) (hn ▸ hi), haddr]
  constructor
  case buffer => rw [Resources.bufAddr, hbase]
  case dma =>
    intro o ho
    rw [receiveBufferLen] at ho
    rw [hefvi]
    exact hdma o (by omega)
  case allocated =>
    intro o ho
    rw [receiveBufferLen] at ho
    rw [hn]
    omega
  case headers =>
    intro o ho j _
    rw [receiveBufferLen] at ho
    omega
  case slots =>
    intro o ho j _ hne
    rw [receiveBufferLen] at ho
    omega
  case aligned =>
    rw [hefvi, BitVec.toNat_add, toNat_efMemregDmaAddr hpage, toNat_rxDmaOff, BitVec.toNat_ofNat]
    omega
  case rxPtr =>
    rw [hrx, hbase, hlen]
    exact rxPtr_eq ..

/-- Sixteen buffers, at an address of 2 MiB. -/
def small16 : Resources where
  pktBufs := 0x200000
  pktBufsN := 16
  rxPrefixLen := 14
  freePktBufs := 0
  freePktBufsN := 0
  heap := fun _ => ⟨0, 0, 0, 0⟩

/-- DMA pages in descending order. -/
def descending : BitVec 64 → BitVec 64 := fun p => (~~~p) <<< 12

theorem descending_aligned (p : BitVec 64) : (descending p).toNat % 4096 = 0 := by
  rw [descending, BitVec.toNat_shiftLeft, Nat.shiftLeft_eq]
  omega

theorem dma_windows_small16 :
    (∃ res, small16.carve.bind (Resources.register descending) = some res ∧
        res.pktBufs = small16.pktBufs ∧ res.pktBufsN = small16.pktBufsN ∧
        res.rxPrefixLen = small16.rxPrefixLen ∧
        ∀ i, i < 16 → ∃ pktBuf, res.pktBufFromId (BitVec.ofNat 32 i) = some pktBuf ∧
          Window descending res i pktBuf) ∧
      (allocSize 16).toNat % 2 ^ 21 = 0 ∧ 16 * 2048 ≤ (allocSize 16).toNat :=
  dma_windows small16 descending (by decide) fun p _ => descending_aligned p

end Words

/-! ## Words and numbers -/

open Resources

namespace Setup

/-- The resources before the loops of `init`, in machine words. -/
def words (su : Setup) (heap : BitVec 64 → Words.PktBuf) : Words.Resources where
  pktBufs := BitVec.ofNat 64 su.pktBufs
  pktBufsN := BitVec.ofInt 32 su.cfgMaxFill
  rxPrefixLen := BitVec.ofNat 32 su.rxPrefixLen
  freePktBufs := 0
  freePktBufsN := 0
  heap := heap

/-- The table of DMA pages, in machine words. -/
def dmaPages (su : Setup) : BitVec 64 → BitVec 64 := fun p =>
  BitVec.ofNat 64 (su.memreg.mrDmaAddrs p.toNat)

/-- Everything `init` computes with fits its type. -/
structure InRange (su : Setup) : Prop where
  buffers : 15 ≤ su.capacity
  offsets : 2048 * (su.capacity - 15) < 2 ^ 31
  rxPrefixLen : su.rxPrefixLen < 2 ^ 31
  region : su.pktBufs + 2048 * (su.capacity - 15) + 64 + su.rxPrefixLen < 2 ^ 64
  dma : ∀ p, 4096 * p < 2048 * (su.capacity - 15) → su.memreg.mrDmaAddrs p < 2 ^ 64

/-- The header at an address in words is the one the layout has there. -/
structure SameHeader (L : Layout) (i : Nat) (pktBuf : BitVec 64) (b : Words.PktBuf) : Prop where
  pktBuf : pktBuf.toNat = L.bufAddr i
  efviAddr : b.efviAddr.toNat = L.efviAddr (L.bufAddr i)
  rxPtr : b.rxPtr.toNat = L.rxPtr (L.bufAddr i)
  id : b.id.toNat = L.id (L.bufAddr i)

theorem toNat_dmaPages {su : Setup} (h : su.InRange) {i : Nat} (hi : i < su.capacity - 15) :
    (Words.efMemregDmaAddr su.dmaPages (BitVec.ofNat 64 (2048 * i))).toNat =
      su.memreg.efMemregDmaAddr (i * pktBufSize) := by
  have hoffsets := h.offsets
  have hoff : (BitVec.ofNat 64 (2048 * i)).toNat = 2048 * i := toNat_ofNat_of_lt (by omega)
  have hpage : (BitVec.ofNat 64 (2048 * i) >>> 12).toNat = 2048 * i / 4096 := by
    rw [BitVec.toNat_ushiftRight, hoff, Nat.shiftRight_eq_div_pow]
  have htable : (su.dmaPages (BitVec.ofNat 64 (2048 * i) >>> 12)).toNat =
      su.memreg.mrDmaAddrs (2048 * i / 4096) := by
    rw [dmaPages, hpage, toNat_ofNat_of_lt (h.dma _ (by omega))]
  have haligned := su.memreg.aligned (2048 * i / 4096)
  rw [Words.toNat_efMemregDmaAddr (by rw [htable]; exact haligned), htable, hoff,
    Memreg.efMemregDmaAddr_eq, pktBufSize, Nat.mul_comm]

theorem toNat_words_pktBufsN {su : Setup} (h : su.InRange) (heap : BitVec 64 → Words.PktBuf) :
    (su.words heap).pktBufsN.toNat = su.capacity - 15 := by
  have hbuffers := h.buffers
  have hoffsets := h.offsets
  have hmax : su.cfgMaxFill = (su.capacity : Int) - 15 := rfl
  show (BitVec.ofInt 32 su.cfgMaxFill).toNat = _
  rw [BitVec.toNat_ofInt, hmax]
  omega

theorem toNat_words_bufAddr {su : Setup} (h : su.InRange) (heap : BitVec 64 → Words.PktBuf)
    {i : Nat} (hi : i < su.capacity - 15) :
    ((su.words heap).bufAddr i).toNat = su.pktBufs + 2048 * i := by
  have hregion := h.region
  show (BitVec.ofNat 64 su.pktBufs + BitVec.ofNat 64 (2048 * i)).toNat = _
  rw [BitVec.toNat_add, BitVec.toNat_ofNat, BitVec.toNat_ofNat]
  omega

theorem toNat_words_rxPrefixLen {su : Setup} (h : su.InRange) (heap : BitVec 64 → Words.PktBuf) :
    ((su.words heap).rxPrefixLen.signExtend 64).toNat = su.rxPrefixLen := by
  have hrxLen := h.rxPrefixLen
  have hnat : (BitVec.ofNat 32 su.rxPrefixLen).toNat = su.rxPrefixLen :=
    toNat_ofNat_of_lt (by omega)
  show ((BitVec.ofNat 32 su.rxPrefixLen).signExtend 64).toNat = _
  rw [toNat_signExtend_of_lt (by decide) (by omega), hnat]

/-- While nothing overflows, the loops of `init` compute in words what they
compute in numbers. -/
theorem init_words {su : Setup} (h : su.InRange) (heap : BitVec 64 → Words.PktBuf) {fuel : Nat}
    {out : Filling} (hinit : su.init fuel = some out) :
    ∃ res, (su.words heap).carve.bind (Words.Resources.register su.dmaPages) = some res ∧
      ∀ i, i < out.res.pktBufsN → SameHeader out.res.layout i (res.bufAddr i)
        (res.heap (res.bufAddr i)) := by
  have hbuffers := h.buffers
  have hoffsets := h.offsets
  have hregion := h.region
  have hn := toNat_words_pktBufsN h heap
  have hsmall : 2048 * (su.words heap).pktBufsN.toNat < 2 ^ 31 := by rw [hn]; exact hoffsets
  obtain ⟨p, hposted, -, -⟩ := init_posted hbuffers hinit
  have hL := hposted.configured
  have hN : (out.res.pktBufsN : Int) = (su.capacity : Int) - 15 := hL.pktBufsN
  obtain ⟨res, hres, ⟨heap', head, n, hframe⟩, hheaders⟩ :=
    Words.Resources.carve_register hsmall su.dmaPages
  refine ⟨res, hres, fun i hi => ?_⟩
  obtain ⟨hefvi, hrx, hid⟩ := hheaders i (by omega)
  have haddr : res.bufAddr i = (su.words heap).bufAddr i := by rw [hframe]; rfl
  have hbuf := toNat_words_bufAddr h heap (i := i) (by omega)
  have hbufL : out.res.layout.bufAddr i = su.pktBufs + 2048 * i := by
    rw [Layout.bufAddr, hL.pktBufs, pktBufSize, Nat.mul_comm]
  rw [haddr]
  constructor
  case pktBuf => rw [hbuf, hbufL]
  case efviAddr =>
    rw [hefvi, hL.efviAddr i hi]
    exact toNat_dmaPages h (by omega)
  case rxPtr =>
    rw [hrx, BitVec.toNat_add, BitVec.toNat_add, hbuf, toNat_words_rxPrefixLen h,
      Words.toNat_rxDmaOff, hposted.owns.carved.rxPtr i hi, hbufL, rxDmaOff_eq, hL.rxPrefixLen]
    omega
  case id =>
    rw [hid, hposted.owns.carved.id i hi, BitVec.toNat_ofNat]
    omega

example : small32.InRange where
  buffers := by decide
  offsets := by decide
  rxPrefixLen := by decide
  region := by decide
  dma := by
    intro p hp
    show p * 4096 < 2 ^ 64
    have hcap : small32.capacity = 31 := rfl
    omega

end Setup

/-- What the NIC writes to a posted address leaves every header as it is, so that
headers and packet memory can be kept apart. -/
theorem Memreg.dmaWrite_header (mr : Memreg) (base i j : Nat) {bs : List UInt8}
    (h : bs.length ≤ receiveBufferLen) (m : Mem) :
    readBytes (mr.dmaWrite base (mr.efMemregDmaAddr (i * pktBufSize) + rxDmaOff) bs m)
        (base + j * pktBufSize) sizeofPktBuf.toNat =
      readBytes m (base + j * pktBufSize) sizeofPktBuf.toNat := by
  have hsize : sizeofPktBuf.toNat = 32 := rfl
  rw [receiveBufferLen] at h
  rw [mr.dmaWrite_eq base i h, readBytes_writeBytes_of_disjoint]
  rw [hsize, pktBufSize, rxDmaOff_eq]
  omega

end Efvi
