import DceSub.Base.Bytes

/-!
# Packet buffers in registered memory

Packet buffers are cut from one region of memory that is registered with the
adapter.  The adapter addresses the region by DMA pages of 4096 bytes, which
need not be contiguous: `ef_memreg_dma_addr` looks the page up and puts the
offset within the page below it.

A buffer is 2048 bytes, so that it lies within one page, and packets are
delivered from byte `RX_DMA_OFF` of a buffer on.  `dmaWrite_eq` puts the two
together: what the NIC writes to the address posted for a buffer arrives in the
memory of that buffer.
-/

namespace Efvi

open Base

/-! ## Sizes and offsets -/

/-- `PKT_BUF_SIZE`. -/
def pktBufSize : Nat := 2048

/-- `EF_VI_DMA_ALIGN`. -/
def efViDmaAlign : BitVec 32 := 64

/-- `sizeof(struct pkt_buf)`. -/
def sizeofPktBuf : BitVec 64 := 32

/-- `ROUND_UP(p, align)` for a 64-bit `p` and an `int` `align`: the mask is
computed with 32 bits and then widened. -/
def roundUp (p : BitVec 64) (align : BitVec 32) : BitVec 64 :=
  (p + align.setWidth 64 - 1) &&& (~~~(align - 1)).setWidth 64

/-- `RX_DMA_OFF`. -/
def rxDmaOff : Nat := (roundUp sizeofPktBuf efViDmaAlign).toNat

theorem rxDmaOff_eq : rxDmaOff = 64 := by decide

/-- `ef_vi_receive_buffer_len()`, by default: the NIC delivers at most this many
bytes to a buffer. -/
def receiveBufferLen : Nat := 1792

/-! ## DMA addresses -/

/-- A registered memory region.  `mrDmaAddrs` is the table of DMA pages, and
`pageAt` is the adapter's side of it: the page of the region behind a DMA
page. -/
structure Memreg where
  mrDmaAddrs : Nat → Nat
  pageAt : Nat → Nat
  aligned : ∀ p, mrDmaAddrs p % 4096 = 0
  mapped : ∀ p, pageAt (mrDmaAddrs p / 4096) = p

namespace Memreg

/-- DMA addresses that are offsets in the region. -/
def identity : Memreg where
  mrDmaAddrs := fun p => p * 4096
  pageAt := fun p => p
  aligned := fun p => Nat.mul_mod_left p 4096
  mapped := fun p => Nat.mul_div_left p (by decide)

/-- `ef_memreg_dma_addr`. -/
def efMemregDmaAddr (mr : Memreg) (offset : Nat) : Nat :=
  mr.mrDmaAddrs (offset >>> 12) ||| (offset &&& 4095)

/-- The offset in the region of what is at a DMA address. -/
def resolve (mr : Memreg) (addr : Nat) : Nat := mr.pageAt (addr / 4096) * 4096 + addr % 4096

theorem efMemregDmaAddr_eq (mr : Memreg) (offset : Nat) :
    mr.efMemregDmaAddr offset = mr.mrDmaAddrs (offset / 4096) + offset % 4096 := by
  have ha := mr.aligned (offset / 4096)
  have hmod : offset % 4096 < 2 ^ 12 := Nat.mod_lt _ (by decide)
  have hdvd : 2 ^ 12 * (mr.mrDmaAddrs (offset / 4096) / 2 ^ 12) =
      mr.mrDmaAddrs (offset / 4096) := by omega
  rw [efMemregDmaAddr, Nat.shiftRight_eq_div_pow, show (4095 : Nat) = 2 ^ 12 - 1 from rfl,
    Nat.and_two_pow_sub_one_eq_mod]
  have hor := Nat.two_pow_add_eq_or_of_lt hmod (mr.mrDmaAddrs (offset / 4096) / 2 ^ 12)
  rw [hdvd] at hor
  exact hor.symm

/-- Within a page, DMA addresses advance as offsets do. -/
theorem resolve_efMemregDmaAddr (mr : Memreg) {offset k : Nat} (h : offset % 4096 + k < 4096) :
    mr.resolve (mr.efMemregDmaAddr offset + k) = offset + k := by
  have ha := mr.aligned (offset / 4096)
  have hm := mr.mapped (offset / 4096)
  have hdiv : (mr.efMemregDmaAddr offset + k) / 4096 = mr.mrDmaAddrs (offset / 4096) / 4096 := by
    rw [efMemregDmaAddr_eq]
    omega
  have hmod : (mr.efMemregDmaAddr offset + k) % 4096 = offset % 4096 + k := by
    rw [efMemregDmaAddr_eq]
    omega
  rw [resolve, hdiv, hmod, hm]
  omega

/-- The NIC writes bytes to consecutive DMA addresses of a region that starts at
`base`. -/
def dmaWrite (mr : Memreg) (base : Nat) : Nat → List UInt8 → Mem → Mem
  | _, [], m => m
  | addr, b :: bs, m =>
      dmaWrite mr base (addr + 1) bs (Function.update m (base + mr.resolve addr) b)
termination_by structural _ bs => bs

/-- A write to addresses that resolve to consecutive offsets. -/
theorem dmaWrite_of_resolve (mr : Memreg) (base : Nat) (bs : List UInt8) {addr off : Nat} (m : Mem)
    (h : ∀ k, k < bs.length → mr.resolve (addr + k) = off + k) :
    mr.dmaWrite base addr bs m = writeBytes m (base + off) bs := by
  induction bs generalizing addr off m with
  | nil => rw [dmaWrite, writeBytes_nil]
  | cons b bs ih =>
      have h0 : mr.resolve addr = off := h 0 (by simp)
      have hrest : ∀ k, k < bs.length → mr.resolve (addr + 1 + k) = off + 1 + k := by
        intro k hk
        have hk' := h (k + 1) (by simpa using hk)
        rw [show addr + 1 + k = addr + (k + 1) by omega, hk']
        omega
      rw [dmaWrite, ih _ hrest, h0, ← Nat.add_assoc, writeBytes_cons]

/-- A packet written to the address posted for buffer `i` arrives from byte
`RX_DMA_OFF` of the buffer on. -/
theorem dmaWrite_eq (mr : Memreg) (base i : Nat) {bs : List UInt8}
    (h : bs.length ≤ receiveBufferLen) (m : Mem) :
    mr.dmaWrite base (mr.efMemregDmaAddr (i * pktBufSize) + rxDmaOff) bs m =
      writeBytes m (base + i * pktBufSize + rxDmaOff) bs := by
  rw [Nat.add_assoc base]
  apply dmaWrite_of_resolve
  intro k hk
  rw [receiveBufferLen] at h
  rw [Nat.add_assoc, resolve_efMemregDmaAddr, ← Nat.add_assoc]
  rw [pktBufSize, rxDmaOff_eq]
  omega

end Memreg

end Efvi
