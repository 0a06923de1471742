import DceSub.Base.Machine
import DceSub.Wire.Output

/-!
# The packet block

The raw-socket loop, the ExaNIC loop and the EF_VI packet handler end in the
same block of code.  It starts from a pointer `packet_buf` to an Ethernet frame
and filters on the ethertype, directly or behind one 802.1Q tag, and on the
destination address `239.239.239.8`.  It compares the IP id with the previous
one, warns of a gap, has the packet decoded and prints the record.

`packetBlock` is that block, over a memory and the address of the frame in it.
Ethertypes are compared as loaded by a little-endian host, addresses and ids
after `ntohl` and `ntohs`, as in the source.  `lastIpId` is the filter and the
id it lets through, and `lastIpId_eq_some_iff` says what both are in terms of
the bytes of the frame.
-/

namespace Wire

open Base

/-! ## Constants -/

/-- `ETHTYPE_OFFSET`. -/
def ethtypeOffset : Nat := 12
/-- `DOT1Q_ETHTYPE_OFFSET`. -/
def dot1qEthtypeOffset : Nat := 16
/-- `IP_ID_OFFSET`. -/
def ipIdOffset : Nat := 18
/-- `DST_IP_OFFSET`. -/
def dstIpOffset : Nat := 30
/-- `IPV4_PACKET`, the ethertype `08 00` as loaded. -/
def ipv4Packet : BitVec 16 := 0x0008
/-- `DOT1Q_FRAME`, the ethertype `81 00` as loaded. -/
def dot1qFrame : BitVec 16 := 0x0081
/-- `DST_IP_FILTER`: 239.239.239.8 is the destination we want to read. -/
def dstIpFilter : BitVec 32 := 0xefefef08

/-! ## The block -/

/-- The ethertype test: `dot1q_offset`, or `none` where the block gives up. -/
def dot1qOffset (m : Mem) (packetBuf : Nat) : Option Nat :=
  let ethtype := u16le m (packetBuf + ethtypeOffset)
  let dot1qEthtype := u16le m (packetBuf + dot1qEthtypeOffset)
  if ethtype = ipv4Packet then some 0
  else if ethtype = dot1qFrame ∧ dot1qEthtype = ipv4Packet then some 4
  else none

/-- `last_ip_id` of a frame that passes the filter. -/
def lastIpId (m : Mem) (packetBuf : Nat) : Option (BitVec 16) :=
  match dot1qOffset m packetBuf with
  | none => none
  | some off =>
      if ntohl (u32le m (packetBuf + off + dstIpOffset)) ≠ dstIpFilter then none
      else some (ntohs (u16le m (packetBuf + off + ipIdOffset)))

/-- What a client keeps from packet to packet. -/
structure RxState where
  prevIpId : BitVec 16
  outputData : OutputData

/-- What is observed of an accepted frame: its IP id, the ids `previous/latest`
of the warning if one is printed, and the bytes of the frame. -/
structure Accepted where
  ipId : BitVec 16
  gap : Option (BitVec 16 × BitVec 16)
  frame : List UInt8
deriving DecidableEq

/-- Everything the block does with an accepted frame. -/
structure Report extends Accepted where
  /-- The pointer handed to `packet_handler_full`. -/
  packetBuf : Nat
  /-- The code it returned. -/
  result : Int
  /-- What it left in `output_data`. -/
  decoded : OutputData
  /-- The line printed. -/
  line : Line
deriving DecidableEq

/-- `<WARN> IP_ID sequence number gap previous/latest: %d/%d`: printed unless
`(uint16_t)(prev_ip_id + 0x0001)` is the latest id. -/
def gapWarning (prev latest : BitVec 16) : Option (BitVec 16 × BitVec 16) :=
  if prev + 1 ≠ latest then some (prev, latest) else none

/-- The block, on the frame of `len` bytes at `packetBuf`.  `size` is what the
client names in a decoding error. -/
def packetBlock (packetHandlerFull : PacketHandlerFull) (m : Mem) (packetBuf len : Nat)
    (size : Int) (s : RxState) : RxState × Option Report :=
  match lastIpId m packetBuf with
  | none => (s, none)
  | some id =>
      let decoded := packetHandlerFull (fun k => m (packetBuf + k)) zeroOutput
      let printed := printRecord decoded.1 decoded.2 size
      (⟨id, printed.2⟩, some
        { ipId := id
          gap := gapWarning s.prevIpId id
          frame := readBytes m packetBuf len
          packetBuf := packetBuf
          result := decoded.1
          decoded := decoded.2
          line := printed.1 })

/-! ## The filter in terms of bytes -/

/-- The ethertype `08 00` at `a`. -/
def IsIpv4At (m : Mem) (a : Nat) : Prop := m a = 0x08 ∧ m (a + 1) = 0x00

/-- The ethertype `81 00` at `a`. -/
def IsDot1qAt (m : Mem) (a : Nat) : Prop := m a = 0x81 ∧ m (a + 1) = 0x00

/-- The address `239.239.239.8` at `a`. -/
def IsDstAt (m : Mem) (a : Nat) : Prop :=
  m a = 0xef ∧ m (a + 1) = 0xef ∧ m (a + 2) = 0xef ∧ m (a + 3) = 0x08

instance (m : Mem) (a : Nat) : Decidable (IsIpv4At m a) := inferInstanceAs (Decidable (_ ∧ _))
instance (m : Mem) (a : Nat) : Decidable (IsDot1qAt m a) := inferInstanceAs (Decidable (_ ∧ _))
instance (m : Mem) (a : Nat) : Decidable (IsDstAt m a) := inferInstanceAs (Decidable (_ ∧ _))

theorem u16le_eq_ipv4Packet (m : Mem) (a : Nat) : u16le m a = ipv4Packet ↔ IsIpv4At m a :=
  u16le_eq_iff m a 0x08 0x00

theorem u16le_eq_dot1qFrame (m : Mem) (a : Nat) : u16le m a = dot1qFrame ↔ IsDot1qAt m a :=
  u16le_eq_iff m a 0x81 0x00

theorem ntohl_eq_dstIpFilter (m : Mem) (a : Nat) : ntohl (u32le m a) = dstIpFilter ↔ IsDstAt m a :=
  ntohl_u32le_eq_iff m a 0xef 0xef 0xef 0x08

theorem not_ipv4_of_dot1q {m : Mem} {a : Nat} (h : IsDot1qAt m a) : ¬ IsIpv4At m a := by
  intro h'
  have heq := h.1.symm.trans h'.1
  exact absurd heq (by decide)

theorem dot1qOffset_eq (m : Mem) (p : Nat) :
    dot1qOffset m p =
      if IsIpv4At m (p + 12) then some 0
      else if IsDot1qAt m (p + 12) ∧ IsIpv4At m (p + 16) then some 4 else none := by
  simp only [dot1qOffset, u16le_eq_ipv4Packet, u16le_eq_dot1qFrame]
  rfl

/-- Where the fields of a frame start, relative to an untagged one. -/
inductive Tagged (m : Mem) (p : Nat) : Nat → Prop where
  | no : IsIpv4At m (p + 12) → Tagged m p 0
  | yes : IsDot1qAt m (p + 12) → IsIpv4At m (p + 16) → Tagged m p 4

theorem dot1qOffset_eq_some_iff (m : Mem) (p off : Nat) :
    dot1qOffset m p = some off ↔ Tagged m p off := by
  rw [dot1qOffset_eq]
  constructor
  · intro h
    split at h
    next h4 => cases h; exact .no h4
    next h4 =>
      split at h
      next hq => cases h; exact .yes hq.1 hq.2
      next => cases h
  · intro h
    cases h with
    | no h4 => rw [if_pos h4]
    | yes hq h4 => rw [if_neg (not_ipv4_of_dot1q hq), if_pos ⟨hq, h4⟩]

/-- The filter on a frame whose ethertype is IPv4, with or without a tag before
it: the destination decides, and the id is the one of the IP header. -/
theorem lastIpId_of_tagged {m : Mem} {p off : Nat} (h : Tagged m p off) :
    lastIpId m p =
      if IsDstAt m (p + off + 30) then some (ntohs (u16le m (p + off + 18))) else none := by
  have hdst := ntohl_eq_dstIpFilter m (p + off + dstIpOffset)
  rw [← dot1qOffset_eq_some_iff] at h
  by_cases hd : IsDstAt m (p + off + 30)
  · simp only [lastIpId, h, hdst.mpr hd, ne_eq, not_true_eq_false, if_false, if_pos hd]
    rfl
  · have hne : ntohl (u32le m (p + off + dstIpOffset)) ≠ dstIpFilter := fun he => hd (hdst.mp he)
    simp only [lastIpId, h, ne_eq, hne, not_false_eq_true, if_true, if_neg hd]

/-- The id of a frame is 256 times the byte at 18 plus the byte at 19 of the
untagged frame, and 4 further on behind a tag. -/
theorem lastIpId_eq_some_iff (m : Mem) (p : Nat) (id : BitVec 16) :
    lastIpId m p = some id ↔
      ∃ off, Tagged m p off ∧ IsDstAt m (p + off + 30) ∧
        id.toNat = 256 * (m (p + off + 18)).toNat + (m (p + off + 19)).toNat := by
  have hid : ∀ off, id = ntohs (u16le m (p + off + 18)) ↔
      id.toNat = 256 * (m (p + off + 18)).toNat + (m (p + off + 19)).toNat := by
    intro off
    rw [ntohs_u16le, ← BitVec.toNat_inj, toNat_u16be]
  constructor
  · intro h
    cases hoff : dot1qOffset m p with
    | none => simp [lastIpId, hoff] at h
    | some off =>
        have ht := (dot1qOffset_eq_some_iff m p off).mp hoff
        rw [lastIpId_of_tagged ht] at h
        split at h
        next hd => exact ⟨off, ht, hd, (hid off).mp (Option.some.inj h).symm⟩
        next => cases h
  · rintro ⟨off, ht, hd, h⟩
    rw [lastIpId_of_tagged ht, if_pos hd, ← (hid off).mpr h]

/-! ## Memories that agree on a frame -/

theorem isIpv4At_congr {m m' : Mem} {a a' : Nat} (h : ∀ k, k < 2 → m (a + k) = m' (a' + k)) :
    IsIpv4At m a ↔ IsIpv4At m' a' := by
  have h0 : m a = m' a' := h 0 (by decide)
  have h1 := h 1 (by decide)
  rw [IsIpv4At, IsIpv4At, h0, h1]

theorem isDstAt_congr {m m' : Mem} {a a' : Nat} (h : ∀ k, k < 4 → m (a + k) = m' (a' + k)) :
    IsDstAt m a ↔ IsDstAt m' a' := by
  have h0 : m a = m' a' := h 0 (by decide)
  have h1 := h 1 (by decide)
  have h2 := h 2 (by decide)
  have h3 := h 3 (by decide)
  rw [IsDstAt, IsDstAt, h0, h1, h2, h3]

/-- The filter reads nothing beyond the first 38 bytes of the frame. -/
theorem lastIpId_congr {m m' : Mem} {p p' : Nat} (h : ∀ k, k < 38 → m (p + k) = m' (p' + k)) :
    lastIpId m p = lastIpId m' p' := by
  have hoff : dot1qOffset m p = dot1qOffset m' p' := by
    have h12 : u16le m (p + ethtypeOffset) = u16le m' (p' + ethtypeOffset) :=
      u16le_congr (h 12 (by omega)) (h 13 (by omega))
    have h16 : u16le m (p + dot1qEthtypeOffset) = u16le m' (p' + dot1qEthtypeOffset) :=
      u16le_congr (h 16 (by omega)) (h 17 (by omega))
    simp only [dot1qOffset, h12, h16]
  simp only [lastIpId, hoff]
  cases hq : dot1qOffset m' p' with
  | none => rfl
  | some off =>
      have hle : off ≤ 4 := by
        cases (dot1qOffset_eq_some_iff m' p' off).mp hq <;> omega
      have hdst : u32le m (p + off + dstIpOffset) = u32le m' (p' + off + dstIpOffset) := by
        apply u32le_congr
        intro k hk
        have hk' := h (off + 30 + k) (by omega)
        simpa only [dstIpOffset, Nat.add_assoc] using hk'
      have hid : u16le m (p + off + ipIdOffset) = u16le m' (p' + off + ipIdOffset) := by
        have h0 := h (off + 18) (by omega)
        have h1 := h (off + 19) (by omega)
        apply u16le_congr
        · simpa only [ipIdOffset, Nat.add_assoc] using h0
        · simpa only [ipIdOffset, Nat.add_assoc] using h1
      simp only [hdst, hid]

end Wire
