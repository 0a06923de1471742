import DceSub.Wire.Receiver

/-!
# The EF_VI packet handler

`mc_client_efvi::handle_pkt` gets a pointer `p` and a length `len`.  It first
filters on fixed offsets from `p`, with raw little-endian comparisons, and then
runs the packet block on `packet_buf = p - 6`.  The offsets of the two filters
meet: what the first reads at `p + 6`, `p + 8`, `p + 17` and `p + 24` are the
ethertype, the first byte of the IP header, the protocol and the destination of
an untagged frame that starts at `p - 6`.

So the handler is the abstract receiver of the frames at `p - 6`, with a
stricter verdict than that of the other clients (`handlePkt_implements`).
-/

namespace Client

open Base Wire

/-- The first test of `handle_pkt`. -/
def earlyReturn (m : Mem) (p : Nat) (len : Int) : Bool :=
  len < 60 || u16le m (p + 6) != 0x0008 || m (p + 8) != 0x45 || m (p + 17) != 0x11 ||
    u32le m (p + 24) != 0x08efefef

/-- `mc_client_efvi::handle_pkt`, on a little-endian host. -/
def handlePkt (packetHandlerFull : PacketHandlerFull) (m : Mem) (p : Nat) (len : Int)
    (s : RxState) : RxState × Option Report :=
  if earlyReturn m p len then (s, none)
  else
    let size := len - 36
    let packetBuf := p - 6
    packetBlock packetHandlerFull m packetBuf (len + 6).toNat size s

/-! ## Calls and their frames -/

/-- The arguments of a call.  The frame starts 6 bytes before `p`, and `len`
counts from `p`. -/
structure PktArg where
  mem : Mem
  p : Nat
  len : Int
  before : 6 ≤ p
  counted : -6 ≤ len

/-- The frame at `packet_buf`, of length `len + 6`. -/
def PktArg.frame (a : PktArg) : List UInt8 := readBytes a.mem (a.p - 6) (a.len + 6).toNat

/-- A frame at an address of a memory, as an argument. -/
def PktArg.ofFrame (f : List UInt8) : PktArg where
  mem := view f
  p := 6
  len := f.length - 6
  before := Nat.le_refl _
  counted := by omega

theorem PktArg.frame_length (a : PktArg) : (a.frame.length : Int) = a.len + 6 := by
  have h := a.counted
  rw [PktArg.frame, readBytes_length]
  omega

theorem PktArg.holds (a : PktArg) : Holds a.mem (a.p - 6) a.frame :=
  readBytes_holds a.mem (a.p - 6) (a.len + 6).toNat

/-- The byte `k` of the frame is the one at `p - 6 + k`. -/
theorem PktArg.view_frame (a : PktArg) {k j : Nat} (hk : k < a.frame.length)
    (hj : j + 6 = a.p + k) : view a.frame k = a.mem j := by
  have h := a.holds.view hk
  have hb := a.before
  rw [Nat.zero_add] at h
  rw [← h]
  congr 1
  omega

@[simp] theorem PktArg.ofFrame_frame (f : List UInt8) : (PktArg.ofFrame f).frame = f := by
  have hn : ((PktArg.ofFrame f).len + 6).toNat = f.length := by
    simp only [PktArg.ofFrame]
    omega
  rw [PktArg.frame, hn]
  exact (holds_view f).readBytes

/-- One call, as a pass of the loop over the packets of the client. -/
def handlePktPass (packetHandlerFull : PacketHandlerFull) (s : RxState) (a : PktArg) :
    Pass RxState Report :=
  ⟨(handlePkt packetHandlerFull a.mem a.p a.len s).1,
    (handlePkt packetHandlerFull a.mem a.p a.len s).2, none⟩

/-! ## The verdict of the handler -/

/-- A frame of at least 66 bytes with ethertype `08 00`, an IP header that
starts with `0x45` and protocol `0x11`. -/
def Strict (f : List UInt8) : Prop :=
  66 ≤ f.length ∧ IsIpv4At (view f) 12 ∧ view f 14 = 0x45 ∧ view f 23 = 0x11

instance (f : List UInt8) : Decidable (Strict f) := inferInstanceAs (Decidable (_ ∧ _))

/-- The verdict of `handle_pkt`. -/
def strictVerdict (f : List UInt8) : Option (BitVec 16) := if Strict f then verdict f else none

theorem strictVerdict_of_strict {f : List UInt8} (h : Strict f) : strictVerdict f = verdict f :=
  if_pos h

theorem strictVerdict_of_not {f : List UInt8} (h : ¬ Strict f) : strictVerdict f = none :=
  if_neg h

/-- What the first test lets through: a strict frame to the address wanted. -/
theorem earlyReturn_eq_false_iff (a : PktArg) :
    earlyReturn a.mem a.p a.len = false ↔ Strict a.frame ∧ IsDstAt (view a.frame) 30 := by
  have hlen := a.frame_length
  have hdst := u32le_eq_iff a.mem (a.p + 24) 0xef 0xef 0xef 0x08
  have heth := u16le_eq_ipv4Packet a.mem (a.p + 6)
  by_cases hl : a.len < 60
  · have hs : ¬ Strict a.frame := fun h => by have := h.1; omega
    simp [earlyReturn, hl, hs]
  · have hb : ∀ j, 6 ≤ j → j < 40 → a.mem (a.p + j - 6) = view a.frame j := by
      intro j hj hj'
      exact (a.view_frame (by omega) (by omega)).symm
    have h12 := hb 12 (by omega) (by omega)
    have h13 := hb 13 (by omega) (by omega)
    have h14 := hb 14 (by omega) (by omega)
    have h23 := hb 23 (by omega) (by omega)
    have h30 := hb 30 (by omega) (by omega)
    have h31 := hb 31 (by omega) (by omega)
    have h32 := hb 32 (by omega) (by omega)
    have h33 := hb 33 (by omega) (by omega)
    have hs : Strict a.frame ∧ IsDstAt (view a.frame) 30 ↔
        IsIpv4At a.mem (a.p + 6) ∧ a.mem (a.p + 8) = 0x45 ∧ a.mem (a.p + 17) = 0x11 ∧
          IsDstAt a.mem (a.p + 24) := by
      simp only [Strict, IsIpv4At, IsDstAt, ← h12, ← h13, ← h14, ← h23, ← h30, ← h31, ← h32, ← h33]
      constructor
      · rintro ⟨⟨-, h4, h5, h6⟩, h7⟩
        exact ⟨h4, h5, h6, h7⟩
      · rintro ⟨h4, h5, h6, h7⟩
        exact ⟨⟨by omega, h4, h5, h6⟩, h7⟩
    rw [hs]
    simp only [earlyReturn, hl, decide_false, Bool.false_or, Bool.or_eq_false_iff,
      bne_eq_false_iff_eq]
    rw [← heth]
    simp only [IsDstAt, ← hdst, and_assoc]
    exact Iff.rfl

/-- A strict frame is accepted if it is for the address wanted. -/
theorem strictVerdict_isSome_iff (f : List UInt8) :
    (strictVerdict f).isSome ↔ Strict f ∧ IsDstAt (view f) 30 := by
  by_cases hs : Strict f
  · have hlen : 64 < f.length := by have := hs.1; omega
    have ht : Tagged (view f) 0 0 := .no hs.2.1
    rw [strictVerdict_of_strict hs, verdict_of_lt hlen, lastIpId_of_tagged ht]
    by_cases hd : IsDstAt (view f) 30
    · simp [hs, hd]
    · simp [hd]
  · simp [strictVerdict_of_not hs, hs]

/-- The id that `handle_pkt` goes by, on the bytes of the frame. -/
def strictWireId (f : List UInt8) : Option (BitVec 16) :=
  if Strict f ∧ IsDstAt (view f) 30 then some (u16be (view f) 18) else none

theorem strictVerdict_eq_wireId (f : List UInt8) : strictVerdict f = strictWireId f := by
  by_cases hs : Strict f
  · have hlen : 64 < f.length := by have := hs.1; omega
    rw [strictVerdict_of_strict hs, verdict_of_lt hlen, lastIpId_of_tagged (.no hs.2.1),
      ntohs_u16le, strictWireId]
    simp only [hs, true_and]
  · rw [strictVerdict_of_not hs, strictWireId, if_neg fun h => hs h.1]

/-- The handler is the receiver with the strict verdict. -/
theorem handlePkt_implements (packetHandlerFull : PacketHandlerFull) :
    Implements (handlePktPass packetHandlerFull) RxState.prevIpId PktArg.frame strictVerdict := by
  intro s a
  have hearly := earlyReturn_eq_false_iff a
  have hnat : (a.len + 6).toNat = a.frame.length := by
    have := a.frame_length
    omega
  cases he : earlyReturn a.mem a.p a.len with
  | false =>
      obtain ⟨hs, -⟩ := hearly.mp he
      have hlen : 64 < a.frame.length := by have := hs.1; omega
      simp only [handlePktPass, handlePkt, he, Bool.false_eq_true, if_false, hnat]
      exact packetBlock_observe packetHandlerFull a.holds (by omega)
        ((strictVerdict_of_strict hs).trans (verdict_of_lt hlen)) (a.len - 36) s
  | true =>
      have hv : strictVerdict a.frame = none := by
        rw [← Option.not_isSome_iff_eq_none, strictVerdict_isSome_iff, ← hearly, he]
        exact Bool.noConfusion
      simp only [handlePktPass, handlePkt, he, if_true]
      rw [observe_none hv]
      rfl

end Client
