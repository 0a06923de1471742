import DceSub.Client.RawSock

/-!
# The ExaNIC client

The receive loop of `dce-sub-exanic.c`.  It polls `exanic_receive_frame`, which
answers with the size of a frame it has copied to `packet_buf`, with 0 when
there is none, and with a negative code when the frame was lost or damaged.  A
call that does not deliver a frame may still have copied the beginning of one.
-/

namespace Client

open Base Wire

/-- `sizeof(packet_buf)`. -/
def packetBufSize : Nat := 2048

/-- What one call of `exanic_receive_frame` does: the value it returns and the
bytes it has written to the buffer, which are the whole frame when the value is
positive. -/
structure ExanicRx where
  size : Int
  bytes : List UInt8
  fits : bytes.length ≤ packetBufSize
  whole : 0 < size → (bytes.length : Int) = size

/-- The frame a call delivers, empty when it delivers none. -/
def ExanicRx.frame (i : ExanicRx) : List UInt8 := if 0 < i.size then i.bytes else []

/-- A call that delivers a frame. -/
def ExanicRx.ofFrame (f : List UInt8) (h : f.length ≤ packetBufSize) : ExanicRx :=
  ⟨f.length, f, h, fun _ => rfl⟩

@[simp] theorem ExanicRx.ofFrame_frame (f : List UInt8) (h : f.length ≤ packetBufSize) :
    (ExanicRx.ofFrame f h).frame = f := by
  cases f with
  | nil => rfl
  | cons b f =>
      rw [ExanicRx.frame, if_pos]
      · rfl
      · simp only [ExanicRx.ofFrame, List.length_cons]
        omega

/-- The calls that deliver the frames of a list, one each. -/
def ExanicRx.deliver (fs : List (List UInt8)) : List ExanicRx :=
  fs.map fun f => ExanicRx.ofFrame (f.take packetBufSize) (List.length_take_le ..)

/-- Frames that fit the buffer are delivered as they are. -/
theorem ExanicRx.deliver_frame {fs : List (List UInt8)} (h : ∀ f ∈ fs, f.length ≤ packetBufSize) :
    (ExanicRx.deliver fs).map ExanicRx.frame = fs := by
  rw [ExanicRx.deliver, List.map_map]
  conv_rhs => rw [← List.map_id fs]
  apply List.map_congr_left
  intro f hf
  rw [Function.comp_apply, ExanicRx.ofFrame_frame, List.take_of_length_le (h f hf)]
  rfl

/-- One pass of the loop. -/
def exanicPass (packetHandlerFull : PacketHandlerFull) (s : SockState) (i : ExanicRx) :
    Pass SockState Report :=
  let buf := writeBytes s.buf 0 i.bytes
  if i.size > 64 then
    let block := packetBlock packetHandlerFull buf 0 i.size.toNat i.size s.rx
    ⟨⟨buf, block.1⟩, block.2, none⟩
  else Pass.skip { s with buf := buf }

/-- The ExaNIC loop is the receiver with the common verdict. -/
theorem exanicPass_implements (packetHandlerFull : PacketHandlerFull) :
    Implements (exanicPass packetHandlerFull) SockState.prevIpId ExanicRx.frame verdict := by
  intro s i
  by_cases h : i.size > 64
  · have hpos : 0 < i.size := by omega
    have hlen := i.whole hpos
    have hframe : i.frame = i.bytes := if_pos hpos
    have hnat : i.size.toNat = i.bytes.length := by omega
    simp only [exanicPass, if_pos h, hnat, hframe]
    exact packetBlock_observe packetHandlerFull (writeBytes_holds s.buf 0 i.bytes) (by omega)
      (verdict_of_lt (by omega)) i.size s.rx
  · have hlen : i.frame.length ≤ 64 := by
      rw [ExanicRx.frame]
      split
      next hpos => have := i.whole hpos; omega
      next => exact Nat.zero_le _
    rw [observe_none (verdict_of_le hlen), exanicPass]
    simp only [if_neg h]
    rfl

end Client
