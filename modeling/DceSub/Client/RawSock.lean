import DceSub.Wire.Receiver

/-!
# The raw-socket client

The receive loop of `dce-sub-raw-socket.c`.  Frames come from `recv` on a packet
socket into `buf`, which is never cleared: a frame overwrites the beginning of
the one before.  A frame longer than the buffer is cut to it.

`rawsockFrame_implements` says that the loop sees each frame alone: the bytes
left in `buf` by earlier frames do not reach the filter or the gap detector.
-/

namespace Client

open Base Wire

/-- `sizeof(buf)`. -/
def bufSize : Nat := 10240

/-- What the loop keeps: the receive buffer, and the state of the packet
block. -/
structure SockState where
  buf : Mem
  rx : RxState

/-- The id a socket client compares the next one with. -/
def SockState.prevIpId (s : SockState) : BitVec 16 := s.rx.prevIpId

/-- `recv(sockfd, buf, sizeof(buf), 0)` with `frame` next on the socket: the
value returned and the buffer afterwards. -/
def recv (frame : List UInt8) (buf : Mem) : Int × Mem :=
  ((frame.take bufSize).length, writeBytes buf 0 (frame.take bufSize))

/-- One pass of the loop.  The input is the next frame on the socket, or `none`
when `recv` fails. -/
def rawsockPass (packetHandlerFull : PacketHandlerFull) (s : SockState) :
    Option (List UInt8) → Pass SockState Report
  | none => ⟨s, none, some "recv error!\n"⟩
  | some frame =>
      let n := (recv frame s.buf).1
      let buf := (recv frame s.buf).2
      if n = 0 then Pass.skip { s with buf := buf }
      else if n > 64 then
        let block := packetBlock packetHandlerFull buf 0 n.toNat n s.rx
        ⟨⟨buf, block.1⟩, block.2, none⟩
      else Pass.skip { s with buf := buf }

/-- A frame as the loop receives it. -/
def received (frame : List UInt8) : List UInt8 := frame.take bufSize

/-- The loop over frames that are received without an error. -/
def rawsockFrame (packetHandlerFull : PacketHandlerFull) (s : SockState) (frame : List UInt8) :
    Pass SockState Report :=
  rawsockPass packetHandlerFull s (some frame)

theorem verdict_received (frame : List UInt8) : verdict (received frame) = verdict frame :=
  verdict_take (by decide)

/-- Frames that fit the buffer are received as they are. -/
theorem map_received {fs : List (List UInt8)} (h : ∀ f ∈ fs, f.length ≤ bufSize) :
    fs.map received = fs := by
  conv_rhs => rw [← List.map_id fs]
  apply List.map_congr_left
  intro f hf
  exact List.take_of_length_le (h f hf)

theorem rawsockFrame_of_le {packetHandlerFull : PacketHandlerFull} {s : SockState}
    {frame : List UInt8} (h : frame.length ≤ 64) :
    rawsockFrame packetHandlerFull s frame =
      Pass.skip { s with buf := writeBytes s.buf 0 (received frame) } := by
  have hn : ¬ ((frame.take bufSize).length : Int) > 64 := by
    rw [List.length_take]
    omega
  show (if ((frame.take bufSize).length : Int) = 0 then _ else
    if ((frame.take bufSize).length : Int) > 64 then _ else _) = _
  rw [if_neg hn]
  split <;> rfl

theorem rawsockFrame_of_lt {packetHandlerFull : PacketHandlerFull} {s : SockState}
    {frame : List UInt8} (h : 64 < frame.length) :
    rawsockFrame packetHandlerFull s frame =
      ⟨⟨writeBytes s.buf 0 (received frame),
          (packetBlock packetHandlerFull (writeBytes s.buf 0 (received frame)) 0
            (received frame).length (received frame).length s.rx).1⟩,
        (packetBlock packetHandlerFull (writeBytes s.buf 0 (received frame)) 0
            (received frame).length (received frame).length s.rx).2, none⟩ := by
  have hlen : (frame.take bufSize).length = min bufSize frame.length := List.length_take
  have hsize : bufSize = 10240 := rfl
  have hz : ¬ ((frame.take bufSize).length : Int) = 0 := by omega
  have hn : ((frame.take bufSize).length : Int) > 64 := by omega
  show (if ((frame.take bufSize).length : Int) = 0 then _ else
    if ((frame.take bufSize).length : Int) > 64 then _ else _) = _
  rw [if_neg hz, if_pos hn]
  rfl

/-- The raw-socket loop is the receiver with the common verdict. -/
theorem rawsockFrame_implements (packetHandlerFull : PacketHandlerFull) :
    Implements (rawsockFrame packetHandlerFull) SockState.prevIpId received verdict := by
  intro s frame
  by_cases h : 64 < frame.length
  · have hlen : 64 < (received frame).length := by
      rw [received, List.length_take, bufSize]
      omega
    rw [rawsockFrame_of_lt h]
    exact packetBlock_observe packetHandlerFull (writeBytes_holds s.buf 0 (received frame))
      (by omega) (verdict_of_lt hlen) (received frame).length s.rx
  · have hv : verdict (received frame) = none := by
      rw [verdict_received, verdict_of_le (by omega)]
    rw [rawsockFrame_of_le (by omega), observe_none hv]
    rfl

end Client
