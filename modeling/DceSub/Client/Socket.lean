import Mathlib.Data.List.TakeWhile
import DceSub.Base.Machine
import DceSub.Wire.Output

/-!
# The UDP-socket client

The receive loop of `dce-sub-socket.c`.  Datagrams come from `recvfrom` into
`message`, which is never cleared, and go to `packet_handler_payload` with their
size.  A decoder that trusts the size is to be kept from abnormal datagrams by a
guard that leaves the loop with an error.

The guard of the source is `cnt<20 && cnt>144`, which no size meets.  So every
datagram reaches the decoder and the loop is never left there:
`udp_guards_iff` says that a sequence is treated as the guard promises exactly
when all of its datagrams are of normal size.
-/

namespace Client

open Base Wire

/-- `sizeof(message)`. -/
def messageSize : Nat := 2048

/-- `int packet_handler_payload(char *input_data, char *output_data, int payload_size)`:
the input is the memory seen from the pointer. -/
abbrev PacketHandlerPayload := Mem → OutputData → Int → Int × OutputData

/-- What the loop keeps. -/
structure UdpState where
  message : Mem
  outputData : OutputData

/-- A call of `packet_handler_payload`, and what is printed after it. -/
structure PayloadCall where
  /-- The payload: as many bytes of `message` as the size says. -/
  payload : List UInt8
  payloadSize : Int
  result : Int
  line : Line

/-- What a pass of the loop does. -/
inductive UdpOut where
  | call (c : PayloadCall)
  /-- `<ERR> abnormal payload size:%d`. -/
  | abnormal (cnt : Int)

/-- `recvfrom(sock, message, sizeof(message), ...)` with `datagram` next on the
socket: the value returned and the buffer afterwards. -/
def recvfrom (datagram : List UInt8) (message : Mem) : Int × Mem :=
  ((datagram.take messageSize).length, writeBytes message 0 (datagram.take messageSize))

/-- One pass of the loop.  The input is the next datagram, or `none` when
`recvfrom` fails. -/
def udpPass (packetHandlerPayload : PacketHandlerPayload) (s : UdpState) :
    Option (List UInt8) → Pass UdpState UdpOut
  | none => ⟨s, none, some "recvfrom"⟩
  | some datagram =>
      let cnt := (recvfrom datagram s.message).1
      let message := (recvfrom datagram s.message).2
      if cnt < 20 ∧ cnt > 144 then
        ⟨{ s with message := message }, some (.abnormal cnt),
          some ("<ERR> abnormal payload size:" ++ toString cnt ++ "\n")⟩
      else
        let decoded := packetHandlerPayload message zeroOutput cnt
        let printed := printRecord decoded.1 decoded.2 cnt
        ⟨⟨message, printed.2⟩, some (.call
          { payload := readBytes message 0 cnt.toNat
            payloadSize := cnt
            result := decoded.1
            line := printed.1 }), none⟩

/-- The loop over datagrams that are received without an error. -/
def udpDatagram (packetHandlerPayload : PacketHandlerPayload) (s : UdpState)
    (datagram : List UInt8) : Pass UdpState UdpOut :=
  udpPass packetHandlerPayload s (some datagram)

/-! ## The guard -/

/-- The call in what a pass does, if there is one: the payload and its size. -/
def UdpOut.call? : UdpOut → Option (List UInt8 × Int)
  | .call c => some (c.payload, c.payloadSize)
  | .abnormal _ => none

/-- The calls of `packet_handler_payload` in a run, in order. -/
def decoderCalls (outs : List (Option UdpOut)) : List (List UInt8 × Int) :=
  outs.reduceOption.filterMap UdpOut.call?

/-- A payload of normal size. -/
def NormalSize (d : List UInt8) : Prop := 20 ≤ d.length ∧ d.length ≤ 144

instance : DecidablePred NormalSize := fun _ => inferInstanceAs (Decidable (_ ∧ _))

/-- The longest beginning of a sequence whose datagrams are all of normal
size. -/
def normalPrefix (ds : List (List UInt8)) : List (List UInt8) :=
  ds.takeWhile fun d => decide (NormalSize d)

/-- What the guard promises of a run over `ds`: the decoder is called for the
datagrams before the first abnormal one, each with its own size; at that one the
loop stops with the error, and `output_data` is as the last good datagram left
it. -/
structure Guarded (packetHandlerPayload : PacketHandlerPayload) (s : UdpState)
    (ds : List (List UInt8)) : Prop where
  calls : decoderCalls (run (udpDatagram packetHandlerPayload) s ds).1 =
    (normalPrefix ds).map fun d => (d, (d.length : Int))
  stops : ∀ d rest, ds = normalPrefix ds ++ d :: rest →
    (run (udpDatagram packetHandlerPayload) s ds).1.length = (normalPrefix ds).length + 1 ∧
      (run (udpDatagram packetHandlerPayload) s ds).1.getLast? =
        some (some (.abnormal d.length))
  outputData : (run (udpDatagram packetHandlerPayload) s ds).2.outputData =
    (run (udpDatagram packetHandlerPayload) s (normalPrefix ds)).2.outputData

/-! ## What the loop does instead -/

/-- Every datagram goes to the decoder. -/
theorem udpDatagram_eq (packetHandlerPayload : PacketHandlerPayload) (s : UdpState)
    (d : List UInt8) :
    (udpDatagram packetHandlerPayload s d).stop = none ∧
      (udpDatagram packetHandlerPayload s d).out.bind UdpOut.call? =
        some (d.take messageSize, ((d.take messageSize).length : Int)) := by
  have hguard : ¬ (((d.take messageSize).length : Int) < 20 ∧
      ((d.take messageSize).length : Int) > 144) := by omega
  have hread : readBytes (writeBytes s.message 0 (d.take messageSize)) 0
      (d.take messageSize).length = d.take messageSize :=
    Holds.readBytes (writeBytes_holds s.message 0 (d.take messageSize))
  simp only [udpDatagram, udpPass, recvfrom, if_neg hguard, Int.toNat_natCast, hread]
  exact ⟨trivial, rfl⟩

/-- So the decoder is called for the whole sequence. -/
theorem decoderCalls_run (packetHandlerPayload : PacketHandlerPayload) (ds : List (List UInt8))
    (s : UdpState) :
    decoderCalls (run (udpDatagram packetHandlerPayload) s ds).1 =
      ds.map fun d => (d.take messageSize, ((d.take messageSize).length : Int)) := by
  induction ds generalizing s with
  | nil => rfl
  | cons d ds ih =>
      obtain ⟨hstop, hcall⟩ := udpDatagram_eq packetHandlerPayload s d
      obtain ⟨o, ho, hcall⟩ := Option.bind_eq_some_iff.mp hcall
      rw [run_cons hstop, ho, List.map_cons, ← ih, decoderCalls, List.reduceOption_cons_of_some,
        List.filterMap_cons_some hcall]
      rfl

/-- A sequence is treated as the guard promises exactly when all datagrams are of
normal size. -/
theorem udp_guards_iff (packetHandlerPayload : PacketHandlerPayload) (s : UdpState)
    (ds : List (List UInt8)) :
    Guarded packetHandlerPayload s ds ↔ ∀ d ∈ ds, 20 ≤ d.length ∧ d.length ≤ 144 := by
  have hself : normalPrefix ds = ds ↔ ∀ d ∈ ds, 20 ≤ d.length ∧ d.length ≤ 144 := by
    rw [normalPrefix, List.takeWhile_eq_self_iff]
    exact forall₂_congr fun d _ => decide_eq_true_iff
  constructor
  · intro h
    have hcalls := congrArg List.length h.calls
    rw [decoderCalls_run, List.length_map, List.length_map] at hcalls
    have hpre : normalPrefix ds <+: ds := List.takeWhile_prefix _
    exact hself.mp (hpre.eq_of_length hcalls.symm)
  · intro h
    have hnormal := hself.mpr h
    constructor
    case calls =>
      rw [decoderCalls_run, hnormal]
      apply List.map_congr_left
      intro d hd
      have hle : d.length ≤ messageSize := (h d hd).2.trans (by decide)
      rw [List.take_of_length_le hle]
    case stops =>
      intro d rest heq
      have hlen := congrArg List.length heq
      rw [hnormal, List.length_append, List.length_cons] at hlen
      omega
    case outputData => rw [hnormal]

/-- A datagram of ten bytes is handed to the decoder. -/
theorem udp_decodes_short :
    let h : PacketHandlerPayload := fun _ out _ => (0, out)
    let s : UdpState := ⟨fun _ => 0, zeroOutput⟩
    let ds := [List.replicate 10 (0 : UInt8)]
    decoderCalls (run (udpDatagram h) s ds).1 = [(List.replicate 10 0, 10)] ∧
      normalPrefix ds = [] ∧ ¬ Guarded h s ds := by
  intro h s ds
  have hcalls : decoderCalls (run (udpDatagram h) s ds).1 = [(List.replicate 10 0, 10)] :=
    decoderCalls_run h ds s
  refine ⟨hcalls, by decide, fun hg => ?_⟩
  have hnone : decoderCalls (run (udpDatagram h) s ds).1 = [] := hg.calls
  rw [hcalls] at hnone
  cases hnone

end Client
