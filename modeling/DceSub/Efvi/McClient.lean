import DceSub.Client.HandlePkt
import DceSub.Efvi.Init

/-!
# The event loop of the EF_VI client

`poll_evq` with its handlers, and `event_loop_low_latency`.  Packet memory
belongs to the NIC as much as to the client, so it is not part of the client's
state: each handler is given the memory as it is when the handler runs.  Two
fields of the state are not in the source.  `polled` is the part of the array
`evs` that is still to be handled, and `seen` records what `handle_pkt` was
given.

`Act` cuts the loop into the steps between which the NIC may run: a refill, a
poll, and the handling of one event.
-/

namespace Efvi

open Base Wire Client Resources

/-- What `handle_pkt` was given: the bytes at its pointer, and the length. -/
structure Seen where
  bytes : List UInt8
  len : Int
deriving DecidableEq

/-- What the client prints. -/
inductive Output where
  /-- The lines of `handle_pkt` for an accepted frame. -/
  | report (r : Report)
  /-- A line of `LOGE`. -/
  | loge (text : String)

/-- `class mc_client_efvi`. -/
structure McClient where
  res : Resources
  /-- `prev_ip_id` and `output_data`. -/
  rx : RxState
  polled : List Event
  seen : List Seen
  out : List Output

/-- A client that has not polled anything. -/
def McClient.start (res : Resources) (rx : RxState) : McClient := ⟨res, rx, [], [], []⟩

/-! ## Handlers -/

/-- `handle_rx_core`. -/
def handleRxCore (packetHandlerFull : PacketHandlerFull) (m : Mem) (c : McClient)
    (_dmaPtr rxPtr : Nat) (len : Int) : McClient :=
  let r := handlePkt packetHandlerFull m rxPtr len c.rx
  { c with
    rx := r.1
    seen := c.seen ++ [⟨readBytes m rxPtr len.toNat, len⟩]
    out := c.out ++ (r.2.map Output.report).toList
    res := { c.res with
      nRxPkts := c.res.nRxPkts + 1
      nRxBytes := c.res.nRxBytes + BitVec.ofInt 64 len } }

/-- `handle_rx`. -/
def handleRx (packetHandlerFull : PacketHandlerFull) (m : Mem) (c : McClient) (pktBufI : Nat)
    (len : Int) : Option McClient :=
  (c.res.pktBufFromId pktBufI).map fun pktBuf =>
    let c := handleRxCore packetHandlerFull m c (pktBuf + rxDmaOff) (c.res.heap pktBuf).rxPtr len
    { c with res := c.res.pktBufFree pktBuf }

/-- `handle_rx_discard`. -/
def handleRxDiscard (c : McClient) (pktBufI : Nat) (_len : Int) (discardType : Nat) :
    Option McClient :=
  (c.res.pktBufFromId pktBufI).map fun pktBuf =>
    { c with
      out := c.out ++ [.loge ("ERROR: discard type=" ++ toString discardType ++ "\n")]
      res := c.res.pktBufFree pktBuf }

/-- The body of the loop of `poll_evq`.  It fails when `TEST` or an assertion
does. -/
def handleEvent (packetHandlerFull : PacketHandlerFull) (m : Mem) (c : McClient) :
    Event → Option McClient
  | .rx rqId len sop cont =>
      if sop && !cont then
        handleRx packetHandlerFull m c rqId ((len : Int) - c.res.rxPrefixLen)
      else none
  | .rxDiscard rqId len subtype =>
      handleRxDiscard c rqId ((len : Int) - c.res.rxPrefixLen) subtype
  | .other type =>
      some { c with
        out := c.out ++ [.loge ("ERROR: unexpected event type=" ++ toString type.code ++ "\n")] }

/-- An event that `poll_evq` handles, and packet memory at that time. -/
structure Arrival where
  event : Event
  mem : Mem

/-- `poll_evq`, when `ef_eventq_poll` returns the events of `evs`. -/
def pollEvq (packetHandlerFull : PacketHandlerFull) (evs : List Arrival) (c : McClient) :
    Option (Nat × McClient) :=
  (c.res.vi.efEventqPoll (evs.map Arrival.event)).bind fun vi =>
    (Loop.exec (fun a c => handleEvent packetHandlerFull a.mem c a.event) evs
      { c with res := { c.res with vi := vi } }).map fun c => (evs.length, c)

/-- One pass of `event_loop_low_latency`. -/
def eventLoopPass (packetHandlerFull : PacketHandlerFull) (evs : List Arrival) (c : McClient) :
    Option McClient :=
  c.res.refillRxRing.bind fun r =>
    (pollEvq packetHandlerFull evs { c with res := r.2.res }).map Prod.snd

/-- `event_loop_low_latency`, for as many passes as there are results of
`ef_eventq_poll`. -/
def eventLoopLowLatency (packetHandlerFull : PacketHandlerFull) (polls : List (List Arrival))
    (c : McClient) : Option McClient :=
  Loop.exec (eventLoopPass packetHandlerFull) polls c

/-! ## Single steps -/

/-- A step of the client. -/
inductive Act where
  | refill
  /-- `ef_eventq_poll` returns these events. -/
  | poll (evs : List Event)
  /-- The next polled event is handled, with this packet memory. -/
  | handle (m : Mem)

/-- The client takes a step. -/
def step (packetHandlerFull : PacketHandlerFull) : Act → McClient → Option McClient
  | .refill, c => c.res.refillRxRing.map fun r => { c with res := r.2.res }
  | .poll evs, c =>
      if evs.length ≤ evPollBatchSize then
        (c.res.vi.efEventqPoll evs).map fun vi =>
          { c with res := { c.res with vi := vi }, polled := c.polled ++ evs }
      else none
  | .handle m, c =>
      match c.polled with
      | [] => none
      | e :: evs => handleEvent packetHandlerFull m { c with polled := evs } e

/-! ## What a handler does -/

/-- The frame behind an event, if the event is one of a good frame. -/
def Event.frame (L : Layout) (m : Mem) : Event → Option Seen
  | .rx rqId len _ _ =>
      some ⟨readBytes m (L.rxPtr (L.bufAddr rqId)) ((len : Int) - L.rxPrefixLen).toNat,
        (len : Int) - L.rxPrefixLen⟩
  | _ => none

/-- A packet in one buffer, as `TEST` wants it. -/
def Event.Whole : Event → Prop
  | .rx _ _ sop cont => sop = true ∧ cont = false
  | _ => True

/-- The statistics. -/
def Resources.counted (res : Resources) (nRxPkts nRxBytes : BitVec 64) : Resources :=
  { res with nRxPkts := nRxPkts, nRxBytes := nRxBytes }

theorem Resources.Owns.counted {res : Resources} {p : Pool Nat} (h : Owns res p)
    (nRxPkts nRxBytes : BitVec 64) : Owns (res.counted nRxPkts nRxBytes) p :=
  ⟨h.carved, ⟨h.free.chain, h.free.count⟩, h.ring, h.perm⟩

section

variable {packetHandlerFull : PacketHandlerFull} {m : Mem} {c c' : McClient} {e : Event}

/-- Handling an event shows `handle_pkt` its frame and frees its buffer, if it
has one. -/
theorem handleEvent_eq_some (h : handleEvent packetHandlerFull m c e = some c') :
    c'.polled = c.polled ∧ c'.seen = c.seen ++ (e.frame c.res.layout m).toList ∧
      ((e.rqId? = none ∧ c'.res = c.res) ∨
        ∃ i pktBuf pkts bytes, e.rqId? = some i ∧ c.res.pktBufFromId i = some pktBuf ∧
          c'.res = (c.res.counted pkts bytes).pktBufFree pktBuf) := by
  cases e with
  | rx rqId len sop cont =>
      rw [handleEvent] at h
      split at h
      · obtain ⟨pktBuf, hbuf, rfl⟩ := Option.map_eq_some_iff.mp h
        obtain ⟨-, haddr⟩ := Option.ite_none_right_eq_some.mp hbuf
        refine ⟨rfl, ?_, .inr ⟨rqId, pktBuf, _, _, rfl, hbuf, rfl⟩⟩
        rw [← Option.some.inj haddr]
        rfl
      · cases h
  | rxDiscard rqId len subtype =>
      obtain ⟨pktBuf, hbuf, rfl⟩ := Option.map_eq_some_iff.mp h
      exact ⟨rfl, (List.append_nil _).symm, .inr ⟨rqId, pktBuf, c.res.nRxPkts, c.res.nRxBytes,
        rfl, hbuf, rfl⟩⟩
  | other type =>
      cases h
      exact ⟨rfl, (List.append_nil _).symm, .inl ⟨rfl, rfl⟩⟩

/-- A whole packet whose id is in range is handled. -/
theorem handleEvent_isSome (hwhole : e.Whole)
    (hid : ∀ i, e.rqId? = some i → ∃ pktBuf, c.res.pktBufFromId i = some pktBuf) :
    ∃ c', handleEvent packetHandlerFull m c e = some c' := by
  cases e with
  | rx rqId len sop cont =>
      obtain ⟨pktBuf, hbuf⟩ := hid rqId rfl
      obtain ⟨rfl, rfl⟩ := hwhole
      exact ⟨_, by rw [handleEvent, handleRx, hbuf]; rfl⟩
  | rxDiscard rqId len subtype =>
      obtain ⟨pktBuf, hbuf⟩ := hid rqId rfl
      exact ⟨_, by rw [handleEvent, handleRxDiscard, hbuf]; rfl⟩
  | other type => exact ⟨_, rfl⟩

end

end Efvi
