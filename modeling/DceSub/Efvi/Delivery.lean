import DceSub.Efvi.Conservation

/-!
# From the wire to `handle_pkt`

The NIC and the client share the RX ring, the event queue and packet memory, and
take their steps in any order.  The NIC takes the oldest submitted descriptor it
has not used yet, writes a frame behind its address, and queues an event with
its id; it does not wait for the client to have read what an earlier frame left
there.  What keeps a frame from being overwritten is that its buffer is not on
the ring again before it was handled.

`Refines` relates the system to a mailbox: the slots are the buffers, filled by
the NIC in ring order and read by `handle_pkt`.  Every step of the system is a
step of the mailbox, or none (`Refines.step`), so the frames arrive as they do in
a mailbox, in order and each once.
-/

namespace Efvi

open Base Wire Client Resources

/-- The client, the NIC's side of packet memory, and the event queue.  `written`
records the good frames the NIC has delivered. -/
structure Sys where
  client : McClient
  mem : Mem
  evq : List Event
  written : List Seen

/-- A step of the NIC or of the client. -/
inductive SysAct where
  /-- A good frame arrives, behind the bytes of the receive prefix. -/
  | rx (head frame : List UInt8)
  /-- A frame with an error arrives. -/
  | discard (bytes : List UInt8) (len subtype : Nat)
  /-- An event that concerns no descriptor. -/
  | other (type : OtherType)
  | refill
  /-- The client polls, and gets this many of the queued events. -/
  | poll (k : Nat)
  /-- The client handles the next polled event. -/
  | handle

/-- The oldest submitted descriptor the NIC has not used yet. -/
def Sys.nextDesc (s : Sys) : Option Desc :=
  if (rqIds s.evq).length < s.client.res.vi.submitted then
    s.client.res.vi.ring[(rqIds s.evq).length]?
  else none

/-- The system takes a step. -/
def sysStep (su : Setup) (packetHandlerFull : PacketHandlerFull) : SysAct → Sys → Option Sys
  | .rx head frame, s =>
      if head.length = su.rxPrefixLen ∧ (head ++ frame).length ≤ receiveBufferLen then
        s.nextDesc.map fun d =>
          { s with
            mem := su.memreg.dmaWrite su.pktBufs d.addr (head ++ frame) s.mem
            evq := s.evq ++ [.rx d.dmaId (head ++ frame).length true false]
            written := s.written ++ [⟨frame, frame.length⟩] }
      else none
  | .discard bytes len subtype, s =>
      if bytes.length ≤ receiveBufferLen then
        s.nextDesc.map fun d =>
          { s with
            mem := su.memreg.dmaWrite su.pktBufs d.addr bytes s.mem
            evq := s.evq ++ [.rxDiscard d.dmaId len subtype] }
      else none
  | .other type, s => some { s with evq := s.evq ++ [.other type] }
  | .refill, s => (step packetHandlerFull .refill s.client).map fun c => { s with client := c }
  | .poll k, s =>
      (step packetHandlerFull (.poll (s.evq.take k)) s.client).map fun c =>
        { s with client := c, evq := s.evq.drop k }
  | .handle, s =>
      (step packetHandlerFull (.handle s.mem) s.client).map fun c => { s with client := c }

/-- A step of the system leaves the client alone or is one of the client. -/
theorem sysStep_client {su : Setup} {packetHandlerFull : PacketHandlerFull} {a : SysAct}
    {s s' : Sys} (h : sysStep su packetHandlerFull a s = some s') :
    s'.client = s.client ∨ ∃ act, step packetHandlerFull act s.client = some s'.client := by
  cases a with
  | rx head frame =>
      obtain ⟨-, h⟩ := Option.ite_none_right_eq_some.mp h
      obtain ⟨d, -, rfl⟩ := Option.map_eq_some_iff.mp h
      exact .inl rfl
  | discard bytes len subtype =>
      obtain ⟨-, h⟩ := Option.ite_none_right_eq_some.mp h
      obtain ⟨d, -, rfl⟩ := Option.map_eq_some_iff.mp h
      exact .inl rfl
  | other type =>
      cases h
      exact .inl rfl
  | refill =>
      obtain ⟨c, hc, rfl⟩ := Option.map_eq_some_iff.mp h
      exact .inr ⟨_, hc⟩
  | poll k =>
      obtain ⟨c, hc, rfl⟩ := Option.map_eq_some_iff.mp h
      exact .inr ⟨_, hc⟩
  | handle =>
      obtain ⟨c, hc, rfl⟩ := Option.map_eq_some_iff.mp h
      exact .inr ⟨_, hc⟩

/-- The system after `init`. -/
def Sys.start (res : Resources) (rx : RxState) (mem : Mem) : Sys := ⟨.start res rx, mem, [], []⟩

/-! ## Frames in memory -/

/-- An event as the NIC queues it: a whole packet that fits its buffer. -/
def Event.Fits : Event → Prop
  | .rx _ len sop cont => sop = true ∧ cont = false ∧ len ≤ receiveBufferLen
  | _ => True

theorem Event.Fits.whole {e : Event} (h : e.Fits) : e.Whole := by
  cases e with
  | rx rqId len sop cont => exact ⟨h.1, h.2.1⟩
  | rxDiscard => trivial
  | other => trivial

theorem Event.frame_of_rqId_none {e : Event} (h : e.rqId? = none) (L : Layout) (m : Mem) :
    e.frame L m = none := by
  cases e with
  | rx => cases h
  | rxDiscard => rfl
  | other => rfl

/-- A write to one buffer leaves the frames of the others. -/
theorem Event.frame_writeBytes {L : Layout} (hL : L.Carved) {e : Event} {i j : Nat}
    (he : e.rqId? = some i) (hfits : e.Fits) (hi : i < L.pktBufsN) (hij : i ≠ j)
    {bs : List UInt8} (hbs : bs.length ≤ receiveBufferLen) (m : Mem) :
    e.frame L (writeBytes m (L.bufAddr j + rxDmaOff) bs) = e.frame L m := by
  cases e with
  | rx rqId len sop cont =>
      obtain rfl : rqId = i := Option.some.inj he
      obtain ⟨-, -, hlen⟩ := hfits
      rw [receiveBufferLen] at hlen hbs
      rw [Event.frame, Event.frame, hL.rxPtr rqId hi]
      by_cases hempty : len ≤ L.rxPrefixLen
      · rw [show ((len : Int) - L.rxPrefixLen).toNat = 0 by omega]
        rfl
      · rw [readBytes_writeBytes_of_disjoint]
        simp only [Layout.bufAddr, pktBufSize, rxDmaOff_eq]
        omega
  | rxDiscard => rfl
  | other => cases he

/-- The frame the NIC has written is the one behind its event. -/
theorem Event.frame_rx {L : Layout} (hL : L.Carved) {i : Nat} (hi : i < L.pktBufsN)
    {head : List UInt8} (hhead : head.length = L.rxPrefixLen) (frame : List UInt8) (m : Mem) :
    (Event.rx i (head ++ frame).length true false).frame L
        (writeBytes m (L.bufAddr i + rxDmaOff) (head ++ frame)) =
      some ⟨frame, frame.length⟩ := by
  have hholds := (writeBytes_holds m (L.bufAddr i + rxDmaOff) (head ++ frame)).append_right
  have hlen : (((head ++ frame).length : Nat) : Int) - L.rxPrefixLen = frame.length := by
    rw [List.length_append]
    omega
  rw [Event.frame, hlen, Int.toNat_natCast, hL.rxPtr i hi, ← hhead, hholds.readBytes]

theorem Setup.Configured.dmaWrite_eq {su : Setup} {L : Layout} (h : su.Configured L) {i : Nat}
    (hi : i < L.pktBufsN) {bs : List UInt8} (hbs : bs.length ≤ receiveBufferLen) (m : Mem) :
    su.memreg.dmaWrite su.pktBufs (L.desc i).addr bs m =
      writeBytes m (L.bufAddr i + rxDmaOff) bs := by
  rw [Layout.desc, h.efviAddr i hi, Layout.bufAddr, h.pktBufs]
  exact su.memreg.dmaWrite_eq su.pktBufs i hbs m

/-! ## The refinement -/

/-- The system is in the state of the mailbox `b`, whose slots are the buffers
and whose values are the frames; a discarded frame is `none`. -/
structure Refines (su : Setup) (s : Sys) (b : Mailbox Nat (Option Seen)) : Prop where
  owned : Owned s.client b.pool
  configured : su.Configured s.client.res.layout
  queued : ∃ rest, b.pool.ring = rqIds s.evq ++ rest
  filled : b.filled = (rqIds s.evq).length
  fits : ∀ e ∈ s.client.polled ++ s.evq, e.Fits
  val : ∀ e ∈ s.client.polled ++ s.evq, ∀ i, e.rqId? = some i →
    e.frame s.client.res.layout s.mem = b.val i
  seen : s.client.seen = b.read.reduceOption
  written : s.written = b.sent.reduceOption

variable {su : Setup} {packetHandlerFull : PacketHandlerFull} {s s' : Sys}
  {b : Mailbox Nat (Option Seen)}

/-- The descriptor the NIC uses is the first one of the ring without an event. -/
theorem Refines.nextDesc {d : Desc} (h : Refines su s b) (hd : s.nextDesc = some d) :
    ∃ i after, b.pool.ring = rqIds s.evq ++ i :: after ∧ d = s.client.res.layout.desc i ∧
      d.dmaId = i ∧ i < s.client.res.pktBufsN := by
  obtain ⟨-, hd⟩ := Option.ite_none_right_eq_some.mp hd
  obtain ⟨rest, hrest⟩ := h.queued
  rw [h.owned.owns.ring, List.getElem?_map, hrest, List.getElem?_append_right (Nat.le_refl _),
    Nat.sub_self] at hd
  cases rest with
  | nil => cases hd
  | cons i after =>
      rw [List.getElem?_cons_zero, Option.map_some, Option.some.injEq] at hd
      have hmem : i ∈ b.pool.all := by simp [Pool.all, hrest]
      have hlt := h.owned.owns.lt hmem
      exact ⟨i, after, hrest, hd.symm, by rw [← hd]; exact h.owned.owns.carved.id i hlt, hlt⟩

/-- The ids of events to be handled are held, or at the head of the ring. -/
theorem Refines.mem_of_event (h : Refines su s b) {e : Event} {i : Nat}
    (he : e ∈ s.client.polled ++ s.evq) (hi : e.rqId? = some i) :
    i ∈ b.pool.held ++ rqIds s.evq := by
  have hmem : i ∈ rqIds (s.client.polled ++ s.evq) := List.mem_filterMap.mpr ⟨e, he, hi⟩
  rwa [rqIds_append, h.owned.held] at hmem

/-- The NIC writes to a buffer, queues an event for it, and fills its slot. -/
theorem Refines.fill (h : Refines su s b) {i : Nat} {after : List Nat} {bs : List UInt8}
    (e : Event) (written : List Seen) (hring : b.pool.ring = rqIds s.evq ++ i :: after)
    (hi : i < s.client.res.pktBufsN) (hbs : bs.length ≤ receiveBufferLen)
    (he : e.rqId? = some i) (hfits : e.Fits)
    (hwritten : written = s.written ++ (e.frame s.client.res.layout
      (writeBytes s.mem (s.client.res.layout.bufAddr i + rxDmaOff) bs)).toList) :
    ∃ b', Mailbox.Step b b' ∧ Refines su { s with
      mem := su.memreg.dmaWrite su.pktBufs (s.client.res.layout.desc i).addr bs s.mem
      evq := s.evq ++ [e]
      written := written } b' := by
  rw [h.configured.dmaWrite_eq hi hbs]
  generalize hm :
    writeBytes s.mem (s.client.res.layout.bufAddr i + rxDmaOff) bs = mem' at hwritten ⊢
  have hids : rqIds (s.evq ++ [e]) = rqIds s.evq ++ [i] := by
    rw [rqIds_append, rqIds_cons_some he]
    rfl
  have hstep := Mailbox.Step.fill (m := b) (e.frame s.client.res.layout mem') i _ _ hring h.filled
  refine ⟨_, hstep, ?_⟩
  constructor
  case owned => exact h.owned
  case configured => exact h.configured
  case queued => exact ⟨after, by rw [hids, List.append_assoc]; exact hring⟩
  case filled =>
    rw [hids, List.length_append, ← h.filled]
    rfl
  case fits =>
    intro e' he'
    rw [← List.append_assoc, List.mem_append, List.mem_singleton] at he'
    rcases he' with he' | rfl
    · exact h.fits e' he'
    · exact hfits
  case val =>
    intro e' he' j hj
    rw [← List.append_assoc, List.mem_append, List.mem_singleton] at he'
    rcases he' with he' | rfl
    · -- an event that is still to be handled has another id
      have hmem := h.mem_of_event he' hj
      have hne : j ≠ i := fun hji =>
        Pool.not_mem_of_ring h.owned.owns.nodup hring (hji ▸ hmem)
      have hlt : j < s.client.res.pktBufsN := h.owned.owns.lt (by
        rw [List.mem_append] at hmem
        rw [Pool.all, hring, List.mem_append, List.mem_append, List.mem_append]
        tauto)
      show e'.frame s.client.res.layout mem' = Function.update b.val i _ j
      rw [Function.update_of_ne hne, ← h.val e' he' j hj, ← hm]
      exact Event.frame_writeBytes h.owned.owns.carved hj (h.fits e' he') hlt hne hbs s.mem
    · obtain rfl := Option.some.inj (he.symm.trans hj)
      show e'.frame s.client.res.layout mem' = Function.update b.val i _ i
      rw [Function.update_self]
  case seen => exact h.seen
  case written =>
    show written = (b.sent ++ [_]).reduceOption
    rw [hwritten, h.written, List.reduceOption_append, List.reduceOption_singleton]

/-- A good frame arrives. -/
theorem Refines.rx {head frame : List UInt8} (h : Refines su s b)
    (hstep : sysStep su packetHandlerFull (.rx head frame) s = some s') :
    ∃ b', Mailbox.Step b b' ∧ Refines su s' b' := by
  obtain ⟨⟨hhead, hlen⟩, hstep⟩ := Option.ite_none_right_eq_some.mp hstep
  obtain ⟨d, hd, rfl⟩ := Option.map_eq_some_iff.mp hstep
  obtain ⟨i, after, hring, hdesc, hid, hi⟩ := h.nextDesc hd
  have hframe := Event.frame_rx h.owned.owns.carved hi
    (hhead.trans h.configured.rxPrefixLen.symm) frame s.mem
  rw [hid, hdesc]
  exact h.fill (.rx i (head ++ frame).length true false) (s.written ++ [⟨frame, frame.length⟩])
    hring hi hlen rfl ⟨rfl, rfl, hlen⟩ (by rw [hframe]; rfl)

/-- A frame with an error arrives.  It is written all the same. -/
theorem Refines.discard {bytes : List UInt8} {len subtype : Nat} (h : Refines su s b)
    (hstep : sysStep su packetHandlerFull (.discard bytes len subtype) s = some s') :
    ∃ b', Mailbox.Step b b' ∧ Refines su s' b' := by
  obtain ⟨hlen, hstep⟩ := Option.ite_none_right_eq_some.mp hstep
  obtain ⟨d, hd, rfl⟩ := Option.map_eq_some_iff.mp hstep
  obtain ⟨i, after, hring, hdesc, hid, hi⟩ := h.nextDesc hd
  rw [hid, hdesc]
  exact h.fill (.rxDiscard i len subtype) s.written hring hi hlen rfl trivial
    (List.append_nil _).symm

/-- An event without a descriptor changes nothing. -/
theorem Refines.other (h : Refines su s b) (type : OtherType) :
    Refines su { s with evq := s.evq ++ [.other type] } b := by
  have hids : rqIds (s.evq ++ [.other type]) = rqIds s.evq := by
    rw [rqIds_append]
    exact List.append_nil _
  refine ⟨h.owned, h.configured, ?_, ?_, ?_, ?_, h.seen, h.written⟩
  · rw [hids]
    exact h.queued
  · rw [hids]
    exact h.filled
  · intro e he
    rw [← List.append_assoc, List.mem_append, List.mem_singleton] at he
    rcases he with he | rfl
    · exact h.fits e he
    · trivial
  · intro e he i hi
    rw [← List.append_assoc, List.mem_append, List.mem_singleton] at he
    rcases he with he | rfl
    · exact h.val e he i hi
    · cases hi

/-- The client posts buffers. -/
theorem Refines.refill (h : Refines su s b)
    (hstep : sysStep su packetHandlerFull .refill s = some s') :
    ∃ b', Mailbox.Step b b' ∧ Refines su s' b' := by
  obtain ⟨c, hc, rfl⟩ := Option.map_eq_some_iff.mp hstep
  obtain ⟨c', hc', howned, hlayout, hpolled, hseen⟩ := h.owned.refill packetHandlerFull
  obtain rfl := Option.some.inj (hc'.symm.trans hc)
  obtain ⟨rest, hrest⟩ := h.queued
  refine ⟨_, .post _ _ (List.take_append_drop ..).symm, howned, ?_, ?_, h.filled, ?_, ?_,
    hseen.trans h.seen, h.written⟩
  · rw [hlayout]
    exact h.configured
  · exact ⟨_, by rw [hrest, List.append_assoc]⟩
  · rw [hpolled]
    exact h.fits
  · rw [hpolled, hlayout]
    exact h.val

/-- The client takes filled buffers off the ring. -/
theorem Refines.poll {k : Nat} (h : Refines su s b)
    (hstep : sysStep su packetHandlerFull (.poll k) s = some s') :
    ∃ b', Mailbox.Step b b' ∧ Refines su s' b' := by
  obtain ⟨c, hc, rfl⟩ := Option.map_eq_some_iff.mp hstep
  obtain ⟨ring, hring, howned, hlayout, hpolled, hseen⟩ := h.owned.poll hc
  obtain ⟨rest, hrest⟩ := h.queued
  have hsplit : rqIds s.evq = rqIds (s.evq.take k) ++ rqIds (s.evq.drop k) := by
    rw [← rqIds_append, List.take_append_drop]
  have hfilled := h.filled
  rw [hsplit, List.length_append] at hfilled
  have hevents : c.polled ++ s.evq.drop k = s.client.polled ++ s.evq := by
    rw [hpolled, List.append_assoc, List.take_append_drop]
  refine ⟨_, .take _ _ hring (by omega), howned, ?_, ?_, ?_, ?_, ?_, hseen.trans h.seen,
    h.written⟩
  · rw [hlayout]
    exact h.configured
  · rw [hring, hsplit, List.append_assoc, List.append_cancel_left_eq] at hrest
    exact ⟨rest, hrest⟩
  · show b.filled - (rqIds (s.evq.take k)).length = (rqIds (s.evq.drop k)).length
    omega
  · rw [hevents]
    exact h.fits
  · rw [hevents, hlayout]
    exact h.val

/-- The client reads a buffer and frees it, or handles an event without one. -/
theorem Refines.handle (h : Refines su s b)
    (hstep : sysStep su packetHandlerFull .handle s = some s') :
    ∃ b', (b' = b ∨ Mailbox.Step b b') ∧ Refines su s' b' := by
  obtain ⟨c, hc, rfl⟩ := Option.map_eq_some_iff.mp hstep
  obtain ⟨e, evs, hpolled, hpolled', hseen, hlayout, hcase⟩ := h.owned.handle hc
  have hevents : s.client.polled ++ s.evq = e :: (c.polled ++ s.evq) := by
    rw [hpolled, hpolled', List.cons_append]
  have hfits := h.fits
  have hval := h.val
  have hconf := h.configured
  rw [hevents, ← hlayout] at hval
  rw [hevents] at hfits
  rw [← hlayout] at hconf hseen
  have hfits' := fun e' he' => hfits e' (List.mem_cons_of_mem e he')
  have hval' := fun e' he' => hval e' (List.mem_cons_of_mem e he')
  obtain ⟨hnone, howned⟩ | ⟨i, held, hi, hheld, howned⟩ := hcase
  · refine ⟨b, .inl rfl, howned, hconf, h.queued, h.filled, hfits', hval', ?_, h.written⟩
    rw [hseen, Event.frame_of_rqId_none hnone, ← h.seen]
    exact List.append_nil _
  · refine ⟨_, .inr (.release i held hheld), howned, hconf, h.queued, h.filled, hfits', hval', ?_,
      h.written⟩
    show c.seen = (b.read ++ [b.val i]).reduceOption
    rw [hseen, hval e (List.mem_cons_self ..) i hi, List.reduceOption_append,
      List.reduceOption_singleton, h.seen]

/-- A step of the NIC or the client is a step of the mailbox, or none. -/
theorem Refines.step {a : SysAct} (h : Refines su s b)
    (hstep : sysStep su packetHandlerFull a s = some s') :
    ∃ b', (b' = b ∨ Mailbox.Step b b') ∧ Refines su s' b' := by
  cases a with
  | rx head frame =>
      obtain ⟨b', hb', h'⟩ := h.rx hstep
      exact ⟨b', .inr hb', h'⟩
  | discard bytes len subtype =>
      obtain ⟨b', hb', h'⟩ := h.discard hstep
      exact ⟨b', .inr hb', h'⟩
  | other type =>
      obtain rfl := Option.some.inj hstep
      exact ⟨b, .inl rfl, h.other type⟩
  | refill =>
      obtain ⟨b', hb', h'⟩ := h.refill hstep
      exact ⟨b', .inr hb', h'⟩
  | poll k =>
      obtain ⟨b', hb', h'⟩ := h.poll hstep
      exact ⟨b', .inr hb', h'⟩
  | handle => exact h.handle hstep

/-- A mailbox that delivers in order goes on doing so. -/
theorem Refines.step_fifo {a : SysAct} (h : Refines su s b) (hfifo : b.Fifo)
    (hstep : sysStep su packetHandlerFull a s = some s') : ∃ b', Refines su s' b' ∧ b'.Fifo := by
  obtain ⟨b', rfl | hb, h'⟩ := h.step hstep
  · exact ⟨b', h', hfifo⟩
  · exact ⟨b', h', hb.fifo hfifo⟩

/-- Along any interleaving the system stays in step with a mailbox that delivers
in order. -/
theorem Refines.run {acts : List SysAct} (h : Refines su s b) (hfifo : b.Fifo)
    (hrun : Loop.exec (sysStep su packetHandlerFull) acts s = some s') :
    ∃ b', Refines su s' b' ∧ b'.Fifo := by
  refine Loop.exec_inv (fun s => ∃ b, Refines su s b ∧ b.Fifo) ?_ ⟨b, h, hfifo⟩ hrun
  rintro a - s₁ s₂ ⟨b₁, h₁, hfifo₁⟩ hstep
  exact h₁.step_fifo hfifo₁ hstep

/-- The unread values of the mailbox are the good frames in memory. -/
theorem Refines.unread (h : Refines su s b) :
    b.unread.reduceOption =
      (s.client.polled ++ s.evq).filterMap (Event.frame s.client.res.layout s.mem) := by
  obtain ⟨rest, hrest⟩ := h.queued
  have hids : b.pool.held ++ b.pool.ring.take b.filled = rqIds (s.client.polled ++ s.evq) := by
    rw [rqIds_append, h.owned.held, hrest, h.filled, List.take_left]
  rw [Mailbox.unread, hids]
  have hval := h.val
  generalize s.client.polled ++ s.evq = evs at hval ⊢
  induction evs with
  | nil => rfl
  | cons e evs ih =>
      have ih := ih fun e' he' => hval e' (List.mem_cons_of_mem _ he')
      cases he : e.rqId? with
      | none =>
          rw [rqIds_cons_none he, List.filterMap_cons_none (Event.frame_of_rqId_none he _ _), ih]
      | some i =>
          rw [rqIds_cons_some he, List.map_cons, ← hval e (List.mem_cons_self ..) i he]
          cases hf : e.frame s.client.res.layout s.mem with
          | none => rw [List.filterMap_cons_none hf, ← ih]; rfl
          | some f => rw [List.filterMap_cons_some hf, ← ih]; rfl

/-- The client is never stuck: it can refill, poll, and handle what it has
polled. -/
theorem Refines.progress (h : Refines su s b) :
    (sysStep su packetHandlerFull .refill s).isSome ∧
      (∀ k, k ≤ evPollBatchSize → (sysStep su packetHandlerFull (.poll k) s).isSome) ∧
      (s.client.polled ≠ [] → (sysStep su packetHandlerFull .handle s).isSome) := by
  refine ⟨?_, fun k hk => ?_, fun hne => ?_⟩
  · obtain ⟨c, hc, -⟩ := h.owned.refill packetHandlerFull
    rw [sysStep, hc]
    rfl
  · obtain ⟨rest, hrest⟩ := h.queued
    have hring : s.client.res.vi.ring.map Desc.dmaId =
        rqIds (s.evq.take k) ++ (rqIds (s.evq.drop k) ++ rest) := by
      rw [h.owned.owns.ring_ids, hrest, ← List.append_assoc, ← rqIds_append, List.take_append_drop]
    obtain ⟨vi, hvi⟩ := Rxq.efEventqPoll_isSome hring
    have hlen : (s.evq.take k).length ≤ evPollBatchSize := by
      rw [List.length_take]
      omega
    rw [sysStep, Efvi.step, if_pos hlen, hvi]
    rfl
  · obtain ⟨e, evs, hpolled⟩ := List.exists_cons_of_ne_nil hne
    have hfits : e.Fits := h.fits e (by simp [hpolled])
    obtain ⟨c, hc⟩ := h.owned.handleEvent_isSome packetHandlerFull s.mem hpolled hfits.whole
    rw [sysStep, hc]
    rfl

/-- After `init` the system is a mailbox in which nothing was sent. -/
theorem Refines.start {fuel : Nat} {out : Filling} (hc : 15 ≤ su.capacity)
    (hinit : su.init fuel = some out) (rx : RxState) (mem : Mem) :
    ∃ b, Refines su (.start out.res rx mem) b ∧ b.Fifo := by
  obtain ⟨p, hposted, -, -⟩ := Setup.init_posted hc hinit
  refine ⟨⟨p, 0, fun _ => none, [], []⟩, ?_, ?_⟩
  · refine ⟨⟨hposted.owns, hposted.held.symm⟩, hposted.configured, ⟨p.ring, rfl⟩, rfl, ?_, ?_, rfl,
      rfl⟩
    · intro e he
      cases he
    · intro e he
      cases he
  · refine ⟨hposted.owns.nodup, Nat.zero_le _, ?_⟩
    rw [Mailbox.unread, List.take_zero, hposted.held]
    rfl

/-- In step with a mailbox that delivers in order, the frames seen and those
still in memory are the frames written. -/
theorem Refines.delivered (h : Refines su s b) (hfifo : b.Fifo) :
    s.client.seen ++
        (s.client.polled ++ s.evq).filterMap (Event.frame s.client.res.layout s.mem) =
      s.written := by
  rw [← h.unread, h.seen, h.written, ← List.reduceOption_append, hfifo.order]

/-- After `init`, in any interleaving of the NIC's steps with the client's: what
`handle_pkt` has seen, followed by the good frames behind queued and polled
events as packet memory holds them now, is the sequence of good frames the NIC
has written.  And the client can always go on. -/
theorem frames_delivered (packetHandlerFull : PacketHandlerFull) (su : Setup)
    (hc : 15 ≤ su.capacity) (fuel : Nat) (out : Filling) (hinit : su.init fuel = some out)
    (rx : RxState) (mem : Mem) (acts : List SysAct) (s : Sys)
    (hrun : Loop.exec (sysStep su packetHandlerFull) acts (.start out.res rx mem) = some s) :
    s.client.seen ++
        (s.client.polled ++ s.evq).filterMap (Event.frame s.client.res.layout s.mem) =
      s.written ∧
    (sysStep su packetHandlerFull .refill s).isSome ∧
    (∀ k, k ≤ evPollBatchSize → (sysStep su packetHandlerFull (.poll k) s).isSome) ∧
    (s.client.polled ≠ [] → (sysStep su packetHandlerFull .handle s).isSome) := by
  obtain ⟨b, hstart, hfifo⟩ := Refines.start hc hinit rx mem
  obtain ⟨b', hrefines, hb⟩ := hstart.run hfifo hrun
  exact ⟨hrefines.delivered hb, hrefines.progress⟩

/-- Frames arrive before, between and after the steps of the client. -/
def sampleRun : List SysAct :=
  [.rx (List.replicate 14 0) [1, 2, 3], .poll 16, .rx (List.replicate 14 1) [4, 5],
    .discard [9] 20 2, .other .tx, .handle, .refill, .poll 2, .handle,
    .rx (List.replicate 14 2) [6]]

theorem sampleRun_runs :
    ∃ out s, Setup.small32.init 32 = some out ∧
      Loop.exec (sysStep Setup.small32 noMessage) sampleRun (.start out.res freshRx (view [])) =
        some s := by
  have hsome : ((Setup.small32.init 32).bind fun out =>
      Loop.exec (sysStep Setup.small32 noMessage) sampleRun
        (.start out.res freshRx (view []))).isSome = true := by decide +kernel
  obtain ⟨s, hs⟩ := Option.isSome_iff_exists.mp hsome
  obtain ⟨out, hinit, hrun⟩ := Option.bind_eq_some_iff.mp hs
  exact ⟨out, s, hinit, hrun⟩

theorem frames_delivered_small32 :
    ∃ out s, Setup.small32.init 32 = some out ∧
      Loop.exec (sysStep Setup.small32 noMessage) sampleRun (.start out.res freshRx (view [])) =
        some s ∧
      s.client.seen ++
          (s.client.polled ++ s.evq).filterMap (Event.frame s.client.res.layout s.mem) =
        s.written ∧
      (sysStep Setup.small32 noMessage .refill s).isSome ∧
      (∀ k, k ≤ evPollBatchSize → (sysStep Setup.small32 noMessage (.poll k) s).isSome) ∧
      (s.client.polled ≠ [] → (sysStep Setup.small32 noMessage .handle s).isSome) := by
  obtain ⟨out, s, hinit, hrun⟩ := sampleRun_runs
  exact ⟨out, s, hinit, hrun, frames_delivered noMessage Setup.small32 (by decide) 32 out hinit
    freshRx (view []) sampleRun s hrun⟩

end Efvi
