import DceSub.Efvi.McClient

/-!
# No buffer is lost or duplicated

Every step of the client is a move of the pool of buffer ids, or leaves the pool
as it is (`Owned.step`).  Over a run of any length, in whatever order the client
refills, polls and handles events, the ids on the free list, on the ring and in
polled events are therefore all ids, each once, and the counters agree with
them.
-/

namespace Efvi

open Base Wire Client Resources

/-- The client holds the buffers of the pool `p`; those held are the ones of the
polled events. -/
structure Owned (c : McClient) (p : Pool Nat) : Prop where
  owns : Owns c.res p
  held : rqIds c.polled = p.held

section

variable {packetHandlerFull : PacketHandlerFull} {c c' : McClient} {p : Pool Nat}

/-! ## One step -/

variable (packetHandlerFull) in
/-- A refill is always possible, and posts the head of the free list. -/
theorem Owned.refill (h : Owned c p) :
    ∃ c', step packetHandlerFull .refill c = some c' ∧
      Owned c' ⟨p.free.drop (refillCount c.res p), p.ring ++ p.free.take (refillCount c.res p),
        p.held⟩ ∧
      c'.res.layout = c.res.layout ∧ c'.polled = c.polled ∧ c'.seen = c.seen := by
  obtain ⟨out, hout, hmoved, howns, -⟩ := h.owns.refillRxRing
  exact ⟨{ c with res := out.res }, by rw [step, hout]; rfl, ⟨howns, h.held⟩, hmoved.layout,
    rfl, rfl⟩

/-- A poll takes the ids of its events off the ring. -/
theorem Owned.poll {evs : List Event} (h : Owned c p)
    (hstep : step packetHandlerFull (.poll evs) c = some c') :
    ∃ ring, p.ring = rqIds evs ++ ring ∧ Owned c' ⟨p.free, ring, p.held ++ rqIds evs⟩ ∧
      c'.res.layout = c.res.layout ∧ c'.polled = c.polled ++ evs ∧ c'.seen = c.seen := by
  obtain ⟨-, hstep⟩ := Option.ite_none_right_eq_some.mp hstep
  obtain ⟨vi, hvi, rfl⟩ := Option.map_eq_some_iff.mp hstep
  obtain ⟨ring, hring, howns⟩ := h.owns.efEventqPoll hvi
  obtain ⟨-, -, -, hmask⟩ := Rxq.efEventqPoll_eq_some hvi
  refine ⟨ring, hring, ⟨howns, by rw [rqIds_append, h.held]⟩, ?_, rfl, rfl⟩
  exact congrArg (Layout.mk · _ _ _ _ _ _ _ _) hmask

/-- A handler gives back the buffer of its event. -/
theorem Owned.handle {m : Mem} (h : Owned c p)
    (hstep : step packetHandlerFull (.handle m) c = some c') :
    ∃ e evs, c.polled = e :: evs ∧ c'.polled = evs ∧
      c'.seen = c.seen ++ (e.frame c.res.layout m).toList ∧ c'.res.layout = c.res.layout ∧
      ((e.rqId? = none ∧ Owned c' p) ∨
        ∃ i held, e.rqId? = some i ∧ p.held = i :: held ∧
          Owned c' ⟨i :: p.free, p.ring, held⟩) := by
  rw [step] at hstep
  cases hpolled : c.polled with
  | nil =>
      rw [hpolled] at hstep
      cases hstep
  | cons e evs =>
      rw [hpolled] at hstep
      obtain ⟨hp, hseen, hres⟩ := handleEvent_eq_some hstep
      have hheld := h.held
      rw [hpolled] at hheld
      refine ⟨e, evs, rfl, hp, hseen, ?_⟩
      obtain ⟨he, hres⟩ | ⟨i, pktBuf, pkts, bytes, he, hbuf, hres⟩ := hres
      · rw [rqIds_cons_none he] at hheld
        refine ⟨by rw [hres], .inl ⟨he, ?_, by rw [hp]; exact hheld⟩⟩
        rw [hres]
        exact h.owns
      · rw [rqIds_cons_some he] at hheld
        obtain ⟨hbuf', hfreed⟩ := (h.owns.counted pkts bytes).release hheld.symm
        have haddr : pktBuf = (c.res.counted pkts bytes).layout.bufAddr i :=
          Option.some.inj (hbuf.symm.trans hbuf')
        rw [haddr] at hres
        refine ⟨by rw [hres, pktBufFree_layout]; rfl, .inr ⟨i, rqIds evs, he, hheld.symm, ?_, ?_⟩⟩
        · rw [hres]
          exact hfreed
        · rw [hp]

/-- The client refines the pool: each of its steps is a move, or changes
nothing. -/
theorem Owned.step {a : Act} (h : Owned c p) (hstep : step packetHandlerFull a c = some c') :
    ∃ p', Owned c' p' ∧ (p' = p ∨ Pool.Move p p') ∧ c'.res.layout = c.res.layout := by
  cases a with
  | refill =>
      obtain ⟨c₁, hc₁, howned, hlayout, -⟩ := h.refill packetHandlerFull
      obtain rfl := Option.some.inj (hc₁.symm.trans hstep)
      exact ⟨_, howned, .inr (.post _ _ (List.take_append_drop ..).symm), hlayout⟩
  | poll evs =>
      obtain ⟨ring, hring, howned, hlayout, -⟩ := h.poll hstep
      exact ⟨_, howned, .inr (.take _ _ hring), hlayout⟩
  | handle m =>
      obtain ⟨e, evs, -, -, -, hlayout, ⟨-, howned⟩ | ⟨i, held, -, hheld, howned⟩⟩ := h.handle hstep
      · exact ⟨p, howned, .inl rfl, hlayout⟩
      · exact ⟨_, howned, .inr (.release _ _ hheld), hlayout⟩

/-! ## Any run -/

/-- A run of any length keeps the buffers and the layout. -/
theorem Owned.run {acts : List Act} (h : Owned c p)
    (hrun : Loop.exec (Efvi.step packetHandlerFull) acts c = some c') :
    ∃ p', Owned c' p' ∧ c'.res.layout = c.res.layout := by
  refine Loop.exec_inv (fun c' => ∃ p', Owned c' p' ∧ c'.res.layout = c.res.layout) ?_
    ⟨p, h, rfl⟩ hrun
  rintro a - c₁ c₂ ⟨p₁, h₁, hlayout⟩ hstep
  obtain ⟨p₂, h₂, -, hlayout₂⟩ := h₁.step hstep
  exact ⟨p₂, h₂, hlayout₂.trans hlayout⟩

variable (packetHandlerFull) in
/-- A handler only fails for a packet that spans several buffers. -/
theorem Owned.handleEvent_isSome {e : Event} {evs : List Event} (h : Owned c p) (m : Mem)
    (hpolled : c.polled = e :: evs) (hwhole : e.Whole) :
    ∃ c', Efvi.step packetHandlerFull (.handle m) c = some c' := by
  rw [Efvi.step, hpolled]
  refine Efvi.handleEvent_isSome hwhole fun i hi => ?_
  have hheld := h.held
  rw [hpolled, rqIds_cons_some hi] at hheld
  exact ⟨_, (h.owns.release hheld.symm).1⟩

end

/-- From the end of the carving loop on, with any DMA addresses and thresholds,
the ids on the free list, on the ring and in polled events are all ids, each
once.  The counters agree with them, also when those of the ring have wrapped,
and the assertion of `pkt_buf_from_id` holds for every polled id. -/
theorem buffers_conserved (packetHandlerFull : PacketHandlerFull) (su : Setup) (res : Resources)
    (hcarve : su.alloc.carve = some res) (efviAddr : Nat → Nat) (refillLevel refillMin : Int)
    (rx : RxState) (acts : List Act) (c : McClient)
    (hrun : Loop.exec (step packetHandlerFull) acts
      (.start (res.configure efviAddr refillLevel refillMin) rx) = some c) :
    ∃ l, Chain c.res.next c.res.freePktBufs l ∧ c.res.freePktBufsN = l.length ∧
      (l.map (fun b => (c.res.heap b).id) ++ (c.res.vi.ring.map Desc.dmaId ++ rqIds c.polled)).Perm
        (List.range su.cfgMaxFill.toNat) ∧
      (rqIds c.polled = [] →
        c.res.vi.efViReceiveFillLevel + c.res.freePktBufsN = su.cfgMaxFill.toNat) ∧
      (∀ i ∈ rqIds c.polled, (c.res.pktBufFromId i).isSome) ∧
      ((step packetHandlerFull .refill c).isSome) := by
  obtain ⟨res', hres', ⟨heap, head, n, hframe⟩, howns⟩ := su.carved
  obtain rfl := Option.some.inj (hres'.symm.trans hcarve)
  have hstart : Owned (.start (res'.configure efviAddr refillLevel refillMin) rx)
      ⟨(List.range su.cfgMaxFill.toNat).reverse, [], []⟩ :=
    ⟨howns.configure efviAddr refillLevel refillMin, rfl⟩
  obtain ⟨p, hc, hlayout⟩ := hstart.run hrun
  have hn : c.res.pktBufsN = su.cfgMaxFill.toNat := by
    have h : c.res.pktBufsN = res'.pktBufsN := congrArg Layout.pktBufsN hlayout
    rw [h, hframe]
    rfl
  refine ⟨p.free.map c.res.layout.bufAddr, hc.owns.free.chain, hc.owns.free.count, ?_, ?_, ?_, ?_⟩
  · rw [hc.owns.free_ids, hc.owns.ring_ids, hc.held, ← hn]
    exact hc.owns.perm
  · intro hnone
    have hcount := hc.owns.count
    rw [← hc.held, hnone, List.length_nil] at hcount
    rw [Rxq.fillLevel_eq, hc.owns.ring_length, hc.owns.free_length]
    omega
  · intro i hi
    rw [hc.held] at hi
    have hlt := hc.owns.lt (List.mem_append_right _ (List.mem_append_right _ hi))
    rw [pktBufFromId, if_pos hlt]
    rfl
  · obtain ⟨c', hc', -⟩ := hc.refill packetHandlerFull
    rw [hc']
    rfl

/-- A refill, a poll of three events, and the handling of two of them. -/
def sampleActs : List Act :=
  [.refill, .poll [.rx 15 84 true false, .other .tx, .rxDiscard 14 60 2], .handle (view []),
    .handle (view [])]

theorem buffers_conserved_small32 :
    ∃ res c, Setup.small32.alloc.carve = some res ∧
      Loop.exec (step noMessage) sampleActs (.start (res.configure id 0 8) freshRx) = some c ∧
      ∃ l, Chain c.res.next c.res.freePktBufs l ∧ c.res.freePktBufsN = l.length ∧
        (l.map (fun b => (c.res.heap b).id) ++
          (c.res.vi.ring.map Desc.dmaId ++ rqIds c.polled)).Perm (List.range 16) ∧
        (rqIds c.polled = [] → c.res.vi.efViReceiveFillLevel + c.res.freePktBufsN = (16 : Nat)) ∧
        (∀ i ∈ rqIds c.polled, (c.res.pktBufFromId i).isSome) ∧
        (step noMessage .refill c).isSome := by
  have hsome : (Setup.small32.alloc.carve.bind fun res => Loop.exec (step noMessage) sampleActs
      (.start (res.configure id 0 8) freshRx)).isSome = true := by decide +kernel
  obtain ⟨c, hc⟩ := Option.isSome_iff_exists.mp hsome
  obtain ⟨res, hcarve, hrun⟩ := Option.bind_eq_some_iff.mp hc
  exact ⟨res, c, hcarve, hrun, buffers_conserved noMessage Setup.small32 res hcarve id 0 8 freshRx
    sampleActs c hrun⟩

end Efvi
