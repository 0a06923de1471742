import DceSub.Efvi.Conservation

/-!
# How far the ring is depleted

`event_loop_low_latency` refills, polls, handles what was polled, and starts
again.  `loopStep` is this order on the steps of the client: the state has a
point of control, and a step is possible only where the loop takes it.  Every
run of the loop as a function is such a run (`eventLoopLowLatency_run`).

A poll takes at most 16 buffers off the ring, and a refill puts 16 back as soon
as 16 are missing.  So the number of buffers off the ring stays below 16 after a
refill and below 32 anywhere else, and modulo 16 it only depends on how many
descriptors were ever consumed (`Depletion`).
-/

namespace Efvi

open Base Wire Client Resources

/-- Where the loop is: before `refill_rx_ring`, before `poll_evq`, or inside
`poll_evq` with events to handle. -/
inductive Point where
  | refill
  | poll
  | handle
deriving DecidableEq

/-- The client in its loop, with the number of descriptors consumed so far. -/
structure LoopState where
  client : McClient
  point : Point
  consumed : Nat

/-- Where the loop is while it handles events, and after the last one. -/
def McClient.afterEvent (c : McClient) : Point := if c.polled.isEmpty then .refill else .handle

/-- The steps of the client, in the order of `event_loop_low_latency`. -/
def loopStep (packetHandlerFull : PacketHandlerFull) : Act → LoopState → Option LoopState
  | .refill, ⟨c, .refill, k⟩ => (step packetHandlerFull .refill c).map (⟨·, .poll, k⟩)
  | .poll evs, ⟨c, .poll, k⟩ =>
      (step packetHandlerFull (.poll evs) c).map fun c =>
        ⟨c, c.afterEvent, k + (rqIds evs).length⟩
  | .handle m, ⟨c, .handle, k⟩ =>
      (step packetHandlerFull (.handle m) c).map fun c => ⟨c, c.afterEvent, k⟩
  | _, _ => none

variable {packetHandlerFull : PacketHandlerFull}

/-! ## The loop as a function -/

/-- The client with other events to handle. -/
def McClient.withPolled (c : McClient) (evs : List Event) : McClient := { c with polled := evs }

variable (packetHandlerFull) in
/-- A handler does not look at the events still to come. -/
theorem handleEvent_withPolled (m : Mem) (c : McClient) (evs : List Event) (e : Event) :
    handleEvent packetHandlerFull m (c.withPolled evs) e =
      (handleEvent packetHandlerFull m c e).map (·.withPolled evs) := by
  cases e with
  | rx rqId len sop cont =>
      simp only [handleEvent, handleRx, McClient.withPolled]
      split
      · cases c.res.pktBufFromId rqId <;> rfl
      · rfl
  | rxDiscard rqId len subtype =>
      simp only [handleEvent, handleRxDiscard, McClient.withPolled]
      cases c.res.pktBufFromId rqId <;> rfl
  | other type => rfl

/-- The loop over the events of a poll, one step at a time. -/
theorem handleEvents_run (k : Nat) {evs : List Arrival} {c c' : McClient}
    (h : Loop.exec (fun a c => handleEvent packetHandlerFull a.mem c a.event) evs c = some c') :
    Loop.exec (loopStep packetHandlerFull) (evs.map fun a => .handle a.mem)
        ⟨c.withPolled (evs.map Arrival.event), (c.withPolled (evs.map Arrival.event)).afterEvent,
          k⟩ =
      some ⟨c'.withPolled [], .refill, k⟩ := by
  induction evs generalizing c with
  | nil =>
      cases h
      rfl
  | cons a evs ih =>
      obtain ⟨c₁, h₁, h⟩ := Loop.exec_cons_eq_some h
      have hhandle := handleEvent_withPolled packetHandlerFull a.mem c (evs.map Arrival.event)
        a.event
      rw [h₁, Option.map_some] at hhandle
      have hstep : loopStep packetHandlerFull (.handle a.mem)
          ⟨c.withPolled (a.event :: evs.map Arrival.event), .handle, k⟩ =
          some ⟨c₁.withPolled (evs.map Arrival.event),
            (c₁.withPolled (evs.map Arrival.event)).afterEvent, k⟩ := by
        show (handleEvent packetHandlerFull a.mem (c.withPolled _) a.event).map _ = _
        rw [hhandle, Option.map_some]
      rw [List.map_cons, List.map_cons, show (c.withPolled _).afterEvent = .handle from rfl,
        Loop.exec_cons hstep]
      exact ih h

/-- The steps of one pass of the loop. -/
def passActs (evs : List Arrival) : List Act :=
  .refill :: .poll (evs.map Arrival.event) :: evs.map fun a => .handle a.mem

/-- One pass of the loop, one step at a time. -/
theorem eventLoopPass_run {evs : List Arrival} {c c' : McClient} (k : Nat)
    (hlen : evs.length ≤ evPollBatchSize) (hidle : c.polled = [])
    (h : eventLoopPass packetHandlerFull evs c = some c') :
    Loop.exec (loopStep packetHandlerFull) (passActs evs) ⟨c, .refill, k⟩ =
        some ⟨c', .refill, k + (rqIds (evs.map Arrival.event)).length⟩ ∧ c'.polled = [] := by
  obtain ⟨r, hr, h⟩ := Option.bind_eq_some_iff.mp h
  obtain ⟨⟨n, c₂⟩, hpoll, rfl⟩ := Option.map_eq_some_iff.mp h
  obtain ⟨vi, hvi, hpoll⟩ := Option.bind_eq_some_iff.mp hpoll
  obtain ⟨c₃, hexec, heq⟩ := Option.map_eq_some_iff.mp hpoll
  obtain rfl : c₃ = c₂ := congrArg Prod.snd heq
  have hidle' : c₃.polled = [] := by
    refine Loop.exec_inv (fun c : McClient => c.polled = []) ?_ ?_ hexec
    · intro a _ s s' hs hstep
      rw [(handleEvent_eq_some hstep).1, hs]
    · exact hidle
  refine ⟨?_, hidle'⟩
  have hrefill : loopStep packetHandlerFull .refill ⟨c, .refill, k⟩ =
      some ⟨{ c with res := r.2.res }, .poll, k⟩ := by
    show (step packetHandlerFull .refill c).map _ = _
    rw [step, hr]
    rfl
  have htake : loopStep packetHandlerFull (.poll (evs.map Arrival.event))
      ⟨{ c with res := r.2.res }, .poll, k⟩ =
      some ⟨({ c with res := { r.2.res with vi := vi } } : McClient).withPolled
          (evs.map Arrival.event),
        (({ c with res := { r.2.res with vi := vi } } : McClient).withPolled
          (evs.map Arrival.event)).afterEvent,
        k + (rqIds (evs.map Arrival.event)).length⟩ := by
    show (step packetHandlerFull (.poll _) _).map _ = _
    rw [step, if_pos (by rw [List.length_map]; exact hlen), hvi, Option.map_some, Option.map_some,
      hidle]
    rfl
  rw [passActs, Loop.exec_cons hrefill, Loop.exec_cons htake, handleEvents_run _ hexec]
  rw [McClient.withPolled, ← hidle']

/-- A run of `event_loop_low_latency` is a run of its steps. -/
theorem eventLoopLowLatency_run {polls : List (List Arrival)} {c c' : McClient} (k : Nat)
    (hlen : ∀ evs ∈ polls, evs.length ≤ evPollBatchSize) (hidle : c.polled = [])
    (h : eventLoopLowLatency packetHandlerFull polls c = some c') :
    ∃ k', Loop.exec (loopStep packetHandlerFull) (polls.flatMap passActs) ⟨c, .refill, k⟩ =
      some ⟨c', .refill, k'⟩ := by
  induction polls generalizing c k with
  | nil =>
      cases h
      exact ⟨k, rfl⟩
  | cons evs polls ih =>
      obtain ⟨c₁, h₁, h⟩ := Loop.exec_cons_eq_some h
      obtain ⟨hpass, hidle₁⟩ := eventLoopPass_run k (hlen evs (List.mem_cons_self ..)) hidle h₁
      obtain ⟨k', hrest⟩ := ih (k + (rqIds (evs.map Arrival.event)).length)
        (fun evs' h' => hlen evs' (List.mem_cons_of_mem _ h')) hidle₁ h
      refine ⟨k', ?_⟩
      rw [List.flatMap_cons, Loop.exec_append hpass]
      exact hrest

/-! ## The bound -/

/-- How many buffers are off the ring at most. -/
def Point.bound : Point → Nat
  | .refill => 31
  | .poll => 15
  | .handle => 31

/-- The invariant of the loop. -/
structure Depletion (su : Setup) (s : LoopState) (p : Pool Nat) : Prop where
  owned : Owned s.client p
  configured : su.Configured s.client.res.layout
  off : p.free.length + p.held.length ≤ s.point.bound
  mod : (p.free.length + p.held.length) % 16 = (s.client.res.pktBufsN + s.consumed) % 16
  idle : s.point ≠ .handle → s.client.polled = []

variable {su : Setup} {s s' : LoopState} {p : Pool Nat}

theorem Depletion.count (h : Depletion su s p) :
    p.free.length + (p.ring.length + p.held.length) = s.client.res.pktBufsN := h.owned.owns.count

/-- Before a refill at most 31 buffers are off the ring, so the refill posts one
batch if there is one, and never two. -/
theorem Depletion.refillCount_eq (h : Depletion su s p) (hpoint : s.point = .refill) :
    p.held = [] ∧
      refillCount s.client.res p = if p.free.length < 16 then 0 else 16 := by
  have hheld : p.held = [] := by
    have hidle := h.idle (by rw [hpoint]; exact Point.noConfusion)
    rw [← h.owned.held, hidle]
    rfl
  have hcount := h.count
  have hoff := h.off
  have hlevel : s.client.res.refillLevel = (s.client.res.pktBufsN : Int) - 16 :=
    h.configured.refillLevel
  have hb16 : refillBatchSize = 16 := rfl
  rw [hheld, List.length_nil] at hcount hoff
  rw [hpoint, Point.bound] at hoff
  refine ⟨hheld, ?_⟩
  rw [refillCount]
  by_cases hfree : p.free.length < 16
  · rw [if_pos (by omega), if_pos hfree]
  · have hone : p.free.length / 16 = 1 := by omega
    rw [if_neg (by omega), if_neg hfree, refillBatches, hone]
    omega

theorem afterEvent_bound (c : McClient) : c.afterEvent.bound = 31 := by
  rw [McClient.afterEvent]
  split <;> rfl

theorem afterEvent_idle {c : McClient} (h : c.afterEvent ≠ .handle) : c.polled = [] := by
  rw [McClient.afterEvent] at h
  split at h
  next he => exact List.isEmpty_iff.mp he
  next he => exact absurd rfl h

variable {c c' : McClient} {k : Nat}

/-- A refill brings the number of buffers off the ring below 16. -/
theorem Depletion.refill (h : Depletion su ⟨c, .refill, k⟩ p)
    (hstep : Efvi.step packetHandlerFull .refill c = some c') :
    ∃ p', Depletion su ⟨c', .poll, k⟩ p' := by
  have hoff := h.off
  have hmod := h.mod
  obtain ⟨hheld, hk⟩ := h.refillCount_eq rfl
  obtain ⟨c₁, hc₁, howned, hlayout, hpolled, -⟩ := h.owned.refill packetHandlerFull
  obtain rfl := Option.some.inj (hc₁.symm.trans hstep)
  have hn : c₁.res.pktBufsN = c.res.pktBufsN := congrArg Layout.pktBufsN hlayout
  simp only [hheld, List.length_nil, Nat.add_zero, Point.bound] at hoff hmod
  refine ⟨_, howned, by rw [hlayout]; exact h.configured, ?_, ?_, ?_⟩
  · simp only [hk, hheld, List.length_drop, List.length_nil, Point.bound]
    split <;> omega
  · simp only [hk, hheld, List.length_drop, List.length_nil, hn]
    split <;> omega
  · intro _
    exact hpolled.trans (h.idle Point.noConfusion)

/-- A poll takes at most 16 more buffers off the ring. -/
theorem Depletion.poll {evs : List Event} (h : Depletion su ⟨c, .poll, k⟩ p)
    (hstep : Efvi.step packetHandlerFull (.poll evs) c = some c') :
    ∃ p', Depletion su ⟨c', c'.afterEvent, k + (rqIds evs).length⟩ p' := by
  have hoff := h.off
  have hmod := h.mod
  obtain ⟨ring, hring, howned, hlayout, -⟩ := h.owned.poll hstep
  obtain ⟨hlen, -⟩ := Option.ite_none_right_eq_some.mp hstep
  have hn : c'.res.pktBufsN = c.res.pktBufsN := congrArg Layout.pktBufsN hlayout
  have hle := rqIds_length_le evs
  have h16 : evPollBatchSize = 16 := rfl
  simp only [Point.bound] at hoff hmod
  refine ⟨_, howned, by rw [hlayout]; exact h.configured, ?_, ?_, afterEvent_idle⟩
  · simp only [afterEvent_bound, List.length_append]
    omega
  · simp only [List.length_append, hn]
    omega

/-- A handler moves a buffer between two places off the ring. -/
theorem Depletion.handle {m : Mem} (h : Depletion su ⟨c, .handle, k⟩ p)
    (hstep : Efvi.step packetHandlerFull (.handle m) c = some c') :
    ∃ p', Depletion su ⟨c', c'.afterEvent, k⟩ p' := by
  have hoff := h.off
  have hmod := h.mod
  obtain ⟨e, evs, -, -, -, hlayout, hcase⟩ := h.owned.handle hstep
  have hn : c'.res.pktBufsN = c.res.pktBufsN := congrArg Layout.pktBufsN hlayout
  have hconf : su.Configured c'.res.layout := by
    rw [hlayout]
    exact h.configured
  obtain ⟨-, howned⟩ | ⟨i, held, -, hheld, howned⟩ := hcase
  · refine ⟨p, howned, hconf, ?_, ?_, afterEvent_idle⟩
    · rw [afterEvent_bound]
      exact hoff
    · simp only [hn]
      exact hmod
  · simp only [hheld, List.length_cons, Point.bound] at hoff hmod
    refine ⟨_, howned, hconf, ?_, ?_, afterEvent_idle⟩
    · simp only [afterEvent_bound, List.length_cons]
      omega
    · simp only [List.length_cons, hn]
      omega

/-- A step is possible at one point of control only, and keeps the bound. -/
theorem Depletion.step {a : Act} (h : Depletion su s p)
    (hstep : loopStep packetHandlerFull a s = some s') : ∃ p', Depletion su s' p' := by
  obtain ⟨c, point, k⟩ := s
  cases a with
  | refill =>
      cases point with
      | refill =>
          obtain ⟨c', hc', rfl⟩ := Option.map_eq_some_iff.mp hstep
          exact h.refill hc'
      | poll => cases hstep
      | handle => cases hstep
  | poll evs =>
      cases point with
      | refill => cases hstep
      | poll =>
          obtain ⟨c', hc', rfl⟩ := Option.map_eq_some_iff.mp hstep
          exact h.poll hc'
      | handle => cases hstep
  | handle m =>
      cases point with
      | refill => cases hstep
      | poll => cases hstep
      | handle =>
          obtain ⟨c', hc', rfl⟩ := Option.map_eq_some_iff.mp hstep
          exact h.handle hc'

theorem Depletion.run {acts : List Act} (h : Depletion su s p)
    (hrun : Loop.exec (loopStep packetHandlerFull) acts s = some s') :
    ∃ p', Depletion su s' p' := by
  refine Loop.exec_inv (fun s => ∃ p, Depletion su s p) ?_ ⟨p, h⟩ hrun
  rintro a - s₁ s₂ ⟨p₁, h₁⟩ hstep
  exact h₁.step hstep

/-- After `init`, at any point of any run of the event loop: at most 31 buffers
are off the ring; after a refill only the remainder modulo 16 of the buffers and
the descriptors consumed is; and the next refill posts nothing or one batch. -/
theorem eventLoop_depletion (packetHandlerFull : PacketHandlerFull) (su : Setup)
    (hc : 15 ≤ su.capacity) (fuel : Nat) (out : Filling) (hinit : su.init fuel = some out)
    (rx : RxState) (acts : List Act) (s : LoopState)
    (hrun : Loop.exec (loopStep packetHandlerFull) acts ⟨.start out.res rx, .refill, 0⟩ = some s) :
    (s.point = .poll →
      s.client.res.freePktBufsN = (su.cfgMaxFill + s.consumed) % 16 ∧
        su.cfgMaxFill - 15 ≤ s.client.res.vi.efViReceiveFillLevel) ∧
      su.cfgMaxFill - s.client.res.vi.efViReceiveFillLevel ≤ 31 ∧
      (s.point = .refill → ∃ ret r, s.client.res.refillRxRing = some (ret, r) ∧
        (r.rcs.length = 0 ∨ r.rcs.length = 16) ∧
        r.res.vi.efViReceiveFillLevel =
          s.client.res.vi.efViReceiveFillLevel + r.rcs.length) := by
  obtain ⟨p₀, hposted, hring₀, hfree₀⟩ := Setup.init_posted hc hinit
  have hcount₀ := hposted.count
  have hstart : Depletion su ⟨.start out.res rx, .refill, 0⟩ p₀ := by
    refine ⟨⟨hposted.owns, hposted.held.symm⟩, hposted.configured, ?_, ?_, fun _ => rfl⟩
    · simp only [hposted.held, List.length_nil, Point.bound]
      omega
    · simp only [hposted.held, List.length_nil, McClient.start]
      omega
  obtain ⟨p, h⟩ := hstart.run hrun
  have hn : (s.client.res.pktBufsN : Int) = su.cfgMaxFill := h.configured.pktBufsN
  have hcount := h.count
  have hoff := h.off
  have hmod := h.mod
  rw [Rxq.fillLevel_eq, h.owned.owns.ring_length, h.owned.owns.free_length, ← hn]
  refine ⟨fun hpoint => ?_, ?_, fun hpoint => ?_⟩
  · have hheld : p.held = [] := by
      rw [← h.owned.held, h.idle (by rw [hpoint]; exact Point.noConfusion)]
      rfl
    rw [hheld, List.length_nil] at hcount hoff hmod
    rw [hpoint, Point.bound] at hoff
    omega
  · have hbound : s.point.bound ≤ 31 := by cases s.point <;> decide
    omega
  · obtain ⟨-, hk⟩ := h.refillCount_eq hpoint
    obtain ⟨r, hr, hmoved, -⟩ := h.owned.owns.refillRxRing
    have hrcs : r.rcs.length = refillCount s.client.res p := by
      rw [hmoved.rcs, List.length_replicate]
    refine ⟨_, r, hr, ?_, ?_⟩
    · rw [hrcs, hk]
      split
      · exact .inl rfl
      · exact .inr rfl
    · rw [Rxq.fillLevel_eq, hmoved.ring_length, h.owned.owns.ring_length, hrcs]
      omega

/-- One pass of the loop with one packet, and the refill of the next. -/
def sampleLoop : List Act :=
  [.refill, .poll [.rx 15 84 true false], .handle (view []), .refill]

theorem eventLoop_depletion_small32 :
    ∃ out s, Setup.small32.init 32 = some out ∧
      Loop.exec (loopStep noMessage) sampleLoop ⟨.start out.res freshRx, .refill, 0⟩ = some s ∧
      (s.point = .poll →
        s.client.res.freePktBufsN = (Setup.small32.cfgMaxFill + s.consumed) % 16 ∧
          Setup.small32.cfgMaxFill - 15 ≤ s.client.res.vi.efViReceiveFillLevel) ∧
      Setup.small32.cfgMaxFill - s.client.res.vi.efViReceiveFillLevel ≤ 31 ∧
      (s.point = .refill → ∃ ret r, s.client.res.refillRxRing = some (ret, r) ∧
        (r.rcs.length = 0 ∨ r.rcs.length = 16) ∧
        r.res.vi.efViReceiveFillLevel =
          s.client.res.vi.efViReceiveFillLevel + r.rcs.length) := by
  have hsome : ((Setup.small32.init 32).bind fun out => Loop.exec (loopStep noMessage) sampleLoop
      ⟨.start out.res freshRx, .refill, 0⟩).isSome = true := by decide +kernel
  obtain ⟨s, hs⟩ := Option.isSome_iff_exists.mp hsome
  obtain ⟨out, hinit, hrun⟩ := Option.bind_eq_some_iff.mp hs
  exact ⟨out, s, hinit, hrun, eventLoop_depletion noMessage Setup.small32 (by decide) 32 out hinit
    freshRx sampleLoop s hrun⟩

end Efvi
