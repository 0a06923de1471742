import DceSub.Efvi.Delivery
import DceSub.Efvi.EventLoop

/-!
# The event loop and the NIC at their own pace

`Sys` lets the client take its steps in any order.  Here it keeps to the order
of `event_loop_low_latency`, while the NIC goes on between any two of its steps.
A poll returns at least `batch` events if there are as many, and all there are
otherwise; nothing else is assumed about how the two are scheduled.

Both views of the client hold of such a run: that of its loop, which bounds the
buffers off the ring, and that of the system, which orders the frames.  Together
they say when the NIC finds a descriptor for a frame (`paced_frame_taken`).
-/

namespace Efvi

open Base Wire Client Resources

/-- The system with the client in its loop, and the number of descriptors
consumed so far. -/
structure Paced where
  sys : Sys
  point : Point
  consumed : Nat

/-- The client's side. -/
def Paced.loop (s : Paced) : LoopState := ⟨s.sys.client, s.point, s.consumed⟩

/-- The system after `init`. -/
def Paced.start (res : Resources) (rx : RxState) (mem : Mem) : Paced :=
  ⟨.start res rx mem, .refill, 0⟩

/-- A step of the client where its loop is, or of the NIC. -/
def pacedStep (su : Setup) (packetHandlerFull : PacketHandlerFull) (batch : Nat) (a : SysAct)
    (s : Paced) : Option Paced :=
  match a with
  | .refill =>
      if s.point = .refill then
        (sysStep su packetHandlerFull .refill s.sys).map (⟨·, .poll, s.consumed⟩)
      else none
  | .poll k =>
      if s.point = .poll ∧ min batch s.sys.evq.length ≤ k then
        (sysStep su packetHandlerFull (.poll k) s.sys).map fun sys =>
          ⟨sys, sys.client.afterEvent, s.consumed + (rqIds (s.sys.evq.take k)).length⟩
      else none
  | .handle =>
      if s.point = .handle then
        (sysStep su packetHandlerFull .handle s.sys).map fun sys =>
          ⟨sys, sys.client.afterEvent, s.consumed⟩
      else none
  | a => (sysStep su packetHandlerFull a s.sys).map fun sys => { s with sys := sys }

section

variable {su : Setup} {packetHandlerFull : PacketHandlerFull} {batch : Nat} {a : SysAct}
  {s s' : Paced}

/-! ## The two views -/

/-- The system's view of a step. -/
theorem pacedStep_sys (h : pacedStep su packetHandlerFull batch a s = some s') :
    sysStep su packetHandlerFull a s.sys = some s'.sys := by
  cases a with
  | rx | discard =>
      obtain ⟨sys, hsys, rfl⟩ := Option.map_eq_some_iff.mp h
      exact hsys
  | other =>
      cases h
      rfl
  | refill | poll k | handle =>
      obtain ⟨-, h⟩ := Option.ite_none_right_eq_some.mp h
      obtain ⟨sys, hsys, rfl⟩ := Option.map_eq_some_iff.mp h
      exact hsys

/-- A run at the pace of the event loop is a run of the system. -/
theorem paced_run_sys {acts : List SysAct}
    (h : Loop.exec (pacedStep su packetHandlerFull batch) acts s = some s') :
    Loop.exec (sysStep su packetHandlerFull) acts s.sys = some s'.sys :=
  Loop.exec_map Paced.sys (fun _ _ _ hstep => pacedStep_sys hstep) h

/-- The loop's view of a step: it takes it, or nothing happens to it. -/
theorem pacedStep_loop (h : pacedStep su packetHandlerFull batch a s = some s') :
    s'.loop = s.loop ∨ ∃ act, loopStep packetHandlerFull act s.loop = some s'.loop := by
  cases a with
  | rx | discard =>
      obtain ⟨sys, hsys, rfl⟩ := Option.map_eq_some_iff.mp h
      obtain ⟨-, hsys⟩ := Option.ite_none_right_eq_some.mp hsys
      obtain ⟨d, -, rfl⟩ := Option.map_eq_some_iff.mp hsys
      exact .inl rfl
  | other =>
      cases h
      exact .inl rfl
  | refill =>
      obtain ⟨hpoint, h⟩ := Option.ite_none_right_eq_some.mp h
      obtain ⟨sys, hsys, rfl⟩ := Option.map_eq_some_iff.mp h
      obtain ⟨c, hc, rfl⟩ := Option.map_eq_some_iff.mp hsys
      refine .inr ⟨.refill, ?_⟩
      rw [Paced.loop, hpoint, loopStep, hc]
      rfl
  | poll k =>
      obtain ⟨⟨hpoint, -⟩, h⟩ := Option.ite_none_right_eq_some.mp h
      obtain ⟨sys, hsys, rfl⟩ := Option.map_eq_some_iff.mp h
      obtain ⟨c, hc, rfl⟩ := Option.map_eq_some_iff.mp hsys
      refine .inr ⟨.poll (s.sys.evq.take k), ?_⟩
      rw [Paced.loop, hpoint, loopStep, hc]
      rfl
  | handle =>
      obtain ⟨hpoint, h⟩ := Option.ite_none_right_eq_some.mp h
      obtain ⟨sys, hsys, rfl⟩ := Option.map_eq_some_iff.mp h
      obtain ⟨c, hc, rfl⟩ := Option.map_eq_some_iff.mp hsys
      refine .inr ⟨.handle s.sys.mem, ?_⟩
      rw [Paced.loop, hpoint, loopStep, hc]
      rfl

/-! ## What both views give -/

/-- All descriptors of the ring are submitted, in whole batches. -/
def McClient.Submitted (c : McClient) : Prop :=
  c.res.vi.posted = c.res.vi.added ∧ c.res.vi.added.toNat % 16 = 0

theorem McClient.Submitted.submitted {c : McClient} (h : c.Submitted) :
    c.res.vi.submitted = c.res.vi.ring.length := by
  rw [Rxq.submitted, h.1, BitVec.sub_self]
  rfl

theorem Owned.submitted {c c' : McClient} {p : Pool Nat} {act : Act} (h : Owned c p)
    (hsub : c.Submitted) (hstep : Efvi.step packetHandlerFull act c = some c') : c'.Submitted := by
  cases act with
  | refill =>
      obtain ⟨out, hout, hmoved, -, hposted⟩ := h.owns.refillRxRing
      obtain ⟨hp, ha⟩ := hsub
      rw [Efvi.step, hout] at hstep
      cases hstep
      refine ⟨hposted hp (by omega), ?_⟩
      show out.res.vi.added.toNat % 16 = 0
      rw [hmoved.added]
      exact toNat_add_ofNat_mod (by decide) ha (refillCount_dvd c.res p)
  | poll evs =>
      obtain ⟨-, hstep⟩ := Option.ite_none_right_eq_some.mp hstep
      obtain ⟨vi, hvi, rfl⟩ := Option.map_eq_some_iff.mp hstep
      obtain ⟨-, hadded, hposted, -⟩ := Rxq.efEventqPoll_eq_some hvi
      refine ⟨?_, ?_⟩
      · show vi.posted = vi.added
        rw [hadded, hposted, hsub.1]
      · show vi.added.toNat % 16 = 0
        rw [hadded, hsub.2]
  | handle m =>
      rw [Efvi.step] at hstep
      split at hstep
      next => cases hstep
      next e evs hpolled =>
        have hvi : c'.res.vi = c.res.vi := by
          obtain ⟨-, -, ⟨-, hres⟩ | ⟨i, pktBuf, pkts, bytes, -, -, hres⟩⟩ :=
            handleEvent_eq_some hstep
          · rw [hres]
          · rw [hres]
            rfl
        rw [McClient.Submitted, hvi]
        exact hsub

/-- What holds of a paced system between any two steps. -/
structure Paced.Inv (su : Setup) (s : Paced) : Prop where
  refines : ∃ b, Refines su s.sys b ∧ b.Fifo
  depletion : ∃ p, Depletion su s.loop p
  submitted : s.sys.client.Submitted
  busy : s.point = .handle → s.sys.client.polled ≠ []

theorem McClient.afterEvent_busy {c : McClient} (h : c.afterEvent = .handle) : c.polled ≠ [] := by
  rw [McClient.afterEvent] at h
  split at h
  next => cases h
  next he => exact fun hnil => he (List.isEmpty_iff.mpr hnil)

/-- In the middle of `poll_evq` there is an event left to handle. -/
theorem pacedStep_busy (h : s.point = .handle → s.sys.client.polled ≠ [])
    (hstep : pacedStep su packetHandlerFull batch a s = some s') :
    s'.point = .handle → s'.sys.client.polled ≠ [] := by
  cases a with
  | rx | discard =>
      obtain ⟨sys, hsys, rfl⟩ := Option.map_eq_some_iff.mp hstep
      obtain ⟨-, hsys⟩ := Option.ite_none_right_eq_some.mp hsys
      obtain ⟨d, -, rfl⟩ := Option.map_eq_some_iff.mp hsys
      exact h
  | other =>
      cases hstep
      exact h
  | refill =>
      obtain ⟨-, hstep⟩ := Option.ite_none_right_eq_some.mp hstep
      obtain ⟨sys, -, rfl⟩ := Option.map_eq_some_iff.mp hstep
      intro hpoint
      cases hpoint
  | poll | handle =>
      obtain ⟨-, hstep⟩ := Option.ite_none_right_eq_some.mp hstep
      obtain ⟨sys, -, rfl⟩ := Option.map_eq_some_iff.mp hstep
      exact McClient.afterEvent_busy

theorem Paced.Inv.step (h : s.Inv su) (hstep : pacedStep su packetHandlerFull batch a s = some s') :
    s'.Inv su := by
  obtain ⟨b, hb, hfifo⟩ := h.refines
  obtain ⟨p, hp⟩ := h.depletion
  have hsys := pacedStep_sys hstep
  constructor
  case refines => exact hb.step_fifo hfifo hsys
  case depletion =>
    obtain heq | ⟨act, hact⟩ := pacedStep_loop hstep
    · exact ⟨p, heq ▸ hp⟩
    · exact hp.step hact
  case submitted =>
    obtain heq | ⟨act, hact⟩ := sysStep_client hsys
    · exact heq ▸ h.submitted
    · exact hb.owned.submitted h.submitted hact
  case busy => exact pacedStep_busy h.busy hstep

theorem Paced.Inv.run {acts : List SysAct} (h : s.Inv su)
    (hrun : Loop.exec (pacedStep su packetHandlerFull batch) acts s = some s') : s'.Inv su :=
  Loop.exec_inv (Paced.Inv su) (fun _ _ _ _ h hstep => h.step hstep) h hrun

theorem Paced.Inv.start {fuel : Nat} {out : Filling} (hc : 15 ≤ su.capacity)
    (hinit : su.init fuel = some out) (rx : RxState) (mem : Mem) :
    (Paced.start out.res rx mem).Inv su := by
  obtain ⟨p, hposted, hring, hfree⟩ := Setup.init_posted hc hinit
  have hcount := hposted.count
  constructor
  case refines => exact Refines.start hc hinit rx mem
  case depletion =>
    refine ⟨p, ⟨hposted.owns, hposted.held.symm⟩, hposted.configured, ?_, ?_, fun _ => rfl⟩
    · simp only [hposted.held, List.length_nil, Paced.loop, Paced.start, Point.bound]
      omega
    · simp only [hposted.held, List.length_nil, Paced.loop, Paced.start, Sys.start, McClient.start]
      omega
  case submitted => exact ⟨hposted.posted, hposted.added⟩
  case busy =>
    intro hpoint
    cases hpoint

/-! ## A descriptor for every frame -/

/-- The NIC has a descriptor left, unless as many frames wait as the ring has
buffers. -/
theorem Paced.Inv.nextDesc (h : s.Inv su)
    (hroom : ((rqIds s.sys.evq).length : Int) + s.point.bound < su.cfgMaxFill) :
    ∃ d, s.sys.nextDesc = some d := by
  obtain ⟨p, hp⟩ := h.depletion
  have hcount := hp.count
  have hoff := hp.off
  have hn : (s.sys.client.res.pktBufsN : Int) = su.cfgMaxFill := hp.configured.pktBufsN
  have hlen : s.sys.client.res.vi.ring.length = p.ring.length := hp.owned.owns.ring_length
  have hlt : (rqIds s.sys.evq).length < s.sys.client.res.vi.ring.length := by
    simp only [Paced.loop] at hcount hoff
    omega
  refine ⟨s.sys.client.res.vi.ring[(rqIds s.sys.evq).length], ?_⟩
  rw [Sys.nextDesc, h.submitted.submitted, if_pos hlt, List.getElem?_eq_getElem hlt]

end

/-- After `init`, in any interleaving of the NIC with the event loop: a frame
that fits its buffer finds a descriptor, as long as the frames waiting in the
event queue are less than all buffers but 31. -/
theorem paced_frame_taken (packetHandlerFull : PacketHandlerFull) (su : Setup)
    (hc : 15 ≤ su.capacity) (fuel : Nat) (out : Filling) (hinit : su.init fuel = some out)
    (rx : RxState) (mem : Mem) (batch : Nat) (acts : List SysAct) (s : Paced)
    (hrun : Loop.exec (pacedStep su packetHandlerFull batch) acts (.start out.res rx mem) = some s)
    (hroom : ((rqIds s.sys.evq).length : Int) + 31 < su.cfgMaxFill) (head frame : List UInt8)
    (hhead : head.length = su.rxPrefixLen) (hfits : (head ++ frame).length ≤ receiveBufferLen) :
    ∃ s', pacedStep su packetHandlerFull batch (.rx head frame) s = some s' ∧
      s'.sys.written = s.sys.written ++ [⟨frame, frame.length⟩] := by
  have hinv := (Paced.Inv.start hc hinit rx mem).run hrun
  have hbound : s.point.bound ≤ 31 := by cases s.point <;> decide
  obtain ⟨d, hd⟩ := hinv.nextDesc (by omega)
  have hrx : pacedStep su packetHandlerFull batch (.rx head frame) s =
      (sysStep su packetHandlerFull (.rx head frame) s.sys).map fun sys => { s with sys := sys } :=
    rfl
  rw [sysStep, if_pos ⟨hhead, hfits⟩, hd, Option.map_some, Option.map_some] at hrx
  exact ⟨_, hrx, rfl⟩

/-- A ring of 64 slots, so that there are 48 buffers. -/
def Setup.small64 : Setup := { Setup.small32 with capacity := 63, small := by decide }

/-- Frames arrive before, between and after the steps of a pass. -/
def pacedSample : List SysAct :=
  [.rx (List.replicate 14 0) [1, 2, 3], .refill, .rx (List.replicate 14 1) [4, 5], .poll 16,
    .rx (List.replicate 14 2) [6], .handle]

theorem paced_frame_taken_small64 :
    ∃ out s s', Setup.small64.init 64 = some out ∧
      Loop.exec (pacedStep .small64 noMessage 16) pacedSample
        (.start out.res freshRx (view [])) = some s ∧
      pacedStep .small64 noMessage 16 (.rx (List.replicate 14 3) [7, 8]) s = some s' ∧
      s'.sys.written = s.sys.written ++ [⟨[7, 8], 2⟩] := by
  have hsome : ((Setup.small64.init 64).bind fun out =>
      (Loop.exec (pacedStep .small64 noMessage 16) pacedSample
        (.start out.res freshRx (view []))).filter fun s =>
          ((rqIds s.sys.evq).length : Int) + 31 < Setup.small64.cfgMaxFill).isSome = true := by
    decide +kernel
  obtain ⟨s, hs⟩ := Option.isSome_iff_exists.mp hsome
  obtain ⟨out, hinit, hs⟩ := Option.bind_eq_some_iff.mp hs
  obtain ⟨hrun, hroom⟩ := Option.filter_eq_some_iff.mp hs
  obtain ⟨s', hs', hwritten⟩ := paced_frame_taken noMessage .small64 (by decide) 64 out hinit
    freshRx (view []) 16 pacedSample s hrun (of_decide_eq_true hroom) (List.replicate 14 3) [7, 8]
    rfl (by decide)
  exact ⟨out, s, s', hinit, hrun, hs', hwritten⟩

end Efvi
