import DceSub.Client.Logs
import DceSub.Efvi.Backlog
import DceSub.Efvi.OwnBytes

/-!
# The log of the EF_VI client

What the EF_VI client prints on `stdout`, in any interleaving with the NIC: the
lines of `handle_pkt` for the packets it has accepted.  Events that are not handled
go to `stderr`.

The results on logs hold of the whole system, with the frames as the NIC has
delivered them: the log determines the ids accepted and the records, whatever the
timing (`system_log_exact`), its warnings count the packets lost between the
sender and `handle_pkt`, wherever they were lost (`system_losses`), and there is a
log as long as the decoder leaves records, with prices cleaned up
(`system_prints`).  When the client has caught up with the NIC, what it has printed
is what a receiver prints that is given the frames in the order they arrived
(`paced_stdout`).
-/

namespace Efvi

open Base Wire Client Resources

/-- The packets the client has accepted, in the order it has printed them. -/
def McClient.reports (c : McClient) : List Report := c.out.filterMap Output.report?

theorem McClient.map_decision_reports (c : McClient) :
    (c.reports.map fun r => r.decision) = acceptedOf c.out := rfl

/-- A state of the system after `init`, from any packet memory. -/
def Reachable (su : Setup) (packetHandlerFull : PacketHandlerFull) (rx : RxState) (s : Sys) :
    Prop :=
  15 ≤ su.capacity ∧ ∃ fuel out mem acts, su.init fuel = some out ∧
    Loop.exec (sysStep su packetHandlerFull) acts (.start out.res rx mem) = some s

variable {su : Setup} {packetHandlerFull : PacketHandlerFull} {rx : RxState} {s : Sys}

/-- The ids printed are those of the frames the NIC has delivered: of those that
`handle_pkt` was shown, which are the first ones written, in order. -/
structure Sys.IdsDelivered (s : Sys) : Prop where
  ids : (s.client.reports.map fun r => r.ipId) =
    (s.client.seen.map fun f => ownVerdict f.bytes).reduceOption
  delivered : s.client.seen <+: s.written

theorem Reachable.decided (h : Reachable su packetHandlerFull rx s) :
    Decided rx.prevIpId s.client ∧ s.client.seen <+: s.written := by
  obtain ⟨hc, fuel, out, mem, acts, hinit, hrun⟩ := h
  obtain ⟨b, hstart, hfifo⟩ := Refines.start hc hinit rx mem
  obtain ⟨hdec, rest, hrest⟩ := decided_run hstart hfifo ⟨rfl, rfl⟩ hrun
  exact ⟨hdec, rest, hrest.symm⟩

/-- The decisions printed follow one another. -/
theorem Reachable.chained (h : Reachable su packetHandlerFull rx s) :
    Chained rx.prevIpId (s.client.reports.map fun r => r.decision) := by
  rw [s.client.map_decision_reports, h.decided.1.accepted]
  exact chained_judge _ _

theorem McClient.map_ipId_reports (c : McClient) :
    (c.reports.map fun r => r.ipId) = (c.reports.map fun r => r.decision).map Decision.ipId := by
  rw [List.map_map]
  rfl

theorem Reachable.idsDelivered (h : Reachable su packetHandlerFull rx s) : s.IdsDelivered := by
  refine ⟨?_, h.decided.2⟩
  rw [s.client.map_ipId_reports, s.client.map_decision_reports, h.decided.1.accepted]
  exact map_ipId_judge _ _

/-! ## What is printed was decoded -/

/-- Every packet printed was decoded. -/
def McClient.Printed (packetHandlerFull : PacketHandlerFull) (c : McClient) : Prop :=
  ∀ r ∈ c.reports, Decoded packetHandlerFull r

theorem handlePkt_decoded {m : Mem} {p : Nat} {len : Int} {st : RxState} {r : Report}
    (h : (handlePkt packetHandlerFull m p len st).2 = some r) : Decoded packetHandlerFull r := by
  unfold handlePkt at h
  split at h
  next => cases h
  next => exact packetBlock_decoded h

theorem handleEvent_printed {m : Mem} {c c' : McClient} {e : Event}
    (h : c.Printed packetHandlerFull) (he : handleEvent packetHandlerFull m c e = some c') :
    c'.Printed packetHandlerFull := by
  cases e with
  | rx rqId len sop cont =>
      obtain ⟨-, he⟩ := Option.ite_none_right_eq_some.mp he
      obtain ⟨pktBuf, -, rfl⟩ := Option.map_eq_some_iff.mp he
      intro r hr
      simp only [McClient.reports, handleRxCore, List.filterMap_append, List.mem_append] at hr
      rcases hr with hr | hr
      · exact h r hr
      · obtain ⟨o, ho, hr⟩ := List.mem_filterMap.mp hr
        rw [Option.mem_toList] at ho
        obtain ⟨r', hr', rfl⟩ := Option.map_eq_some_iff.mp ho
        cases hr
        exact handlePkt_decoded hr'
  | rxDiscard rqId len subtype =>
      obtain ⟨pktBuf, -, rfl⟩ := Option.map_eq_some_iff.mp he
      simpa [McClient.Printed, McClient.reports, Output.report?] using h
  | other type =>
      cases he
      simpa [McClient.Printed, McClient.reports, Output.report?] using h

theorem step_printed {a : Act} {c c' : McClient} (h : c.Printed packetHandlerFull)
    (hstep : step packetHandlerFull a c = some c') : c'.Printed packetHandlerFull := by
  cases a with
  | refill =>
      obtain ⟨r, -, rfl⟩ := Option.map_eq_some_iff.mp hstep
      exact h
  | poll evs =>
      obtain ⟨-, hstep⟩ := Option.ite_none_right_eq_some.mp hstep
      obtain ⟨vi, -, rfl⟩ := Option.map_eq_some_iff.mp hstep
      exact h
  | handle m =>
      rw [step] at hstep
      split at hstep
      next => cases hstep
      next e evs hpolled => exact handleEvent_printed (c := { c with polled := evs }) h hstep

theorem Reachable.printed (h : Reachable su packetHandlerFull rx s) :
    s.client.Printed packetHandlerFull := by
  obtain ⟨-, fuel, out, mem, acts, -, hrun⟩ := h
  refine Loop.exec_inv (fun s : Sys => s.client.Printed packetHandlerFull) ?_ ?_ hrun
  · intro a _ s₁ s₂ hs hstep
    rcases sysStep_client hstep with hsame | ⟨act, hact⟩
    · rw [hsame]
      exact hs
    · exact step_printed hs hact
  · intro r hr
    cases hr

/-! ## Results -/

/-- Two states of the system, whatever the timing, the packet memory and the
decoder, with the same log: the packets accepted have the same ids, the same
warnings and the same fields.  In each of the states the ids are those of the
frames delivered. -/
theorem system_log_exact {su' : Setup} {packetHandlerFull' : PacketHandlerFull} {rx' : RxState}
    {s' : Sys} (h : Reachable su packetHandlerFull rx s)
    (h' : Reachable su' packetHandlerFull' rx' s') (hprev : rx.prevIpId = rx'.prevIpId)
    (hclean : ∀ r ∈ s.client.reports, r.line.Clean)
    (hclean' : ∀ r ∈ s'.client.reports, r.line.Clean) {log : Text}
    (hlog : logText .efvi s.client.reports = some log)
    (hlog' : logText .efvi s'.client.reports = some log) :
    s.client.reports.map (Report.entry .efvi) = s'.client.reports.map (Report.entry .efvi) ∧
      (s.client.seen.map fun f => ownVerdict f.bytes).reduceOption =
        (s'.client.seen.map fun f => ownVerdict f.bytes).reduceOption ∧
      s.IdsDelivered ∧ s'.IdsDelivered := by
  have hentries := logText_inj h.chained (hprev ▸ h'.chained) hclean hclean' hlog hlog'
  refine ⟨hentries, ?_, h.idsDelivered, h'.idsDelivered⟩
  have hids := congrArg (List.map fun e => e.decision.ipId) hentries
  rw [List.map_map, List.map_map] at hids
  rw [← h.idsDelivered.ids, ← h'.idsDelivered.ids]
  exact hids

/-- In every state of the system there is a log, and its lines show the prices of
the records, cleaned up and rounded. -/
theorem system_prints (h : Reachable su packetHandlerFull rx s)
    (hleaves : LeavesRecords packetHandlerFull) :
    (logText .efvi s.client.reports).isSome ∧
      ∀ r ∈ s.client.reports, r.line.ShowsPrices .efvi r.ipId (r.result, r.decoded) :=
  ⟨logText_isSome fun r hr => (h.printed r hr).texts_end hleaves,
    fun r hr => (h.printed r hr).showsPrices .efvi⟩

/-! ## Catching up -/

/-- The good frame that arrives. -/
def SysAct.arrived? : SysAct → Option (List UInt8)
  | .rx _ frame => some frame
  | _ => none

/-- The good frames that arrive in a run, in order. -/
def arrivals (acts : List SysAct) : List (List UInt8) := acts.filterMap SysAct.arrived?

theorem sysStep_written {a : SysAct} {s' : Sys} (h : sysStep su packetHandlerFull a s = some s') :
    s'.written = s.written ++ a.arrived?.toList.map fun f => ⟨f, f.length⟩ := by
  cases a with
  | rx head frame =>
      obtain ⟨-, h⟩ := Option.ite_none_right_eq_some.mp h
      obtain ⟨d, -, rfl⟩ := Option.map_eq_some_iff.mp h
      rfl
  | discard bytes len subtype =>
      obtain ⟨-, h⟩ := Option.ite_none_right_eq_some.mp h
      obtain ⟨d, -, rfl⟩ := Option.map_eq_some_iff.mp h
      exact (List.append_nil _).symm
  | other type =>
      cases h
      exact (List.append_nil _).symm
  | refill | poll k | handle =>
      obtain ⟨c, -, rfl⟩ := Option.map_eq_some_iff.mp h
      exact (List.append_nil _).symm

/-- The NIC writes the frames that arrive. -/
theorem written_run {acts : List SysAct} {s' : Sys}
    (h : Loop.exec (sysStep su packetHandlerFull) acts s = some s') :
    s'.written = s.written ++ (arrivals acts).map fun f => ⟨f, f.length⟩ := by
  induction acts generalizing s with
  | nil =>
      cases h
      exact (List.append_nil _).symm
  | cons a acts ih =>
      obtain ⟨s₁, h₁, h⟩ := Loop.exec_cons_eq_some h
      have hcons : arrivals (a :: acts) = a.arrived?.toList ++ arrivals acts := by
        rw [arrivals, List.filterMap_cons]
        cases a.arrived? <;> rfl
      rw [ih h, sysStep_written h₁, hcons, List.map_append, List.append_assoc]

/-- After `init`, in any interleaving of the NIC with the event loop: when the NIC
falls silent the client alone gets to a state in which it has decided on the
frames that have arrived, in the order of their arrival, as a receiver does that
is given nothing but them.  If the decoder leaves records, there is a log. -/
theorem paced_stdout (hc : 15 ≤ su.capacity) {fuel : Nat} {out : Filling}
    (hinit : su.init fuel = some out) {mem : Mem} {batch : Nat} (hbatch : batch ≤ evPollBatchSize)
    {acts : List SysAct} {p : Paced}
    (hrun : Loop.exec (pacedStep su packetHandlerFull batch) acts (.start out.res rx mem) =
      some p) :
    ∃ acts' p', (∀ a ∈ acts', a.isClient = true) ∧
      Loop.exec (pacedStep su packetHandlerFull batch) acts' p = some p' ∧
      (p'.sys.client.reports.map fun r => r.decision) =
        (run judge rx.prevIpId ((arrivals acts).map ownVerdict)).1.reduceOption ∧
      (LeavesRecords packetHandlerFull → (logText .efvi p'.sys.client.reports).isSome) := by
  have hinv := (Paced.Inv.start hc hinit rx mem).run hrun
  obtain ⟨acts', p', hclient, -, hrun', hseen, -⟩ :=
    hinv.catchesUp packetHandlerFull hbatch
  have hwritten := written_run (paced_run_sys hrun)
  have hreach : Reachable su packetHandlerFull rx p'.sys :=
    ⟨hc, fuel, out, mem, acts ++ acts', hinit,
      paced_run_sys ((Loop.exec_append hrun).trans hrun')⟩
  refine ⟨acts', p', hclient, hrun', ?_, fun hleaves => ?_⟩
  · rw [McClient.map_decision_reports, hreach.decided.1.accepted, hseen, hwritten]
    simp only [Paced.start, Sys.start, List.nil_append, List.map_map]
    rfl
  · exact logText_isSome fun r hr => (hreach.printed r hr).texts_end hleaves

/-! ## Runs -/

/-- The frames arrive together. -/
def stdoutRunTogether : List SysAct :=
  stdoutFrames.map (.rx (List.replicate 14 0)) ++ [.refill, .poll 16, .handle, .handle]

/-- What is printed for the two frames, with the sample record in each. -/
def stdoutText : Text :=
  ("    1, m2409, 09:30:00.50033333X«@, best, 0_0.0 x 0.0_0, 0/0, 3500.1/0\n" ++
    "<WARN> IP_ID sequence number gap previous/latest: 1/4 \n" ++
    "    4, m2409, 09:30:00.50033333X«@, best, 0_0.0 x 0.0_0, 0/0, 3500.1/0\n").toList

/-- A run of the sample system that prints the two frames. -/
structure StdoutState (acts : List SysAct) (s : Sys) : Prop where
  run : ∃ out, Setup.small32.init 32 = some out ∧
    Loop.exec (sysStep Setup.small32 alwaysFullTime) acts (.start out.res freshRx (view [])) =
      some s
  seen : s.client.seen = stdoutFrames.map fun f => ⟨f, 64⟩
  log : logText .efvi s.client.reports = some stdoutText

section

variable {acts : List SysAct}

theorem StdoutState.reachable (h : StdoutState acts s) :
    Reachable Setup.small32 alwaysFullTime freshRx s := by
  obtain ⟨out, hinit, hexec⟩ := h.run
  exact ⟨by decide, 32, out, view [], acts, hinit, hexec⟩

theorem StdoutState.clean (h : StdoutState acts s) : ∀ r ∈ s.client.reports, r.line.Clean :=
  fun r hr => (h.reachable.printed r hr).clean

theorem logText_efvi_samplePackets : logText .efvi samplePackets = some stdoutText := by
  decide +kernel

/-- The lines are those of the sample record, so that only the decisions are to be
evaluated. -/
theorem stdoutState_of_run
    (h : (((Setup.small32.init 32).bind fun out =>
      Loop.exec (sysStep Setup.small32 alwaysFullTime) acts (.start out.res freshRx (view []))).map
        fun s => (s.client.seen, s.client.reports.map fun r => r.decision)) =
      some (stdoutFrames.map fun f => ⟨f, 64⟩, [⟨1, none⟩, ⟨4, some (1, 4)⟩])) :
    ∃ s, StdoutState acts s := by
  obtain ⟨s, hs, heq⟩ := Option.map_eq_some_iff.mp h
  obtain ⟨out, hinit, hexec⟩ := Option.bind_eq_some_iff.mp hs
  obtain ⟨hseen, hds⟩ := Prod.mk.inj heq
  have hreach : Reachable Setup.small32 alwaysFullTime freshRx s :=
    ⟨by decide, 32, out, view [], acts, hinit, hexec⟩
  have hlog := logText_fullTime .efvi hreach.printed hds
  exact ⟨s, ⟨out, hinit, hexec⟩, hseen, hlog.trans logText_efvi_samplePackets⟩

end

theorem stdoutRun_prints : ∃ s, StdoutState stdoutRun s := stdoutState_of_run (by decide +kernel)

theorem stdoutRunTogether_prints : ∃ s, StdoutState stdoutRunTogether s :=
  stdoutState_of_run (by decide +kernel)

/-- The frames one by one and together. -/
theorem system_log_exact_sample :
    ∃ s s', StdoutState stdoutRun s ∧ StdoutState stdoutRunTogether s' ∧
      s.client.reports.map (Report.entry .efvi) = s'.client.reports.map (Report.entry .efvi) ∧
      (s.client.seen.map fun f => ownVerdict f.bytes).reduceOption =
        (s'.client.seen.map fun f => ownVerdict f.bytes).reduceOption ∧
      s.IdsDelivered ∧ s'.IdsDelivered := by
  obtain ⟨s, hs⟩ := stdoutRun_prints
  obtain ⟨s', hs'⟩ := stdoutRunTogether_prints
  exact ⟨s, s', hs, hs', system_log_exact hs.reachable hs'.reachable rfl hs.clean hs'.clean hs.log
    hs'.log⟩

/-- The records of the two frames are printed, with their prices. -/
theorem system_prints_sample :
    ∃ s, StdoutState stdoutRun s ∧ LeavesRecords alwaysFullTime ∧
      (logText .efvi s.client.reports).isSome ∧
      ∀ r ∈ s.client.reports, r.line.ShowsPrices .efvi r.ipId (r.result, r.decoded) := by
  obtain ⟨s, hs⟩ := stdoutRun_prints
  exact ⟨s, hs, alwaysFullTime_leavesRecords,
    system_prints hs.reachable alwaysFullTime_leavesRecords⟩

/-- A frame arrives while the client has not yet handled the one before. -/
def stdoutRunBehind : List SysAct :=
  .refill :: (stdoutFrames.map (.rx (List.replicate 14 0)) ++ [.poll 16])

theorem paced_stdout_behind :
    ∃ out p acts' p', Setup.small32.init 32 = some out ∧
      Loop.exec (pacedStep .small32 alwaysFullTime 1) stdoutRunBehind
        (.start out.res freshRx (view [])) = some p ∧
      p.sys.client.reports = [] ∧ (∀ a ∈ acts', a.isClient = true) ∧
      Loop.exec (pacedStep .small32 alwaysFullTime 1) acts' p = some p' ∧
      (p'.sys.client.reports.map fun r => r.decision) = [⟨1, none⟩, ⟨4, some (1, 4)⟩] ∧
      (logText .efvi p'.sys.client.reports).isSome := by
  have hsome : (((Setup.small32.init 32).bind fun out =>
      Loop.exec (pacedStep .small32 alwaysFullTime 1) stdoutRunBehind
        (.start out.res freshRx (view []))).filter fun p =>
          p.sys.client.reports.isEmpty).isSome = true := by
    decide +kernel
  obtain ⟨p, hp⟩ := Option.isSome_iff_exists.mp hsome
  obtain ⟨hp, hnone⟩ := Option.filter_eq_some_iff.mp hp
  obtain ⟨out, hinit, hrun⟩ := Option.bind_eq_some_iff.mp hp
  obtain ⟨acts', p', hclient, hrun', hdecided, hlog⟩ :=
    paced_stdout (by decide) hinit (by decide) hrun
  refine ⟨out, p, acts', p', hinit, hrun, List.isEmpty_iff.mp hnone, hclient, hrun', ?_,
    hlog alwaysFullTime_leavesRecords⟩
  rw [hdecided]
  decide

end Efvi
