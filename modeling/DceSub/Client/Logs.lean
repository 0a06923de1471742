import Mathlib.Algebra.BigOperators.Group.List.Basic
import Mathlib.Order.Interval.Finset.Nat
import DceSub.Client.Agreement
import DceSub.Client.Socket
import DceSub.Wire.Log
import DceSub.Wire.Price

/-!
# What the logs tell

The log of a client, read by someone who was not there.  `logs_exact`: two runs
of a client that leave the same log have accepted packets with the same ids, have
warned at the same places, and have decoded records that look the same on every
field.  The ExaNIC client does not print the ids, but they can be counted from
the warnings.  The raw-socket client also says when `recv` has failed
(`rawsock_stdout_exact`).  The log of the UDP-socket client has lines for records
and errors only, and determines those (`udp_log_exact`).

`losses_exact` is about the warnings.  The numbers they print, summed over a run,
give the number of packets that the sender sent and the client did not accept,
modulo `2 ^ 16`, and exactly if no `2 ^ 16` packets in a row were lost.
-/

namespace Client

open Base Wire

/-! ## Decoded packets -/

/-- A report of a decoded packet: the code and the record are what the decoder
gives for some memory, and the line is that of the record. -/
def Decoded (packetHandlerFull : PacketHandlerFull) (r : Report) : Prop :=
  ∃ m size, (r.result, r.decoded) = packetHandlerFull m zeroOutput ∧
    r.line = (printRecord r.result r.decoded size).1

theorem packetBlock_decoded {packetHandlerFull : PacketHandlerFull} {m : Mem} {p len : Nat}
    {size : Int} {s : RxState} {r : Report}
    (h : (packetBlock packetHandlerFull m p len size s).2 = some r) :
    Decoded packetHandlerFull r := by
  unfold packetBlock at h
  split at h
  next => cases h
  next =>
    cases h
    exact ⟨_, size, rfl, rfl⟩

theorem rawsockFrame_decoded {packetHandlerFull : PacketHandlerFull} {s : SockState}
    {f : List UInt8} {r : Report} (h : (rawsockFrame packetHandlerFull s f).out = some r) :
    Decoded packetHandlerFull r := by
  by_cases hlen : 64 < f.length
  · rw [rawsockFrame_of_lt hlen] at h
    exact packetBlock_decoded h
  · rw [rawsockFrame_of_le (by omega)] at h
    cases h

theorem exanicPass_decoded {packetHandlerFull : PacketHandlerFull} {s : SockState} {i : ExanicRx}
    {r : Report} (h : (exanicPass packetHandlerFull s i).out = some r) :
    Decoded packetHandlerFull r := by
  unfold exanicPass at h
  split at h
  next => exact packetBlock_decoded h
  next => cases h

theorem handlePktPass_decoded {packetHandlerFull : PacketHandlerFull} {s : RxState} {a : PktArg}
    {r : Report} (h : (handlePktPass packetHandlerFull s a).out = some r) :
    Decoded packetHandlerFull r := by
  unfold handlePktPass handlePkt at h
  split at h
  next => cases h
  next => exact packetBlock_decoded h

/-- With the decoder of the sample every line is that of the sample. -/
theorem Decoded.line_fullTime {r : Report} (h : Decoded alwaysFullTime r) :
    ∃ size, r.line = (printRecord bestQuoteMsg fullTime size).1 := by
  obtain ⟨m, size, hdec, hline⟩ := h
  obtain ⟨hresult, hdecoded⟩ := Prod.mk.inj hdec
  exact ⟨size, by rw [hline, hresult, hdecoded]⟩

theorem Decoded.clean {r : Report} (h : Decoded alwaysFullTime r) : r.line.Clean := by
  obtain ⟨size, hline⟩ := h.line_fullTime
  rw [hline]
  exact fullTime_clean size

/-! ## Logs of runs -/

/-- The log of a client tells everything of a run that its formats show: two runs
from the same id, whatever the frames and the decoder, that leave the same log
have the same entries. -/
def LogExact {σ ι : Type} (p : Program) (body : PacketHandlerFull → σ → ι → Pass σ Report)
    (prevIpId : σ → BitVec 16) : Prop :=
  ∀ (h h' : PacketHandlerFull) (s s' : σ) (is is' : List ι) (log : Text),
    prevIpId s = prevIpId s' →
    (∀ r ∈ (run (body h) s is).1.reduceOption, r.line.Clean) →
    (∀ r ∈ (run (body h') s' is').1.reduceOption, r.line.Clean) →
    logText p (run (body h) s is).1.reduceOption = some log →
    logText p (run (body h') s' is').1.reduceOption = some log →
    (run (body h) s is).1.reduceOption.map (Report.entry p) =
      (run (body h') s' is').1.reduceOption.map (Report.entry p)

theorem logExact_of_implements {σ ι : Type} {p : Program}
    {body : PacketHandlerFull → σ → ι → Pass σ Report} {prevIpId : σ → BitVec 16}
    {frame : ι → List UInt8} {v : List UInt8 → Option (BitVec 16)}
    (himpl : ∀ h, Implements (body h) prevIpId frame v) : LogExact p body prevIpId := by
  intro h h' s s' is is' log hprev hclean hclean' hlog hlog'
  have hchain := chained_judge (is.map fun i => v (frame i)) (prevIpId s)
  have hchain' := chained_judge (is'.map fun i => v (frame i)) (prevIpId s')
  rw [← (himpl h).map_decision is s] at hchain
  rw [← (himpl h').map_decision is' s', ← hprev] at hchain'
  exact logText_inj hchain hchain' hclean hclean' hlog hlog'

/-- The logs of the three clients that read frames. -/
theorem logs_exact :
    LogExact .rawsock rawsockFrame SockState.prevIpId ∧
      LogExact .exanic exanicPass SockState.prevIpId ∧
      LogExact .efvi handlePktPass RxState.prevIpId :=
  ⟨logExact_of_implements rawsockFrame_implements, logExact_of_implements exanicPass_implements,
    logExact_of_implements handlePkt_implements⟩

/-- What the raw-socket client prints for the sample record with the ids 1 and 4. -/
def sampleLog : Text :=
  ("    1, m2409, best, 0_0.0 x 0.0_0, 0/0, 3500.1/0\n" ++
    "<WARN> IP_ID sequence number gap previous/latest: 1/4 \n" ++
    "    4, m2409, best, 0_0.0 x 0.0_0, 0/0, 3500.1/0\n").toList

/-- Two packets with the sample record, with the ids 1 and 4. -/
def samplePackets : List Report :=
  (run (rawsockFrame alwaysFullTime) ⟨fun _ => 0, freshRx⟩
    [sampleFrame, sampleFrame.set 19 4]).1.reduceOption

theorem rawsockFrame_fullTime (s : SockState) (fs : List (List UInt8)) :
    ∀ r ∈ (run (rawsockFrame alwaysFullTime) s fs).1.reduceOption, Decoded alwaysFullTime r :=
  forall_mem_run (fun _ _ _ h => rawsockFrame_decoded h) fs s

/-- Packets with the sample record are printed as these two if the ids are theirs. -/
theorem logText_fullTime (p : Program) {rs : List Report}
    (h : ∀ r ∈ rs, Decoded alwaysFullTime r)
    (hds : (rs.map fun r => r.decision) = [⟨1, none⟩, ⟨4, some (1, 4)⟩]) :
    logText p rs = logText p samplePackets := by
  have hlines : ∀ {rs : List Report}, (∀ r ∈ rs, Decoded alwaysFullTime r) →
      (rs.map fun r => (r.decision, r.line)) = (rs.map fun r => r.decision).map fun d =>
        (d, .best (capPrices bestPrices fullTime)) := by
    intro rs h
    rw [List.map_map]
    refine List.map_congr_left fun r hr => ?_
    obtain ⟨size, hline⟩ := (h r hr).line_fullTime
    rw [hline]
    rfl
  have hds' : (samplePackets.map fun r => r.decision) = [⟨1, none⟩, ⟨4, some (1, 4)⟩] := by
    decide +kernel
  have hsample : ∀ r ∈ samplePackets, Decoded alwaysFullTime r := rawsockFrame_fullTime _ _
  exact logText_congr p (by rw [hlines h, hlines hsample, hds, hds'])

theorem logText_rawsock_fullTime {rs : List Report} (h : ∀ r ∈ rs, Decoded alwaysFullTime r)
    (hds : (rs.map fun r => r.decision) = [⟨1, none⟩, ⟨4, some (1, 4)⟩]) :
    logText .rawsock rs = some sampleLog := by
  have hlog : logText .rawsock samplePackets = some sampleLog := by decide +kernel
  rw [logText_fullTime .rawsock h hds, hlog]

/-- Two runs of the raw-socket client with a gap, one of them also with a runt and
with a tag. -/
theorem logs_exact_runt :
    let s : SockState := ⟨fun _ => 0, freshRx⟩
    let fs := [sampleFrame, sampleFrame.set 19 4]
    let fs' := [sampleFrame, [], taggedFrame.set 23 4]
    let rs := (run (rawsockFrame alwaysFullTime) s fs).1.reduceOption
    let rs' := (run (rawsockFrame alwaysFullTime) s fs').1.reduceOption
    logText .rawsock rs = some sampleLog ∧ logText .rawsock rs' = some sampleLog ∧
      rs.map (Report.entry .rawsock) = rs'.map (Report.entry .rawsock) := by
  intro s fs fs' rs rs'
  have hdec := rawsockFrame_fullTime s
  have hlog : logText .rawsock rs = some sampleLog :=
    logText_rawsock_fullTime (hdec fs) (by decide +kernel)
  have hlog' : logText .rawsock rs' = some sampleLog :=
    logText_rawsock_fullTime (hdec fs') (by decide +kernel)
  exact ⟨hlog, hlog', logs_exact.1 alwaysFullTime alwaysFullTime s s fs fs' sampleLog rfl
    (fun r hr => (hdec fs r hr).clean) (fun r hr => (hdec fs' r hr).clean) hlog hlog'⟩

/-! ## When `recv` fails -/

/-- What the raw-socket client prints in a run, in which `recv` may fail. -/
def rawsockStdout (packetHandlerFull : PacketHandlerFull) (s : SockState)
    (is : List (Option (List UInt8))) : Option Text :=
  (logText .rawsock (run (rawsockPass packetHandlerFull) s is).1.reduceOption).map
    (· ++ ((runStop (rawsockPass packetHandlerFull) s is).map String.toList).getD [])

/-- The frames before the first failure are received, and a failure is the end. -/
theorem rawsock_run (packetHandlerFull : PacketHandlerFull) (is : List (Option (List UInt8)))
    (s : SockState) :
    (run (rawsockPass packetHandlerFull) s is).1.reduceOption =
        (run (rawsockFrame packetHandlerFull) s
          (is.takeWhile Option.isSome).reduceOption).1.reduceOption ∧
      ((runStop (rawsockPass packetHandlerFull) s is).map String.toList).getD [] =
        ending (decide (none ∈ is)) := by
  induction is generalizing s with
  | nil => exact ⟨rfl, rfl⟩
  | cons i is ih =>
      cases i with
      | none =>
          have hstop : (rawsockPass packetHandlerFull s none).stop = some "recv error!\n" := rfl
          rw [run_cons_stop hstop, runStop_cons_stop hstop]
          refine ⟨rfl, ?_⟩
          simp [ending]
      | some frame =>
          have hstop : (rawsockPass packetHandlerFull s (some frame)).stop = none :=
            (rawsockFrame_implements packetHandlerFull).stop s frame
          have hstop' : (rawsockFrame packetHandlerFull s frame).stop = none := hstop
          obtain ⟨hout, hend⟩ := ih (rawsockPass packetHandlerFull s (some frame)).state
          rw [run_cons hstop, runStop_cons hstop, hend,
            List.takeWhile_cons_of_pos rfl, List.reduceOption_cons_of_some, run_cons hstop']
          refine ⟨?_, by simp⟩
          show ((rawsockPass packetHandlerFull s (some frame)).out :: _).reduceOption =
            ((rawsockPass packetHandlerFull s (some frame)).out :: _).reduceOption
          cases (rawsockPass packetHandlerFull s (some frame)).out with
          | none => exact hout
          | some r => exact congrArg (r :: ·) hout

/-- The log of the raw-socket client also tells whether `recv` has failed. -/
theorem rawsock_stdout_exact (h h' : PacketHandlerFull) (s s' : SockState)
    (is is' : List (Option (List UInt8))) (log : Text) (hprev : s.prevIpId = s'.prevIpId)
    (hclean : ∀ r ∈ (run (rawsockPass h) s is).1.reduceOption, r.line.Clean)
    (hclean' : ∀ r ∈ (run (rawsockPass h') s' is').1.reduceOption, r.line.Clean)
    (hlog : rawsockStdout h s is = some log) (hlog' : rawsockStdout h' s' is' = some log) :
    (run (rawsockPass h) s is).1.reduceOption.map (Report.entry .rawsock) =
        (run (rawsockPass h') s' is').1.reduceOption.map (Report.entry .rawsock) ∧
      (none ∈ is ↔ none ∈ is') := by
  obtain ⟨t, ht, heq⟩ := Option.map_eq_some_iff.mp hlog
  obtain ⟨t', ht', heq'⟩ := Option.map_eq_some_iff.mp hlog'
  obtain ⟨hframes, hend⟩ := rawsock_run h is s
  obtain ⟨hframes', hend'⟩ := rawsock_run h' is' s'
  rw [hend] at heq
  rw [hend'] at heq'
  have hchain : ∀ h s fs, Chained s.prevIpId
      ((run (rawsockFrame h) s fs).1.reduceOption.map fun r => r.decision) := by
    intro h s fs
    rw [(rawsockFrame_implements h).map_decision]
    exact chained_judge _ _
  obtain ⟨hentries, hended⟩ := logText_ended_inj (hframes ▸ hchain h s _)
    (hframes' ▸ hprev ▸ hchain h' s' _) hclean hclean' ht ht' (heq.trans heq'.symm)
  exact ⟨hentries, decide_eq_decide.mp hended⟩

/-- Two runs that end in a failure, with another frame on the socket behind it. -/
theorem rawsock_stdout_exact_failed :
    let s : SockState := ⟨fun _ => 0, freshRx⟩
    let is := [some sampleFrame, some (sampleFrame.set 19 4), none]
    let is' := [some sampleFrame, some [], some (taggedFrame.set 23 4), none, some taggedFrame]
    rawsockStdout alwaysFullTime s is = some (sampleLog ++ "recv error!\n".toList) ∧
      (run (rawsockPass alwaysFullTime) s is).1.reduceOption.map (Report.entry .rawsock) =
        (run (rawsockPass alwaysFullTime) s is').1.reduceOption.map (Report.entry .rawsock) ∧
      (none ∈ is ↔ none ∈ is') := by
  intro s is is'
  have hdec : ∀ is, ∀ r ∈ (run (rawsockPass alwaysFullTime) s is).1.reduceOption,
      Decoded alwaysFullTime r := by
    intro is
    rw [(rawsock_run alwaysFullTime is s).1]
    exact rawsockFrame_fullTime s _
  have hstdout : ∀ is, ((run (rawsockPass alwaysFullTime) s is).1.reduceOption.map fun r =>
      r.decision) = [⟨1, none⟩, ⟨4, some (1, 4)⟩] →
      runStop (rawsockPass alwaysFullTime) s is = some "recv error!\n" →
      rawsockStdout alwaysFullTime s is = some (sampleLog ++ "recv error!\n".toList) := by
    intro is hds hstop
    rw [rawsockStdout, hstop, logText_rawsock_fullTime (hdec is) hds]
    rfl
  have hlog := hstdout is (by decide +kernel) (by decide +kernel)
  have hlog' := hstdout is' (by decide +kernel) (by decide +kernel)
  exact ⟨hlog, rawsock_stdout_exact alwaysFullTime alwaysFullTime s s is is' _ rfl
    (fun r hr => (hdec is r hr).clean) (fun r hr => (hdec is' r hr).clean) hlog hlog'⟩

/-! ## The log of the UDP-socket client -/

/-- The line printed in a pass. -/
def UdpOut.line? : UdpOut → Option Line
  | .call c => some c.line
  | .abnormal _ => none

/-- The lines for the datagrams of a run. -/
def udpLines (outs : List (Option UdpOut)) : List Line := outs.reduceOption.filterMap UdpOut.line?

/-- The calls for lines.  This client prints no ids. -/
def lineCalls : List Line → Option (List PrintCall)
  | [] => some []
  | line :: lines => (line.call .socket 0).bind fun call => (lineCalls lines).map (call :: ·)

/-- The log of a run. -/
def udpLog (outs : List (Option UdpOut)) : Option Text :=
  (lineCalls (udpLines outs)).bind Program.socket.printAll

/-- What a line shows. -/
def udpShown (line : Line) : Option (LineKind × List (Option Reading)) :=
  (line.call .socket 0).map (showCall Program.socket.fmt)

theorem map_call_of_lineCalls {lines : List Line} {calls : List PrintCall}
    (h : lineCalls lines = some calls) : lines.map (Line.call .socket 0) = calls.map some := by
  induction lines generalizing calls with
  | nil =>
      cases h
      rfl
  | cons line lines ih =>
      obtain ⟨call, hcall, h⟩ := Option.bind_eq_some_iff.mp h
      obtain ⟨rest, hrest, rfl⟩ := Option.map_eq_some_iff.mp h
      rw [List.map_cons, List.map_cons, hcall, ih hrest]

theorem map_udpShown {lines : List Line} {calls : List PrintCall}
    (h : lineCalls lines = some calls) :
    lines.map udpShown = (calls.map (showCall Program.socket.fmt)).map some := by
  have hshown : lines.map udpShown =
      (lines.map (Line.call .socket 0)).map (Option.map (showCall Program.socket.fmt)) := by
    rw [List.map_map]
    rfl
  rw [hshown, map_call_of_lineCalls h, List.map_map, List.map_map]
  rfl

theorem lineCalls_clean {lines : List Line} (hclean : ∀ line ∈ lines, line.Clean)
    {calls : List PrintCall} (h : lineCalls lines = some calls) :
    ∀ c ∈ calls, ∀ a ∈ c.2, a.Clean logSeps := by
  intro c hc
  have hmem : some c ∈ lines.map (Line.call .socket 0) := by
    rw [map_call_of_lineCalls h]
    exact List.mem_map_of_mem hc
  obtain ⟨line, hline, hcall⟩ := List.mem_map.mp hmem
  exact (Line.call_clean (hclean line hline) hcall).1

/-- Two runs of the UDP-socket client that leave the same log have printed lines
that show the same, one after another. -/
theorem udp_log_exact (h h' : PacketHandlerPayload) (s s' : UdpState)
    (ds ds' : List (List UInt8)) (log : Text)
    (hclean : ∀ line ∈ udpLines (run (udpDatagram h) s ds).1, line.Clean)
    (hclean' : ∀ line ∈ udpLines (run (udpDatagram h') s' ds').1, line.Clean)
    (hlog : udpLog (run (udpDatagram h) s ds).1 = some log)
    (hlog' : udpLog (run (udpDatagram h') s' ds').1 = some log) :
    (udpLines (run (udpDatagram h) s ds).1).map udpShown =
      (udpLines (run (udpDatagram h') s' ds').1).map udpShown := by
  obtain ⟨calls, hcalls, hlog⟩ := Option.bind_eq_some_iff.mp hlog
  obtain ⟨calls', hcalls', hlog'⟩ := Option.bind_eq_some_iff.mp hlog'
  rw [Program.printAll_eq] at hlog hlog'
  rw [map_udpShown hcalls, map_udpShown hcalls',
    Program.printCalls_shown (lineCalls_clean hclean hcalls) (lineCalls_clean hclean' hcalls')
      hlog hlog']

/-- A decoder that finds the sample record in datagrams of at least 20 bytes. -/
def longFullTime : PacketHandlerPayload := fun _ out size =>
  if size < 20 then (0, out) else (bestQuoteMsg, fullTime)

/-- Two runs with a datagram of ten bytes, which is not decoded, and a longer one. -/
theorem udp_log_exact_short :
    let s : UdpState := ⟨fun _ => 0, zeroOutput⟩
    let outs := (run (udpDatagram longFullTime) s [List.replicate 10 0, List.replicate 20 0]).1
    let outs' := (run (udpDatagram longFullTime) s [List.replicate 10 1, List.replicate 30 1]).1
    udpLog outs = some ("<ERROR> packet_decode_err: 10\n" ++
        "m2409, 09:30:00.50033333X«@, best, 0_0.0 x 0.0_0, 0/0.00/0, 3500.1/0\n").toList ∧
      (udpLines outs).map udpShown = (udpLines outs').map udpShown := by
  intro s outs outs'
  have hclean : ∀ line ∈ [Line.packetDecodeErr 10, (printRecord bestQuoteMsg fullTime 20).1],
      line.Clean := by
    rw [List.forall_mem_cons, List.forall_mem_singleton]
    refine ⟨?_, fullTime_clean 20⟩
    intro out hout
    cases hout
  have hlines : udpLines outs =
      [.packetDecodeErr 10, (printRecord bestQuoteMsg fullTime 20).1] := rfl
  have hlines' : udpLines outs' =
      [.packetDecodeErr 10, (printRecord bestQuoteMsg fullTime 20).1] := rfl
  have hlog : udpLog outs = some ("<ERROR> packet_decode_err: 10\n" ++
      "m2409, 09:30:00.50033333X«@, best, 0_0.0 x 0.0_0, 0/0.00/0, 3500.1/0\n").toList := by
    decide +kernel
  have hlog' := hlog
  rw [udpLog, hlines, ← hlines', ← udpLog] at hlog'
  exact ⟨hlog, udp_log_exact longFullTime longFullTime s s _ _ _ (hlines ▸ hclean)
    (hlines' ▸ hclean) hlog hlog'⟩

/-! ## Losses -/

/-- The packets that a warning says are missing. -/
def missing (gap : BitVec 16 × BitVec 16) : Nat := (gap.2 - gap.1 - 1).toNat

/-- The packets missing in the warnings of some decisions. -/
def missingTotal (ds : List Decision) : Nat := ((ds.filterMap Decision.gap).map missing).sum

/-- The packets a sender has sent behind packet `first`, up to the last one that
was accepted, and that were not accepted. -/
def lost (first : Nat) (accepted : List Nat) : Finset Nat :=
  (Finset.Ioc first (accepted.getLastD first)).filter (· ∉ accepted)

/-- The warnings of some decisions count the losses between the packets accepted,
modulo `2 ^ 16`, and exactly if never so many are lost in a row. -/
def CountsLosses (first : Nat) (accepted : List Nat) (ds : List Decision) : Prop :=
  missingTotal ds % 65536 = (lost first accepted).card % 65536 ∧
    ((first :: accepted).IsChain (fun i j => j ≤ i + 65536) →
      missingTotal ds = (lost first accepted).card)

/-- A client counts losses: in every run that starts behind packet `first` of the
sender. -/
def LossExact {σ ι : Type} (body : σ → ι → Pass σ Report) (prevIpId : σ → BitVec 16)
    (idOf : ι → Option (BitVec 16)) : Prop :=
  ∀ (s : σ) (start : BitVec 16) (first : Nat) (is : List (ι × Option Nat)),
    prevIpId s = serial start first → Numbered idOf start is →
    (∀ j ∈ is.filterMap Prod.snd, first < j) →
    CountsLosses first (is.filterMap Prod.snd)
      ((run body s (is.map Prod.fst)).1.reduceOption.map fun r => r.decision)

/-! ### Counting -/

theorem le_getLastD {a : Nat} {js : List Nat} (h : (a :: js).Pairwise (· < ·)) :
    ∀ k ∈ a :: js, k ≤ js.getLastD a := by
  induction js generalizing a with
  | nil => simp
  | cons b js ih =>
      obtain ⟨ha, hjs⟩ := List.pairwise_cons.mp h
      have hb := ih hjs
      intro k hk
      rw [List.getLastD_cons]
      rcases List.mem_cons.mp hk with rfl | hk
      · have hlt := ha b (List.mem_cons_self ..)
        have hle := hb b (List.mem_cons_self ..)
        omega
      · exact hb k hk

/-- What is not lost is accepted. -/
theorem card_lost {first : Nat} {js : List Nat} (h : (first :: js).Pairwise (· < ·)) :
    (lost first js).card + js.length = js.getLastD first - first := by
  have hsub : js.toFinset ⊆ Finset.Ioc first (js.getLastD first) := by
    intro j hj
    rw [List.mem_toFinset] at hj
    rw [Finset.mem_Ioc]
    exact ⟨(List.pairwise_cons.mp h).1 j hj, le_getLastD h j (List.mem_cons_of_mem _ hj)⟩
  have hlost : lost first js = Finset.Ioc first (js.getLastD first) \ js.toFinset := by
    ext j
    simp [lost]
  have hlen : js.toFinset.card = js.length :=
    List.toFinset_card_of_nodup ((List.pairwise_cons.mp h).2.imp Nat.ne_of_lt)
  rw [hlost, ← hlen, Finset.card_sdiff_add_card_eq_card hsub, Nat.card_Ioc]

/-- The packets lost before one that is accepted, and those behind it. -/
theorem card_lost_cons {first j : Nat} {js : List Nat} (h : (first :: j :: js).Pairwise (· < ·)) :
    (lost first (j :: js)).card = j - first - 1 + (lost j js).card := by
  obtain ⟨hfirst, hjs⟩ := List.pairwise_cons.mp h
  have hall := card_lost h
  have hrest := card_lost hjs
  have hlt := hfirst j (List.mem_cons_self ..)
  have hle := le_getLastD hjs j (List.mem_cons_self ..)
  rw [List.getLastD_cons, List.length_cons] at hall
  omega

/-- A warning says how many packets are missing, modulo `2 ^ 16`, and there is
none if it would say that none is. -/
theorem missingTotal_cons {d : Decision} {start : BitVec 16} {i j : Nat} (hij : i < j)
    (hgap : d.gap = gapWarning (serial start i) (serial start j)) (ds : List Decision) :
    missingTotal (d :: ds) = (j - i - 1) % 65536 + missingTotal ds := by
  have hsub := congrArg BitVec.toNat (serial_sub start hij)
  rw [BitVec.toNat_ofNat] at hsub
  have hne := serial_succ_ne_iff start hij
  unfold gapWarning at hgap
  split at hgap
  next =>
    rw [missingTotal, List.filterMap_cons_some hgap, List.map_cons, List.sum_cons, missing, hsub]
    rfl
  next hid =>
    have hzero : (j - i - 1) % 65536 = 0 := by
      by_contra h0
      exact hid (hne.mpr h0)
    rw [missingTotal, List.filterMap_cons_none hgap, hzero, Nat.zero_add]
    rfl

/-- Decisions one after another count the losses. -/
theorem countsLosses_of_chained {start : BitVec 16} {first : Nat} {js : List Nat}
    {ds : List Decision} (hchain : Chained (serial start first) ds)
    (hids : ds.map Decision.ipId = js.map (serial start))
    (hjs : (first :: js).Pairwise (· < ·)) : CountsLosses first js ds := by
  induction ds generalizing first js with
  | nil =>
      obtain rfl : js = [] := List.map_eq_nil_iff.mp hids.symm
      have hlost : (lost first []).card = 0 := by simp [lost]
      exact ⟨hlost ▸ rfl, fun _ => hlost ▸ rfl⟩
  | cons d ds ih =>
      cases js with
      | nil => cases hids
      | cons j js =>
          obtain ⟨hid, hids⟩ := List.cons.inj hids
          obtain ⟨hfirst, hjs'⟩ := List.pairwise_cons.mp hjs
          obtain ⟨hgap, hchain⟩ := hchain
          rw [hid] at hgap hchain
          obtain ⟨hmod, heq⟩ := ih hchain hids hjs'
          have hij := hfirst j (List.mem_cons_self ..)
          rw [CountsLosses, missingTotal_cons hij hgap, card_lost_cons hjs]
          refine ⟨by omega, fun hnear => ?_⟩
          obtain ⟨hle, hnear⟩ := List.isChain_cons_cons.mp hnear
          rw [heq hnear, Nat.mod_eq_of_lt (by omega)]

/-! ### Runs -/

/-- The ids of numbered inputs. -/
theorem reduceOption_numbered {ι : Type} {idOf : ι → Option (BitVec 16)} {start : BitVec 16}
    {is : List (ι × Option Nat)} (h : Numbered idOf start is) :
    ((is.map Prod.fst).map idOf).reduceOption =
      (is.filterMap Prod.snd).map (serial start) := by
  have hids : (is.map Prod.fst).map idOf =
      (is.map Prod.snd).map (Option.map (serial start)) := by
    rw [List.map_map, List.map_map]
    exact List.map_congr_left h.ids
  rw [hids, List.reduceOption_map, List.reduceOption, List.filterMap_map]
  rfl

theorem lossExact_of_implements {σ ι : Type} {body : σ → ι → Pass σ Report}
    {prevIpId : σ → BitVec 16} {frame : ι → List UInt8} {v : List UInt8 → Option (BitVec 16)}
    (h : Implements body prevIpId frame v) :
    LossExact body prevIpId fun i => v (frame i) := by
  intro s start first is hprev hnum hfirst
  rw [h.map_decision, hprev]
  refine countsLosses_of_chained (chained_judge _ _) ?_
    (List.pairwise_cons.mpr ⟨hfirst, hnum.increasing⟩)
  rw [map_ipId_judge]
  have hids := reduceOption_numbered hnum
  rwa [List.map_map] at hids ⊢

/-- In each of the three clients the warnings count the packets lost, by the
numbers on the frames. -/
theorem losses_exact (packetHandlerFull : PacketHandlerFull) :
    LossExact (rawsockFrame packetHandlerFull) SockState.prevIpId wireId ∧
      LossExact (exanicPass packetHandlerFull) SockState.prevIpId (fun i => wireId i.frame) ∧
      LossExact (handlePktPass packetHandlerFull) RxState.prevIpId
        (fun a => strictWireId a.frame) := by
  have hraw := lossExact_of_implements (rawsockFrame_implements packetHandlerFull)
  have hexa := lossExact_of_implements (exanicPass_implements packetHandlerFull)
  have hefvi := lossExact_of_implements (handlePkt_implements packetHandlerFull)
  simp only [verdict_received] at hraw
  simp only [verdict_eq_wireId] at hraw hexa
  simp only [strictVerdict_eq_wireId] at hefvi
  exact ⟨hraw, hexa, hefvi⟩

/-- The packets 1 and 4 of the sender, the second behind a tag, and between them
a frame for another address. -/
theorem losses_exact_two :
    let s : SockState := ⟨fun _ => 0, freshRx⟩
    let rs := (run (rawsockFrame noMessage) s
      [sampleFrame, sampleFrame.set 33 9, taggedFrame.set 23 4]).1.reduceOption
    missingTotal (rs.map fun r => r.decision) = 2 ∧
      CountsLosses 0 [1, 4] (rs.map fun r => r.decision) := by
  intro s rs
  have hnum : Numbered wireId 0 [(sampleFrame, some 1), (sampleFrame.set 33 9, none),
      (taggedFrame.set 23 4, some 4)] := ⟨by decide, by decide⟩
  have htotal : missingTotal (rs.map fun r => r.decision) = 2 := by decide +kernel
  have hcount := (losses_exact noMessage).1 s 0 0 _ rfl hnum (by decide)
  simp only [List.map_cons, List.map_nil, List.filterMap_cons, List.filterMap_nil] at hcount
  exact ⟨htotal, hcount⟩

/-! ## Records -/

/-- Every datagram is decoded, in the buffer that `recvfrom` leaves, and printed. -/
theorem udpDatagram_decoded (packetHandlerPayload : PacketHandlerPayload) (s : UdpState)
    (d : List UInt8) :
    let received := recvfrom d s.message
    let decoded := packetHandlerPayload received.2 zeroOutput received.1
    ∃ c, (udpDatagram packetHandlerPayload s d).out = some (.call c) ∧
      c.line = (printRecord decoded.1 decoded.2 received.1).1 := by
  intro received decoded
  have hguard : ¬ (received.1 < 20 ∧ received.1 > 144) := by omega
  rw [udpDatagram, udpPass, if_neg hguard]
  exact ⟨_, rfl, rfl⟩

theorem Decoded.showsPrices {packetHandlerFull : PacketHandlerFull} {r : Report} (p : Program)
    (h : Decoded packetHandlerFull r) : r.line.ShowsPrices p r.ipId (r.result, r.decoded) := by
  obtain ⟨m, size, -, hline⟩ := h
  rw [hline]
  exact printRecord_showsPrices p r.ipId (r.result, r.decoded) size

/-- Whatever the decoders return, every line of every run of the four clients
shows the prices of its record, cleaned up and rounded.  The record of the
UDP-socket client is what the decoder makes of the message received. -/
theorem prices_shown (packetHandlerFull : PacketHandlerFull)
    (packetHandlerPayload : PacketHandlerPayload) :
    (∀ s fs, ∀ r ∈ (run (rawsockFrame packetHandlerFull) s fs).1.reduceOption,
        r.line.ShowsPrices .rawsock r.ipId (r.result, r.decoded)) ∧
      (∀ s is, ∀ r ∈ (run (exanicPass packetHandlerFull) s is).1.reduceOption,
        r.line.ShowsPrices .exanic r.ipId (r.result, r.decoded)) ∧
      (∀ s args, ∀ r ∈ (run (handlePktPass packetHandlerFull) s args).1.reduceOption,
        r.line.ShowsPrices .efvi r.ipId (r.result, r.decoded)) ∧
      ∀ s ds d,
        let received := recvfrom d (run (udpDatagram packetHandlerPayload) s ds).2.message
        ∃ c, (run (udpDatagram packetHandlerPayload) s (ds ++ [d])).1 =
            (run (udpDatagram packetHandlerPayload) s ds).1 ++ [some (.call c)] ∧
          c.line.ShowsPrices .socket 0
            (packetHandlerPayload received.2 zeroOutput received.1) := by
  refine ⟨fun s fs => ?_, fun s is => ?_, fun s args => ?_, fun s ds d => ?_⟩
  · exact forall_mem_run (fun _ _ _ h => (rawsockFrame_decoded h).showsPrices .rawsock) fs s
  · exact forall_mem_run (fun _ _ _ h => (exanicPass_decoded h).showsPrices .exanic) is s
  · exact forall_mem_run (fun _ _ _ h => (handlePktPass_decoded h).showsPrices .efvi) args s
  · have hstop := fun s d => (udpDatagram_eq packetHandlerPayload s d).1
    obtain ⟨c, hout, hline⟩ := udpDatagram_decoded packetHandlerPayload
      (run (udpDatagram packetHandlerPayload) s ds).2 d
    refine ⟨c, ?_, ?_⟩
    · rw [run_append hstop, run_cons (hstop _ d), hout]
      rfl
    · rw [hline]
      exact printRecord_showsPrices .socket 0 _ _

/-- The raw-socket client prints the last price of the sample record. -/
theorem prices_shown_fullTime :
    ∃ r ∈ (run (rawsockFrame alwaysFullTime) ⟨fun _ => 0, freshRx⟩ [sampleFrame]).1.reduceOption,
      ∃ call, r.line.call .rawsock r.ipId = some call ∧
        ∃ i s, (i, 20) ∈ Program.rawsock.priceFields .bestQuote ∧
          (Program.rawsock.fields call)[i]? = some (s.text 1) ∧
          PriceShown (u64le r.decoded.mem 20) s := by
  obtain ⟨r, hr⟩ := Option.isSome_iff_exists.mp (show ((run (rawsockFrame alwaysFullTime)
    ⟨fun _ => 0, freshRx⟩ [sampleFrame]).1.reduceOption.head?).isSome by decide +kernel)
  have hmem := List.mem_of_mem_head? hr
  have hall : ∀ r ∈ (run (rawsockFrame alwaysFullTime) ⟨fun _ => 0, freshRx⟩
      [sampleFrame]).1.reduceOption,
      r.result = Kind.bestQuote.code ∧ (r.line.call .rawsock r.ipId).isSome := by
    decide +kernel
  obtain ⟨hresult, hcall⟩ := hall r hmem
  obtain ⟨call, hcall⟩ := Option.isSome_iff_exists.mp hcall
  have hshown := (prices_shown alwaysFullTime longFullTime).1 _ _ r hmem
  exact ⟨r, hmem, call, hcall, (hshown .bestQuote hresult call hcall).2 20 (by decide)⟩

/-- A decoder that leaves a record and nothing else in the zeroed buffer. -/
def LeavesRecords (packetHandlerFull : PacketHandlerFull) : Prop :=
  ∀ m (k : Kind), (packetHandlerFull m zeroOutput).1 = k.code →
    k.Written (packetHandlerFull m zeroOutput).2

/-- The texts of a decoded record end within `output_data`. -/
theorem Decoded.texts_end {packetHandlerFull : PacketHandlerFull}
    (hleaves : LeavesRecords packetHandlerFull) {r : Report} (h : Decoded packetHandlerFull r) :
    ∀ out ∈ r.line.record, ∀ off ∈ [0, 8], (cString (out.bytesFrom off)).isSome := by
  obtain ⟨m, size, hdec, hline⟩ := h
  obtain ⟨hresult, hdecoded⟩ := Prod.mk.inj hdec
  have hkind : ∀ k : Kind, r.result = k.code → ∀ out ∈ r.line.record, ∀ off ∈ [0, 8],
      (cString (out.bytesFrom off)).isSome := by
    intro k hk out hout off hoff
    have hwritten := hleaves m k (hresult.symm.trans hk)
    rw [← hdecoded] at hwritten
    rw [hline, hk, printRecord_record, Option.mem_some_iff] at hout
    subst hout
    refine hwritten.isSome ?_
    simp only [List.mem_cons, List.not_mem_nil, or_false] at hoff
    omega
  by_cases hbest : r.result = bestQuoteMsg
  · exact hkind .bestQuote hbest
  · by_cases hdeep : r.result = depthUpdateMsg
    · exact hkind .depthUpdate hdeep
    · intro out hout
      rw [hline, printRecord, if_neg hbest, if_neg hdeep] at hout
      cases hout

/-- With such a decoder every run of the three clients has a log: `%s` does not
read beyond `output_data`. -/
theorem logs_exist {packetHandlerFull : PacketHandlerFull}
    (hleaves : LeavesRecords packetHandlerFull) :
    (∀ s fs, (logText .rawsock
        (run (rawsockFrame packetHandlerFull) s fs).1.reduceOption).isSome) ∧
      (∀ s is, (logText .exanic
        (run (exanicPass packetHandlerFull) s is).1.reduceOption).isSome) ∧
      ∀ s args, (logText .efvi
        (run (handlePktPass packetHandlerFull) s args).1.reduceOption).isSome := by
  refine ⟨fun s fs => ?_, fun s is => ?_, fun s args => ?_⟩
  · exact logText_isSome
      (forall_mem_run (fun _ _ _ h => (rawsockFrame_decoded h).texts_end hleaves) fs s)
  · exact logText_isSome
      (forall_mem_run (fun _ _ _ h => (exanicPass_decoded h).texts_end hleaves) is s)
  · exact logText_isSome
      (forall_mem_run (fun _ _ _ h => (handlePktPass_decoded h).texts_end hleaves) args s)

theorem alwaysFullTime_leavesRecords : LeavesRecords alwaysFullTime := by
  intro m k hk
  cases k with
  | bestQuote => exact fullTime_written
  | depthUpdate => cases hk

/-- The record of the sample, whose time runs into the price, is printed. -/
theorem logs_exist_fullTime :
    LeavesRecords alwaysFullTime ∧
      (logText .efvi (run (handlePktPass alwaysFullTime) freshRx
        [PktArg.ofFrame sampleFrame]).1.reduceOption).isSome :=
  ⟨alwaysFullTime_leavesRecords,
    (logs_exist alwaysFullTime_leavesRecords).2.2 freshRx [PktArg.ofFrame sampleFrame]⟩

end Client
