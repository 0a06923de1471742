import DceSub.Client.RawSock
import DceSub.Client.Exanic
import DceSub.Client.HandlePkt

/-!
# How the clients agree

Three loops, one receiver, two verdicts.  The EF_VI handler on a sequence of
frames does what either socket loop does on the strict frames of the sequence.
On IPv4/UDP frames it does what the raw-socket loop does as long as no tagged
frame is for the address wanted: the handler drops every tagged frame before it
comes to its own 802.1Q branch.  All three detect gaps exactly.
-/

namespace Client

open Base Wire

/-! ## What is compared -/

/-- The warnings of a run, with the ids they print. -/
def gapWarnings (outs : List (Option Report)) : List (BitVec 16 × BitVec 16) :=
  outs.reduceOption.filterMap fun r => r.gap

/-- The frames of a run that are handed to `packet_handler_full`. -/
def handedFrames (outs : List (Option Report)) : List (List UInt8) :=
  outs.reduceOption.map fun r => r.frame

/-- The strict frames of a sequence. -/
def strictFrames (fs : List (List UInt8)) : List (List UInt8) :=
  fs.filter fun f => decide (Strict f)

/-- Warnings and frames are read off what is observed of each accepted frame. -/
theorem gapWarnings_eq (outs : List (Option Report)) :
    gapWarnings outs =
      ((outs.map (Option.map Report.toAccepted)).reduceOption).filterMap fun a => a.gap := by
  rw [List.reduceOption_map, List.filterMap_map]
  rfl

theorem handedFrames_eq (outs : List (Option Report)) :
    handedFrames outs =
      ((outs.map (Option.map Report.toAccepted)).reduceOption).map fun a => a.frame := by
  rw [List.reduceOption_map, List.map_map]
  rfl

/-! ## On strict frames -/

/-- The receiver with the strict verdict is the one with the common verdict on
the strict frames. -/
theorem run_observe_strict (fs : List (List UInt8)) (prev : BitVec 16) :
    (run (observe strictVerdict) prev fs).1.reduceOption =
        (run (observe verdict) prev (strictFrames fs)).1.reduceOption ∧
      (run (observe strictVerdict) prev fs).2 =
        (run (observe verdict) prev (strictFrames fs)).2 := by
  have hskip : ∀ s f, decide (Strict f) = false → observe strictVerdict s f = Pass.skip s := by
    intro s f hf
    exact observe_none (strictVerdict_of_not (of_decide_eq_false hf))
  have hcongr : run (observe verdict) prev (strictFrames fs) =
      run (observe strictVerdict) prev (strictFrames fs) := by
    apply run_congr
    intro s f hf
    have hs : Strict f := of_decide_eq_true (List.mem_filter.mp hf).2
    simp only [observe, strictVerdict_of_strict hs]
  rw [hcongr]
  exact run_filter hskip fs prev

/-- An implementation of the common verdict agrees with the handler. -/
theorem agrees_on_strict {σ ι : Type} {body : σ → ι → Pass σ Report}
    {prevIpId : σ → BitVec 16} {frame : ι → List UInt8}
    (h : Implements body prevIpId frame verdict) (packetHandlerFull : PacketHandlerFull)
    {args : List PktArg} {is : List ι} (his : is.map frame = strictFrames (args.map PktArg.frame))
    {r : RxState} {s : σ} (hprev : r.prevIpId = prevIpId s) :
    gapWarnings (run (handlePktPass packetHandlerFull) r args).1 = gapWarnings (run body s is).1 ∧
      handedFrames (run (handlePktPass packetHandlerFull) r args).1 =
        handedFrames (run body s is).1 ∧
      (run (handlePktPass packetHandlerFull) r args).2.prevIpId = prevIpId (run body s is).2 := by
  have hE := (handlePkt_implements packetHandlerFull).run_eq args r
  have hB := h.run_eq is s
  obtain ⟨hout, hstate⟩ := run_observe_strict (args.map PktArg.frame) r.prevIpId
  rw [hE, ← his, hprev, hB] at hout hstate
  refine ⟨?_, ?_, hstate⟩
  · rw [gapWarnings_eq, gapWarnings_eq, hout]
  · rw [handedFrames_eq, handedFrames_eq, hout]

/-- The EF_VI handler, called on one frame after another, refines the raw-socket
loop, and equally the ExaNIC loop, on the strict ones among them: the same
warnings, the same frames handed over, the same id in the end. -/
theorem handlePkt_refines_sockets (packetHandlerFull : PacketHandlerFull) (args : List PktArg)
    (hlen : ∀ a ∈ args, a.frame.length ≤ 2048) (r : RxState) (raw exa : SockState)
    (hraw : raw.prevIpId = r.prevIpId) (hexa : exa.prevIpId = r.prevIpId) (is : List ExanicRx)
    (his : is.map ExanicRx.frame = strictFrames (args.map PktArg.frame)) :
    let E := run (handlePktPass packetHandlerFull) r args
    let R := run (rawsockFrame packetHandlerFull) raw (strictFrames (args.map PktArg.frame))
    let X := run (exanicPass packetHandlerFull) exa is
    (gapWarnings E.1 = gapWarnings R.1 ∧ handedFrames E.1 = handedFrames R.1 ∧
        E.2.prevIpId = R.2.prevIpId) ∧
      (gapWarnings E.1 = gapWarnings X.1 ∧ handedFrames E.1 = handedFrames X.1 ∧
        E.2.prevIpId = X.2.prevIpId) := by
  refine ⟨?_, ?_⟩
  · refine agrees_on_strict (rawsockFrame_implements packetHandlerFull) packetHandlerFull ?_
      hraw.symm
    apply map_received
    intro f hf
    obtain ⟨a, ha, rfl⟩ := List.mem_map.mp (List.mem_of_mem_filter hf)
    have := hlen a ha
    simp only [bufSize]
    omega
  · exact agrees_on_strict (exanicPass_implements packetHandlerFull) packetHandlerFull his hexa.symm

theorem strictFrames_sample :
    strictFrames ([PktArg.ofFrame sampleFrame, PktArg.ofFrame taggedFrame].map PktArg.frame) =
      [sampleFrame] := by
  simp only [List.map_cons, List.map_nil, PktArg.ofFrame_frame]
  decide

theorem handlePkt_refines_sockets_sample :
    let args := [PktArg.ofFrame sampleFrame, PktArg.ofFrame taggedFrame]
    let is := [ExanicRx.ofFrame sampleFrame (by decide)]
    let s : SockState := ⟨fun _ => 0, freshRx⟩
    let E := run (handlePktPass noMessage) freshRx args
    let R := run (rawsockFrame noMessage) s (strictFrames (args.map PktArg.frame))
    let X := run (exanicPass noMessage) s is
    (gapWarnings E.1 = gapWarnings R.1 ∧ handedFrames E.1 = handedFrames R.1 ∧
        E.2.prevIpId = R.2.prevIpId) ∧
      (gapWarnings E.1 = gapWarnings X.1 ∧ handedFrames E.1 = handedFrames X.1 ∧
        E.2.prevIpId = X.2.prevIpId) := by
  intro args is s
  refine handlePkt_refines_sockets noMessage args ?_ freshRx s s rfl rfl is ?_
  · intro a ha
    simp only [args, List.mem_cons, List.not_mem_nil, or_false] at ha
    rcases ha with rfl | rfl <;> rw [PktArg.ofFrame_frame] <;> decide
  · rw [strictFrames_sample, List.map_cons, List.map_nil, ExanicRx.ofFrame_frame]

/-! ## On tagged and untagged frames -/

/-- An IPv4/UDP frame with a 20-byte IP header, of at least 70 bytes, untagged
(`off = 0`) or behind one 802.1Q tag (`off = 4`). -/
structure UdpFrame (f : List UInt8) (off : Nat) : Prop where
  carried : Tagged (view f) 0 off
  version : view f (14 + off) = 0x45
  protocol : view f (23 + off) = 0x11
  long : 70 ≤ f.length

/-- What is observed of an accepted frame, up to the length of the raw-socket
buffer. -/
def Accepted.cut (a : Accepted) : Accepted := { a with frame := a.frame.take bufSize }

/-- The outcome of every pass of a run: nothing, or the id read, the warning
printed and the frame handed over. -/
def outcomes (outs : List (Option Report)) : List (Option Accepted) :=
  outs.map (Option.map fun r => Accepted.cut r.toAccepted)

theorem outcomes_eq (outs : List (Option Report)) :
    outcomes outs = (outs.map (Option.map Report.toAccepted)).map (Option.map Accepted.cut) := by
  simp [outcomes, Function.comp_def]

theorem observe_received (prev : BitVec 16) (f : List UInt8) :
    observe verdict prev (received f) = (observe verdict prev f).map id Accepted.cut := by
  cases hv : verdict f with
  | none =>
      rw [observe_none hv, observe_none ((verdict_received f).trans hv)]
      rfl
  | some id =>
      rw [observe_some hv, observe_some ((verdict_received f).trans hv)]
      rfl

theorem Accepted.cut_cut (a : Accepted) : Accepted.cut (Accepted.cut a) = Accepted.cut a := by
  simp [Accepted.cut]

theorem outcomes_handlePkt (packetHandlerFull : PacketHandlerFull) (args : List PktArg)
    (r : RxState) :
    outcomes (run (handlePktPass packetHandlerFull) r args).1 =
      (run (observe strictVerdict) r.prevIpId (args.map PktArg.frame)).1.map
        (Option.map Accepted.cut) := by
  rw [(handlePkt_implements packetHandlerFull).run_eq args r, outcomes_eq]

theorem outcomes_rawsock (packetHandlerFull : PacketHandlerFull) (fs : List (List UInt8))
    (s : SockState) :
    outcomes (run (rawsockFrame packetHandlerFull) s fs).1 =
      (run (observe verdict) s.prevIpId fs).1.map (Option.map Accepted.cut) := by
  have hraw := (rawsockFrame_implements packetHandlerFull).run_eq fs s
  have hcut := run_map id received Accepted.cut fs s.prevIpId
    fun prev f _ => observe_received prev f
  have heq : (run (rawsockFrame packetHandlerFull) s fs).1.map (Option.map Report.toAccepted) =
      (run (observe verdict) s.prevIpId fs).1.map (Option.map Accepted.cut) :=
    (congrArg Prod.fst hraw).symm.trans (congrArg Prod.fst hcut)
  rw [outcomes_eq, heq, List.map_map]
  congr 1
  funext o
  cases o with
  | none => rfl
  | some a => exact congrArg some (Accepted.cut_cut a)

/-- On an IPv4/UDP frame the two verdicts differ exactly when the frame is
tagged and for the address wanted. -/
theorem strictVerdict_eq_iff {f : List UInt8} {off : Nat} (h : UdpFrame f off) :
    (strictVerdict f).isSome = (verdict f).isSome ↔
      (IsDot1qAt (view f) 12 → ¬ IsDstAt (view f) 34) := by
  obtain ⟨carried, version, protocol, long⟩ := h
  have hlen : 64 < f.length := by omega
  cases carried with
  | no h4 =>
      have hs : Strict f := ⟨by omega, h4, version, protocol⟩
      rw [strictVerdict_of_strict hs]
      exact ⟨fun _ hq => absurd h4 (not_ipv4_of_dot1q hq), fun _ => rfl⟩
  | yes hq h4 =>
      have hs : ¬ Strict f := fun hs => not_ipv4_of_dot1q hq hs.2.1
      rw [strictVerdict_of_not hs, verdict_of_lt hlen, lastIpId_of_tagged (.yes hq h4)]
      by_cases hd : IsDstAt (view f) 34
      · simp [hd, hq]
      · simp [hd]

theorem strictVerdict_eq_of {f : List UInt8} {off : Nat} (h : UdpFrame f off)
    (hn : IsDot1qAt (view f) 12 → ¬ IsDstAt (view f) 34) : strictVerdict f = verdict f := by
  by_cases hs : Strict f
  · exact strictVerdict_of_strict hs
  · have heq := (strictVerdict_eq_iff h).mpr hn
    rw [strictVerdict_of_not hs] at heq ⊢
    exact (Option.isSome_eq_false_iff.mp heq.symm |> Option.isNone_iff_eq_none.mp).symm

/-- The EF_VI handler and the raw-socket loop agree on a sequence of IPv4/UDP
frames, frame by frame, exactly when no tagged frame among them is for the
address wanted. -/
theorem handlePkt_agrees_iff (packetHandlerFull : PacketHandlerFull) (args : List PktArg)
    (hargs : ∀ a ∈ args, ∃ off, UdpFrame a.frame off) (r : RxState) (s : SockState)
    (hprev : s.prevIpId = r.prevIpId) :
    outcomes (run (handlePktPass packetHandlerFull) r args).1 =
        outcomes (run (rawsockFrame packetHandlerFull) s (args.map PktArg.frame)).1 ↔
      ∀ a ∈ args, IsDot1qAt (view a.frame) 12 → ¬ IsDstAt (view a.frame) 34 := by
  rw [outcomes_handlePkt, outcomes_rawsock, hprev]
  constructor
  · intro h a ha
    obtain ⟨off, hu⟩ := hargs a ha
    refine (strictVerdict_eq_iff hu).mp ?_
    -- the two runs accept at the same positions, so the verdicts agree at each
    have hsome := congrArg (List.map Option.isSome) h
    simp only [List.map_map, Function.comp_def, Option.isSome_map] at hsome
    rw [show (fun o : Option Accepted => o.isSome) = Option.isSome from rfl, run_observe_isSome,
      run_observe_isSome, List.map_map, List.map_map] at hsome
    exact List.map_inj_left.mp hsome a ha
  · intro h
    have hcongr : run (observe strictVerdict) r.prevIpId (args.map PktArg.frame) =
        run (observe verdict) r.prevIpId (args.map PktArg.frame) := by
      apply run_congr
      intro prev f hf
      obtain ⟨a, ha, rfl⟩ := List.mem_map.mp hf
      obtain ⟨off, hu⟩ := hargs a ha
      simp only [observe, strictVerdict_eq_of hu (h a ha)]
    rw [hcongr]

theorem sampleFrame_udp : UdpFrame sampleFrame 0 :=
  ⟨.no (by decide), by decide, by decide, by decide⟩

theorem taggedFrame_udp : UdpFrame taggedFrame 4 :=
  ⟨.yes (by decide) (by decide), by decide, by decide, by decide⟩

theorem samples_udp :
    ∀ a ∈ [PktArg.ofFrame sampleFrame, PktArg.ofFrame taggedFrame],
      ∃ off, UdpFrame a.frame off := by
  intro a ha
  simp only [List.mem_cons, List.not_mem_nil, or_false] at ha
  rcases ha with rfl | rfl
  · exact ⟨0, by rw [PktArg.ofFrame_frame]; exact sampleFrame_udp⟩
  · exact ⟨4, by rw [PktArg.ofFrame_frame]; exact taggedFrame_udp⟩

theorem handlePkt_agrees_iff_samples :
    let args := [PktArg.ofFrame sampleFrame, PktArg.ofFrame taggedFrame]
    outcomes (run (handlePktPass noMessage) freshRx args).1 =
        outcomes (run (rawsockFrame noMessage) ⟨fun _ => 0, freshRx⟩ (args.map PktArg.frame)).1 ↔
      ∀ a ∈ args, IsDot1qAt (view a.frame) 12 → ¬ IsDstAt (view a.frame) 34 :=
  handlePkt_agrees_iff noMessage _ samples_udp freshRx ⟨fun _ => 0, freshRx⟩ rfl

/-- A tagged frame for the address wanted: the raw-socket loop hands it over,
the EF_VI handler drops it. -/
theorem handlePkt_drops_tagged :
    let args := [PktArg.ofFrame taggedFrame]
    (∀ a ∈ args, ∃ off, UdpFrame a.frame off) ∧
      outcomes (run (handlePktPass noMessage) freshRx args).1 ≠
        outcomes
          (run (rawsockFrame noMessage) ⟨fun _ => 0, freshRx⟩ (args.map PktArg.frame)).1 := by
  refine ⟨fun a ha => samples_udp a (List.mem_cons_of_mem _ ha), ?_⟩
  rw [outcomes_handlePkt, outcomes_rawsock, List.map_cons, List.map_nil, PktArg.ofFrame_frame]
  decide

/-! ## Gap detection -/

/-- In each of the three clients, in every run of frames that carry the numbers
of a sender: an accepted frame after the first is warned of exactly when packets
of the sender are missing before it, modulo `2 ^ 16`, and the ids printed tell
how many.  The first accepted frame is compared with 0, and a rejected frame
neither warns nor changes the id kept. -/
theorem clients_detect_gaps (packetHandlerFull : PacketHandlerFull) :
    GapExact (rawsockFrame packetHandlerFull) SockState.prevIpId wireId ∧
      GapExact (exanicPass packetHandlerFull) SockState.prevIpId (fun i => wireId i.frame) ∧
      GapExact (handlePktPass packetHandlerFull) RxState.prevIpId
        (fun a => strictWireId a.frame) := by
  have hraw := (rawsockFrame_implements packetHandlerFull).gapExact
  have hexa := (exanicPass_implements packetHandlerFull).gapExact
  have hefvi := (handlePkt_implements packetHandlerFull).gapExact
  simp only [verdict_received] at hraw
  simp only [verdict_eq_wireId] at hraw hexa
  simp only [strictVerdict_eq_wireId] at hefvi
  exact ⟨hraw, hexa, hefvi⟩

/-- A frame with id 1, one for another address, and then one with id 4, behind a
tag where the client takes tags: two packets are missing. -/
theorem clients_detect_gaps_tagged :
    let other := sampleFrame.set 33 9
    let tagged := taggedFrame.set 23 4
    let rx := fun f => ExanicRx.ofFrame (f.take packetBufSize) (List.length_take_le ..)
    let raw := (run (rawsockFrame noMessage) ⟨fun _ => 0, freshRx⟩ [sampleFrame, other]).2
    let exa := (run (exanicPass noMessage) ⟨fun _ => 0, freshRx⟩ [rx sampleFrame, rx other]).2
    let efvi := (run (handlePktPass noMessage) freshRx
      [.ofFrame sampleFrame, .ofFrame tagged]).2
    let rawNext := rawsockFrame noMessage raw tagged
    let exaNext := exanicPass noMessage exa (rx tagged)
    let efviNext := handlePktPass noMessage efvi (.ofFrame (sampleFrame.set 19 4))
    GapSaid 1 (some 0) raw.prevIpId (some 3) rawNext.state.prevIpId
        (rawNext.out.map Report.toAccepted) ∧
      GapSaid 1 (some 0) exa.prevIpId (some 3) exaNext.state.prevIpId
        (exaNext.out.map Report.toAccepted) ∧
      GapSaid 1 (some 0) efvi.prevIpId (some 3) efviNext.state.prevIpId
        (efviNext.out.map Report.toAccepted) := by
  intro other tagged rx raw exa efvi rawNext exaNext efviNext
  obtain ⟨hraw, hexa, hefvi⟩ := clients_detect_gaps noMessage
  refine ⟨?_, ?_, ?_⟩
  · exact hraw ⟨fun _ => 0, freshRx⟩ 1 [(sampleFrame, some 0), (other, none)] (tagged, some 3) []
      rfl ⟨by decide, by decide⟩
  · exact hexa ⟨fun _ => 0, freshRx⟩ 1 [(rx sampleFrame, some 0), (rx other, none)]
      (rx tagged, some 3) [] rfl ⟨by decide, by decide⟩
  · exact hefvi freshRx 1 [(.ofFrame sampleFrame, some 0), (.ofFrame tagged, none)]
      (.ofFrame (sampleFrame.set 19 4), some 3) [] rfl ⟨by decide, by decide⟩

end Client
