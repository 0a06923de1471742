import DceSub.Wire.Reads
import DceSub.Efvi.SameWire

/-!
# Decisions come from a frame's own bytes

Every client receives into memory it does not clear, so that around and behind a
frame there are the bytes of older ones.  What the decoder makes of them is one
question; whether a frame is accepted, with which id and which warning, is
another, and here the answer is that only the frame itself counts.

For the socket loops this is `Implements`, for any length the driver returns.
For `handle_pkt` the frame is what is at its pointer, and `ownVerdict` is its
filter as a function of these bytes: the six bytes before the pointer, where
`packet_buf` starts, are never looked at.  `Decided` carries this through the
event loop, where buffers are used again and again while the NIC writes to
others.
-/

namespace Efvi

open Base Wire Client Resources

/-! ## The filter of `handle_pkt` -/

instance (f : List UInt8) : Decidable (Shifted f) := inferInstanceAs (Decidable (_ ∧ _))

/-- The verdict of `handle_pkt` on the bytes at its pointer. -/
def ownVerdict (f : List UInt8) : Option (BitVec 16) :=
  if 60 ≤ f.length ∧ Shifted f then some (ntohs (u16le (view f) 12)) else none

/-- On a frame that is long enough, the verdict on the frame at `packet_buf` is
the one on the bytes at the pointer. -/
theorem strictVerdict_eq_ownVerdict {a : PktArg} {f : List UInt8} (hholds : Holds a.mem a.p f)
    (hlen : (f.length : Int) = a.len) (h60 : 60 ≤ f.length) :
    strictVerdict a.frame = ownVerdict f := by
  have hiff := strict_iff_shifted hholds hlen h60
  by_cases hs : Shifted f
  · obtain ⟨hstrict, hdst⟩ := hiff.mpr hs
    have ht : Tagged (view a.frame) 0 0 := .no hstrict.2.1
    have hid : u16le (view a.frame) 18 = u16le (view f) 12 :=
      u16le_congr (view_frame_add hholds hlen (by omega)) (view_frame_add hholds hlen (by omega))
    have hlong : 64 < a.frame.length := by have := hstrict.1; omega
    rw [strictVerdict_of_strict hstrict, verdict_of_lt hlong, lastIpId_of_tagged ht, if_pos hdst,
      ownVerdict, if_pos ⟨h60, hs⟩, hid]
  · have hnone : strictVerdict a.frame = none := by
      rw [← Option.not_isSome_iff_eq_none, strictVerdict_isSome_iff, hiff]
      exact hs
    rw [hnone, ownVerdict, if_neg fun h => hs h.2]

/-- A call of `handle_pkt`.  Memory and length are arbitrary. -/
structure PktCall where
  mem : Mem
  p : Nat
  len : Int
  before : 6 ≤ p

/-- The bytes of the frame a call is given; none if the length is not
positive. -/
def PktCall.own (c : PktCall) : List UInt8 := readBytes c.mem c.p c.len.toNat

/-- One call, as a pass of a loop over calls. -/
def handlePktCall (packetHandlerFull : PacketHandlerFull) (s : RxState) (c : PktCall) :
    Pass RxState Report :=
  ⟨(handlePkt packetHandlerFull c.mem c.p c.len s).1,
    (handlePkt packetHandlerFull c.mem c.p c.len s).2, none⟩

/-- A call decides by the bytes of its frame alone. -/
theorem handlePktCall_judge (packetHandlerFull : PacketHandlerFull) (s : RxState) (c : PktCall) :
    judge s.prevIpId (ownVerdict c.own) =
      (handlePktCall packetHandlerFull s c).map RxState.prevIpId fun r => r.decision := by
  have hown : c.own.length = c.len.toNat := readBytes_length ..
  by_cases h60 : 60 ≤ c.len
  · have hlen : (c.own.length : Int) = c.len := by omega
    have hholds : Holds c.mem c.p c.own := readBytes_holds c.mem c.p c.len.toNat
    have hv := strictVerdict_eq_ownVerdict (a := ⟨c.mem, c.p, c.len, c.before, by omega⟩) hholds
      hlen (by omega)
    rw [← hv]
    exact (handlePkt_implements packetHandlerFull).judge_eq s
      ⟨c.mem, c.p, c.len, c.before, by omega⟩
  · have hearly : earlyReturn c.mem c.p c.len = true := by
      rw [earlyReturn, decide_eq_true (by omega : c.len < 60)]
      rfl
    have hno : ownVerdict c.own = none := if_neg fun h => by omega
    rw [hno, handlePktCall, handlePkt, hearly]
    rfl

/-! ## What the filter of `handle_pkt` reads -/

/-- The addresses `handle_pkt` reads before it hands the packet on, in the order
of the source. -/
def handlePktReads (m : Mem) (p : Nat) (len : Int) : List Nat :=
  if len < 60 then []
  else field (p + 6) 2 ++
    if u16le m (p + 6) ≠ 0x0008 then []
    else field (p + 8) 1 ++
      if m (p + 8) ≠ 0x45 then []
      else field (p + 17) 1 ++
        if m (p + 17) ≠ 0x11 then []
        else field (p + 24) 4 ++
          if u32le m (p + 24) ≠ 0x08efefef then []
          else filterReads m (p - 6)

/-- All of them are bytes of the frame. -/
theorem handlePktReads_within {m : Mem} {p x : Nat} {len : Int} (hp : 6 ≤ p)
    (h : x ∈ handlePktReads m p len) : p ≤ x ∧ (x : Int) < p + len := by
  unfold handlePktReads at h
  split at h
  · cases h
  · obtain h | h := mem_field_append_ite h
    · omega
    obtain h | h := mem_field_append_ite h
    · omega
    obtain h | h := mem_field_append_ite h
    · omega
    obtain h | h := mem_field_append_ite h
    · omega
    have := filterReads_within h
    omega

theorem earlyReturn_iff (m : Mem) (p : Nat) (len : Int) :
    earlyReturn m p len = true ↔
      len < 60 ∨ u16le m (p + 6) ≠ 0x0008 ∨ m (p + 8) ≠ 0x45 ∨ m (p + 17) ≠ 0x11 ∨
        u32le m (p + 24) ≠ 0x08efefef := by
  simp only [earlyReturn, Bool.or_eq_true, decide_eq_true_iff, bne_iff_ne, or_assoc]

/-- And there are no others: memories that agree on them make `handle_pkt` return
early or not alike, and if it does not, the filter behind comes out alike. -/
theorem handlePkt_of_reads {m m' : Mem} {p : Nat} {len : Int}
    (h : ∀ x ∈ handlePktReads m p len, m x = m' x) :
    earlyReturn m p len = earlyReturn m' p len ∧
      (earlyReturn m p len = false → lastIpId m (p - 6) = lastIpId m' (p - 6)) := by
  have hearly : earlyReturn m p len = true → earlyReturn m' p len = true →
      earlyReturn m p len = earlyReturn m' p len ∧
        (earlyReturn m p len = false → lastIpId m (p - 6) = lastIpId m' (p - 6)) :=
    fun ht ht' => ⟨ht.trans ht'.symm, fun hf => absurd (ht.symm.trans hf) Bool.noConfusion⟩
  rw [earlyReturn_iff, earlyReturn_iff] at hearly
  rw [handlePktReads] at h
  -- test by test: a test that fails ends the reading in both memories
  by_cases hl : len < 60
  · exact hearly (.inl hl) (.inl hl)
  rw [if_neg hl] at h
  have heth : u16le m (p + 6) = u16le m' (p + 6) :=
    u16le_of_reads fun x hx => h x (List.mem_append_left _ hx)
  replace h := fun x hx => h x (List.mem_append_right _ hx)
  by_cases h1 : u16le m (p + 6) ≠ 0x0008
  · exact hearly (.inr (.inl h1)) (.inr (.inl (heth ▸ h1)))
  rw [if_neg h1] at h
  have hver : m (p + 8) = m' (p + 8) :=
    h _ (List.mem_append_left _ (mem_field.mpr (by omega)))
  replace h := fun x hx => h x (List.mem_append_right _ hx)
  by_cases h2 : m (p + 8) ≠ 0x45
  · exact hearly (.inr (.inr (.inl h2))) (.inr (.inr (.inl (hver ▸ h2))))
  rw [if_neg h2] at h
  have hproto : m (p + 17) = m' (p + 17) :=
    h _ (List.mem_append_left _ (mem_field.mpr (by omega)))
  replace h := fun x hx => h x (List.mem_append_right _ hx)
  by_cases h3 : m (p + 17) ≠ 0x11
  · exact hearly (.inr (.inr (.inr (.inl h3)))) (.inr (.inr (.inr (.inl (hproto ▸ h3)))))
  rw [if_neg h3] at h
  have hdst : u32le m (p + 24) = u32le m' (p + 24) :=
    u32le_of_reads fun x hx => h x (List.mem_append_left _ hx)
  replace h := fun x hx => h x (List.mem_append_right _ hx)
  by_cases h4 : u32le m (p + 24) ≠ 0x08efefef
  · exact hearly (.inr (.inr (.inr (.inr h4)))) (.inr (.inr (.inr (.inr (hdst ▸ h4)))))
  rw [if_neg h4] at h
  refine ⟨?_, fun _ => lastIpId_of_reads h⟩
  rw [earlyReturn, earlyReturn, heth, hver, hproto, hdst]

/-! ## Along the event loop -/

/-- The report of a packet, if that is what was printed. -/
def Output.report? : Output → Option Report
  | .report r => some r
  | .loge _ => none

/-- The decisions among what was printed. -/
def acceptedOf (out : List Output) : List Decision :=
  (out.filterMap Output.report?).map fun r => r.decision

theorem acceptedOf_report (out : List Output) (r : Option Report) :
    acceptedOf (out ++ (r.map Output.report).toList) =
      acceptedOf out ++ (r.map fun r => r.decision).toList := by
  cases r with
  | none => simp [acceptedOf]
  | some r => simp [acceptedOf, Output.report?]

theorem acceptedOf_loge (out : List Output) (text : String) :
    acceptedOf (out ++ [.loge text]) = acceptedOf out := by
  simp [acceptedOf, Output.report?]

/-- What the client has decided so far, starting with the previous id `prev`, is
what the bytes of the frames it has seen decide. -/
structure Decided (prev : BitVec 16) (c : McClient) : Prop where
  accepted : acceptedOf c.out =
    (run judge prev (c.seen.map fun f => ownVerdict f.bytes)).1.reduceOption
  prevIpId : c.rx.prevIpId = (run judge prev (c.seen.map fun f => ownVerdict f.bytes)).2

section

variable {packetHandlerFull : PacketHandlerFull} {prev : BitVec 16} {m : Mem} {c c' : McClient}

/-- A step that shows `handle_pkt` nothing, and prints no report. -/
theorem Decided.of_eq (h : Decided prev c) (hseen : c'.seen = c.seen) (hrx : c'.rx = c.rx)
    (hout : acceptedOf c'.out = acceptedOf c.out) : Decided prev c' :=
  ⟨by rw [hout, hseen]; exact h.accepted, by rw [hrx, hseen]; exact h.prevIpId⟩

/-- A step that shows `handle_pkt` one more frame. -/
theorem Decided.snoc (h : Decided prev c) {f : Seen} {d : Option Decision}
    (hjudge : judge c.rx.prevIpId (ownVerdict f.bytes) = ⟨c'.rx.prevIpId, d, none⟩)
    (hseen : c'.seen = c.seen ++ [f]) (hout : acceptedOf c'.out = acceptedOf c.out ++ d.toList) :
    Decided prev c' := by
  have hrun := run_append judge_stop (c.seen.map fun f => ownVerdict f.bytes)
    [ownVerdict f.bytes] prev
  rw [← h.prevIpId, run_cons (judge_stop ..), run_nil, hjudge] at hrun
  constructor
  · rw [hout, hseen, List.map_append, List.map_singleton, hrun, List.reduceOption_append,
      ← h.accepted, List.reduceOption_singleton]
  · rw [hseen, List.map_append, List.map_singleton, hrun]

/-- Handling an event, with any packet memory and any length. -/
theorem Decided.handleEvent {e : Event} (h : Decided prev c) (hL : c.res.layout.Carved)
    (he : Efvi.handleEvent packetHandlerFull m c e = some c') : Decided prev c' := by
  cases e with
  | rx rqId len sop cont =>
      obtain ⟨-, he⟩ := Option.ite_none_right_eq_some.mp he
      obtain ⟨pktBuf, hbuf, rfl⟩ := Option.map_eq_some_iff.mp he
      obtain ⟨hi, haddr⟩ := Option.ite_none_right_eq_some.mp hbuf
      have hptr : 6 ≤ (c.res.heap pktBuf).rxPtr := by
        rw [← Option.some.inj haddr]
        have hrx : (c.res.heap (c.res.pktBufs + rqId * pktBufSize)).rxPtr = _ := hL.rxPtr rqId hi
        rw [hrx, rxDmaOff_eq]
        omega
      have hjudge := handlePktCall_judge packetHandlerFull c.rx
        ⟨m, (c.res.heap pktBuf).rxPtr, (len : Int) - c.res.rxPrefixLen, hptr⟩
      exact h.snoc hjudge rfl (acceptedOf_report ..)
  | rxDiscard rqId len subtype =>
      obtain ⟨pktBuf, hbuf, rfl⟩ := Option.map_eq_some_iff.mp he
      exact h.of_eq rfl rfl (acceptedOf_loge ..)
  | other type =>
      cases he
      exact h.of_eq rfl rfl (acceptedOf_loge ..)

/-- Any step of the client. -/
theorem Decided.step {a : Act} (h : Decided prev c) (hL : c.res.layout.Carved)
    (hstep : Efvi.step packetHandlerFull a c = some c') : Decided prev c' := by
  cases a with
  | refill =>
      obtain ⟨r, -, rfl⟩ := Option.map_eq_some_iff.mp hstep
      exact h.of_eq rfl rfl rfl
  | poll evs =>
      obtain ⟨-, hstep⟩ := Option.ite_none_right_eq_some.mp hstep
      obtain ⟨vi, -, rfl⟩ := Option.map_eq_some_iff.mp hstep
      exact h.of_eq rfl rfl rfl
  | handle m =>
      rw [Efvi.step] at hstep
      cases hpolled : c.polled with
      | nil =>
          rw [hpolled] at hstep
          cases hstep
      | cons e evs =>
          rw [hpolled] at hstep
          exact Decided.handleEvent (c := { c with polled := evs }) ⟨h.accepted, h.prevIpId⟩ hL
            hstep

end

/-- Any run of the system, from any packet memory: the decisions are those of the
frames the NIC has delivered. -/
theorem decided_run {packetHandlerFull : PacketHandlerFull} {su : Setup} {acts : List SysAct}
    {s s' : Sys} {b : Mailbox Nat (Option Seen)} {prev : BitVec 16} (h : Refines su s b)
    (hfifo : b.Fifo) (hdec : Decided prev s.client)
    (hrun : Loop.exec (sysStep su packetHandlerFull) acts s = some s') :
    Decided prev s'.client ∧ ∃ rest, s'.written = s'.client.seen ++ rest := by
  have hinv : ∃ b, (Refines su s' b ∧ b.Fifo) ∧ Decided prev s'.client := by
    refine Loop.exec_inv (fun s => ∃ b, (Refines su s b ∧ b.Fifo) ∧ Decided prev s.client) ?_
      ⟨b, ⟨h, hfifo⟩, hdec⟩ hrun
    rintro a - s₁ s₂ ⟨b₁, ⟨h₁, hfifo₁⟩, hdec₁⟩ hstep
    obtain ⟨b₂, h₂⟩ := h₁.step_fifo hfifo₁ hstep
    refine ⟨b₂, h₂, ?_⟩
    rcases sysStep_client hstep with hsame | ⟨act, hact⟩
    · rw [hsame]
      exact hdec₁
    · exact hdec₁.step h₁.owned.owns.carved hact
  obtain ⟨b', ⟨h', hfifo'⟩, hdec'⟩ := hinv
  exact ⟨hdec', _, (h'.delivered hfifo').symm⟩

/-! ## All clients -/

/-- The raw-socket loop as a function of the frames alone. -/
def rawsockOwn (prev : BitVec 16) : Option (List UInt8) → Pass (BitVec 16) Decision
  | none => ⟨prev, none, some "recv error!\n"⟩
  | some frame => judge prev (verdict (received frame))

theorem rawsockPass_own (packetHandlerFull : PacketHandlerFull) (s : SockState)
    (i : Option (List UInt8)) :
    rawsockOwn s.prevIpId i =
      (rawsockPass packetHandlerFull s i).map SockState.prevIpId fun r => r.decision := by
  cases i with
  | none => rfl
  | some frame => exact (rawsockFrame_implements packetHandlerFull).judge_eq s frame

/-- The packet block decides by its filter. -/
theorem packetBlock_decision (packetHandlerFull : PacketHandlerFull) (m : Mem) (p len : Nat)
    (size : Int) (s : RxState) :
    ((packetBlock packetHandlerFull m p len size s).2.map fun r => r.decision) =
      (lastIpId m p).map fun id => ⟨id, gapWarning s.prevIpId id⟩ := by
  unfold packetBlock
  cases lastIpId m p with
  | none => rfl
  | some id => rfl

/-- What a socket loop decides on its buffer, with `size` bytes received. -/
def sockDecision (packetHandlerFull : PacketHandlerFull) (size : Int) (s : RxState) (buf : Mem) :
    Option Decision :=
  if size > 64 then
    (packetBlock packetHandlerFull buf 0 size.toNat size s).2.map fun r => r.decision
  else none

/-- What it reads of the buffer on the way. -/
def sockReads (size : Int) (buf : Mem) : List Nat := if size > 64 then filterReads buf 0 else []

theorem sockDecision_reads (packetHandlerFull : PacketHandlerFull) (size : Int) (s : RxState) :
    ReadsWithin (sockDecision packetHandlerFull size s) (sockReads size) 0 size := by
  intro buf
  unfold sockReads sockDecision
  by_cases h : size > 64
  · simp only [if_pos h, packetBlock_decision]
    refine ⟨fun x hx => ?_, fun buf' hsame => by rw [lastIpId_of_reads hsame]⟩
    have := filterReads_within hx
    omega
  · simp only [if_neg h]
    exact ⟨by simp, by simp⟩

/-- What `handle_pkt` decides on the memory around its pointer. -/
def pktDecision (packetHandlerFull : PacketHandlerFull) (p : Nat) (len : Int) (s : RxState)
    (m : Mem) : Option Decision :=
  (handlePkt packetHandlerFull m p len s).2.map fun r => r.decision

theorem pktDecision_reads (packetHandlerFull : PacketHandlerFull) {p : Nat} (hp : 6 ≤ p)
    (len : Int) (s : RxState) :
    ReadsWithin (pktDecision packetHandlerFull p len s) (fun m => handlePktReads m p len) p
      (p + len) := by
  intro m
  refine ⟨fun x hx => ?_, fun m' hsame => ?_⟩
  · have := handlePktReads_within hp hx
    omega
  · obtain ⟨hearly, hid⟩ := handlePkt_of_reads hsame
    rw [pktDecision, pktDecision, handlePkt, handlePkt, ← hearly]
    cases he : earlyReturn m p len with
    | true => rw [if_pos rfl, if_pos rfl]
    | false =>
        rw [if_neg Bool.false_ne_true, if_neg Bool.false_ne_true, packetBlock_decision,
          packetBlock_decision, hid he]

/-- In all three clients, whatever memory held before, the decisions on a
sequence of frames are those of the frames' own bytes: for the raw-socket loop
and the ExaNIC loop, for calls of `handle_pkt` with any memory and any length,
and for the EF_VI client in any interleaving with a NIC that fills its buffers
again and again.  The decision of a loop on its buffer and that of `handle_pkt`
on its memory depend on the bytes they read, which are bytes of the frame, and on
no others. -/
theorem decisions_ownBytes (packetHandlerFull : PacketHandlerFull) (su : Setup)
    (hc : 15 ≤ su.capacity) (fuel : Nat) (out : Filling) (hinit : su.init fuel = some out) :
    (∀ s is, decisions SockState.prevIpId (run (rawsockPass packetHandlerFull) s is) =
        run rawsockOwn s.prevIpId is) ∧
      (∀ s is, decisions SockState.prevIpId (run (exanicPass packetHandlerFull) s is) =
        run judge s.prevIpId (is.map fun i => verdict i.frame)) ∧
      (∀ s calls, decisions RxState.prevIpId (run (handlePktCall packetHandlerFull) s calls) =
        run judge s.prevIpId (calls.map fun c => ownVerdict c.own)) ∧
      (∀ rx mem acts s,
        Loop.exec (sysStep su packetHandlerFull) acts (.start out.res rx mem) = some s →
        Decided rx.prevIpId s.client ∧ ∃ rest, s.written = s.client.seen ++ rest) ∧
      (∀ size s, ReadsWithin (sockDecision packetHandlerFull size s) (sockReads size) 0 size) ∧
      (∀ p len s, 6 ≤ p → ReadsWithin (pktDecision packetHandlerFull p len s)
        (fun m => handlePktReads m p len) p (p + len)) := by
  refine ⟨?_, ?_, ?_, ?_, sockDecision_reads packetHandlerFull,
    fun p len s hp => pktDecision_reads packetHandlerFull hp len s⟩
  · intro s is
    have hrun : decisions SockState.prevIpId (run (rawsockPass packetHandlerFull) s is) =
        run rawsockOwn s.prevIpId (is.map id) :=
      decisions_run (rawsockPass_own packetHandlerFull) is s
    rw [List.map_id] at hrun
    exact hrun
  · intro s is
    exact (exanicPass_implements packetHandlerFull).decisions_eq is s
  · intro s calls
    exact decisions_run (handlePktCall_judge packetHandlerFull) calls s
  · intro rx mem acts s hrun
    obtain ⟨b, hstart, hfifo⟩ := Refines.start hc hinit rx mem
    exact decided_run hstart hfifo ⟨rfl, rfl⟩ hrun

/-- Two frames that `handle_pkt` accepts, with ids 1 and 4: it looks for the
headers 6 bytes before the frame. -/
def stdoutFrames : List (List UInt8) := [sampleFrame.drop 6, (sampleFrame.set 19 4).drop 6]

/-- The frames arrive and are handled one by one. -/
def stdoutRun : List SysAct :=
  stdoutFrames.flatMap fun f => [.rx (List.replicate 14 0) f, .poll 16, .handle, .refill]

/-- The decisions of the sample client on the two frames. -/
theorem decisions_ownBytes_small32 :
    ∃ out s, Setup.small32.init 32 = some out ∧
      Loop.exec (sysStep Setup.small32 noMessage) stdoutRun (.start out.res freshRx (view [])) =
        some s ∧
      Decided 0 s.client ∧ (∃ rest, s.written = s.client.seen ++ rest) ∧
      acceptedOf s.client.out = [⟨1, none⟩, ⟨4, some (1, 4)⟩] := by
  have hseen : (((Setup.small32.init 32).bind fun out =>
      Loop.exec (sysStep Setup.small32 noMessage) stdoutRun
        (.start out.res freshRx (view []))).map fun s => s.client.seen) =
      some (stdoutFrames.map fun f => ⟨f, 64⟩) := by
    decide +kernel
  obtain ⟨s, hs, hseen⟩ := Option.map_eq_some_iff.mp hseen
  obtain ⟨out, hinit, hrun⟩ := Option.bind_eq_some_iff.mp hs
  obtain ⟨-, -, -, hsys, -, -⟩ :=
    decisions_ownBytes noMessage Setup.small32 (by decide) 32 out hinit
  obtain ⟨hdec, hrest⟩ := hsys freshRx (view []) stdoutRun s hrun
  refine ⟨out, s, hinit, hrun, hdec, hrest, ?_⟩
  rw [hdec.accepted, hseen]
  decide

end Efvi
