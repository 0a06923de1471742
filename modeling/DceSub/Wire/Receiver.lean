import DceSub.Base.Wrap
import DceSub.Wire.Filter

/-!
# The abstract receiver

What a client is for, without buffers and pointers: it looks at each frame
alone, by a *verdict* that gives the IP id of a frame to accept, and compares
the id with the one before.  `observe` is one pass of that receiver, whose only
state is the previous id.

A client `Implements` a verdict when each pass of its loop, with its memory
forgotten, is a pass of the receiver.  What holds of every run of the receiver
then holds of every run of the client.

The gap detector is the first such result.  Its statement, `GapExact`, speaks of
a sender that numbers its packets, of which the client accepts some, in order.
The numbers are on the wire: `wireId` reads them off the bytes of a frame, and
the verdict has to find them there (`verdict_eq_wireId`).

Which frames are accepted, with which id and which warning, depends on the
verdicts alone: `judge` is the receiver with the verdicts as inputs.
-/

namespace Wire

open Base

/-! ## Verdicts -/

/-- The verdict of the raw-socket and ExaNIC loops: more than 64 bytes, and the
filter of the packet block. -/
def verdict (f : List UInt8) : Option (BitVec 16) :=
  if 64 < f.length then lastIpId (view f) 0 else none

theorem verdict_of_lt {f : List UInt8} (h : 64 < f.length) : verdict f = lastIpId (view f) 0 :=
  if_pos h

theorem verdict_of_le {f : List UInt8} (h : f.length ≤ 64) : verdict f = none :=
  if_neg (by omega)

/-- The filter sees a stored frame as it is. -/
theorem lastIpId_of_holds {m : Mem} {p : Nat} {f : List UInt8} (h : Holds m p f)
    (hlen : 38 ≤ f.length) : lastIpId m p = lastIpId (view f) 0 :=
  lastIpId_congr fun _ hk => h.view (by omega)

/-- A verdict on a frame is a verdict on any of its beginnings that is long
enough. -/
theorem verdict_take {f : List UInt8} {n : Nat} (hn : 64 < n) : verdict (f.take n) = verdict f := by
  by_cases hf : 64 < f.length
  · have ht : 64 < (f.take n).length := by rw [List.length_take]; omega
    rw [verdict_of_lt hf, verdict_of_lt ht]
    apply lastIpId_congr
    intro k hk
    simp only [view, List.getD_eq_getElem?_getD]
    rw [List.getElem?_take_of_lt (by omega)]
  · have ht : (f.take n).length ≤ 64 := by rw [List.length_take]; omega
    rw [verdict_of_le ht, verdict_of_le (by omega)]

/-! ### The id on the wire -/

/-- The id that the bytes of a frame carry: more than 64 bytes, IPv4 for
239.239.239.8, with the fields 4 bytes further on behind a tag.  The id is in
network order.  No other frame has one. -/
def wireId (f : List UInt8) : Option (BitVec 16) :=
  if 64 < f.length ∧ IsIpv4At (view f) 12 ∧ IsDstAt (view f) 30 then some (u16be (view f) 18)
  else if 64 < f.length ∧ IsDot1qAt (view f) 12 ∧ IsIpv4At (view f) 16 ∧ IsDstAt (view f) 34 then
    some (u16be (view f) 22)
  else none

theorem wireId_eq_some_iff (f : List UInt8) (id : BitVec 16) :
    wireId f = some id ↔
      64 < f.length ∧ ∃ off, Tagged (view f) 0 off ∧ IsDstAt (view f) (off + 30) ∧
        id.toNat = 256 * (view f (off + 18)).toNat + (view f (off + 19)).toNat := by
  have hid : ∀ k, u16be (view f) k = id ↔
      id.toNat = 256 * (view f k).toNat + (view f (k + 1)).toNat := by
    intro k
    rw [← BitVec.toNat_inj, toNat_u16be]
    exact eq_comm
  rw [wireId]
  constructor
  · intro h
    split at h
    next hu => exact ⟨hu.1, 0, .no hu.2.1, hu.2.2, (hid 18).mp (Option.some.inj h)⟩
    next =>
      split at h
      next ht =>
        exact ⟨ht.1, 4, .yes ht.2.1 ht.2.2.1, ht.2.2.2, (hid 22).mp (Option.some.inj h)⟩
      next => cases h
  · rintro ⟨hlen, off, htag, hdst, h⟩
    cases htag with
    | no h4 => rw [if_pos ⟨hlen, h4, hdst⟩, (hid 18).mpr h]
    | yes hq h4 =>
        rw [if_neg fun hu => not_ipv4_of_dot1q hq hu.2.1, if_pos ⟨hlen, hq, h4, hdst⟩,
          (hid 22).mpr h]

/-- The verdict goes by the id on the wire. -/
theorem verdict_eq_wireId (f : List UInt8) : verdict f = wireId f := by
  apply Option.ext
  intro id
  rw [wireId_eq_some_iff]
  by_cases hlen : 64 < f.length
  · rw [verdict_of_lt hlen, lastIpId_eq_some_iff]
    simp only [Nat.zero_add, hlen, true_and]
  · rw [verdict_of_le (by omega)]
    simp only [hlen, false_and, reduceCtorEq]

/-! ## Sample frames -/

/-- An untagged IPv4/UDP frame of 70 bytes for 239.239.239.8, with IP id 1. -/
def sampleFrame : List UInt8 :=
  List.replicate 12 0 ++ [0x08, 0x00, 0x45, 0x00, 0x00, 0x38, 0x00, 0x01, 0x00, 0x00, 0x40, 0x11,
    0x00, 0x00, 0x0a, 0x00, 0x00, 0x01, 0xef, 0xef, 0xef, 0x08] ++ List.replicate 36 0

/-- The same frame behind an 802.1Q tag. -/
def taggedFrame : List UInt8 :=
  sampleFrame.take 12 ++ [0x81, 0x00, 0x00, 0x07] ++ sampleFrame.drop 12

/-- A decoder that recognises no message, as on the empty payloads of the
samples. -/
def noMessage : PacketHandlerFull := fun _ out => (0, out)

/-- A client that has not received anything. -/
def freshRx : RxState := ⟨0, zeroOutput⟩

example : verdict sampleFrame = some 1 := by decide
example : verdict taggedFrame = some 1 := by decide

/-! ## The receiver -/

/-- One pass of the abstract receiver. -/
def observe (v : List UInt8 → Option (BitVec 16)) (prev : BitVec 16) (f : List UInt8) :
    Pass (BitVec 16) Accepted :=
  match v f with
  | none => Pass.skip prev
  | some id => ⟨id, some ⟨id, gapWarning prev id, f⟩, none⟩

theorem observe_none {v : List UInt8 → Option (BitVec 16)} {prev : BitVec 16} {f : List UInt8}
    (h : v f = none) : observe v prev f = Pass.skip prev := by
  rw [observe, h]

theorem observe_some {v : List UInt8 → Option (BitVec 16)} {prev id : BitVec 16} {f : List UInt8}
    (h : v f = some id) : observe v prev f = ⟨id, some ⟨id, gapWarning prev id, f⟩, none⟩ := by
  rw [observe, h]

theorem observe_stop (v : List UInt8 → Option (BitVec 16)) (prev : BitVec 16) (f : List UInt8) :
    (observe v prev f).stop = none := by
  unfold observe
  split <;> rfl

theorem observe_out_isSome (v : List UInt8 → Option (BitVec 16)) (prev : BitVec 16)
    (f : List UInt8) : (observe v prev f).out.isSome = (v f).isSome := by
  unfold observe
  split <;> simp_all [Pass.skip]

/-- Which frames of a run are accepted depends on the frames alone. -/
theorem run_observe_isSome (v : List UInt8 → Option (BitVec 16)) (fs : List (List UInt8))
    (prev : BitVec 16) :
    (run (observe v) prev fs).1.map Option.isSome = fs.map fun f => (v f).isSome := by
  induction fs generalizing prev with
  | nil => rfl
  | cons f fs ih =>
      rw [run_cons (observe_stop v prev f), List.map_cons, List.map_cons, observe_out_isSome, ih]

/-- The packet block, with the memory forgotten, is a pass of the receiver, for
a verdict that is the filter on the frame at hand. -/
theorem packetBlock_observe (packetHandlerFull : PacketHandlerFull) {m : Mem} {p : Nat}
    {f : List UInt8} {v : List UInt8 → Option (BitVec 16)} (h : Holds m p f)
    (hlen : 38 ≤ f.length) (hv : v f = lastIpId (view f) 0) (size : Int) (s : RxState) :
    observe v s.prevIpId f =
      ⟨(packetBlock packetHandlerFull m p f.length size s).1.prevIpId,
        (packetBlock packetHandlerFull m p f.length size s).2.map Report.toAccepted, none⟩ := by
  unfold packetBlock
  rw [lastIpId_of_holds h hlen]
  cases hid : lastIpId (view f) 0 with
  | none => exact observe_none (hv.trans hid)
  | some id =>
      rw [observe_some (hv.trans hid)]
      simp only [Option.map_some, h.readBytes]

/-! ## Clients -/

section

variable {σ ι : Type}

/-- A loop body implements a verdict: with everything but the previous id
forgotten, each pass is a pass of the receiver on the frame of the input. -/
def Implements (body : σ → ι → Pass σ Report) (prevIpId : σ → BitVec 16)
    (frame : ι → List UInt8) (v : List UInt8 → Option (BitVec 16)) : Prop :=
  ∀ s i, observe v (prevIpId s) (frame i) = (body s i).map prevIpId Report.toAccepted

variable {body : σ → ι → Pass σ Report} {prevIpId : σ → BitVec 16} {frame : ι → List UInt8}
  {v : List UInt8 → Option (BitVec 16)}

/-- Runs of an implementation are runs of the receiver. -/
theorem Implements.run_eq (h : Implements body prevIpId frame v) (is : List ι) (s : σ) :
    run (observe v) (prevIpId s) (is.map frame) =
      ((run body s is).1.map (Option.map Report.toAccepted), prevIpId (run body s is).2) :=
  run_map prevIpId frame Report.toAccepted is s fun s i _ => h s i

theorem Implements.stop (h : Implements body prevIpId frame v) (s : σ) (i : ι) :
    (body s i).stop = none := by
  have hs := observe_stop v (prevIpId s) (frame i)
  rw [h s i] at hs
  exact hs

theorem Implements.state (h : Implements body prevIpId frame v) (s : σ) (i : ι) :
    prevIpId (body s i).state = (observe v (prevIpId s) (frame i)).state := by
  rw [h s i]
  rfl

theorem Implements.out (h : Implements body prevIpId frame v) (s : σ) (i : ι) :
    (body s i).out.map Report.toAccepted = (observe v (prevIpId s) (frame i)).out := by
  rw [h s i]
  rfl

theorem Implements.out_isSome (h : Implements body prevIpId frame v) (s : σ) (i : ι) :
    (body s i).out.isSome = (v (frame i)).isSome := by
  rw [← observe_out_isSome v (prevIpId s) (frame i), ← h.out s i, Option.isSome_map]

end

/-! ## Decisions -/

/-- What is decided of an accepted frame, without its bytes. -/
structure Decision where
  ipId : BitVec 16
  gap : Option (BitVec 16 × BitVec 16)
deriving DecidableEq

/-- The decision on an accepted frame. -/
def Accepted.decision (a : Accepted) : Decision := ⟨a.ipId, a.gap⟩

/-- One pass of the receiver once the verdict is known. -/
def judge (prev : BitVec 16) : Option (BitVec 16) → Pass (BitVec 16) Decision
  | none => Pass.skip prev
  | some id => ⟨id, some ⟨id, gapWarning prev id⟩, none⟩

theorem judge_stop (prev : BitVec 16) (v : Option (BitVec 16)) : (judge prev v).stop = none := by
  cases v with
  | none => rfl
  | some id => rfl

/-- The decision on each input of a run, `none` for a rejected one, and the id
kept in the end. -/
def decisions {σ : Type} (prevIpId : σ → BitVec 16) (r : List (Option Report) × σ) :
    List (Option Decision) × BitVec 16 :=
  (r.1.map (Option.map fun x => x.decision), prevIpId r.2)

theorem observe_judge (v : List UInt8 → Option (BitVec 16)) (prev : BitVec 16) (f : List UInt8) :
    judge prev (v f) = (observe v prev f).map id Accepted.decision := by
  cases h : v f with
  | none =>
      rw [observe_none h]
      rfl
  | some id =>
      rw [observe_some h]
      rfl

section

variable {σ ι : Type} {body : σ → ι → Pass σ Report} {prevIpId : σ → BitVec 16}
  {frame : ι → List UInt8} {v : List UInt8 → Option (BitVec 16)}

/-- An implementation decides by its verdict alone. -/
theorem Implements.judge_eq (h : Implements body prevIpId frame v) (s : σ) (i : ι) :
    judge (prevIpId s) (v (frame i)) = (body s i).map prevIpId fun r => r.decision := by
  rw [observe_judge, h s i]
  simp only [Pass.map, Option.map_map]
  rfl

/-- The decisions of a loop whose passes decide as `own` does. -/
theorem decisions_run {κ : Type} {own : BitVec 16 → κ → Pass (BitVec 16) Decision} {inp : ι → κ}
    (h : ∀ s i, own (prevIpId s) (inp i) = (body s i).map prevIpId fun r => r.decision)
    (is : List ι) (s : σ) :
    decisions prevIpId (run body s is) = run own (prevIpId s) (is.map inp) :=
  (run_map prevIpId inp (fun r : Report => r.decision) is s fun s i _ => h s i).symm

theorem Implements.decisions_eq (h : Implements body prevIpId frame v) (is : List ι) (s : σ) :
    decisions prevIpId (run body s is) = run judge (prevIpId s) (is.map fun i => v (frame i)) :=
  decisions_run h.judge_eq is s

end

/-! ## Gap detection -/

/-- Inputs with the number the sender gave to each that is for the client.
`idOf` is the id an input carries.  The numbers increase, and the ids are the
numbers modulo `2 ^ 16`, from `start` on. -/
structure Numbered {ι : Type} (idOf : ι → Option (BitVec 16)) (start : BitVec 16)
    (is : List (ι × Option Nat)) : Prop where
  ids : ∀ x ∈ is, idOf x.1 = x.2.map (serial start)
  increasing : (is.filterMap Prod.snd).Pairwise (· < ·)

/-- What the gap detector says of the next input, given the number of the input
accepted last. -/
def GapSaid (start : BitVec 16) (last : Option Nat) (prev : BitVec 16) (number : Option Nat)
    (prev' : BitVec 16) (out : Option Accepted) : Prop :=
  match number with
  | none => out = none ∧ prev' = prev
  | some j => ∃ a, out = some a ∧ prev' = serial start j ∧ a.ipId = serial start j ∧
      match last with
      | none =>
          a.gap = if (0 : BitVec 16) + 1 ≠ serial start j then some (0, serial start j) else none
      | some i => (a.gap.isSome ↔ (j - i - 1) % 65536 ≠ 0) ∧
          ∀ previous latest, a.gap = some (previous, latest) →
            ((latest.toNat : Int) - previous.toNat - 1) % 65536 = ((j - i - 1 : Nat) : Int) % 65536

/-- A client detects gaps exactly modulo `2 ^ 16`: in every run that starts with
previous id 0, at every input of the run. -/
def GapExact {σ ι : Type} (body : σ → ι → Pass σ Report) (prevIpId : σ → BitVec 16)
    (idOf : ι → Option (BitVec 16)) : Prop :=
  ∀ (s : σ) (start : BitVec 16) (pre : List (ι × Option Nat)) (x : ι × Option Nat)
    (post : List (ι × Option Nat)), prevIpId s = 0 →
    Numbered idOf start (pre ++ x :: post) →
    GapSaid start (pre.filterMap Prod.snd).getLast? (prevIpId (run body s (pre.map Prod.fst)).2) x.2
      (prevIpId (body (run body s (pre.map Prod.fst)).2 x.1).state)
      ((body (run body s (pre.map Prod.fst)).2 x.1).out.map Report.toAccepted)

/-- The id kept is the one of the input accepted last, and 0 before the first. -/
def lastSerial (start : BitVec 16) (last : Option Nat) : BitVec 16 :=
  (last.map (serial start)).getD 0

/-- The state of the receiver after a numbered run. -/
theorem run_observe_state {ι : Type} (frame : ι → List UInt8) {v : List UInt8 → Option (BitVec 16)}
    {start : BitVec 16} (is : List (ι × Option Nat)) (last : Option Nat)
    (h : ∀ x ∈ is, v (frame x.1) = x.2.map (serial start)) :
    (run (observe v) (lastSerial start last) (is.map fun x => frame x.1)).2 =
      lastSerial start ((is.filterMap Prod.snd).getLast?.or last) := by
  induction is generalizing last with
  | nil => simp
  | cons x is ih =>
      have hx := h x (List.mem_cons_self ..)
      have hrest := fun y hy => h y (List.mem_cons_of_mem _ hy)
      rw [List.map_cons, run_cons (observe_stop ..)]
      cases hn : x.2 with
      | none =>
          rw [hn, Option.map_none] at hx
          rw [List.filterMap_cons_none hn, observe_none hx]
          exact ih last hrest
      | some j =>
          rw [hn, Option.map_some] at hx
          have hstate := ih (some j) hrest
          rw [show lastSerial start (some j) = serial start j from rfl] at hstate
          rw [List.filterMap_cons_some hn, observe_some hx, List.getLast?_cons, hstate]
          cases (is.filterMap Prod.snd).getLast? <;> rfl

/-- The warning for two numbers of one sender. -/
theorem gapWarning_serial {i j : Nat} (start : BitVec 16) (h : i < j) :
    ((gapWarning (serial start i) (serial start j)).isSome ↔ (j - i - 1) % 65536 ≠ 0) ∧
      ∀ previous latest, gapWarning (serial start i) (serial start j) = some (previous, latest) →
        ((latest.toNat : Int) - previous.toNat - 1) % 65536 =
          ((j - i - 1 : Nat) : Int) % 65536 := by
  have hne : serial start i + 1 ≠ serial start j ↔ (j - i - 1) % 65536 ≠ 0 :=
    serial_succ_ne_iff start h
  constructor
  · rw [← hne]
    unfold gapWarning
    split <;> simp_all
  · intro previous latest hw
    unfold gapWarning at hw
    split at hw
    · cases hw
      have hsub := congrArg BitVec.toNat (serial_sub start h)
      have hone : (1 : BitVec 16).toNat = 1 := rfl
      simp only [BitVec.toNat_sub, BitVec.toNat_ofNat, hone] at hsub
      have hi := (serial start i).isLt
      have hj := (serial start j).isLt
      omega
    · cases hw

theorem observe_gapSaid {v : List UInt8 → Option (BitVec 16)} {f : List UInt8} {start : BitVec 16}
    {last number : Option Nat} (hv : v f = number.map (serial start))
    (hlt : ∀ i ∈ last, ∀ j ∈ number, i < j) :
    GapSaid start last (lastSerial start last) number (observe v (lastSerial start last) f).state
      (observe v (lastSerial start last) f).out := by
  cases number with
  | none =>
      rw [observe_none hv]
      exact ⟨rfl, rfl⟩
  | some j =>
      rw [observe_some hv]
      refine ⟨_, rfl, rfl, rfl, ?_⟩
      cases last with
      | none => rfl
      | some i => exact gapWarning_serial start (hlt i rfl j rfl)

/-- Whatever its verdict, an implementation of the receiver detects gaps
exactly. -/
theorem Implements.gapExact {σ ι : Type} {body : σ → ι → Pass σ Report} {prevIpId : σ → BitVec 16}
    {frame : ι → List UInt8} {v : List UInt8 → Option (BitVec 16)}
    (h : Implements body prevIpId frame v) :
    GapExact body prevIpId fun i => v (frame i) := by
  intro s start pre x post hs hnum
  have hids : ∀ y ∈ pre, v (frame y.1) = y.2.map (serial start) :=
    fun y hy => hnum.ids y (List.mem_append_left _ hy)
  have hx : v (frame x.1) = x.2.map (serial start) :=
    hnum.ids x (List.mem_append_right _ (List.mem_cons_self ..))
  have hprev : prevIpId (run body s (pre.map Prod.fst)).2 =
      lastSerial start (pre.filterMap Prod.snd).getLast? := by
    have hrun := h.run_eq (pre.map Prod.fst) s
    rw [List.map_map, hs] at hrun
    have hst := run_observe_state frame pre none hids
    rw [Option.or_none] at hst
    rw [← hst]
    exact (congrArg Prod.snd hrun).symm
  rw [h.state, h.out, hprev]
  refine observe_gapSaid hx ?_
  intro i hi j hj
  have hinc := hnum.increasing
  rw [List.filterMap_append, List.pairwise_append] at hinc
  refine hinc.2.2 i (List.mem_of_getLast? hi) j ?_
  rw [List.mem_filterMap]
  exact ⟨x, List.mem_cons_self .., hj⟩

-- A sender that comes round to the same id, with a rejected frame in between.
example : Numbered wireId 1 [(sampleFrame, some 0), ([], none), (taggedFrame, some 65536)] :=
  ⟨by decide, by decide⟩

end Wire
