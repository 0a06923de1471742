import DceSub.Client.RawSock
import DceSub.Client.Exanic

/-!
# 802.1Q tags are transparent

A switch may put a tag of four bytes between the addresses and the ethertype of
a frame.  In the socket loops a tag makes no difference: the ethertype behind it
decides as the one in its place did, and every field is read four bytes further
on (`verdict_tagged`).  The two bytes of the tag's control information are
never looked at.

So a run over frames, each of them tagged or not, comes to the decisions of the
run over the untagged frames.
-/

namespace Client

open Base Wire

/-! ## Tagging a frame -/

/-- The tag control information of an 802.1Q tag. -/
structure Tci where
  hi : UInt8
  lo : UInt8

/-- Put a tag at byte 12 of a frame. -/
def insertTag (tci : Tci) (f : List UInt8) : List UInt8 :=
  f.take 12 ++ [0x81, 0x00, tci.hi, tci.lo] ++ f.drop 12

/-- A frame as it arrives, with a tag or without. -/
def tagged : Option Tci → List UInt8 → List UInt8
  | none, f => f
  | some tci, f => insertTag tci f

variable {tci : Tci} {f : List UInt8}

theorem insertTag_length (h : 12 ≤ f.length) : (insertTag tci f).length = f.length + 4 := by
  simp only [insertTag, List.length_append, List.length_take, List.length_drop, List.length_cons,
    List.length_nil]
  omega

theorem tagged_length_le {tag : Option Tci} (h : 12 ≤ f.length) :
    (tagged tag f).length ≤ f.length + 4 := by
  cases tag with
  | none => exact Nat.le_add_right ..
  | some tci => exact (insertTag_length h).le

/-- The tag is at bytes 12 and 13. -/
theorem insertTag_isDot1q (h : 12 ≤ f.length) : IsDot1qAt (view (insertTag tci f)) 12 := by
  have hlen : (f.take 12).length = 12 := List.length_take_of_le h
  constructor
  · simp [view, insertTag, hlen]
  · simp [view, insertTag, List.getElem?_append, hlen]

/-- Behind the tag the frame goes on. -/
theorem view_insertTag (h : 12 ≤ f.length) {k : Nat} (hk : 12 ≤ k) :
    view (insertTag tci f) (k + 4) = view f k := by
  have hlen : (f.take 12 ++ [0x81, 0x00, tci.hi, tci.lo]).length = 16 := by
    rw [List.length_append, List.length_take_of_le h]
    rfl
  have hk' : 12 + (k + 4 - 16) = k := by omega
  rw [view, view, List.getD_eq_getElem?_getD, List.getD_eq_getElem?_getD, insertTag,
    List.getElem?_append_right (by omega), hlen, List.getElem?_drop, hk']

/-- A field of the frame is found four bytes further on. -/
theorem field_insertTag (h : 12 ≤ f.length) {a : Nat} (ha : 12 ≤ a) (k : Nat) :
    view (insertTag tci f) (a + 4 + k) = view f (a + k) := by
  rw [Nat.add_right_comm, view_insertTag h (by omega)]

/-! ## The verdict -/

/-- The inner ethertype decides as the outer one does on the untagged frame, and
destination and id are the same. -/
theorem lastIpId_insertTag (h : 12 ≤ f.length) (hq : ¬ IsDot1qAt (view f) 12) :
    lastIpId (view (insertTag tci f)) 0 = lastIpId (view f) 0 := by
  have hq' : IsDot1qAt (view (insertTag tci f)) 12 := insertTag_isDot1q h
  have heth : IsIpv4At (view (insertTag tci f)) 16 ↔ IsIpv4At (view f) 12 :=
    isIpv4At_congr fun k _ => field_insertTag h (by decide) k
  by_cases h4 : IsIpv4At (view f) 12
  · have ht : Tagged (view f) 0 0 := .no h4
    have ht' : Tagged (view (insertTag tci f)) 0 4 := .yes hq' (heth.mpr h4)
    have hdst : IsDstAt (view (insertTag tci f)) (0 + 4 + 30) ↔ IsDstAt (view f) (0 + 0 + 30) :=
      isDstAt_congr fun k _ => field_insertTag (a := 30) h (by decide) k
    have hid : u16le (view (insertTag tci f)) (0 + 4 + 18) = u16le (view f) (0 + 0 + 18) :=
      u16le_congr (field_insertTag (a := 18) h (by decide) 0)
        (field_insertTag (a := 18) h (by decide) 1)
    rw [lastIpId_of_tagged ht, lastIpId_of_tagged ht', hid]
    simp only [hdst]
  · have hno : dot1qOffset (view f) 0 = none := by
      rw [dot1qOffset_eq, if_neg h4, if_neg fun hc => hq hc.1]
    have hno' : dot1qOffset (view (insertTag tci f)) 0 = none := by
      rw [dot1qOffset_eq, if_neg (not_ipv4_of_dot1q hq'), if_neg fun hc => h4 (heth.mp hc.2)]
    rw [lastIpId, lastIpId, hno, hno']

theorem verdict_tagged {tag : Option Tci} (hlen : 64 < f.length) (hq : ¬ IsDot1qAt (view f) 12) :
    verdict (tagged tag f) = verdict f := by
  cases tag with
  | none => rfl
  | some tci =>
      have hlen' : 64 < (insertTag tci f).length := by
        rw [insertTag_length (by omega)]
        omega
      rw [tagged, verdict_of_lt hlen', verdict_of_lt hlen, lastIpId_insertTag (by omega) hq]

/-! ## Runs -/

/-- A sequence of frames, each with the tag it is to get. -/
abbrev Tagging := List (List UInt8 × Option Tci)

/-- The frames of a sequence without their tags. -/
def Tagging.plain (fs : Tagging) : List (List UInt8) := fs.map Prod.fst

/-- The frames of a sequence with their tags. -/
def Tagging.tagged (fs : Tagging) : List (List UInt8) := fs.map fun x => Client.tagged x.2 x.1

theorem Tagging.verdicts {fs : Tagging}
    (h : ∀ x ∈ fs, 64 < x.1.length ∧ ¬ IsDot1qAt (view x.1) 12) :
    fs.tagged.map verdict = fs.plain.map verdict := by
  rw [Tagging.tagged, Tagging.plain, List.map_map, List.map_map]
  apply List.map_congr_left
  intro x hx
  exact verdict_tagged (h x hx).1 (h x hx).2

/-- Two runs of an implementation of the common verdict, over the frames with
their tags and without. -/
theorem decisions_tagged {σ ι : Type} {body : σ → ι → Pass σ Report} {prevIpId : σ → BitVec 16}
    {frame : ι → List UInt8} (hbody : Implements body prevIpId frame verdict) {fs : Tagging}
    (h : ∀ x ∈ fs, 64 < x.1.length ∧ ¬ IsDot1qAt (view x.1) 12) {is is' : List ι}
    (his : is.map frame = fs.plain) (his' : is'.map frame = fs.tagged) {s s' : σ}
    (hs : prevIpId s = prevIpId s') :
    decisions prevIpId (run body s is) = decisions prevIpId (run body s' is') := by
  have hv := Tagging.verdicts h
  rw [← his, ← his', List.map_map, List.map_map] at hv
  rw [hbody.decisions_eq, hbody.decisions_eq, hs]
  exact congrArg _ hv.symm

/-- Tags are transparent to the raw-socket loop and to the ExaNIC loop: for
frames of more than 64 and at most 2044 bytes that do not have ethertype `81 00`
themselves, with or without a tag each, a run accepts the same positions with
the same ids and warnings, and keeps the same id. -/
theorem sockets_vlan_transparent (packetHandlerFull : PacketHandlerFull) (fs : Tagging)
    (hlen : ∀ x ∈ fs, 64 < x.1.length ∧ x.1.length ≤ 2044)
    (heth : ∀ x ∈ fs, ¬ IsDot1qAt (view x.1) 12) :
    ∀ s s' : SockState, s.prevIpId = s'.prevIpId →
      decisions SockState.prevIpId (run (rawsockFrame packetHandlerFull) s fs.plain) =
          decisions SockState.prevIpId (run (rawsockFrame packetHandlerFull) s' fs.tagged) ∧
        decisions SockState.prevIpId
            (run (exanicPass packetHandlerFull) s (ExanicRx.deliver fs.plain)) =
          decisions SockState.prevIpId
            (run (exanicPass packetHandlerFull) s' (ExanicRx.deliver fs.tagged)) := by
  intro s s' hs
  have h : ∀ x ∈ fs, 64 < x.1.length ∧ ¬ IsDot1qAt (view x.1) 12 :=
    fun x hx => ⟨(hlen x hx).1, heth x hx⟩
  have hplain : ∀ f ∈ fs.plain, f.length ≤ packetBufSize := by
    intro f hf
    obtain ⟨x, hx, rfl⟩ := List.mem_map.mp hf
    have := (hlen x hx).2
    simp only [packetBufSize]
    omega
  have htagged : ∀ f ∈ fs.tagged, f.length ≤ packetBufSize := by
    intro f hf
    obtain ⟨x, hx, rfl⟩ := List.mem_map.mp hf
    have hx64 := hlen x hx
    have htag : (tagged x.2 x.1).length ≤ x.1.length + 4 := tagged_length_le (by omega)
    simp only [packetBufSize]
    omega
  have hbuf : packetBufSize ≤ bufSize := by decide
  constructor
  · exact decisions_tagged (rawsockFrame_implements packetHandlerFull) h
      (map_received fun f hf => (hplain f hf).trans hbuf)
      (map_received fun f hf => (htagged f hf).trans hbuf) hs
  · exact decisions_tagged (exanicPass_implements packetHandlerFull) h
      (ExanicRx.deliver_frame hplain) (ExanicRx.deliver_frame htagged) hs

theorem sockets_vlan_transparent_sample :
    let fs : Tagging :=
      [(sampleFrame, some ⟨0, 7⟩), (sampleFrame, none), (List.replicate 70 0, none)]
    let s : SockState := ⟨fun _ => 0, freshRx⟩
    let s' : SockState := ⟨fun _ => 1, freshRx⟩
    decisions SockState.prevIpId (run (rawsockFrame noMessage) s fs.plain) =
        decisions SockState.prevIpId (run (rawsockFrame noMessage) s' fs.tagged) ∧
      decisions SockState.prevIpId (run (exanicPass noMessage) s (ExanicRx.deliver fs.plain)) =
        decisions SockState.prevIpId
          (run (exanicPass noMessage) s' (ExanicRx.deliver fs.tagged)) := by
  intro fs s s'
  exact sockets_vlan_transparent noMessage fs (by decide) (by decide) s s' rfl

end Client
