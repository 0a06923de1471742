import DceSub.Client.RawSock
import DceSub.Client.Exanic

/-!
# What a decoded record depends on

`packet_handler_full` is given a pointer and no length.  It reads up to the end
of the longest payload, 62 bytes behind the headers, whatever the length of the
frame.  The socket clients clear `output_data` before each call but never the
receive buffer, so behind a short frame the decoder finds what an earlier, longer
frame has left there.

`DecodesAlone` is the two-run property that this must not matter.  It holds of a
frame exactly when the frame reaches to the end of what is read
(`decodesAlone_iff`): the length test of the loops, `size > 64`, does not give
that.
-/

namespace Client

open Base Wire

/-! ## What the decoder reads -/

/-- How many bytes of its input the decoder may read: the headers, the tag if
there is one, and the longest payload. -/
def decodedLen (m : Mem) : Nat := 42 + (if IsDot1qAt m 12 then 4 else 0) + 62

/-- A decoder whose result is determined by those bytes and by
`output_data`. -/
def ReadsDecoded (packetHandlerFull : PacketHandlerFull) : Prop :=
  ∀ m m' out, (∀ k, k < decodedLen m → m k = m' k) →
    packetHandlerFull m out = packetHandlerFull m' out

theorem decodedLen_congr {m m' : Mem} (h12 : m 12 = m' 12) (h13 : m 13 = m' 13) :
    decodedLen m = decodedLen m' := by
  have hq : IsDot1qAt m 12 ↔ IsDot1qAt m' 12 := by
    rw [IsDot1qAt, IsDot1qAt, h12]
    exact and_congr_right fun _ => by rw [h13]
  simp only [decodedLen, hq]

theorem le_decodedLen (m : Mem) : 104 ≤ decodedLen m := by
  unfold decodedLen
  omega

theorem decodedLen_le (m : Mem) : decodedLen m ≤ 108 := by
  unfold decodedLen
  split <;> omega

/-- The report of the packet block carries what the decoder made of the memory
from the packet on. -/
theorem packetBlock_report {packetHandlerFull : PacketHandlerFull} {m : Mem} {p len : Nat}
    {size : Int} {s : RxState} {r : Report}
    (h : (packetBlock packetHandlerFull m p len size s).2 = some r) :
    (r.result, r.decoded) = packetHandlerFull (fun k => m (p + k)) zeroOutput := by
  unfold packetBlock at h
  split at h
  · cases h
  · cases h
    rfl

/-- The bytes just received are at the beginning of the buffer. -/
theorem writeBytes_view (b : Mem) {bs : List UInt8} {k : Nat} (hk : k < bs.length) :
    writeBytes b 0 bs (0 + k) = view bs k := by
  rw [(writeBytes_holds b 0 bs).view hk, Nat.zero_add]

/-! ## Loops over one receive buffer -/

section

variable {ι : Type}

/-- A loop that receives into a buffer it does not clear: `bytes` is what an
input overwrites, and the decoder is given the buffer. -/
structure BufferLoop (body : PacketHandlerFull → SockState → ι → Pass SockState Report)
    (frame bytes : ι → List UInt8) : Prop where
  implements : ∀ h, Implements (body h) SockState.prevIpId frame verdict
  buf : ∀ h s i, (body h s i).state.buf = writeBytes s.buf 0 (bytes i)
  report : ∀ h s i r, (body h s i).out = some r →
    (r.result, r.decoded) = h (fun k => writeBytes s.buf 0 (bytes i) (0 + k)) zeroOutput

/-- The record decoded from an input does not depend on what was received
before: not on the initial contents of the buffer, and not on the history. -/
def DecodesAlone (body : PacketHandlerFull → SockState → ι → Pass SockState Report) (i : ι) :
    Prop :=
  ∀ h, ReadsDecoded h → ∀ (s s' : SockState) (history history' : List ι) (r r' : Report),
    (body h (run (body h) s history).2 i).out = some r →
    (body h (run (body h) s' history').2 i).out = some r' →
    r.result = r'.result ∧ r.decoded = r'.decoded

variable {body : PacketHandlerFull → SockState → ι → Pass SockState Report}
  {frame bytes : ι → List UInt8}

/-- An accepted input is reported in every state. -/
theorem BufferLoop.accepts (L : BufferLoop body frame bytes) {i : ι}
    (hv : (verdict (frame i)).isSome) (h : PacketHandlerFull) (s : SockState) :
    ∃ r, (body h s i).out = some r := by
  have hout := (L.implements h).out s i
  rw [← observe_out_isSome verdict s.prevIpId, ← hout, Option.isSome_map] at hv
  exact Option.isSome_iff_exists.mp hv

/-- A frame that reaches to the end of what is read is decoded alone. -/
theorem BufferLoop.decodesAlone_of_le (L : BufferLoop body frame bytes) {i : ι}
    (hlen : decodedLen (view (bytes i)) ≤ (bytes i).length) : DecodesAlone body i := by
  intro h hreads s s' history history' r r' hr hr'
  have hle := le_decodedLen (view (bytes i))
  have hlook : ∀ b : Mem, h (fun k => writeBytes b 0 (bytes i) (0 + k)) zeroOutput =
      h (view (bytes i)) zeroOutput := by
    intro b
    refine (hreads _ _ _ fun k hk => ?_).symm
    exact (writeBytes_view b (by omega)).symm
  have hs := (L.report h _ i r hr).trans (hlook _)
  have hs' := (L.report h _ i r' hr').trans (hlook _)
  exact Prod.mk.inj (hs.trans hs'.symm)

/-- A decoder that returns the byte at `n`, if it may read it. -/
def peek (n : Nat) : PacketHandlerFull := fun m out =>
  (if n < decodedLen m then (m n).toNat else 0, out)

theorem peek_readsDecoded (n : Nat) : ReadsDecoded (peek n) := by
  intro m m' out hm
  have hle := le_decodedLen m
  have hlen := decodedLen_congr (hm 12 (by omega)) (hm 13 (by omega))
  unfold peek
  rw [← hlen]
  split
  next hn => rw [hm n hn]
  next => rfl

/-- An input that fills the beginning of the buffer with one byte. -/
def filler (c : UInt8) : List UInt8 := List.replicate 2048 c

theorem filler_length (c : UInt8) : (filler c).length = 2048 := List.length_replicate

theorem getElem?_filler {c : UInt8} {k : Nat} (hk : k < 2048) : (filler c)[k]? = some c := by
  rw [filler, List.getElem?_replicate, if_pos hk]

/-- Behind a frame that is too short the decoder sees the previous input. -/
theorem BufferLoop.peek_result (L : BufferLoop body frame bytes) {i g : ι} {c : UInt8}
    (hg : bytes g = filler c) (hi : 14 ≤ (bytes i).length)
    (hlen : (bytes i).length < decodedLen (view (bytes i))) {s : SockState} {r : Report}
    (hr : (body (peek (bytes i).length) (run (body (peek (bytes i).length)) s [g]).2 i).out =
      some r) : r.result = c.toNat := by
  have hle := decodedLen_le (view (bytes i))
  have hrep := congrArg Prod.fst (L.report _ _ i r hr)
  have hbuf : (run (body (peek (bytes i).length)) s [g]).2.buf =
      writeBytes s.buf 0 (filler c) := by
    rw [run_cons ((L.implements _).stop s g), run_nil, L.buf, hg]
  rw [hbuf] at hrep
  let old := writeBytes s.buf 0 (filler c)
  have hdec : decodedLen (fun k => writeBytes old 0 (bytes i) (0 + k)) =
      decodedLen (view (bytes i)) :=
    decodedLen_congr (writeBytes_view old (by omega)) (writeBytes_view old (by omega))
  have hat : writeBytes old 0 (bytes i) (0 + (bytes i).length) = c := by
    simp only [old]
    rw [writeBytes_ge (by omega), writeBytes, if_pos (by omega), getElem?_filler (by omega),
      Option.getD_some]
  refine hrep.trans ?_
  simp only [peek]
  rw [hat, if_pos (hdec ▸ hlen)]

/-- A frame is decoded alone exactly when it reaches to the end of what is
read. -/
theorem BufferLoop.decodesAlone_iff (L : BufferLoop body frame bytes)
    (hfill : ∀ c, ∃ g, bytes g = filler c) {i : ι}
    (hv : (verdict (frame i)).isSome) (hframe : frame i = bytes i) :
    DecodesAlone body i ↔ decodedLen (view (bytes i)) ≤ (bytes i).length := by
  constructor
  · intro h
    by_contra hshort
    have hlen : 64 < (bytes i).length := by
      by_contra hn
      rw [hframe, verdict_of_le (by omega)] at hv
      cases hv
    obtain ⟨g, hg⟩ := hfill 0
    obtain ⟨g', hg'⟩ := hfill 1
    let peeked := peek (bytes i).length
    let start : SockState := ⟨fun _ => 0, ⟨0, zeroOutput⟩⟩
    obtain ⟨r, hr⟩ := L.accepts hv peeked (run (body peeked) start [g]).2
    obtain ⟨r', hr'⟩ := L.accepts hv peeked (run (body peeked) start [g']).2
    have hres := (h peeked (peek_readsDecoded _) start start [g] [g'] r r' hr hr').1
    rw [L.peek_result hg (by omega) (by omega) hr, L.peek_result hg' (by omega) (by omega) hr']
      at hres
    exact absurd hres (by decide)
  · exact L.decodesAlone_of_le

end

/-! ## The two socket clients -/

theorem rawsock_bufferLoop : BufferLoop rawsockFrame received received where
  implements := rawsockFrame_implements
  buf := by
    intro h s f
    by_cases hf : 64 < f.length
    · rw [rawsockFrame_of_lt hf]
    · rw [rawsockFrame_of_le (by omega)]
      rfl
  report := by
    intro h s f r hr
    by_cases hf : 64 < f.length
    · rw [rawsockFrame_of_lt hf] at hr
      exact packetBlock_report hr
    · rw [rawsockFrame_of_le (by omega)] at hr
      cases hr

theorem exanic_bufferLoop : BufferLoop exanicPass ExanicRx.frame ExanicRx.bytes where
  implements := exanicPass_implements
  buf := by
    intro h s i
    unfold exanicPass
    split <;> rfl
  report := by
    intro h s i r hr
    unfold exanicPass at hr
    split at hr
    · exact packetBlock_report hr
    · cases hr

theorem received_filler (c : UInt8) : received (filler c) = filler c :=
  List.take_of_length_le (by rw [filler_length]; decide)

/-- Cutting a frame to the raw-socket buffer does not change whether it reaches
to the end of what is read. -/
theorem decodedLen_received (f : List UInt8) :
    decodedLen (view (received f)) ≤ (received f).length ↔ decodedLen (view f) ≤ f.length := by
  have hsame : decodedLen (view (received f)) = decodedLen (view f) := by
    apply decodedLen_congr <;>
    · simp only [view, received, List.getD_eq_getElem?_getD]
      rw [List.getElem?_take_of_lt (by decide)]
  have hle := decodedLen_le (view f)
  rw [hsame, received, List.length_take, bufSize]
  omega

/-- In the raw-socket loop, and likewise in the ExaNIC loop, the record decoded
from an accepted frame depends on that frame alone exactly when the frame
reaches to the end of the longest payload. -/
theorem sockets_decodeAlone_iff (f : List UInt8) (hv : (verdict f).isSome) :
    (DecodesAlone rawsockFrame f ↔ decodedLen (view f) ≤ f.length) ∧
      ∀ i : ExanicRx, i.frame = f →
        (DecodesAlone exanicPass i ↔ decodedLen (view f) ≤ f.length) := by
  refine ⟨?_, ?_⟩
  · rw [← decodedLen_received]
    refine rawsock_bufferLoop.decodesAlone_iff (fun c => ⟨filler c, received_filler c⟩) ?_ rfl
    rw [verdict_received]
    exact hv
  · rintro i rfl
    have hpos : 0 < i.size := by
      by_contra hn
      rw [ExanicRx.frame, if_neg hn] at hv
      exact absurd hv (by decide)
    have hframe : i.frame = i.bytes := if_pos hpos
    rw [hframe]
    exact exanic_bufferLoop.decodesAlone_iff
      (fun c => ⟨ExanicRx.ofFrame (filler c) (filler_length c).le, rfl⟩) hv hframe

theorem sockets_decodeAlone_iff_sample :
    (verdict sampleFrame).isSome ∧
      (DecodesAlone rawsockFrame sampleFrame ↔
        decodedLen (view sampleFrame) ≤ sampleFrame.length) ∧
      ∀ i : ExanicRx, i.frame = sampleFrame →
        (DecodesAlone exanicPass i ↔ decodedLen (view sampleFrame) ≤ sampleFrame.length) :=
  ⟨by decide, sockets_decodeAlone_iff sampleFrame (by decide)⟩

/-- After a frame of zeros and after a frame of ones the same 70-byte frame is
accepted, and a decoder that looks at the byte behind it gives two results. -/
theorem rawsock_decodes_residue :
    let start : SockState := ⟨fun _ => 0, ⟨0, zeroOutput⟩⟩
    let after := fun c => (run (rawsockFrame (peek 70)) start [filler c]).2
    ReadsDecoded (peek 70) ∧
      ∃ r r', (rawsockFrame (peek 70) (after 0) sampleFrame).out = some r ∧
        (rawsockFrame (peek 70) (after 1) sampleFrame).out = some r' ∧ r.result ≠ r'.result := by
  intro start after
  have hv : (verdict (received sampleFrame)).isSome := by
    rw [verdict_received]
    decide
  obtain ⟨r, hr⟩ := rawsock_bufferLoop.accepts hv (peek 70) (after 0)
  obtain ⟨r', hr'⟩ := rawsock_bufferLoop.accepts hv (peek 70) (after 1)
  have hres := rawsock_bufferLoop.peek_result (i := sampleFrame) (received_filler 0)
    (by decide) (by decide) hr
  have hres' := rawsock_bufferLoop.peek_result (i := sampleFrame) (received_filler 1)
    (by decide) (by decide) hr'
  refine ⟨peek_readsDecoded 70, r, r', hr, hr', ?_⟩
  rw [hres, hres']
  decide

end Client
