import DceSub.Client.Agreement
import DceSub.Efvi.Delivery

/-!
# The same frame on two paths

A frame on the wire reaches the raw-socket loop in its buffer, and the EF_VI
handler through a DMA write, an event and `rx_ptr`.  The two ends of the second
path do not meet.  `init` sets `rx_ptr` to the first byte of the frame, behind
the receive prefix, and `poll_evq` takes the length of the prefix off the length
of the event, so that `handle_pkt` is given the frame from its first byte on.
But `handle_pkt` reads its fields as if the pointer were six bytes into the
frame, and hands on the address six bytes before it.

So on an untagged IPv4/UDP frame the verdict of `handle_rx` depends on bytes
that are not the fields it means (`Shifted`), and agrees with that of the
raw-socket loop only on frames that both of them reject.
-/

namespace Efvi

open Base Wire Client Resources

/-! ## Delivery of one frame -/

/-- Packet memory after the NIC has delivered `f` to buffer `i`, behind the
bytes `head` of the receive prefix. -/
def Setup.deliver (su : Setup) (L : Layout) (i : Nat) (head f : List UInt8) (m : Mem) : Mem :=
  su.memreg.dmaWrite su.pktBufs (L.desc i).addr (head ++ f) m

/-- Where the first byte of that frame is: `rx_prefix_len` bytes behind the
posted DMA address. -/
def Setup.frameAddr (su : Setup) (L : Layout) (i : Nat) : Nat :=
  su.pktBufs + su.memreg.resolve ((L.desc i).addr + su.rxPrefixLen)

section

variable {su : Setup} {L : Layout} {i : Nat}

/-- `rx_ptr` is the address of the first byte of the frame. -/
theorem Setup.Configured.rxPtr_eq (h : su.Configured L) (hL : L.Carved) (hi : i < L.pktBufsN)
    (hr : su.rxPrefixLen ≤ 255) : L.rxPtr (L.bufAddr i) = su.frameAddr L i := by
  have hfar : i * pktBufSize % 4096 + (rxDmaOff + su.rxPrefixLen) < 4096 := by
    rw [pktBufSize, rxDmaOff_eq]
    omega
  have haddr : (L.desc i).addr + su.rxPrefixLen =
      su.memreg.efMemregDmaAddr (i * pktBufSize) + (rxDmaOff + su.rxPrefixLen) := by
    rw [← h.efviAddr i hi, ← Nat.add_assoc]
    rfl
  rw [hL.rxPtr i hi, Setup.frameAddr, haddr, su.memreg.resolve_efMemregDmaAddr hfar,
    Layout.bufAddr, h.pktBufs, h.rxPrefixLen]
  omega

/-- The frame is there. -/
theorem Setup.Configured.deliver_holds (h : su.Configured L) (hL : L.Carved)
    (hi : i < L.pktBufsN) (hr : su.rxPrefixLen ≤ 255) {head f : List UInt8}
    (hhead : head.length = su.rxPrefixLen) (hf : f.length ≤ 1500) (m : Mem) :
    Holds (su.deliver L i head f m) (su.frameAddr L i) f := by
  have hlen : (head ++ f).length ≤ receiveBufferLen := by
    rw [List.length_append, receiveBufferLen]
    omega
  have hholds := (writeBytes_holds m (L.bufAddr i + rxDmaOff) (head ++ f)).append_right
  rw [hhead, ← h.rxPrefixLen, ← hL.rxPtr i hi, h.rxPtr_eq hL hi hr] at hholds
  rw [Setup.deliver, h.dmaWrite_eq hi hlen]
  exact hholds

end

/-- What `handle_rx` adds to the output for a good frame. -/
theorem handleEvent_rx_out (packetHandlerFull : PacketHandlerFull) (m : Mem) (c : McClient)
    {i : Nat} (hi : i < c.res.pktBufsN) (len : Nat) :
    ∃ c', handleEvent packetHandlerFull m c (.rx i len true false) = some c' ∧
      c'.out = c.out ++ ((handlePkt packetHandlerFull m
        (c.res.layout.rxPtr (c.res.layout.bufAddr i)) ((len : Int) - c.res.rxPrefixLen)
        c.rx).2.map Output.report).toList := by
  have hbuf : c.res.pktBufFromId i = some (c.res.layout.bufAddr i) := if_pos hi
  exact ⟨_, by rw [handleEvent, handleRx, hbuf]; rfl, rfl⟩

/-! ## The verdict of the handler, six bytes off -/

/-- The fields `handle_pkt` looks for, six bytes before their place in an
untagged frame. -/
def Shifted (f : List UInt8) : Prop :=
  IsIpv4At (view f) 6 ∧ view f 8 = 0x45 ∧ view f 17 = 0x11 ∧ IsDstAt (view f) 24

theorem handlePkt_packetBuf {packetHandlerFull : PacketHandlerFull} {m : Mem} {p : Nat} {len : Int}
    {s : RxState} {r : Report} (h : (handlePkt packetHandlerFull m p len s).2 = some r) :
    r.packetBuf = p - 6 := by
  unfold handlePkt packetBlock at h
  split at h
  · cases h
  · simp only at h
    split at h
    · cases h
    · cases h
      rfl

/-- What a call sees as byte `k + 6` of its frame is the byte `k` at its
pointer. -/
theorem view_frame_add {a : PktArg} {f : List UInt8} (hholds : Holds a.mem a.p f)
    (hlen : (f.length : Int) = a.len) {k : Nat} (hk : k < f.length) :
    view a.frame (k + 6) = view f k := by
  have hframe := a.frame_length
  have hk' := hholds.view hk
  rw [Nat.zero_add] at hk'
  rw [← hk']
  exact a.view_frame (by omega) (by omega)

/-- Given a pointer to the first byte of a frame, `handle_pkt` finds its fields
if they are where they should not be. -/
theorem strict_iff_shifted {a : PktArg} {f : List UInt8} (hholds : Holds a.mem a.p f)
    (hlen : (f.length : Int) = a.len) (h60 : 60 ≤ f.length) :
    Strict a.frame ∧ IsDstAt (view a.frame) 30 ↔ Shifted f := by
  have hframe := a.frame_length
  have hview : ∀ k, k < 60 → view a.frame (k + 6) = view f k :=
    fun k hk => view_frame_add hholds hlen (by omega)
  have hlong : 66 ≤ a.frame.length := by omega
  simp only [Strict, Shifted, IsIpv4At, IsDstAt, hlong, true_and, hview 6 (by decide),
    hview 7 (by decide), hview 8 (by decide), hview 17 (by decide), hview 24 (by decide),
    hview 25 (by decide), hview 26 (by decide), hview 27 (by decide), and_assoc]

theorem handlePkt_isSome_iff (packetHandlerFull : PacketHandlerFull) {m : Mem} {p : Nat}
    {f : List UInt8} (hp : 6 ≤ p) (hholds : Holds m p f) (hlen : 60 ≤ f.length) (s : RxState) :
    (handlePkt packetHandlerFull m p f.length s).2.isSome ↔ Shifted f := by
  have hout := (handlePkt_implements packetHandlerFull).out_isSome s
    ⟨m, p, f.length, hp, by omega⟩
  rw [← strict_iff_shifted (a := ⟨m, p, f.length, hp, by omega⟩) hholds rfl hlen,
    ← strictVerdict_isSome_iff, ← hout]
  rfl

/-- The raw-socket loop accepts an untagged IPv4/UDP frame if it is for the
address wanted. -/
theorem rawsockFrame_isSome_iff (packetHandlerFull : PacketHandlerFull) {f : List UInt8}
    (hf : UdpFrame f 0) (s : SockState) :
    (rawsockFrame packetHandlerFull s f).out.isSome ↔ IsDstAt (view f) 30 := by
  have hlen : 64 < f.length := by have := hf.long; omega
  rw [(rawsockFrame_implements packetHandlerFull).out_isSome, verdict_received, verdict_of_lt hlen,
    lastIpId_of_tagged hf.carried]
  by_cases hd : IsDstAt (view f) 30
  · simp [hd]
  · simp [hd]

/-! ## The comparison -/

/-- The event of the frame `f` in buffer `i`, in the memory `m`, makes
`handle_rx` hand a frame to `packet_handler_full` if and only if the raw-socket
loop does on `f`; the pointer handed over is that of the first byte of `f`, and
both read the same id. -/
def SameVerdict (packetHandlerFull : PacketHandlerFull) (su : Setup) (c : McClient) (i : Nat)
    (m : Mem) (f : List UInt8) (s : SockState) : Prop :=
  ∃ c' handed,
    handleEvent packetHandlerFull m c (.rx i (su.rxPrefixLen + f.length) true false) = some c' ∧
    c'.out = c.out ++ (handed.map Output.report).toList ∧
    (handed.isSome ↔ (rawsockFrame packetHandlerFull s f).out.isSome) ∧
    ∀ r, handed = some r → r.packetBuf = su.frameAddr c.res.layout i ∧
      ∀ r', (rawsockFrame packetHandlerFull s f).out = some r' → r.ipId = r'.ipId

theorem report_toList_inj {x y : Option Report}
    (h : (x.map Output.report).toList = (y.map Output.report).toList) : x = y := by
  cases x with
  | none =>
      cases y with
      | none => rfl
      | some r => cases h
  | some r =>
      cases y with
      | none => cases h
      | some r' =>
          cases h
          rfl

/-- Since the handler never hands over the pointer to the first byte, the two
agree on nothing but rejected frames. -/
theorem sameVerdict_iff {packetHandlerFull : PacketHandlerFull} {su : Setup} {c : McClient}
    {i : Nat} {m : Mem} {f : List UInt8} {s : SockState} (h : su.Configured c.res.layout)
    (hL : c.res.layout.Carved) (hi : i < c.res.pktBufsN) (hr : su.rxPrefixLen ≤ 255)
    (hholds : Holds m (su.frameAddr c.res.layout i) f) (hf : UdpFrame f 0) :
    SameVerdict packetHandlerFull su c i m f s ↔ ¬ IsDstAt (view f) 30 ∧ ¬ Shifted f := by
  have hlong := hf.long
  have hptr := h.rxPtr_eq hL hi hr
  have hlen : ((su.rxPrefixLen + f.length : Nat) : Int) - c.res.rxPrefixLen = f.length := by
    rw [show c.res.rxPrefixLen = su.rxPrefixLen from h.rxPrefixLen]
    omega
  have hpos : 6 ≤ su.frameAddr c.res.layout i := by
    rw [← hptr, hL.rxPtr i hi, rxDmaOff_eq]
    omega
  obtain ⟨c', hc', hout⟩ := handleEvent_rx_out packetHandlerFull m c hi
    (su.rxPrefixLen + f.length)
  rw [hptr, hlen] at hout
  have hefvi := handlePkt_isSome_iff packetHandlerFull hpos hholds (by omega) c.rx
  have hraw := rawsockFrame_isSome_iff packetHandlerFull hf s
  generalize hx : (handlePkt packetHandlerFull m (su.frameAddr c.res.layout i) f.length c.rx).2 = x
    at hout hefvi
  constructor
  · rintro ⟨c'', handed, hc'', hout'', hiff, hagree⟩
    obtain rfl := Option.some.inj (hc'.symm.trans hc'')
    obtain rfl : handed = x :=
      report_toList_inj (List.append_cancel_left (hout''.symm.trans hout))
    have hnone : ¬ handed.isSome := by
      intro hsome
      obtain ⟨r, hr'⟩ := Option.isSome_iff_exists.mp hsome
      have hwrong := handlePkt_packetBuf (hx.trans hr')
      have hright := (hagree r hr').1
      omega
    exact ⟨fun hd => hnone (hiff.mpr (hraw.mpr hd)), fun hs => hnone (hefvi.mpr hs)⟩
  · rintro ⟨hd, hs⟩
    have hnone : x = none := Option.not_isSome_iff_eq_none.mp fun hsome => hs (hefvi.mp hsome)
    refine ⟨c', x, hc', hout, ?_, ?_⟩
    · rw [hefvi, hraw]
      exact iff_of_false hs hd
    · intro r hr'
      rw [hnone] at hr'
      cases hr'

/-- After `init`, the event of an untagged IPv4/UDP frame gets the verdict of the
raw-socket loop exactly when the frame is not for the address wanted and does
not have the fields `handle_pkt` looks for six bytes before their place. -/
theorem handleRx_agrees_iff (packetHandlerFull : PacketHandlerFull) (su : Setup)
    (hc : 15 ≤ su.capacity) (hr : su.rxPrefixLen ≤ 255) (fuel : Nat) (out : Filling)
    (hinit : su.init fuel = some out) (c : McClient) (hlayout : c.res.layout = out.res.layout)
    (i : Nat) (hi : i < c.res.pktBufsN) (head f : List UInt8)
    (hhead : head.length = su.rxPrefixLen) (hf : UdpFrame f 0) (hlen : f.length ≤ 1500) (m : Mem)
    (s : SockState) :
    SameVerdict packetHandlerFull su c i (su.deliver c.res.layout i head f m) f s ↔
      ¬ IsDstAt (view f) 30 ∧ ¬ Shifted f := by
  obtain ⟨p, hposted, -, -⟩ := Setup.init_posted hc hinit
  have hconf : su.Configured c.res.layout := by
    rw [hlayout]
    exact hposted.configured
  have hcarved : c.res.layout.Carved := by
    rw [hlayout]
    exact hposted.owns.carved
  exact sameVerdict_iff hconf hcarved hi hr (hconf.deliver_holds hcarved hi hr hhead hlen m) hf

theorem udpFrame_sampleFrame : UdpFrame sampleFrame 0 where
  carried := .no (by decide)
  version := by decide
  protocol := by decide
  long := by decide

theorem small32_init : ∃ out, Setup.small32.init 32 = some out ∧ out.res.pktBufsN = 16 := by
  obtain ⟨out, p, hout, -, hposted, -, -⟩ := Setup.small32.init_eq_some (by decide)
  have hn : (out.res.pktBufsN : Int) = 16 := hposted.configured.pktBufsN
  exact ⟨out, hout 32 (by decide), by omega⟩

theorem handleRx_agrees_iff_sample :
    ∃ out, Setup.small32.init 32 = some out ∧
      (SameVerdict noMessage Setup.small32 (.start out.res freshRx) 3
          (Setup.small32.deliver out.res.layout 3 (List.replicate 14 0) sampleFrame (view []))
          sampleFrame ⟨view [], freshRx⟩ ↔
        ¬ IsDstAt (view sampleFrame) 30 ∧ ¬ Shifted sampleFrame) := by
  obtain ⟨out, hinit, hn⟩ := small32_init
  have hi : 3 < (McClient.start out.res freshRx).res.pktBufsN := by
    rw [McClient.start, hn]
    decide
  exact ⟨out, hinit, handleRx_agrees_iff noMessage Setup.small32 (by decide) (by decide) 32 out
    hinit (.start out.res freshRx) rfl 3 hi (List.replicate 14 0) sampleFrame (by decide)
    udpFrame_sampleFrame (by decide) (view []) ⟨view [], freshRx⟩⟩

/-- A frame for 239.239.239.8 that the raw-socket loop accepts is dropped. -/
theorem handleRx_drops_sample :
    ∃ out, Setup.small32.init 32 = some out ∧
      ¬ SameVerdict noMessage Setup.small32 (.start out.res freshRx) 3
          (Setup.small32.deliver out.res.layout 3 (List.replicate 14 0) sampleFrame (view []))
          sampleFrame ⟨view [], freshRx⟩ := by
  obtain ⟨out, hinit, hn⟩ := small32_init
  obtain ⟨p, hposted, -, -⟩ := Setup.init_posted (by decide) hinit
  have hi : 3 < (McClient.start out.res freshRx).res.pktBufsN := by
    rw [McClient.start, hn]
    decide
  have hholds : Holds
      (Setup.small32.deliver out.res.layout 3 (List.replicate 14 0) sampleFrame (view []))
      (Setup.small32.frameAddr out.res.layout 3) sampleFrame :=
    hposted.configured.deliver_holds hposted.owns.carved hi (by decide) (by decide) (by decide)
      (view [])
  refine ⟨out, hinit, fun hsame => ?_⟩
  have hrejected := (sameVerdict_iff (c := .start out.res freshRx) hposted.configured
    hposted.owns.carved hi (by decide) hholds udpFrame_sampleFrame).mp hsame
  exact hrejected.1 (by decide)

end Efvi
