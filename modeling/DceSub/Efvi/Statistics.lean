import DceSub.Efvi.Backlog

/-!
# The statistics

`handle_rx_core` counts packets and bytes in two 64-bit counters, which nothing
resets after `calloc`.  They count what `handle_pkt` was given (`Counted`), and
`handle_pkt` is given the good frames of the wire in order.  So the counters lag
behind the wire by what is still behind queued and polled events, and by nothing
else.
-/

namespace Efvi

open Base Wire Client Resources

/-- `n_rx_pkts` and `n_rx_bytes`. -/
def Resources.stats (res : Resources) : BitVec 64 × BitVec 64 := (res.nRxPkts, res.nRxBytes)

/-- The bytes of frames. -/
def totalLen (frames : List Seen) : Int := (frames.map Seen.len).sum

/-- The counters agree with what `handle_pkt` was given. -/
def McClient.Counted (c : McClient) : Prop :=
  c.res.stats = (BitVec.ofNat 64 c.seen.length, BitVec.ofInt 64 (totalLen c.seen))

theorem totalLen_append (frames frames' : List Seen) :
    totalLen (frames ++ frames') = totalLen frames + totalLen frames' := by
  rw [totalLen, List.map_append, List.sum_append]
  rfl

section

variable {packetHandlerFull : PacketHandlerFull} {m : Mem} {c c' : McClient} {p : Pool Nat}

/-! ## One step -/

theorem Resources.Moved.stats {res : Resources} {l : List Nat} {k : Nat} {s : Refill}
    (h : Moved res l k s) : s.res.stats = res.stats := by
  obtain ⟨vi, head, n, hframe⟩ := h.frame
  rw [hframe]
  rfl

/-- A frame is counted, and nothing else is. -/
theorem handleEvent_counted {e : Event} (h : c.Counted)
    (hstep : handleEvent packetHandlerFull m c e = some c') : c'.Counted := by
  cases e with
  | rx rqId len sop cont =>
      rw [handleEvent] at hstep
      split at hstep
      · obtain ⟨pktBuf, -, rfl⟩ := Option.map_eq_some_iff.mp hstep
        obtain ⟨hpkts, hbytes⟩ := Prod.mk.inj h
        refine Prod.ext ?_ ?_
        · show c.res.nRxPkts + 1 = BitVec.ofNat 64 (c.seen ++ [_]).length
          rw [hpkts, List.length_append, BitVec.ofNat_add]
          rfl
        · show c.res.nRxBytes + BitVec.ofInt 64 _ = BitVec.ofInt 64 (totalLen (c.seen ++ [_]))
          rw [hbytes, totalLen_append, BitVec.ofInt_add]
          simp [totalLen]
      · cases hstep
  | rxDiscard rqId len subtype =>
      obtain ⟨pktBuf, -, rfl⟩ := Option.map_eq_some_iff.mp hstep
      exact h
  | other type =>
      cases hstep
      exact h

theorem Owned.counted {act : Act} (h : Owned c p) (hcount : c.Counted)
    (hstep : Efvi.step packetHandlerFull act c = some c') : c'.Counted := by
  cases act with
  | refill =>
      obtain ⟨out, hout, hmoved, -⟩ := h.owns.refillRxRing
      rw [Efvi.step, hout] at hstep
      cases hstep
      exact hmoved.stats.trans hcount
  | poll evs =>
      obtain ⟨-, hstep⟩ := Option.ite_none_right_eq_some.mp hstep
      obtain ⟨vi, -, rfl⟩ := Option.map_eq_some_iff.mp hstep
      exact hcount
  | handle m =>
      rw [Efvi.step] at hstep
      split at hstep
      next => cases hstep
      next e evs hpolled => exact handleEvent_counted (c := { c with polled := evs }) hcount hstep

end

/-! ## From `init` on -/

theorem fillOne_stats {s s' : Filling} (h : (∃ p, Owns s.res p) ∧ s.res.stats = (0, 0))
    (hstep : fillOne s = some s') : (∃ p, Owns s'.res p) ∧ s'.res.stats = (0, 0) := by
  obtain ⟨⟨p, hp⟩, hstats⟩ := h
  obtain ⟨out, hout, hmoved, howns, -⟩ := hp.refillRxRing
  rw [fillOne, hout] at hstep
  cases hstep
  exact ⟨⟨_, howns⟩, hmoved.stats.trans hstats⟩

/-- `init` leaves the counters as `calloc` has set them. -/
theorem Setup.init_stats {su : Setup} {fuel : Nat} {out : Filling} (h : su.init fuel = some out) :
    out.res.stats = (0, 0) := by
  obtain ⟨res, hres, ⟨heap, head, n, hframe⟩, howns⟩ := su.carved
  obtain ⟨efviAddr, hreg, -⟩ := register_eq_some su.memreg res
  rw [Setup.init, hres, Option.bind_some, hreg, Option.bind_some] at h
  have hstart := howns.configure efviAddr (su.cfgMaxFill - refillBatchSize) (su.cfgMaxFill.tdiv 2)
  refine (Loop.whileLoop_inv (fun s : Filling => (∃ p, Owns s.res p) ∧ s.res.stats = (0, 0))
    (fun _ _ hs _ hstep => fillOne_stats hs hstep) ⟨⟨_, hstart⟩, ?_⟩ h).2
  rw [hframe]
  rfl

/-- After `init`, in any interleaving of the NIC's steps with the client's, and
modulo 2^64: `n_rx_pkts` and `n_rx_bytes` are the number of the frames written
and of their bytes, but for the frames behind queued and polled events. -/
theorem stats_count (packetHandlerFull : PacketHandlerFull) (su : Setup)
    (hc : 15 ≤ su.capacity) (fuel : Nat) (out : Filling) (hinit : su.init fuel = some out)
    (rx : RxState) (mem : Mem) (acts : List SysAct) (s : Sys)
    (hrun : Loop.exec (sysStep su packetHandlerFull) acts (.start out.res rx mem) = some s) :
    ∃ waiting, s.client.seen ++ waiting = s.written ∧
      waiting.length = rxCount (s.client.polled ++ s.evq) ∧
      s.client.res.nRxPkts + BitVec.ofNat 64 waiting.length = BitVec.ofNat 64 s.written.length ∧
      s.client.res.nRxBytes + BitVec.ofInt 64 (totalLen waiting) =
        BitVec.ofInt 64 (totalLen s.written) := by
  obtain ⟨b, hstart, hfifo⟩ := Refines.start hc hinit rx mem
  have hinv : ∃ b, (Refines su s b ∧ b.Fifo) ∧ s.client.Counted := by
    refine Loop.exec_inv (fun s : Sys => ∃ b, (Refines su s b ∧ b.Fifo) ∧ s.client.Counted) ?_
      ⟨b, ⟨hstart, hfifo⟩, Setup.init_stats hinit⟩ hrun
    rintro a - s₁ s₂ ⟨b₁, ⟨h₁, hfifo₁⟩, hcount⟩ hstep
    obtain ⟨b₂, h₂, hfifo₂⟩ := h₁.step_fifo hfifo₁ hstep
    refine ⟨b₂, ⟨h₂, hfifo₂⟩, ?_⟩
    obtain heq | ⟨act, hact⟩ := sysStep_client hstep
    · exact heq ▸ hcount
    · exact h₁.owned.counted hcount hact
  obtain ⟨b, ⟨h, hfifo⟩, hcount⟩ := hinv
  obtain ⟨hpkts, hbytes⟩ := Prod.mk.inj hcount
  refine ⟨_, h.delivered hfifo, length_frames .., ?_, ?_⟩
  · rw [hpkts, ← BitVec.ofNat_add, ← List.length_append, h.delivered hfifo]
  · rw [hbytes, ← BitVec.ofInt_add, ← totalLen_append, h.delivered hfifo]

theorem stats_count_small32 :
    ∃ out s, Setup.small32.init 32 = some out ∧
      Loop.exec (sysStep Setup.small32 noMessage) sampleRun (.start out.res freshRx (view [])) =
        some s ∧
      ∃ waiting, s.client.seen ++ waiting = s.written ∧
        waiting.length = rxCount (s.client.polled ++ s.evq) ∧
        s.client.res.nRxPkts + BitVec.ofNat 64 waiting.length =
          BitVec.ofNat 64 s.written.length ∧
        s.client.res.nRxBytes + BitVec.ofInt 64 (totalLen waiting) =
          BitVec.ofInt 64 (totalLen s.written) := by
  obtain ⟨out, s, hinit, hrun⟩ := sampleRun_runs
  exact ⟨out, s, hinit, hrun, stats_count noMessage Setup.small32 (by decide) 32 out hinit
    freshRx (view []) sampleRun s hrun⟩

end Efvi
