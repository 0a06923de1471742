import DceSub.Efvi.Resources

/-!
# Refilling the RX ring

`refill_rx_ring` pops sixteen buffers at a time off the free list without
looking whether the list is empty, and ignores the return codes of
`ef_vi_receive_init`.  `Moved res l k s` is what the pops amount to as long as
they are safe: the first `k` buffers of the free list `l` are on the ring, in
list order, all codes are zero, and nothing else has changed.  One pop adds one
to `k` (`refillOne_moved`), the inner loop adds sixteen, and the outer loop
stops after `refillBatches` of them (`refillRxRing_moved`).  All this needs is
that the ring has room for the whole free list.
-/

namespace Efvi

open Base

namespace Resources

/-- The descriptor posted for a buffer. -/
def descAt (res : Resources) (pktBuf : Nat) : Desc :=
  ⟨(res.heap pktBuf).efviAddr + rxDmaOff, (res.heap pktBuf).id⟩

/-- The same resources with another ring and another free list. -/
def withPool (res : Resources) (vi : Rxq) (head : Option Nat) (n : Int) : Resources :=
  { res with vi := vi, freePktBufs := head, freePktBufsN := n }

/-- From `res`, the first `k` buffers of the free list `l` have gone to the tail
of the ring. -/
structure Moved (res : Resources) (l : List Nat) (k : Nat) (s : Refill) : Prop where
  le : k ≤ l.length
  ring : s.res.vi.ring = res.vi.ring ++ (l.take k).map res.descAt
  added : s.res.vi.added = res.vi.added + BitVec.ofNat 32 k
  mask : s.res.vi.mask = res.vi.mask
  free : s.res.FreeList (l.drop k)
  rcs : s.rcs = List.replicate k 0
  /-- Only the ring and the free list have changed. -/
  frame : ∃ vi head n, s.res = res.withPool vi head n

theorem Moved.zero {res : Resources} {l : List Nat} (h : res.FreeList l) :
    Moved res l 0 ⟨res, []⟩ where
  le := Nat.zero_le _
  ring := by simp
  added := by simp
  mask := rfl
  free := h
  rcs := rfl
  frame := ⟨_, _, _, rfl⟩

section

variable {res : Resources} {l : List Nat} {k : Nat} {s : Refill}

theorem Moved.heap (h : Moved res l k s) : s.res.heap = res.heap := by
  obtain ⟨vi, head, n, hf⟩ := h.frame
  rw [hf, withPool]

theorem Moved.layout (h : Moved res l k s) : s.res.layout = res.layout := by
  have hm := h.mask
  obtain ⟨vi, head, n, hf⟩ := h.frame
  rw [hf] at hm ⊢
  exact congrArg (Layout.mk · _ _ _ _ _ _ _ _) hm

theorem Moved.ring_length (h : Moved res l k s) :
    s.res.vi.ring.length = res.vi.ring.length + k := by
  rw [h.ring, List.length_append, List.length_map, List.length_take, Nat.min_eq_left h.le]

theorem Moved.count (h : Moved res l k s) : s.res.freePktBufsN = (l.length : Int) - k := by
  have hle := h.le
  rw [h.free.count, List.length_drop]
  omega

/-! ## One pop, one batch -/

/-- While the free list has a buffer and the ring has room for it, the inner
loop takes the head of the list and gets the code 0. -/
theorem refillOne_moved (hroom : res.vi.ring.length + l.length ≤ res.vi.mask)
    (h : Moved res l k s) (hk : k < l.length) :
    ∃ s', refillOne s = some s' ∧ Moved res l (k + 1) s' := by
  have hchain := h.free.chain
  have hcount := h.count
  rw [List.drop_eq_getElem_cons hk, chain_cons] at hchain
  obtain ⟨hhead, hrest⟩ := hchain
  have hspace : s.res.vi.ring.length < s.res.vi.mask := by
    rw [h.ring_length, h.mask]
    omega
  have hdesc : s.res.descAt l[k] = res.descAt l[k] := by rw [descAt, descAt, h.heap]
  obtain ⟨hrc, hring, hadded⟩ := Rxq.efViReceiveInit_of_lt
    ((s.res.heap l[k]).efviAddr + rxDmaOff) (s.res.heap l[k]).id hspace
  refine ⟨_, by rw [refillOne, hhead], ?_⟩
  constructor
  case le => exact hk
  case ring =>
    show (Rxq.efViReceiveInit _ _ _).2.ring = _
    rw [hring, h.ring, List.append_assoc, List.take_succ_eq_append_getElem hk, List.map_append,
      List.map_singleton, ← hdesc]
    rfl
  case added =>
    show (Rxq.efViReceiveInit _ _ _).2.added = _
    rw [hadded, h.added, add_assoc, BitVec.ofNat_add]
    rfl
  case mask =>
    show (Rxq.efViReceiveInit _ _ _).2.mask = _
    rw [Rxq.efViReceiveInit_mask, h.mask]
  case free =>
    constructor
    · exact hrest
    · show s.res.freePktBufsN - 1 = _
      rw [hcount, List.length_drop]
      omega
  case rcs =>
    show s.rcs ++ [(Rxq.efViReceiveInit _ _ _).1] = _
    rw [hrc, h.rcs, List.replicate_succ']
  case frame =>
    obtain ⟨vi, head, n, hf⟩ := h.frame
    exact ⟨_, _, _, by rw [hf]; rfl⟩

theorem refillBatch_moved (hroom : res.vi.ring.length + l.length ≤ res.vi.mask)
    (h : Moved res l k s) (hk : k + refillBatchSize ≤ l.length) :
    ∃ s', refillBatch s = some s' ∧ Moved res l (k + refillBatchSize) s' := by
  refine Loop.forLoop_inv (fun i s => Moved res l (k + i) s) h ?_
  intro i t hi ht
  have hlt : k + i < l.length := by omega
  exact refillOne_moved hroom ht hlt

end

/-! ## The whole call -/

/-- How many batches the outer loop takes: one at least, then as many as the
free list has, until the ring holds `refillMin`. -/
def refillBatches (free : Nat) (fill refillMin : Int) : Nat :=
  max 1 (min (free / 16) ((refillMin - fill + 15) / 16).toNat)

theorem refillAgain_iff {res : Resources} {l : List Nat} {k : Nat} {s : Refill}
    (h : Moved res l k s) :
    refillAgain s = true ↔
      (res.vi.ring.length : Int) + k < res.refillMin ∧ k + refillBatchSize ≤ l.length := by
  have hmin : s.res.refillMin = res.refillMin := congrArg Layout.refillMin h.layout
  rw [refillAgain, decide_eq_true_iff, Rxq.fillLevel_eq, h.ring_length, h.count, hmin]
  omega

/-- The push at the end. -/
theorem Moved.push {res : Resources} {l : List Nat} {k : Nat} {s : Refill} (h : Moved res l k s) :
    Moved res l k { s with res := { s.res with vi := s.res.vi.efViReceivePush } } where
  le := h.le
  ring := h.ring
  added := h.added
  mask := h.mask
  free := ⟨h.free.chain, h.free.count⟩
  rcs := h.rcs
  frame := by
    obtain ⟨vi, head, n, hf⟩ := h.frame
    exact ⟨_, _, _, by rw [hf]; rfl⟩

variable {res : Resources} {l : List Nat}

theorem refillRxRing_declines (hfree : res.FreeList l)
    (h : res.refillLevel < res.vi.ring.length ∨ l.length < refillBatchSize) :
    res.refillRxRing = some (false, ⟨res, []⟩) := by
  rw [refillRxRing, if_pos]
  rw [Rxq.fillLevel_eq, hfree.count]
  omega

/-- A call that is not declined ends, and moves `refillBatches` batches.  If
descriptors are added in multiples of 8, they are all submitted. -/
theorem refillRxRing_moved (hfree : res.FreeList l)
    (hroom : res.vi.ring.length + l.length ≤ res.vi.mask)
    (hlevel : (res.vi.ring.length : Int) ≤ res.refillLevel) (hbatch : refillBatchSize ≤ l.length) :
    ∃ out, res.refillRxRing = some (true, out) ∧
      Moved res l (16 * refillBatches l.length res.vi.ring.length res.refillMin) out ∧
      (res.vi.added.toNat % 8 = 0 → out.res.vi.posted = out.res.vi.added) := by
  have hb16 : refillBatchSize = 16 := rfl
  generalize hm : refillBatches l.length res.vi.ring.length res.refillMin = m
  have hmax : m = max 1 (min (l.length / 16)
      ((res.refillMin - res.vi.ring.length + 15) / 16).toNat) := hm.symm
  obtain ⟨s₁, hs₁, hmoved₁⟩ := refillBatch_moved hroom (Moved.zero hfree) (by omega)
  have hfuel : s₁.res.freePktBufsN.toNat < res.freePktBufsN.toNat := by
    rw [hmoved₁.count, hfree.count]
    omega
  -- the invariant: a positive number of batches, never more than `m`
  obtain ⟨s, hs, ⟨j, hj1, hjm, hmoved⟩, hend⟩ :=
    Loop.doWhile_variant (fun s => ∃ j, 1 ≤ j ∧ j ≤ m ∧ Moved res l (16 * j) s)
      (fun s => s.res.freePktBufsN.toNat) hs₁
      ⟨1, le_refl 1, by omega, hmoved₁⟩ (by
        rintro t ⟨j, hj1, hjm, ht⟩ hc
        rw [refillAgain_iff ht] at hc
        obtain ⟨t', ht', hmt'⟩ := refillBatch_moved hroom ht hc.2
        refine ⟨t', ht', ⟨j + 1, by omega, by omega, hmt'⟩, ?_⟩
        have hle := hmt'.le
        rw [ht.count, hmt'.count]
        omega)
      hfuel
  have hjm' : j = m := by
    by_contra hne
    have hc := (refillAgain_iff hmoved).mpr ⟨by omega, by omega⟩
    rw [hend] at hc
    cases hc
  subst hjm'
  refine ⟨_, ?_, hmoved.push, fun hadded => ?_⟩
  · rw [refillRxRing, if_neg, hs]
    · rfl
    · rw [Rxq.fillLevel_eq, hfree.count]
      omega
  · refine Rxq.efViReceivePush_posted ?_
    rw [hmoved.added]
    exact Base.toNat_add_ofNat_mod (by decide) hadded (by omega)

/-- With the pool size and the thresholds `init` chooses, a call is declined
exactly when there is less than a batch to move, and the ring is at least half
full after every call.  No pop meets the empty list, no descriptor is refused,
and none is left unsubmitted. -/
theorem refillRxRing_correct {n : Nat} (hfree : res.FreeList l) (hn : 30 ≤ n)
    (hfill : res.vi.efViReceiveFillLevel + res.freePktBufsN = n)
    (hcap : res.vi.efViReceiveCapacity = n + 15) (hlevel : res.refillLevel = n - 16)
    (hmin : res.refillMin = n / 2) (hadded : res.vi.added.toNat % 16 = 0) :
    ∃ ret out, res.refillRxRing = some (ret, out) ∧
      (ret = false ∧ out.res = res ↔ res.freePktBufsN < 16) ∧
      (16 ≤ res.freePktBufsN → ret = true ∧
        Moved res l (16 * refillBatches l.length res.vi.efViReceiveFillLevel res.refillMin) out ∧
        out.res.vi.posted = out.res.vi.added) ∧
      n / 2 ≤ out.res.vi.efViReceiveFillLevel ∧ ∀ rc ∈ out.rcs, rc = 0 := by
  have hcount := hfree.count
  have hb16 : refillBatchSize = 16 := rfl
  rw [Rxq.efViReceiveCapacity] at hcap
  rw [Rxq.fillLevel_eq] at hfill ⊢
  by_cases hlt : l.length < 16
  · refine ⟨false, ⟨res, []⟩, refillRxRing_declines hfree (.inr hlt), ?_, ?_, ?_, ?_⟩
    · exact iff_of_true ⟨rfl, rfl⟩ (by omega)
    · intro h16
      omega
    · show (n : Int) / 2 ≤ res.vi.efViReceiveFillLevel
      rw [Rxq.fillLevel_eq]
      omega
    · intro rc hrc
      cases hrc
  · obtain ⟨out, hout, hmoved, hposted⟩ :=
      refillRxRing_moved hfree (by omega) (by omega) (by omega)
    refine ⟨true, out, hout, ?_, fun _ => ⟨rfl, hmoved, hposted (by omega)⟩, ?_, ?_⟩
    · exact iff_of_false (fun h => Bool.noConfusion h.1) (by omega)
    · have hbatches : refillBatches l.length res.vi.ring.length res.refillMin =
          max 1 (min (l.length / 16) ((res.refillMin - res.vi.ring.length + 15) / 16).toNat) := rfl
      rw [Rxq.fillLevel_eq, hmoved.ring_length]
      omega
    · intro rc hrc
      rw [hmoved.rcs] at hrc
      exact List.eq_of_mem_replicate hrc

/-- Thirty-two buffers, all of them free. -/
def idleResources : Resources where
  vi := Rxq.fresh 47 (by decide)
  rxPrefixLen := 14
  refillLevel := 16
  refillMin := 16
  pktBufs := 0
  pktBufsN := 32
  freePktBufs := some 0
  freePktBufsN := 32
  nRxPkts := 0
  nRxBytes := 0
  heap := fun a => ⟨a, a + 78, a / 2048, if a / 2048 = 31 then none else some (a + 2048)⟩

theorem refillRxRing_correct_idle :
    ∃ ret out, idleResources.refillRxRing = some (ret, out) ∧
      (ret = false ∧ out.res = idleResources ↔ idleResources.freePktBufsN < 16) ∧
      (16 ≤ idleResources.freePktBufsN → ret = true ∧
        Moved idleResources ((List.range 32).map (· * 2048)) (16 * refillBatches 32 0 16) out ∧
        out.res.vi.posted = out.res.vi.added) ∧
      ((32 : Nat) : Int) / 2 ≤ out.res.vi.efViReceiveFillLevel ∧ ∀ rc ∈ out.rcs, rc = 0 :=
  refillRxRing_correct (n := 32) ⟨by decide, rfl⟩ (by decide) rfl rfl rfl rfl rfl

end Resources

end Efvi
