import DceSub.Base.Pool
import DceSub.Efvi.Refill

/-!
# Who owns a packet buffer

The abstract side of the resources is a pool of buffer ids: those on the free
list, those on the RX ring, and those of events that were polled and are not yet
handled.  `Owns res p` relates the two: following the `next` pointers visits the
free ids of `p`, the ring holds the descriptors of its ring ids, and all ids
together are those of the buffers, each once.

Every function of the client is a move of the pool, and none of the pointers it
follows or ids it looks up is ever bad: `Owns.refillRxRing`,
`Owns.efEventqPoll` and `Owns.release`.
-/

namespace Efvi

open Base

namespace Resources

namespace Layout

/-- `pkt_buf_from_id` of an id in range. -/
def bufAddr (L : Layout) (i : Nat) : Nat := L.pktBufs + i * pktBufSize

/-- The descriptor of buffer `i`. -/
def desc (L : Layout) (i : Nat) : Desc := ⟨L.efviAddr (L.bufAddr i) + rxDmaOff, L.id (L.bufAddr i)⟩

theorem bufAddr_inj (L : Layout) {i j : Nat} (h : L.bufAddr i = L.bufAddr j) : i = j := by
  rw [bufAddr, bufAddr, pktBufSize] at h
  omega

/-- The headers are as the carving loop of `init` leaves them, and there are no
more buffers than the ring has slots. -/
structure Carved (L : Layout) : Prop where
  id : ∀ i, i < L.pktBufsN → L.id (L.bufAddr i) = i
  rxPtr : ∀ i, i < L.pktBufsN → L.rxPtr (L.bufAddr i) = L.bufAddr i + rxDmaOff + L.rxPrefixLen
  room : L.pktBufsN ≤ L.mask

end Layout

/-- The resources hold the buffers of the pool `p`. -/
structure Owns (res : Resources) (p : Pool Nat) : Prop where
  carved : res.layout.Carved
  free : res.FreeList (p.free.map res.layout.bufAddr)
  ring : res.vi.ring = p.ring.map res.layout.desc
  perm : p.all.Perm (List.range res.pktBufsN)

section

variable {res : Resources} {p : Pool Nat}

theorem Owns.nodup (h : Owns res p) : p.all.Nodup := h.perm.nodup_iff.mpr List.nodup_range

theorem Owns.lt (h : Owns res p) {i : Nat} (hi : i ∈ p.all) : i < res.pktBufsN :=
  List.mem_range.mp (h.perm.mem_iff.mp hi)

theorem Owns.count (h : Owns res p) :
    p.free.length + (p.ring.length + p.held.length) = res.pktBufsN := by
  have hlen := h.perm.length_eq
  rwa [List.length_range, Pool.all, List.length_append, List.length_append] at hlen

theorem Owns.free_length (h : Owns res p) : res.freePktBufsN = p.free.length := by
  rw [h.free.count, List.length_map]

theorem Owns.ring_length (h : Owns res p) : res.vi.ring.length = p.ring.length := by
  rw [h.ring, List.length_map]

/-- The descriptors of the ring carry the ids of the pool. -/
theorem Owns.ring_ids (h : Owns res p) : res.vi.ring.map Desc.dmaId = p.ring := by
  rw [h.ring, List.map_map]
  have hid : ∀ i ∈ p.ring, (Desc.dmaId ∘ res.layout.desc) i = id i := by
    intro i hi
    exact h.carved.id i (h.lt (by simp [Pool.all, hi]))
  rw [List.map_congr_left hid, List.map_id]

/-- The buffers of the free list have the ids of the pool. -/
theorem Owns.free_ids (h : Owns res p) :
    (p.free.map res.layout.bufAddr).map (fun b => (res.heap b).id) = p.free := by
  rw [List.map_map]
  have hid : ∀ i ∈ p.free, ((fun b => (res.heap b).id) ∘ res.layout.bufAddr) i = id i := by
    intro i hi
    exact h.carved.id i (h.lt (by simp [Pool.all, hi]))
  rw [List.map_congr_left hid, List.map_id]

theorem Owns.room (h : Owns res p) :
    res.vi.ring.length + (p.free.map res.layout.bufAddr).length ≤ res.vi.mask := by
  have hroom : res.pktBufsN ≤ res.vi.mask := h.carved.room
  have hcount := h.count
  rw [h.ring_length, List.length_map]
  omega

/-! ## The moves -/

/-- Buffers that a refill moves leave the head of the free list for the tail of
the ring. -/
theorem Owns.moved {k : Nat} {s : Refill} (h : Owns res p)
    (hm : Moved res (p.free.map res.layout.bufAddr) k s) :
    Owns s.res ⟨p.free.drop k, p.ring ++ p.free.take k, p.held⟩ := by
  have hlayout := hm.layout
  constructor
  case carved =>
    rw [hlayout]
    exact h.carved
  case free =>
    have hfree := hm.free
    rw [← List.map_drop] at hfree
    rw [hlayout]
    exact hfree
  case ring =>
    rw [hm.ring, h.ring, hlayout, List.map_append, ← List.map_take, List.map_map]
    rfl
  case perm =>
    have hn : s.res.pktBufsN = res.pktBufsN := congrArg Layout.pktBufsN hlayout
    have hmove := Pool.Move.post _ _ (List.take_append_drop k p.free).symm
    rw [hn]
    exact hmove.perm.trans h.perm

/-- How many buffers a call of `refill_rx_ring` posts. -/
def refillCount (res : Resources) (p : Pool Nat) : Nat :=
  if res.refillLevel < p.ring.length ∨ p.free.length < refillBatchSize then 0
  else 16 * refillBatches p.free.length p.ring.length res.refillMin

theorem refillCount_dvd (res : Resources) (p : Pool Nat) : 16 ∣ refillCount res p := by
  rw [refillCount]
  split
  · exact Nat.dvd_zero 16
  · exact Nat.dvd_mul_right ..

theorem refillCount_pos (hlevel : (p.ring.length : Int) ≤ res.refillLevel)
    (hbatch : 16 ≤ p.free.length) : 0 < refillCount res p := by
  have hpos : 1 ≤ refillBatches p.free.length p.ring.length res.refillMin := Nat.le_max_left ..
  have hb16 : refillBatchSize = 16 := rfl
  rw [refillCount, if_neg (by omega)]
  omega

/-- `refill_rx_ring` never fails, and returns whether it has posted anything. -/
theorem Owns.refillRxRing (h : Owns res p) :
    ∃ out, res.refillRxRing = some (decide (0 < refillCount res p), out) ∧
      Moved res (p.free.map res.layout.bufAddr) (refillCount res p) out ∧
      Owns out.res
        ⟨p.free.drop (refillCount res p), p.ring ++ p.free.take (refillCount res p), p.held⟩ ∧
      (res.vi.posted = res.vi.added → res.vi.added.toNat % 8 = 0 →
        out.res.vi.posted = out.res.vi.added) := by
  have hfree : (p.free.map res.layout.bufAddr).length = p.free.length := List.length_map _
  have hring := h.ring_length
  by_cases hd : res.refillLevel < p.ring.length ∨ p.free.length < refillBatchSize
  · have hk : refillCount res p = 0 := if_pos hd
    have hmoved := Moved.zero h.free
    rw [hk]
    exact ⟨⟨res, []⟩, refillRxRing_declines h.free (by rw [hring, hfree]; exact hd), hmoved,
      h.moved hmoved, fun hposted _ => hposted⟩
  · have hk : refillCount res p = 16 * refillBatches p.free.length p.ring.length res.refillMin :=
      if_neg hd
    have hb16 : refillBatchSize = 16 := rfl
    have hpos : 0 < refillCount res p := refillCount_pos (by omega) (by omega)
    obtain ⟨out, hout, hmoved, hposted⟩ :=
      refillRxRing_moved h.free h.room (by omega) (by omega)
    rw [hring, hfree, ← hk] at hmoved
    rw [decide_eq_true hpos]
    exact ⟨out, hout, hmoved, h.moved hmoved, fun _ => hposted⟩

/-- A poll takes the ids of its events off the ring. -/
theorem Owns.efEventqPoll {evs : List Event} {vi : Rxq} (h : Owns res p)
    (hpoll : res.vi.efEventqPoll evs = some vi) :
    ∃ ring, p.ring = rqIds evs ++ ring ∧
      Owns { res with vi := vi } ⟨p.free, ring, p.held ++ rqIds evs⟩ := by
  obtain ⟨⟨taken, hring, hids⟩, -, -, hmask⟩ := Rxq.efEventqPoll_eq_some hpoll
  have hsplit : p.ring = rqIds evs ++ vi.ring.map Desc.dmaId := by
    rw [← h.ring_ids, hring, List.map_append, hids]
  have hlayout : ({ res with vi := vi } : Resources).layout = res.layout :=
    congrArg (Layout.mk · _ _ _ _ _ _ _ _) hmask
  have hlen : taken.length = (rqIds evs).length := by rw [← hids, List.length_map]
  refine ⟨vi.ring.map Desc.dmaId, hsplit, ?_⟩
  constructor
  case carved =>
    rw [hlayout]
    exact h.carved
  case free =>
    rw [hlayout]
    exact ⟨h.free.chain, h.free.count⟩
  case ring =>
    have hr := h.ring
    rw [hring, hsplit, List.map_append] at hr
    rw [hlayout]
    exact (List.append_inj hr (by rw [hlen, List.length_map])).2
  case perm => exact (Pool.Move.take _ _ hsplit).perm.trans h.perm

/-- The id of a polled event passes the assertion of `pkt_buf_from_id`, and its
buffer goes to the head of the free list. -/
theorem Owns.release {i : Nat} {held : List Nat} (h : Owns res p) (hheld : p.held = i :: held) :
    res.pktBufFromId i = some (res.layout.bufAddr i) ∧
      Owns (res.pktBufFree (res.layout.bufAddr i)) ⟨i :: p.free, p.ring, held⟩ := by
  have hi : i < res.pktBufsN := h.lt (by simp [Pool.all, hheld])
  refine ⟨if_pos hi, ?_⟩
  have hlayout := pktBufFree_layout res (res.layout.bufAddr i)
  constructor
  case carved =>
    rw [hlayout]
    exact h.carved
  case free =>
    rw [hlayout, List.map_cons]
    refine h.free.pktBufFree ?_
    rw [List.mem_map]
    rintro ⟨j, hj, hji⟩
    have hij : j = i := res.layout.bufAddr_inj hji
    have hnodup := h.nodup
    rw [Pool.all, List.nodup_append] at hnodup
    exact hnodup.2.2 j hj i (by simp [hheld]) hij
  case ring =>
    rw [hlayout]
    exact h.ring
  case perm => exact (Pool.Move.release i held hheld).perm.trans h.perm

end

end Resources

end Efvi
