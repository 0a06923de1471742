import DceSub.Base.Loop
import DceSub.Base.Wrap

/-!
# The receive side of `ef_vi`

What the EF_VI client uses of a virtual interface: its RX descriptor ring and
the events it polls.  The library is closed, so its calls are modelled by what
`ef_vi.h` and its guide document, and the inline functions of the header by
their bodies.

A `Rxq` holds the descriptors that sit between the counters `removed` and
`added`, oldest first.  The three counters are 32 bits wide and wrap.  The
fields `level`, `room`, `small` and `eights` are the library's own invariants,
so that a ring whose counters disagree with its contents cannot be built:

* `level`: the counters differ by the number of descriptors held.
* `room`: no more descriptors are held than the ring has slots.
* `small`: the capacity is an `int`.
* `eights`: descriptors are submitted to the NIC only in multiples of 8.
-/

namespace Efvi

/-- An RX descriptor: the DMA address of a packet buffer and the id that comes
back in its event. -/
structure Desc where
  /-- Where the NIC delivers the packet. -/
  addr : Nat
  /-- The `dma_id` given to `ef_vi_receive_init`. -/
  dmaId : Nat
deriving DecidableEq, Repr

/-- The RX descriptor ring, `vi_rxq` with its `ef_vi_rxq_state`. -/
structure Rxq where
  /-- `vi_rxq.mask`, the capacity. -/
  mask : Nat
  /-- The descriptors held, oldest first. -/
  ring : List Desc
  /-- Descriptors posted to the NIC. -/
  posted : BitVec 32
  /-- Descriptors added to the ring. -/
  added : BitVec 32
  /-- Descriptors removed from the ring. -/
  removed : BitVec 32
  level : added - removed = BitVec.ofNat 32 ring.length
  room : ring.length ≤ mask
  small : mask < 2 ^ 31
  eights : posted.toNat % 8 = 0

namespace Rxq

/-! ## The inline queries of `ef_vi.h` -/

/-- `qs->added - qs->removed`, read as an `int`. -/
def efViReceiveFillLevel (q : Rxq) : Int := (q.added - q.removed).toInt

/-- `vi->vi_rxq.mask - (qs->added - qs->removed)`, read as an `int`. -/
def efViReceiveSpace (q : Rxq) : Int := (BitVec.ofNat 32 q.mask - (q.added - q.removed)).toInt

/-- `vi->vi_rxq.mask`. -/
def efViReceiveCapacity (q : Rxq) : Int := q.mask

/-- The fill level is the number of descriptors held, also after the counters
have wrapped. -/
@[simp] theorem fillLevel_eq (q : Rxq) : q.efViReceiveFillLevel = q.ring.length := by
  have hroom := q.room
  have hsmall := q.small
  rw [efViReceiveFillLevel, q.level, Base.toInt_ofNat_of_lt (by omega)]

@[simp] theorem space_eq (q : Rxq) : q.efViReceiveSpace = q.mask - q.ring.length := by
  have hroom := q.room
  have hsmall := q.small
  have hsub : BitVec.ofNat 32 q.mask - BitVec.ofNat 32 q.ring.length =
      BitVec.ofNat 32 (q.mask - q.ring.length) := by
    rw [← BitVec.ofNat_sub_ofNat_of_le _ _ (by omega) hroom]
  rw [efViReceiveSpace, q.level, hsub, Base.toInt_ofNat_of_lt (by omega)]
  omega

/-! ## Adding, submitting and removing descriptors -/

/-- The ring of a freshly allocated interface. -/
def fresh (mask : Nat) (h : mask < 2 ^ 31) : Rxq where
  mask := mask
  ring := []
  posted := 0
  added := 0
  removed := 0
  level := rfl
  room := Nat.zero_le _
  small := h
  eights := rfl

/-- `ef_vi_receive_init`: a descriptor goes to the tail of the ring and `added`
is incremented.  A full ring gives a negative code and stays as it is. -/
def efViReceiveInit (q : Rxq) (addr dmaId : Nat) : Int × Rxq :=
  if h : 0 < q.efViReceiveSpace then
    (0, { q with
      ring := q.ring ++ [⟨addr, dmaId⟩]
      added := q.added + 1
      level := by
        rw [List.length_append]
        exact Base.sub_eq_ofNat_succ q.level
      room := by
        rw [space_eq] at h
        simp only [List.length_append, List.length_cons, List.length_nil]
        omega })
  else (-1, q)

/-- `ef_vi_receive_push`: of the descriptors added since the last push, the
largest multiple of 8 is submitted to the NIC. -/
def efViReceivePush (q : Rxq) : Rxq :=
  { q with
    posted := q.posted + BitVec.ofNat 32 ((q.added - q.posted).toNat / 8 * 8)
    eights := Base.toNat_add_ofNat_mod (by decide) q.eights (Nat.dvd_mul_left ..) }

/-- The library takes the oldest descriptor off the ring. -/
def pop (q : Rxq) : Option (Desc × Rxq) :=
  match h : q.ring with
  | [] => none
  | d :: rest => some (d, { q with
      ring := rest
      removed := q.removed + 1
      level := Base.sub_succ_eq_ofNat (by rw [q.level, h, List.length_cons])
      room := by
        have hr := q.room
        rw [h, List.length_cons] at hr
        omega })

/-- The descriptors of the ring the NIC may use: those not added since the last
push. -/
def submitted (q : Rxq) : Nat := q.ring.length - (q.added - q.posted).toNat

theorem efViReceiveInit_of_lt {q : Rxq} (addr dmaId : Nat) (h : q.ring.length < q.mask) :
    (q.efViReceiveInit addr dmaId).1 = 0 ∧
      (q.efViReceiveInit addr dmaId).2.ring = q.ring ++ [⟨addr, dmaId⟩] ∧
      (q.efViReceiveInit addr dmaId).2.added = q.added + 1 := by
  have hs : 0 < q.efViReceiveSpace := by rw [space_eq]; omega
  rw [efViReceiveInit, dif_pos hs]
  exact ⟨rfl, rfl, rfl⟩

@[simp] theorem efViReceiveInit_mask (q : Rxq) (addr dmaId : Nat) :
    (q.efViReceiveInit addr dmaId).2.mask = q.mask := by
  unfold efViReceiveInit
  split <;> rfl

/-- A push leaves nothing behind when `added` is a multiple of 8. -/
theorem efViReceivePush_posted {q : Rxq} (h : q.added.toNat % 8 = 0) :
    q.efViReceivePush.posted = q.added :=
  Base.add_ofNat_div_mul (by decide) q.eights h

theorem pop_eq_some {q q' : Rxq} {d : Desc} (h : q.pop = some (d, q')) :
    q.ring = d :: q'.ring ∧ q'.removed = q.removed + 1 ∧ q'.added = q.added ∧
      q'.posted = q.posted ∧ q'.mask = q.mask := by
  unfold pop at h
  split at h
  · cases h
  next d' rest hr =>
    rw [Option.some.injEq, Prod.mk.injEq] at h
    obtain ⟨rfl, rfl⟩ := h
    exact ⟨hr, rfl, rfl, rfl, rfl⟩

theorem pop_isSome {q : Rxq} {d : Desc} {rest : List Desc} (h : q.ring = d :: rest) :
    ∃ q', q.pop = some (d, q') := by
  unfold pop
  split
  next hr => rw [hr] at h; cases h
  next d' rest' hr =>
    rw [hr] at h
    cases h
    exact ⟨_, rfl⟩

end Rxq

/-! ## Events -/

/-- The `EF_EVENT_TYPE_*` the client has no case for. -/
inductive OtherType where
  | tx
  | txError
  | rxNoDescTrunc
  | sw
  | oflow
  | txWithTimestamp
  | rxPackedStream
  | rxMulti
  | txAlt
  | rxMultiDiscard
  | reset
  | memcpy
  | rxMultiPkts
  | rxRef
  | rxRefDiscard
deriving DecidableEq, Repr

/-- `EF_EVENT_TYPE(e)`, a number. -/
def OtherType.code : OtherType → Nat
  | .tx => 1
  | .txError => 3
  | .rxNoDescTrunc => 4
  | .sw => 5
  | .oflow => 6
  | .txWithTimestamp => 7
  | .rxPackedStream => 8
  | .rxMulti => 9
  | .txAlt => 10
  | .rxMultiDiscard => 11
  | .reset => 12
  | .memcpy => 13
  | .rxMultiPkts => 14
  | .rxRef => 15
  | .rxRefDiscard => 16

/-- `ef_event`, as far as the client reads it. -/
inductive Event where
  /-- A packet has arrived: `rq_id`, `len` and the flags SOP and CONT. -/
  | rx (rqId len : Nat) (sop cont : Bool)
  /-- A packet with an error has arrived. -/
  | rxDiscard (rqId len subtype : Nat)
  /-- Any other event.  It hands no descriptor back. -/
  | other (type : OtherType)
deriving DecidableEq, Repr

/-- The id of the descriptor an event hands back. -/
def Event.rqId? : Event → Option Nat
  | .rx rqId _ _ _ => some rqId
  | .rxDiscard rqId _ _ => some rqId
  | .other _ => none

/-- The ids of the descriptors that events hand back. -/
def rqIds (evs : List Event) : List Nat := evs.filterMap Event.rqId?

@[simp] theorem rqIds_append (evs evs' : List Event) :
    rqIds (evs ++ evs') = rqIds evs ++ rqIds evs' := List.filterMap_append

theorem rqIds_cons_some {e : Event} {i : Nat} (h : e.rqId? = some i) (evs : List Event) :
    rqIds (e :: evs) = i :: rqIds evs := List.filterMap_cons_some h

theorem rqIds_cons_none {e : Event} (h : e.rqId? = none) (evs : List Event) :
    rqIds (e :: evs) = rqIds evs := List.filterMap_cons_none h

theorem rqIds_length_le (evs : List Event) : (rqIds evs).length ≤ evs.length :=
  List.length_filterMap_le ..

namespace Rxq

/-- What `ef_eventq_poll` does to the ring for one event: the oldest descriptor
leaves the ring, and its id is the one in the event. -/
def takeEvent (e : Event) (q : Rxq) : Option Rxq :=
  match e.rqId? with
  | none => some q
  | some rqId => q.pop.bind fun d => if d.1.dmaId = rqId then some d.2 else none

/-- What `ef_eventq_poll` does to the ring when it returns the events `evs`.
There is no result when the library could not return them, because their ids
are not those of the oldest descriptors in order. -/
def efEventqPoll (q : Rxq) (evs : List Event) : Option Rxq := Loop.exec takeEvent evs q

theorem takeEvent_eq_some {e : Event} {q q' : Rxq} (h : takeEvent e q = some q') :
    (e.rqId? = none ∧ q' = q) ∨ ∃ d, e.rqId? = some d.dmaId ∧ q.pop = some (d, q') := by
  unfold takeEvent at h
  split at h
  next he =>
    cases h
    exact .inl ⟨he, rfl⟩
  next rqId he =>
    obtain ⟨⟨d, q₁⟩, hpop, h⟩ := Option.bind_eq_some_iff.mp h
    split at h
    · cases h
      next hd => exact .inr ⟨d, by rw [he, hd], hpop⟩
    · cases h

/-- A poll takes descriptors off the head of the ring, those of its events. -/
theorem efEventqPoll_eq_some {evs : List Event} {q q' : Rxq} (h : q.efEventqPoll evs = some q') :
    (∃ taken, q.ring = taken ++ q'.ring ∧ taken.map Desc.dmaId = rqIds evs) ∧
      q'.added = q.added ∧ q'.posted = q.posted ∧ q'.mask = q.mask := by
  induction evs generalizing q with
  | nil =>
      cases h
      exact ⟨⟨[], rfl, rfl⟩, rfl, rfl, rfl⟩
  | cons e evs ih =>
      obtain ⟨q₁, h₁, h⟩ := Loop.exec_cons_eq_some h
      obtain ⟨⟨taken, hring, hids⟩, hadded, hposted, hmask⟩ := ih h
      obtain ⟨he, rfl⟩ | ⟨d, he, hpop⟩ := takeEvent_eq_some h₁
      · exact ⟨⟨taken, hring, by rw [rqIds_cons_none he, hids]⟩, hadded, hposted, hmask⟩
      · obtain ⟨hr, -, ha, hp, hm⟩ := pop_eq_some hpop
        refine ⟨⟨d :: taken, ?_, ?_⟩, hadded.trans ha, hposted.trans hp, hmask.trans hm⟩
        · rw [hr, hring, List.cons_append]
        · rw [rqIds_cons_some he, List.map_cons, hids]

/-- The library can return the events of the oldest descriptors in order. -/
theorem efEventqPoll_isSome {evs : List Event} {q : Rxq} {rest : List Nat}
    (h : q.ring.map Desc.dmaId = rqIds evs ++ rest) : ∃ q', q.efEventqPoll evs = some q' := by
  induction evs generalizing q with
  | nil => exact ⟨q, rfl⟩
  | cons e evs ih =>
      cases he : e.rqId? with
      | none =>
          rw [rqIds_cons_none he] at h
          obtain ⟨q', hq'⟩ := ih h
          refine ⟨q', ?_⟩
          rw [efEventqPoll, Loop.exec_cons (by rw [takeEvent, he])]
          exact hq'
      | some i =>
          rw [rqIds_cons_some he, List.cons_append, List.map_eq_cons_iff] at h
          obtain ⟨d, ds, hring, hd, hds⟩ := h
          obtain ⟨q₁, hpop⟩ := pop_isSome hring
          have hrest := (pop_eq_some hpop).1
          rw [hring, List.cons.injEq] at hrest
          rw [hrest.2] at hds
          obtain ⟨q', hq'⟩ := ih hds
          have htake : takeEvent e q = some q₁ := by
            rw [takeEvent, he, hpop]
            exact if_pos hd
          refine ⟨q', ?_⟩
          rw [efEventqPoll, Loop.exec_cons htake]
          exact hq'

end Rxq

end Efvi
