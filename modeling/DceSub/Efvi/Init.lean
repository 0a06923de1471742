import DceSub.Efvi.Ownership

/-!
# Setting up

`mc_client_efvi::init`, from the allocation of the resources to the first fill
of the RX ring.  Three loops do the work: the first carves the packet buffers
and frees them one by one, the second registers them with the adapter, and the
third refills the ring until it is full.

The third loop ignores what `refill_rx_ring` returns, so a call that declined
would be repeated for ever.  `init_eq_some` rules this out: while the fill level
is at most `refill_level` there is a batch to move, so every call makes progress
and returns true, and the loop ends with less than a batch left.
-/

namespace Efvi

open Base

namespace Resources

/-- A write to the header of a buffer. -/
def modify (res : Resources) (pktBuf : Nat) (f : PktBuf → PktBuf) : Resources :=
  { res with heap := Function.update res.heap pktBuf (f (res.heap pktBuf)) }

/-- The body of the carving loop. -/
def carveOne (i : Nat) (res : Resources) : Option Resources :=
  (res.pktBufFromId i).map fun pktBuf =>
    (res.modify pktBuf fun b =>
      { b with rxPtr := pktBuf + rxDmaOff + res.rxPrefixLen, id := i }).pktBufFree pktBuf

/-- The carving loop. -/
def carve (res : Resources) : Option Resources := Loop.forLoop carveOne res.pktBufsN res

/-- The body of the loop that looks up the DMA addresses. -/
def registerOne (memreg : Memreg) (i : Nat) (res : Resources) : Option Resources :=
  (res.pktBufFromId i).map fun pktBuf =>
    res.modify pktBuf fun b => { b with efviAddr := memreg.efMemregDmaAddr (i * pktBufSize) }

/-- The loop that looks up the DMA addresses. -/
def register (memreg : Memreg) (res : Resources) : Option Resources :=
  Loop.forLoop (registerOne memreg) res.pktBufsN res

/-- The state of the filling loop: the resources, and what `refill_rx_ring` has
returned, which the source ignores. -/
structure Filling where
  res : Resources
  rets : List Bool

/-- The test of the filling loop. -/
def fillAgain (s : Filling) : Bool := s.res.vi.efViReceiveFillLevel ≤ s.res.refillLevel

/-- The body of the filling loop. -/
def fillOne (s : Filling) : Option Filling :=
  s.res.refillRxRing.map fun r => ⟨r.2.res, s.rets ++ [r.1]⟩

/-- The filling loop. -/
def fillRing (fuel : Nat) (res : Resources) : Option Filling :=
  Loop.whileLoop fillAgain fillOne fuel ⟨res, []⟩

end Resources

open Resources

/-- What the library and the system give to `init`. -/
structure Setup where
  /-- `ef_vi_receive_capacity`. -/
  capacity : Nat
  /-- `ef_vi_receive_prefix_len`. -/
  rxPrefixLen : Nat
  /-- The memory for the packet buffers, and what is in it. -/
  pktBufs : Nat
  heap : Nat → PktBuf
  memreg : Memreg
  small : capacity < 2 ^ 31

namespace Setup

/-- `cfg_max_fill`. -/
def cfgMaxFill (su : Setup) : Int := (su.capacity : Int) - 15

/-- The resources before the carving loop; `calloc` has zeroed them. -/
def alloc (su : Setup) : Resources where
  vi := Rxq.fresh su.capacity su.small
  rxPrefixLen := su.rxPrefixLen
  refillLevel := 0
  refillMin := 0
  pktBufs := su.pktBufs
  pktBufsN := su.cfgMaxFill.toNat
  freePktBufs := none
  freePktBufsN := 0
  nRxPkts := 0
  nRxBytes := 0
  heap := su.heap

/-- `mc_client_efvi::init`, with fuel for the filling loop. -/
def init (su : Setup) (fuel : Nat) : Option Filling :=
  su.alloc.carve.bind fun res => (res.register su.memreg).bind fun res =>
    fillRing fuel { res with
      refillLevel := su.cfgMaxFill - refillBatchSize
      refillMin := su.cfgMaxFill.tdiv 2 }

end Setup

/-! ## Carving -/

namespace Resources

@[simp] theorem modify_heap_self (res : Resources) (pktBuf : Nat) (f : PktBuf → PktBuf) :
    (res.modify pktBuf f).heap pktBuf = f (res.heap pktBuf) := Function.update_self ..

theorem modify_heap_of_ne (res : Resources) {a pktBuf : Nat} (f : PktBuf → PktBuf)
    (h : a ≠ pktBuf) : (res.modify pktBuf f).heap a = res.heap a := Function.update_of_ne h ..

/-- The `next` fields stay as they are when a write leaves that of its own
header alone. -/
theorem modify_next (res : Resources) (pktBuf : Nat) {f : PktBuf → PktBuf}
    (hf : ∀ b, (f b).next = b.next) : (res.modify pktBuf f).next = res.next := by
  funext a
  by_cases ha : a = pktBuf
  · rw [ha, next, modify_heap_self, hf, next]
  · rw [next, modify_heap_of_ne res f ha, next]

theorem FreeList.modify {res : Resources} {l : List Nat} {pktBuf : Nat} {f : PktBuf → PktBuf}
    (h : res.FreeList l) (hf : ∀ b, (f b).next = b.next) : (res.modify pktBuf f).FreeList l where
  chain := by
    rw [modify_next res pktBuf hf]
    exact h.chain
  count := h.count

/-- After `i` passes of the carving loop over `res₀`, the first `i` buffers are
carved and on the free list, the last one first. -/
structure Carving (res₀ : Resources) (i : Nat) (res : Resources) : Prop where
  free : res.FreeList ((List.range i).reverse.map res₀.layout.bufAddr)
  id : ∀ j, j < i → res.layout.id (res₀.layout.bufAddr j) = j
  rxPtr : ∀ j, j < i → res.layout.rxPtr (res₀.layout.bufAddr j) =
    res₀.layout.bufAddr j + rxDmaOff + res₀.rxPrefixLen
  frame : ∃ heap head n,
    res = { res₀ with heap := heap, freePktBufs := head, freePktBufsN := n }

theorem carveOne_carving {res₀ res : Resources} {i : Nat} (hi : i < res₀.pktBufsN)
    (h : Carving res₀ i res) :
    ∃ res', carveOne i res = some res' ∧ Carving res₀ (i + 1) res' := by
  obtain ⟨heap, head, n, hframe⟩ := h.frame
  have hn : res.pktBufsN = res₀.pktBufsN := by rw [hframe]
  have hlen : res.rxPrefixLen = res₀.rxPrefixLen := by rw [hframe]
  have haddr : res.pktBufs + i * pktBufSize = res₀.layout.bufAddr i := by rw [hframe]; rfl
  have hid : res.pktBufFromId i = some (res₀.layout.bufAddr i) := by
    rw [pktBufFromId, if_pos (hn ▸ hi), haddr]
  refine ⟨_, by rw [carveOne, hid]; rfl, ?_⟩
  constructor
  case free =>
    rw [List.range_succ, List.reverse_append, List.reverse_singleton, List.singleton_append,
      List.map_cons]
    refine FreeList.pktBufFree (h.free.modify ?_) ?_
    · intro b
      rfl
    · rw [List.mem_map]
      rintro ⟨j, hj, hji⟩
      have := res₀.layout.bufAddr_inj hji
      rw [List.mem_reverse, List.mem_range] at hj
      omega
  case id =>
    intro j hj
    rw [pktBufFree_layout]
    show ((res.modify _ _).heap _).id = j
    by_cases hji : j = i
    · rw [hji, modify_heap_self]
    · rw [modify_heap_of_ne _ _ fun heq => hji (res₀.layout.bufAddr_inj heq)]
      exact h.id j (by omega)
  case rxPtr =>
    intro j hj
    rw [pktBufFree_layout]
    show ((res.modify _ _).heap _).rxPtr = _
    by_cases hji : j = i
    · rw [hji, modify_heap_self, hlen]
    · rw [modify_heap_of_ne _ _ fun heq => hji (res₀.layout.bufAddr_inj heq)]
      exact h.rxPtr j (by omega)
  case frame =>
    exact ⟨_, _, _, by rw [hframe]; rfl⟩

/-- From empty resources, the carving loop ends, and all buffers are free. -/
theorem carve_owns (res₀ : Resources) (hring : res₀.vi.ring = []) (hempty : res₀.FreeList [])
    (hroom : res₀.pktBufsN ≤ res₀.vi.mask) :
    ∃ res, res₀.carve = some res ∧
      (∃ heap head n, res = { res₀ with heap := heap, freePktBufs := head, freePktBufsN := n }) ∧
      Owns res ⟨(List.range res₀.pktBufsN).reverse, [], []⟩ := by
  have h0 : Carving res₀ 0 res₀ :=
    ⟨hempty, fun j hj => absurd hj (Nat.not_lt_zero j), fun j hj => absurd hj (Nat.not_lt_zero j),
      ⟨_, _, _, rfl⟩⟩
  obtain ⟨res, hres, h⟩ := Loop.forLoop_inv (Carving res₀) h0
    (fun i res hi h => carveOne_carving hi h)
  obtain ⟨heap, head, n, hframe⟩ := h.frame
  refine ⟨res, hres, h.frame, ?_⟩
  have hfree := h.free
  have hids := h.id
  have hrx := h.rxPtr
  rw [hframe] at hfree hids hrx ⊢
  constructor
  case carved => exact ⟨hids, hrx, hroom⟩
  case free => exact hfree
  case ring => exact hring
  case perm =>
    rw [Pool.all, List.append_nil, List.append_nil]
    exact List.reverse_perm _

/-! ## Registering -/

/-- Resources with other DMA addresses and thresholds, which `init` fills in
after the carving loop. -/
def configure (res : Resources) (efviAddr : Nat → Nat) (refillLevel refillMin : Int) :
    Resources :=
  { res with
    refillLevel := refillLevel
    refillMin := refillMin
    heap := fun a => { res.heap a with efviAddr := efviAddr a } }

theorem Owns.configure {res : Resources} {free held : List Nat} (h : Owns res ⟨free, [], held⟩)
    (efviAddr : Nat → Nat) (refillLevel refillMin : Int) :
    Owns (res.configure efviAddr refillLevel refillMin) ⟨free, [], held⟩ where
  carved := ⟨h.carved.id, h.carved.rxPtr, h.carved.room⟩
  free := ⟨h.free.chain, h.free.count⟩
  ring := h.ring
  perm := h.perm

theorem configure_modify (res : Resources) (efviAddr : Nat → Nat) (level min : Int)
    (pktBuf addr : Nat) :
    (res.configure efviAddr level min).modify pktBuf (fun b => { b with efviAddr := addr }) =
      res.configure (Function.update efviAddr pktBuf addr) level min := by
  have hheap : Function.update (res.configure efviAddr level min).heap pktBuf
      { (res.configure efviAddr level min).heap pktBuf with efviAddr := addr } =
      (res.configure (Function.update efviAddr pktBuf addr) level min).heap := by
    funext a
    by_cases ha : a = pktBuf
    · subst ha
      simp [Resources.configure]
    · simp [Resources.configure, Function.update_of_ne ha]
  rw [modify, hheap]
  rfl

/-- After `i` passes of the second loop over `res`, the first `i` buffers have
their DMA address. -/
def Registering (memreg : Memreg) (res : Resources) (i : Nat) (res' : Resources) : Prop :=
  ∃ efviAddr, res' = res.configure efviAddr res.refillLevel res.refillMin ∧
    ∀ j, j < i → efviAddr (res.layout.bufAddr j) = memreg.efMemregDmaAddr (j * pktBufSize)

theorem registerOne_registering {memreg : Memreg} {res res' : Resources} {i : Nat}
    (hi : i < res.pktBufsN) (h : Registering memreg res i res') :
    ∃ res'', registerOne memreg i res' = some res'' ∧ Registering memreg res (i + 1) res'' := by
  obtain ⟨efviAddr, rfl, haddr⟩ := h
  have hid : (res.configure efviAddr res.refillLevel res.refillMin).pktBufFromId i =
      some (res.layout.bufAddr i) := if_pos hi
  refine ⟨_, by rw [registerOne, hid]; rfl, _, configure_modify .., fun j hj => ?_⟩
  by_cases hji : j = i
  · rw [hji, Function.update_self]
  · rw [Function.update_of_ne fun heq => hji (res.layout.bufAddr_inj heq)]
    exact haddr j (by omega)

/-- The second loop sets the DMA address of every buffer, and nothing else. -/
theorem register_eq_some (memreg : Memreg) (res : Resources) :
    ∃ efviAddr, res.register memreg =
        some (res.configure efviAddr res.refillLevel res.refillMin) ∧
      ∀ i, i < res.pktBufsN →
        efviAddr (res.layout.bufAddr i) = memreg.efMemregDmaAddr (i * pktBufSize) := by
  have h0 : Registering memreg res 0 res :=
    ⟨fun a => (res.heap a).efviAddr, rfl, fun j hj => absurd hj (Nat.not_lt_zero j)⟩
  obtain ⟨_, hres, efviAddr, rfl, haddr⟩ := Loop.forLoop_inv (Registering memreg res) h0
    (fun i res' hi h => registerOne_registering hi h)
  exact ⟨efviAddr, hres, haddr⟩

end Resources

/-! ## Filling the ring -/

namespace Setup

/-- What `init` fixes: the buffers, the thresholds and the DMA addresses. -/
structure Configured (su : Setup) (L : Layout) : Prop where
  mask : L.mask = su.capacity
  rxPrefixLen : L.rxPrefixLen = su.rxPrefixLen
  pktBufs : L.pktBufs = su.pktBufs
  pktBufsN : (L.pktBufsN : Int) = su.cfgMaxFill
  refillLevel : L.refillLevel = L.pktBufsN - 16
  refillMin : L.refillMin = L.pktBufsN / 2
  efviAddr : ∀ i, i < L.pktBufsN →
    L.efviAddr (L.bufAddr i) = su.memreg.efMemregDmaAddr (i * pktBufSize)

/-- Between calls of `refill_rx_ring` with no event polled: descriptors were
added in whole batches, and all of them are submitted. -/
structure Posted (su : Setup) (res : Resources) (p : Pool Nat) : Prop where
  configured : su.Configured res.layout
  owns : Owns res p
  held : p.held = []
  added : res.vi.added.toNat % 16 = 0
  posted : res.vi.posted = res.vi.added

variable {su : Setup}

theorem Posted.count {res : Resources} {p : Pool Nat} (h : su.Posted res p) :
    p.free.length + p.ring.length = res.pktBufsN := by
  have hcount := h.owns.count
  rw [h.held, List.length_nil] at hcount
  omega

/-- A call leaves whole batches again, all of them submitted. -/
theorem Posted.refillRxRing {res : Resources} {p : Pool Nat} (h : su.Posted res p) :
    ∃ out, res.refillRxRing = some (decide (0 < refillCount res p), out) ∧
      refillCount res p ≤ p.free.length ∧
      su.Posted out.res
        ⟨p.free.drop (refillCount res p), p.ring ++ p.free.take (refillCount res p), []⟩ := by
  have hadded := h.added
  obtain ⟨out, hout, hmoved, howns, hposted⟩ := h.owns.refillRxRing
  have hle := hmoved.le
  rw [List.length_map] at hle
  refine ⟨out, hout, hle, ?_⟩
  constructor
  case configured =>
    rw [hmoved.layout]
    exact h.configured
  case owns =>
    rw [h.held] at howns
    exact howns
  case held => rfl
  case added =>
    rw [hmoved.added]
    exact toNat_add_ofNat_mod (by decide) hadded (refillCount_dvd res p)
  case posted => exact hposted h.posted (by omega)

/-- What the carving loop of `init` leaves: all buffers are free. -/
theorem carved (su : Setup) :
    ∃ res, su.alloc.carve = some res ∧
      (∃ heap head n,
        res = { su.alloc with heap := heap, freePktBufs := head, freePktBufsN := n }) ∧
      Owns res ⟨(List.range su.cfgMaxFill.toNat).reverse, [], []⟩ := by
  refine carve_owns su.alloc rfl ⟨rfl, rfl⟩ ?_
  show ((su.capacity : Int) - 15).toNat ≤ su.capacity
  omega

/-- The state in which the filling loop starts. -/
theorem posted_start (su : Setup) (hc : 15 ≤ su.capacity) :
    ∃ res, (∀ fuel, su.init fuel = res.fillRing fuel) ∧
      su.Posted res ⟨(List.range (su.capacity - 15)).reverse, [], []⟩ := by
  have hmax : su.cfgMaxFill = (su.capacity : Int) - 15 := rfl
  have hn : su.cfgMaxFill.toNat = su.capacity - 15 := by omega
  have hb16 : (refillBatchSize : Int) = 16 := rfl
  obtain ⟨res, hres, ⟨heap, head, n, hframe⟩, howns⟩ := su.carved
  obtain ⟨efviAddr, hreg, haddr⟩ := register_eq_some su.memreg res
  refine ⟨_, fun fuel => by rw [init, hres, Option.bind_some, hreg, Option.bind_some], ?_⟩
  rw [hn] at howns
  have hcarved := howns.configure efviAddr (su.cfgMaxFill - refillBatchSize) (su.cfgMaxFill.tdiv 2)
  refine ⟨?_, hcarved, rfl, ?_, ?_⟩
  · rw [hframe] at haddr ⊢
    constructor
    case mask | rxPrefixLen | pktBufs => rfl
    case pktBufsN =>
      show (su.cfgMaxFill.toNat : Int) = _
      omega
    case refillLevel =>
      show su.cfgMaxFill - refillBatchSize = (su.cfgMaxFill.toNat : Int) - 16
      omega
    case refillMin =>
      show su.cfgMaxFill.tdiv 2 = (su.cfgMaxFill.toNat : Int) / 2
      rw [Int.tdiv_eq_ediv_of_nonneg (by omega)]
      omega
    case efviAddr => exact haddr
  · rw [hframe]
    rfl
  · rw [hframe]
    rfl

/-- The invariant of the filling loop: whole batches are on the ring, and every
call has returned true. -/
def Filled (su : Setup) (s : Filling) : Prop :=
  ∃ p, su.Posted s.res p ∧ p.ring.length % 16 = 0 ∧ ∀ ret ∈ s.rets, ret = true

/-- While the test holds there is a batch to move. -/
theorem fillOne_filled {s : Filling} (h : su.Filled s) (hagain : fillAgain s = true) :
    ∃ s', fillOne s = some s' ∧ su.Filled s' ∧
      s'.res.freePktBufsN.toNat < s.res.freePktBufsN.toNat := by
  obtain ⟨p, hp, hmod, hrets⟩ := h
  have hcount := hp.count
  have hlevel : s.res.refillLevel = (s.res.pktBufsN : Int) - 16 := hp.configured.refillLevel
  rw [fillAgain, decide_eq_true_iff, Rxq.fillLevel_eq, hp.owns.ring_length] at hagain
  have hpos : 0 < refillCount s.res p := refillCount_pos (by omega) (by omega)
  have hdvd := refillCount_dvd s.res p
  obtain ⟨out, hout, hle, hp'⟩ := hp.refillRxRing
  have hcount' : out.res.freePktBufsN = (p.free.drop (refillCount s.res p)).length :=
    hp'.owns.free_length
  rw [decide_eq_true hpos] at hout
  refine ⟨⟨out.res, s.rets ++ [true]⟩, by rw [fillOne, hout]; rfl, ⟨_, hp', ?_, ?_⟩, ?_⟩
  · rw [List.length_append, List.length_take_of_le hle]
    omega
  · intro ret hret
    rcases List.mem_append.mp hret with hret | hret
    · exact hrets ret hret
    · exact List.mem_singleton.mp hret
  · show out.res.freePktBufsN.toNat < s.res.freePktBufsN.toNat
    rw [hp.owns.free_length, hcount', List.length_drop]
    omega

/-- `init` ends, whatever the capacity; no call of `refill_rx_ring` was
declined, and less than a batch is left. -/
theorem init_eq_some (su : Setup) (hc : 15 ≤ su.capacity) :
    ∃ out p, (∀ fuel, su.capacity < fuel → su.init fuel = some out) ∧
      (∀ ret ∈ out.rets, ret = true) ∧ su.Posted out.res p ∧
      p.ring.length = 16 * ((su.capacity - 15) / 16) ∧
      p.free.length = (su.capacity - 15) % 16 := by
  obtain ⟨res, hinit, hstart⟩ := su.posted_start hc
  have hfilled : su.Filled ⟨res, []⟩ := ⟨_, hstart, rfl, fun ret hret => by cases hret⟩
  obtain ⟨out, hout, ⟨p, hposted, hbatches, hrets⟩, hend⟩ :=
    Loop.whileLoop_variant su.Filled (fun s => s.res.freePktBufsN.toNat)
      (fun _ h hagain => fillOne_filled h hagain) _ hfilled
  have hn : (out.res.pktBufsN : Int) = su.cfgMaxFill := hposted.configured.pktBufsN
  have hmax : su.cfgMaxFill = (su.capacity : Int) - 15 := rfl
  have hlevel : out.res.refillLevel = (out.res.pktBufsN : Int) - 16 :=
    hposted.configured.refillLevel
  have hcount := hposted.count
  rw [fillAgain, decide_eq_false_iff_not, Rxq.fillLevel_eq, hposted.owns.ring_length] at hend
  refine ⟨out, p, fun fuel hfuel => ?_, hrets, hposted, by omega, by omega⟩
  rw [hinit fuel]
  refine hout fuel ?_
  show res.freePktBufsN.toNat < fuel
  rw [hstart.owns.free_length, List.length_reverse, List.length_range]
  omega

/-- Whatever the fuel, a run of `init` that ends leaves the ring full but for
less than a batch. -/
theorem init_posted {su : Setup} (hc : 15 ≤ su.capacity) {fuel : Nat} {out : Filling}
    (h : su.init fuel = some out) :
    ∃ p, su.Posted out.res p ∧ p.ring.length = 16 * ((su.capacity - 15) / 16) ∧
      p.free.length = (su.capacity - 15) % 16 := by
  obtain ⟨out', p, hout', -, hposted, hring, hfree⟩ := su.init_eq_some hc
  obtain ⟨res, hinit, -⟩ := su.posted_start hc
  have hmore : su.init (fuel + (su.capacity + 1)) = some out := by
    rw [hinit] at h ⊢
    exact Loop.whileLoop_mono h
  obtain rfl := Option.some.inj (hmore.symm.trans (hout' _ (by omega)))
  exact ⟨p, hposted, hring, hfree⟩

/-- The first fill of the ring ends after finitely many calls, all of which
return true, and posts every whole batch of buffers; all that was added is posted.
With a ring of `2 ^ k` slots that is every buffer. -/
theorem init_fills (su : Setup) (hc : 15 ≤ su.capacity) :
    ∃ out p, (∀ fuel, su.capacity < fuel → su.init fuel = some out) ∧
      (∀ ret ∈ out.rets, ret = true) ∧ out.res.Owns p ∧ p.held = [] ∧
      out.res.vi.posted = out.res.vi.added ∧
      out.res.vi.efViReceiveFillLevel = 16 * ((su.capacity - 15) / 16 : Nat) ∧
      out.res.freePktBufsN = ((su.capacity - 15) % 16 : Nat) ∧
      ∀ k, 5 ≤ k → su.capacity = 2 ^ k - 1 →
        p.ring.Perm (List.range (su.capacity - 15)) ∧ p.free = [] ∧ out.res.freePktBufs = none := by
  obtain ⟨out, p, hout, hrets, hposted, hring, hfree⟩ := su.init_eq_some hc
  refine ⟨out, p, hout, hrets, hposted.owns, hposted.held, hposted.posted, ?_, ?_,
    fun k hk hcap => ?_⟩
  · rw [Rxq.fillLevel_eq, hposted.owns.ring_length, hring]
    omega
  · rw [hposted.owns.free_length, hfree]
  · have hn : (out.res.pktBufsN : Int) = su.cfgMaxFill := hposted.configured.pktBufsN
    have hmax : su.cfgMaxFill = (su.capacity : Int) - 15 := rfl
    have hpow : 2 ^ k = 16 * 2 ^ (k - 4) := by
      rw [show k = 4 + (k - 4) by omega, pow_add]
      simp
    have hpos : 0 < 2 ^ (k - 4) := Nat.pow_pos (by decide)
    have hnil : p.free = [] := List.length_eq_zero_iff.mp (by omega)
    have hchain := hposted.owns.free.chain
    have hperm := hposted.owns.perm
    rw [hnil] at hchain
    rw [Pool.all, hnil, hposted.held, List.append_nil, List.nil_append,
      show out.res.pktBufsN = su.capacity - 15 by omega] at hperm
    exact ⟨hperm, hnil, hchain⟩

/-- A ring of 32 slots, with buffers at address 0 on. -/
def small32 : Setup where
  capacity := 31
  rxPrefixLen := 14
  pktBufs := 0
  heap := fun _ => ⟨0, 0, 0, none⟩
  memreg := Memreg.identity
  small := by decide

theorem init_fills_small32 :
    ∃ out p, (∀ fuel, 31 < fuel → small32.init fuel = some out) ∧
      (∀ ret ∈ out.rets, ret = true) ∧ out.res.Owns p ∧ p.held = [] ∧
      out.res.vi.posted = out.res.vi.added ∧
      out.res.vi.efViReceiveFillLevel = 16 * ((31 - 15) / 16 : Nat) ∧
      out.res.freePktBufsN = ((31 - 15) % 16 : Nat) ∧
      ∀ k, 5 ≤ k → 31 = 2 ^ k - 1 →
        p.ring.Perm (List.range (31 - 15)) ∧ p.free = [] ∧ out.res.freePktBufs = none :=
  small32.init_fills (by decide)

end Setup

end Efvi
