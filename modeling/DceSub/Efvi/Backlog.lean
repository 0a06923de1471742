import DceSub.Efvi.Pace

/-!
# The backlog of the event loop

How long a frame waits.  What matters is not time but polls: whatever waits in
the event queue is handled after as many polls as it takes to read that many
events, however many more arrive meanwhile (`paced_bounded_wait`).  When the NIC
falls silent the client catches up by itself, and puts the buffers back on the
ring (`paced_drains`).
-/

namespace Efvi

open Base Wire Client Resources

/-! ## The queues -/

/-- An event of a good frame. -/
def Event.isRx : Event → Bool
  | .rx .. => true
  | _ => false

/-- How many good frames are behind events. -/
def rxCount (evs : List Event) : Nat := evs.countP Event.isRx

theorem rxCount_append (evs evs' : List Event) :
    rxCount (evs ++ evs') = rxCount evs + rxCount evs' := List.countP_append

theorem Event.isSome_frame (L : Layout) (m : Mem) (e : Event) : (e.frame L m).isSome = e.isRx := by
  cases e <;> rfl

theorem length_frames (L : Layout) (m : Mem) (evs : List Event) :
    (evs.filterMap (Event.frame L m)).length = rxCount evs := by
  rw [List.length_filterMap_eq_countP, rxCount]
  simp only [Event.isSome_frame]

/-- A poll. -/
def SysAct.isPoll : SysAct → Bool
  | .poll _ => true
  | _ => false

/-- How many events a step takes off the queue, if there are as many. -/
def SysAct.taken : SysAct → Nat
  | .poll k => k
  | _ => 0

/-- A step of the client. -/
def SysAct.isClient : SysAct → Bool
  | .refill | .poll _ | .handle => true
  | _ => false

theorem SysAct.taken_of_nic {a : SysAct} (h : a.isClient = false) : a.taken = 0 := by
  cases a with
  | poll => cases h
  | _ => rfl

/-- How often a run polls. -/
def pollCount (acts : List SysAct) : Nat := acts.countP SysAct.isPoll

section

variable {su : Setup} {packetHandlerFull : PacketHandlerFull} {a : SysAct} {s s' : Sys}
  {p : Pool Nat}

/-- What a step does to the queues: the NIC appends an event, a refill leaves
them, a poll moves events from one to the other, and a handler takes one. -/
theorem sysStep_queues (howned : Owned s.client p)
    (h : sysStep su packetHandlerFull a s = some s') :
    (a.isClient = false ∧ ∃ e, s'.evq = s.evq ++ [e] ∧ s'.client = s.client ∧
        s'.written.length = s.written.length + rxCount [e] ∧ s.written <+: s'.written) ∨
      (a = .refill ∧ s'.evq = s.evq ∧ s'.client.polled = s.client.polled ∧
        s'.client.seen = s.client.seen ∧ s'.written = s.written) ∨
      (∃ k, a = .poll k ∧ s'.evq = s.evq.drop k ∧
        s'.client.polled = s.client.polled ++ s.evq.take k ∧
        s'.client.seen = s.client.seen ∧ s'.written = s.written) ∨
      (a = .handle ∧ s'.evq = s.evq ∧ s'.written = s.written ∧ ∃ e evs,
        s.client.polled = e :: evs ∧ s'.client.polled = evs ∧
        s'.client.seen.length = s.client.seen.length + rxCount [e]) := by
  cases a with
  | rx head frame =>
      obtain ⟨-, h⟩ := Option.ite_none_right_eq_some.mp h
      obtain ⟨d, -, rfl⟩ := Option.map_eq_some_iff.mp h
      exact .inl ⟨rfl, _, rfl, rfl, List.length_append, List.prefix_append ..⟩
  | discard bytes len subtype =>
      obtain ⟨-, h⟩ := Option.ite_none_right_eq_some.mp h
      obtain ⟨d, -, rfl⟩ := Option.map_eq_some_iff.mp h
      exact .inl ⟨rfl, _, rfl, rfl, rfl, List.prefix_rfl⟩
  | other type =>
      cases h
      exact .inl ⟨rfl, _, rfl, rfl, rfl, List.prefix_rfl⟩
  | refill =>
      obtain ⟨c, hc, rfl⟩ := Option.map_eq_some_iff.mp h
      obtain ⟨c', hc', -, -, hpolled, hseen⟩ := howned.refill packetHandlerFull
      obtain rfl := Option.some.inj (hc'.symm.trans hc)
      exact .inr (.inl ⟨rfl, rfl, hpolled, hseen, rfl⟩)
  | poll k =>
      obtain ⟨c, hc, rfl⟩ := Option.map_eq_some_iff.mp h
      obtain ⟨ring, -, -, -, hpolled, hseen⟩ := howned.poll hc
      exact .inr (.inr (.inl ⟨k, rfl, rfl, hpolled, hseen, rfl⟩))
  | handle =>
      obtain ⟨c, hc, rfl⟩ := Option.map_eq_some_iff.mp h
      obtain ⟨e, evs, hpolled, hpolled', hseen, -⟩ := howned.handle hc
      refine .inr (.inr (.inr ⟨rfl, rfl, rfl, e, evs, hpolled, hpolled', ?_⟩))
      have hcount := length_frames s.client.res.layout s.mem [e]
      rw [hseen, List.length_append, ← hcount, List.filterMap_cons]
      cases e.frame s.client.res.layout s.mem <;> rfl

/-! ## What waits is handled -/

/-- Of the frames written at some time, all were seen but those behind the
polled events and the first `u` queued ones; `w` is their number. -/
structure Backlog (w u : Nat) (s : Sys) : Prop where
  le : u ≤ s.evq.length
  count : w ≤ s.client.seen.length + (rxCount s.client.polled + rxCount (s.evq.take u))

/-- Events that arrive do not lengthen the wait, and a poll shortens it. -/
theorem Backlog.step {w u : Nat} (howned : Owned s.client p) (h : Backlog w u s)
    (hstep : sysStep su packetHandlerFull a s = some s') : Backlog w (u - a.taken) s' := by
  have hle := h.le
  have hcount := h.count
  obtain ⟨hnic, e, hevq, hclient, -, -⟩ | ⟨rfl, hevq, hpolled, hseen, -⟩ |
    ⟨k, rfl, hevq, hpolled, hseen, -⟩ | ⟨rfl, hevq, -, e, evs, hpolled, hpolled', hseen⟩ :=
    sysStep_queues howned hstep
  · rw [SysAct.taken_of_nic hnic, Nat.sub_zero]
    refine ⟨?_, ?_⟩
    · rw [hevq, List.length_append]
      omega
    · rw [hevq, hclient, List.take_append_of_le_length hle]
      exact hcount
  · exact ⟨by rw [hevq]; exact hle, by rw [hevq, hpolled, hseen]; exact hcount⟩
  · rw [SysAct.taken]
    refine ⟨?_, ?_⟩
    · rw [hevq, List.length_drop]
      omega
    · -- the poll takes the first of the `u` events, and perhaps later ones
      have hsplit : rxCount (s.evq.take u) ≤
          rxCount (s.evq.take k) + rxCount ((s.evq.drop k).take (u - k)) := by
        rw [← rxCount_append, ← List.take_add]
        exact (List.take_prefix_take_left (by omega)).sublist.countP_le
      rw [hevq, hpolled, hseen, rxCount_append]
      omega
  · rw [hpolled, ← List.singleton_append, rxCount_append] at hcount
    rw [show SysAct.handle.taken = 0 from rfl, Nat.sub_zero]
    refine ⟨by rw [hevq]; exact hle, ?_⟩
    rw [hevq, hpolled', hseen]
    omega

theorem Sys.written_mono (howned : Owned s.client p)
    (hstep : sysStep su packetHandlerFull a s = some s') : s.written <+: s'.written := by
  obtain ⟨-, e, -, -, -, hpre⟩ | ⟨-, -, -, -, h⟩ | ⟨k, -, -, -, -, h⟩ | ⟨-, -, h, -⟩ :=
    sysStep_queues howned hstep
  · exact hpre
  all_goals rw [h]

end

/-- A run that polls `n` times shortens the wait by `n` batches. -/
theorem Backlog.run {su : Setup} {packetHandlerFull : PacketHandlerFull} {batch w u : Nat}
    {acts : List SysAct} {s s' : Paced} (hinv : s.Inv su) (h : Backlog w u s.sys)
    (hrun : Loop.exec (pacedStep su packetHandlerFull batch) acts s = some s') :
    ∃ u', u' ≤ u - batch * pollCount acts ∧ Backlog w u' s'.sys ∧
      s.sys.written <+: s'.sys.written := by
  induction acts generalizing s u with
  | nil =>
      cases hrun
      exact ⟨u, Nat.le_refl _, h, List.prefix_rfl⟩
  | cons a acts ih =>
      obtain ⟨s₁, hstep, hrun⟩ := Loop.exec_cons_eq_some hrun
      obtain ⟨b, hb, -⟩ := hinv.refines
      have hsys := pacedStep_sys hstep
      have h₁ := h.step hb.owned hsys
      obtain ⟨u', hu', hlog, hwritten⟩ := ih (hinv.step hstep) h₁ hrun
      refine ⟨u', ?_, hlog, (Sys.written_mono hb.owned hsys).trans hwritten⟩
      have hshort : u - a.taken ≤ u - batch * pollCount [a] := by
        cases a with
        | poll k =>
            obtain ⟨⟨-, hk⟩, -⟩ := Option.ite_none_right_eq_some.mp hstep
            have hle := h.le
            rw [SysAct.taken, show pollCount [.poll k] = 1 from rfl]
            omega
        | _ => exact Nat.le_refl _
      have hcons : pollCount (a :: acts) = pollCount [a] + pollCount acts := by
        rw [← List.singleton_append, pollCount, List.countP_append]
        rfl
      rw [hcons, Nat.mul_add]
      omega

/-- After `init`, in any interleaving of the NIC with the event loop: the frames
written so far have all been seen, in order, once the loop has polled as often
as it takes to read the events that were waiting.  How many frames arrive in
the meantime does not matter. -/
theorem paced_bounded_wait (packetHandlerFull : PacketHandlerFull) (su : Setup)
    (hc : 15 ≤ su.capacity) (fuel : Nat) (out : Filling) (hinit : su.init fuel = some out)
    (rx : RxState) (mem : Mem) (batch : Nat) (acts acts' : List SysAct) (s s' : Paced)
    (hrun : Loop.exec (pacedStep su packetHandlerFull batch) acts (.start out.res rx mem) = some s)
    (hrun' : Loop.exec (pacedStep su packetHandlerFull batch) acts' s = some s')
    (hpolls : s.sys.evq.length ≤ batch * pollCount acts') (hidle : s'.sys.client.polled = []) :
    s.sys.written <+: s'.sys.client.seen := by
  have hinv := (Paced.Inv.start hc hinit rx mem).run hrun
  obtain ⟨b, hb, hfifo⟩ := hinv.refines
  obtain ⟨b', hb', hfifo'⟩ := (hinv.run hrun').refines
  have hdelivered := congrArg List.length (hb.delivered hfifo)
  rw [List.length_append, length_frames, rxCount_append] at hdelivered
  have hlog : Backlog s.sys.written.length s.sys.evq.length s.sys :=
    ⟨Nat.le_refl _, by rw [List.take_length]; omega⟩
  obtain ⟨u', hu', hlog', hwritten⟩ := hlog.run hinv hrun'
  have hcount := hlog'.count
  rw [hidle, show u' = 0 by omega] at hcount
  refine List.prefix_of_prefix_length_le hwritten ?_ ?_
  · rw [← hb'.delivered hfifo']
    exact List.prefix_append ..
  · exact hcount

/-- More frames arrive while the client gets to the ones of `pacedSample`. -/
def pacedRest : List SysAct :=
  [.rx (List.replicate 14 3) [7], .handle, .refill, .rx (List.replicate 14 4) [8], .poll 1, .handle]

theorem paced_bounded_wait_small64 :
    ∃ out s s', Setup.small64.init 64 = some out ∧
      Loop.exec (pacedStep .small64 noMessage 1) pacedSample
        (.start out.res freshRx (view [])) = some s ∧
      Loop.exec (pacedStep .small64 noMessage 1) pacedRest s = some s' ∧
      s.sys.written <+: s'.sys.client.seen := by
  have hsome : ((Setup.small64.init 64).bind fun out =>
      (Loop.exec (pacedStep .small64 noMessage 1) pacedSample
        (.start out.res freshRx (view []))).bind fun s =>
          (Loop.exec (pacedStep .small64 noMessage 1) pacedRest s).filter fun s' =>
            s.sys.evq.length ≤ 1 * pollCount pacedRest ∧
              s'.sys.client.polled = []).isSome = true := by
    decide +kernel
  obtain ⟨s', hs'⟩ := Option.isSome_iff_exists.mp hsome
  obtain ⟨out, hinit, hs'⟩ := Option.bind_eq_some_iff.mp hs'
  obtain ⟨s, hrun, hs'⟩ := Option.bind_eq_some_iff.mp hs'
  obtain ⟨hrun', hdone⟩ := Option.filter_eq_some_iff.mp hs'
  obtain ⟨hpolls, hidle⟩ := of_decide_eq_true hdone
  exact ⟨out, s, s', hinit, hrun, hrun', paced_bounded_wait noMessage .small64 (by decide) 64 out
    hinit freshRx (view []) 1 pacedSample pacedRest s s' hrun hrun' hpolls hidle⟩

/-! ## Catching up -/

/-- The client alone gets from one state to another, with so many polls, while
nothing is written. -/
def Alone (su : Setup) (packetHandlerFull : PacketHandlerFull) (batch polls : Nat)
    (s s' : Paced) : Prop :=
  ∃ acts, (∀ a ∈ acts, a.isClient = true) ∧ pollCount acts = polls ∧
    Loop.exec (pacedStep su packetHandlerFull batch) acts s = some s' ∧
    s'.sys.written = s.sys.written ∧ s'.Inv su

section

variable {su : Setup} {packetHandlerFull : PacketHandlerFull} {batch : Nat} {s s₁ s' : Paced}

theorem Alone.inv {n : Nat} (h : Alone su packetHandlerFull batch n s s') : s'.Inv su := by
  obtain ⟨-, -, -, -, -, hinv⟩ := h
  exact hinv

theorem Alone.refl (h : s.Inv su) : Alone su packetHandlerFull batch 0 s s :=
  ⟨[], by simp, rfl, rfl, rfl, h⟩

theorem Alone.trans {m n : Nat} (h : Alone su packetHandlerFull batch m s s₁)
    (h' : Alone su packetHandlerFull batch n s₁ s') :
    Alone su packetHandlerFull batch (m + n) s s' := by
  obtain ⟨acts, hclient, hpolls, hrun, hwritten, -⟩ := h
  obtain ⟨acts', hclient', hpolls', hrun', hwritten', hinv⟩ := h'
  refine ⟨acts ++ acts', ?_, ?_, ?_, hwritten'.trans hwritten, hinv⟩
  · intro a ha
    rcases List.mem_append.mp ha with ha | ha
    · exact hclient a ha
    · exact hclient' a ha
  · rw [pollCount, List.countP_append]
    exact congrArg₂ (· + ·) hpolls hpolls'
  · rw [Loop.exec_append hrun]
    exact hrun'

/-- One step of the client. -/
theorem Alone.single {a : SysAct} (h : s.Inv su) (ha : a.isClient = true)
    (hstep : pacedStep su packetHandlerFull batch a s = some s') :
    Alone su packetHandlerFull batch (pollCount [a]) s s' := by
  obtain ⟨b, hb, -⟩ := h.refines
  refine ⟨[a], by simpa using ha, rfl, by rw [Loop.exec_cons hstep]; rfl, ?_, h.step hstep⟩
  obtain ⟨hnic, -⟩ | ⟨-, -, -, -, hw⟩ | ⟨k, -, -, -, -, hw⟩ | ⟨-, -, hw, -⟩ :=
    sysStep_queues hb.owned (pacedStep_sys hstep)
  · rw [ha] at hnic
    cases hnic
  all_goals exact hw

variable (packetHandlerFull batch) in
/-- The rest of the events of a poll. -/
theorem Alone.handles (h : s.Inv su) (hpoint : s.point = .handle) :
    ∃ s', Alone su packetHandlerFull batch 0 s s' ∧ s'.point = .refill ∧
      s'.sys.evq = s.sys.evq := by
  generalize hn : s.sys.client.polled.length = n
  induction n generalizing s with
  | zero => exact absurd (List.length_eq_zero_iff.mp hn) (h.busy hpoint)
  | succ n ih =>
      obtain ⟨b, hb, -⟩ := h.refines
      have hsome : (sysStep su packetHandlerFull .handle s.sys).isSome :=
        hb.progress.2.2 (h.busy hpoint)
      obtain ⟨sys, hsys⟩ := Option.isSome_iff_exists.mp hsome
      have hstep : pacedStep su packetHandlerFull batch .handle s =
          some ⟨sys, sys.client.afterEvent, s.consumed⟩ := by
        rw [pacedStep, if_pos hpoint, hsys]
        rfl
      have hone := Alone.single h rfl hstep
      obtain ⟨hnic, -⟩ | ⟨ha, -⟩ | ⟨k, ha, -⟩ | ⟨-, hevq, -, e, evs, hpolled, hpolled', -⟩ :=
        sysStep_queues hb.owned hsys
      · cases hnic
      · cases ha
      · cases ha
      · by_cases hlast : evs = []
        · refine ⟨_, hone, ?_, hevq⟩
          show sys.client.afterEvent = .refill
          rw [McClient.afterEvent, hpolled', hlast]
          rfl
        · have hmore : sys.client.afterEvent = .handle := by
            rw [McClient.afterEvent, hpolled', if_neg (by simpa using hlast)]
          have hlen : sys.client.polled.length = n := by
            rw [hpolled, List.length_cons] at hn
            rw [hpolled']
            omega
          obtain ⟨s', hrest, hpoint', hevq'⟩ := ih (h.step hstep) hmore hlen
          exact ⟨s', hone.trans hrest, hpoint', hevq'.trans hevq⟩

/-- A poll, and what it returns. -/
theorem Alone.poll (hbatch : batch ≤ evPollBatchSize) (h : s.Inv su) (hpoint : s.point = .poll) :
    ∃ s', Alone su packetHandlerFull batch 1 s s' ∧ s'.point = .refill ∧
      s'.sys.evq = s.sys.evq.drop evPollBatchSize := by
  obtain ⟨b, hb, -⟩ := h.refines
  have hsome : (sysStep su packetHandlerFull (.poll evPollBatchSize) s.sys).isSome :=
    hb.progress.2.1 evPollBatchSize (Nat.le_refl _)
  obtain ⟨sys, hsys⟩ := Option.isSome_iff_exists.mp hsome
  have hmin : min batch s.sys.evq.length ≤ evPollBatchSize := by omega
  have hstep := show pacedStep su packetHandlerFull batch (.poll evPollBatchSize) s = _ from
    if_pos ⟨hpoint, hmin⟩
  rw [hsys, Option.map_some] at hstep
  have hone := Alone.single h rfl hstep
  obtain ⟨hnic, -⟩ | ⟨ha, -⟩ | ⟨k, ha, hevq, -⟩ | ⟨ha, -⟩ := sysStep_queues hb.owned hsys
  · cases hnic
  · cases ha
  · cases ha
    cases hafter : sys.client.afterEvent with
    | refill => exact ⟨_, hone, hafter, hevq⟩
    | poll =>
        rw [McClient.afterEvent] at hafter
        split at hafter <;> cases hafter
    | handle =>
        obtain ⟨s', hrest, hpoint', hevq'⟩ :=
          Alone.handles packetHandlerFull batch (h.step hstep) hafter
        exact ⟨s', hone.trans hrest, hpoint', hevq'.trans hevq⟩
  · cases ha

theorem Alone.refill (h : s.Inv su) (hpoint : s.point = .refill) :
    ∃ s', Alone su packetHandlerFull batch 0 s s' ∧ s'.point = .poll ∧
      s'.sys.evq = s.sys.evq := by
  obtain ⟨b, hb, -⟩ := h.refines
  have hsome : (sysStep su packetHandlerFull .refill s.sys).isSome := hb.progress.1
  obtain ⟨sys, hsys⟩ := Option.isSome_iff_exists.mp hsome
  have hstep := show pacedStep su packetHandlerFull batch .refill s = _ from if_pos hpoint
  rw [hsys, Option.map_some] at hstep
  obtain ⟨hnic, -⟩ | ⟨-, hevq, -⟩ | ⟨k, ha, -⟩ | ⟨ha, -⟩ := sysStep_queues hb.owned hsys
  · cases hnic
  · exact ⟨_, Alone.single h rfl hstep, rfl, hevq⟩
  · cases ha
  · cases ha

/-- From the point before a poll, one pass after another until the queue is
empty. -/
theorem Alone.drain (hbatch : batch ≤ evPollBatchSize) (h : s.Inv su) (hpoint : s.point = .poll)
    {n : Nat} (hn : s.sys.evq.length ≤ evPollBatchSize * n) :
    ∃ s' polls, Alone su packetHandlerFull batch polls s s' ∧ polls ≤ n ∧ s'.point = .poll ∧
      s'.sys.evq = [] := by
  induction n generalizing s with
  | zero => exact ⟨s, 0, .refl h, Nat.le_refl _, hpoint, List.length_eq_zero_iff.mp (by omega)⟩
  | succ n ih =>
      obtain ⟨s₁, h₁, hpoint₁, hevq₁⟩ := Alone.poll hbatch h hpoint
      obtain ⟨s₂, h₂, hpoint₂, hevq₂⟩ := Alone.refill h₁.inv hpoint₁
      have hlen : s₂.sys.evq.length ≤ evPollBatchSize * n := by
        rw [hevq₂, hevq₁, List.length_drop]
        rw [Nat.mul_succ] at hn
        omega
      obtain ⟨s', polls, h', hpolls, hpoint', hevq'⟩ := ih h₂.inv hpoint₂ hlen
      exact ⟨s', _, (h₁.trans h₂).trans h', by omega, hpoint', hevq'⟩

/-- The client alone reads all events that wait, and handles them. -/
theorem Paced.Inv.catchesUp (packetHandlerFull : PacketHandlerFull) (hinv : s.Inv su)
    (hbatch : batch ≤ evPollBatchSize) :
    ∃ acts' s', (∀ a ∈ acts', a.isClient = true) ∧
      evPollBatchSize * pollCount acts' < s.sys.evq.length + evPollBatchSize ∧
      Loop.exec (pacedStep su packetHandlerFull batch) acts' s = some s' ∧
      s'.sys.client.seen = s.sys.written ∧ s'.sys.evq = [] ∧ s'.sys.client.polled = [] ∧
      su.cfgMaxFill - 15 ≤ s'.sys.client.res.vi.efViReceiveFillLevel := by
  -- first to the point before a poll
  obtain ⟨s₁, h₁, hpoint₁, hevq₁⟩ : ∃ s₁, Alone su packetHandlerFull batch 0 s s₁ ∧
      s₁.point = .poll ∧ s₁.sys.evq = s.sys.evq := by
    cases hpoint : s.point with
    | refill => exact Alone.refill hinv hpoint
    | poll => exact ⟨s, .refl hinv, hpoint, rfl⟩
    | handle =>
        obtain ⟨s₀, h₀, hpoint₀, hevq₀⟩ := Alone.handles packetHandlerFull batch hinv hpoint
        obtain ⟨s₁, h₁, hpoint₁, hevq₁⟩ := Alone.refill h₀.inv hpoint₀
        exact ⟨s₁, h₀.trans h₁, hpoint₁, hevq₁.trans hevq₀⟩
  have hlen : s₁.sys.evq.length ≤ evPollBatchSize * ((s.sys.evq.length + 15) / 16) := by
    rw [hevq₁, evPollBatchSize]
    omega
  obtain ⟨s', polls, h', hpolls, hpoint', hevq'⟩ := Alone.drain hbatch h₁.inv hpoint₁ hlen
  obtain ⟨acts', hclient, hcount, hrun', hwritten, hinv'⟩ := h₁.trans h'
  obtain ⟨b, hb, hfifo⟩ := hinv'.refines
  obtain ⟨p, hp⟩ := hinv'.depletion
  have hidle : s'.sys.client.polled = [] := hp.idle (by
    rw [Paced.loop, hpoint']
    exact Point.noConfusion)
  have hseen := hb.delivered hfifo
  rw [hidle, hevq', List.append_nil, List.filterMap_nil, List.append_nil, hwritten] at hseen
  refine ⟨acts', s', hclient, ?_, hrun', hseen, hevq', hidle, ?_⟩
  · rw [hcount, evPollBatchSize]
    omega
  · have hcountp := hp.count
    have hoff := hp.off
    have hn : (s'.sys.client.res.pktBufsN : Int) = su.cfgMaxFill := hp.configured.pktBufsN
    have hring : s'.sys.client.res.vi.ring.length = p.ring.length := hp.owned.owns.ring_length
    simp only [Paced.loop, hpoint', Point.bound] at hcountp hoff
    rw [Rxq.fillLevel_eq, hring, ← hn]
    omega

end

/-- After `init`, in any interleaving of the NIC with the event loop: from then
on the client alone catches up, with as many polls as it takes to read the
events that wait.  Then every frame was seen, and less than a batch of buffers
is off the ring. -/
theorem paced_drains (packetHandlerFull : PacketHandlerFull) (su : Setup)
    (hc : 15 ≤ su.capacity) (fuel : Nat) (out : Filling) (hinit : su.init fuel = some out)
    (rx : RxState) (mem : Mem) (batch : Nat) (hbatch : batch ≤ evPollBatchSize)
    (acts : List SysAct) (s : Paced)
    (hrun : Loop.exec (pacedStep su packetHandlerFull batch) acts (.start out.res rx mem) =
      some s) :
    ∃ acts' s', (∀ a ∈ acts', a.isClient = true) ∧
      evPollBatchSize * pollCount acts' < s.sys.evq.length + evPollBatchSize ∧
      Loop.exec (pacedStep su packetHandlerFull batch) acts' s = some s' ∧
      s'.sys.client.seen = s.sys.written ∧ s'.sys.evq = [] ∧ s'.sys.client.polled = [] ∧
      su.cfgMaxFill - 15 ≤ s'.sys.client.res.vi.efViReceiveFillLevel :=
  ((Paced.Inv.start hc hinit rx mem).run hrun).catchesUp packetHandlerFull hbatch

theorem paced_drains_small64 :
    ∃ out s acts' s', Setup.small64.init 64 = some out ∧
      Loop.exec (pacedStep .small64 noMessage 16) pacedSample
        (.start out.res freshRx (view [])) = some s ∧
      (∀ a ∈ acts', a.isClient = true) ∧
      evPollBatchSize * pollCount acts' < s.sys.evq.length + evPollBatchSize ∧
      Loop.exec (pacedStep .small64 noMessage 16) acts' s = some s' ∧
      s'.sys.client.seen = s.sys.written ∧ s'.sys.evq = [] ∧ s'.sys.client.polled = [] ∧
      Setup.small64.cfgMaxFill - 15 ≤ s'.sys.client.res.vi.efViReceiveFillLevel := by
  have hsome : ((Setup.small64.init 64).bind fun out =>
      Loop.exec (pacedStep .small64 noMessage 16) pacedSample
        (.start out.res freshRx (view []))).isSome = true := by
    decide +kernel
  obtain ⟨s, hs⟩ := Option.isSome_iff_exists.mp hsome
  obtain ⟨out, hinit, hrun⟩ := Option.bind_eq_some_iff.mp hs
  obtain ⟨acts', s', h⟩ := paced_drains noMessage .small64 (by decide) 64 out hinit freshRx
    (view []) 16 (Nat.le_refl _) pacedSample s hrun
  exact ⟨out, s, acts', s', hinit, hrun, h⟩

end Efvi
