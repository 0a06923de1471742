import Mathlib.Data.List.ReduceOption

/-!
# Receive loops as machines

A receive loop takes one input after another.  A pass over the body updates the
state, may report something, and may leave the loop with a message.  `run` is
the loop over a list of inputs: it gives the report of every pass, in order,
and the state at the end.  `runStop` is the message with which it was left.

Three rules compare runs.  `run_map` is functional simulation: a body that
commutes with an abstraction of states, inputs and reports has runs that do.
`run_congr` changes the body on the inputs at hand.  `run_filter` drops the
inputs on which nothing happens.  `forall_mem_run` and `reduceOption_run` are
about the reports of one run.
-/

namespace Base

variable {σ τ ι κ ω θ : Type}

/-- What one pass over a loop body does. -/
structure Pass (σ ω : Type) where
  /-- The state after the pass. -/
  state : σ
  /-- What the pass reports. -/
  out : Option ω
  /-- The message with which the loop is left, if it is. -/
  stop : Option String := none

/-- The pass of an input that is skipped. -/
def Pass.skip (s : σ) : Pass σ ω := ⟨s, none, none⟩

/-- A pass seen through an abstraction. -/
def Pass.map (abs : σ → τ) (obs : ω → θ) (p : Pass σ ω) : Pass τ θ :=
  ⟨abs p.state, p.out.map obs, p.stop⟩

/-- The loop over the inputs `is`: the report of each pass and the last state. -/
def run (body : σ → ι → Pass σ ω) : σ → List ι → List (Option ω) × σ
  | s, [] => ([], s)
  | s, i :: is =>
      match (body s i).stop with
      | some _ => ([(body s i).out], (body s i).state)
      | none =>
          ((body s i).out :: (run body (body s i).state is).1, (run body (body s i).state is).2)
termination_by structural _ is => is

/-- The message with which the loop is left, if it is. -/
def runStop (body : σ → ι → Pass σ ω) : σ → List ι → Option String
  | _, [] => none
  | s, i :: is =>
      match (body s i).stop with
      | some msg => some msg
      | none => runStop body (body s i).state is
termination_by structural _ is => is

@[simp] theorem run_nil (body : σ → ι → Pass σ ω) (s : σ) : run body s [] = ([], s) := rfl

theorem run_cons {body : σ → ι → Pass σ ω} {s : σ} {i : ι} {is : List ι}
    (h : (body s i).stop = none) :
    run body s (i :: is) =
      ((body s i).out :: (run body (body s i).state is).1, (run body (body s i).state is).2) := by
  simp [run, h]

theorem run_cons_stop {body : σ → ι → Pass σ ω} {s : σ} {i : ι} {is : List ι} {msg : String}
    (h : (body s i).stop = some msg) :
    run body s (i :: is) = ([(body s i).out], (body s i).state) := by
  simp [run, h]

theorem runStop_cons {body : σ → ι → Pass σ ω} {s : σ} {i : ι} {is : List ι}
    (h : (body s i).stop = none) :
    runStop body s (i :: is) = runStop body (body s i).state is := by
  simp [runStop, h]

theorem runStop_cons_stop {body : σ → ι → Pass σ ω} {s : σ} {i : ι} {is : List ι} {msg : String}
    (h : (body s i).stop = some msg) : runStop body s (i :: is) = some msg := by
  simp [runStop, h]

/-- A run over two lists, one after the other, of a loop that is never left. -/
theorem run_append {body : σ → ι → Pass σ ω} (h : ∀ s i, (body s i).stop = none) (is js : List ι)
    (s : σ) :
    run body s (is ++ js) =
      ((run body s is).1 ++ (run body (run body s is).2 js).1,
        (run body (run body s is).2 js).2) := by
  induction is generalizing s with
  | nil => rfl
  | cons i is ih =>
      rw [List.cons_append, run_cons (h s i), run_cons (h s i), ih]
      rfl

/-- Functional simulation. -/
theorem run_map {body : σ → ι → Pass σ ω} {body' : τ → κ → Pass τ θ} (abs : σ → τ) (inp : ι → κ)
    (obs : ω → θ) (is : List ι) (s : σ)
    (h : ∀ s, ∀ i ∈ is, body' (abs s) (inp i) = (body s i).map abs obs) :
    run body' (abs s) (is.map inp) =
      ((run body s is).1.map (Option.map obs), abs (run body s is).2) := by
  induction is generalizing s with
  | nil => rfl
  | cons i is ih =>
      have hi := h s i (List.mem_cons_self ..)
      have hstop : (body' (abs s) (inp i)).stop = (body s i).stop := by rw [hi]; rfl
      cases hs : (body s i).stop with
      | some msg =>
          rw [List.map_cons, run_cons_stop hs, run_cons_stop (hstop.trans hs), hi]
          rfl
      | none =>
          have ih' := ih (body s i).state fun s j hj => h s j (List.mem_cons_of_mem _ hj)
          rw [List.map_cons, run_cons hs, run_cons (hstop.trans hs), hi]
          simp only [Pass.map, ih', List.map_cons]

/-- Two bodies that do the same on the inputs at hand. -/
theorem run_congr {body body' : σ → ι → Pass σ ω} (is : List ι) (s : σ)
    (h : ∀ s, ∀ i ∈ is, body' s i = body s i) : run body' s is = run body s is := by
  induction is generalizing s with
  | nil => rfl
  | cons i is ih =>
      have ih' := fun s => ih s fun s j hj => h s j (List.mem_cons_of_mem _ hj)
      simp only [run, h s i (List.mem_cons_self ..), ih']

/-- What holds of every report of a pass holds of every report of a run. -/
theorem forall_mem_run {body : σ → ι → Pass σ ω} {P : ω → Prop}
    (h : ∀ s i o, (body s i).out = some o → P o) (is : List ι) (s : σ) :
    ∀ o ∈ (run body s is).1.reduceOption, P o := by
  induction is generalizing s with
  | nil => simp
  | cons i is ih =>
      intro o ho
      cases hs : (body s i).stop with
      | some msg =>
          rw [run_cons_stop hs, List.reduceOption_mem_iff, List.mem_singleton] at ho
          exact h s i o ho.symm
      | none =>
          rw [run_cons hs, List.reduceOption_mem_iff, List.mem_cons] at ho
          rcases ho with ho | ho
          · exact h s i o ho.symm
          · exact ih (body s i).state o (List.reduceOption_mem_iff.mpr ho)

/-- Inputs that are skipped can be left out. -/
theorem run_filter {body : σ → ι → Pass σ ω} {p : ι → Bool}
    (h : ∀ s i, p i = false → body s i = Pass.skip s) (is : List ι) (s : σ) :
    (run body s is).1.reduceOption = (run body s (is.filter p)).1.reduceOption ∧
      (run body s is).2 = (run body s (is.filter p)).2 := by
  induction is generalizing s with
  | nil => exact ⟨rfl, rfl⟩
  | cons i is ih =>
      cases hp : p i with
      | false =>
          have hi := h s i hp
          have hstop : (body s i).stop = none := by rw [hi]; rfl
          rw [List.filter_cons_of_neg (by simp [hp]), run_cons hstop, hi]
          exact ih s
      | true =>
          rw [List.filter_cons_of_pos hp]
          cases hs : (body s i).stop with
          | some msg => simp [run_cons_stop hs]
          | none =>
              obtain ⟨hout, hstate⟩ := ih (body s i).state
              rw [run_cons hs, run_cons hs]
              refine ⟨?_, hstate⟩
              cases (body s i).out with
              | none => exact hout
              | some o => exact congrArg (o :: ·) hout

end Base
