import Mathlib.Logic.Function.Basic

/-!
# Loops

A loop of the modelled program is a test and a fallible body over an explicit
state.  `whileLoop` runs the body while the test holds, `doWhile` runs it once
before the first test.  Both are structural in a fuel argument, so that they
compute, and answer `none` when the body fails or the fuel runs out.
`forLoop` counts up from zero, and `exec` takes one given action after another.

Each has the rule its proofs need.  `whileLoop_variant` and `doWhile_variant`
turn an invariant and a decreasing measure into termination in a state that
fails the test, and `whileLoop_inv` is for a loop that is known to end;
`forLoop_inv` is the rule of an invariant indexed by the counter; `exec_inv`
says that a run keeps what every action keeps.
-/

namespace Loop

variable {σ α : Type}

/-! ## Loops with a test -/

/-- `while (cond s) s = body s;` -/
def whileLoop (cond : σ → Bool) (body : σ → Option σ) : Nat → σ → Option σ
  | 0, _ => none
  | fuel + 1, s => if cond s then (body s).bind (whileLoop cond body fuel) else some s
termination_by structural fuel => fuel

/-- `do s = body s; while (cond s);` -/
def doWhile (cond : σ → Bool) (body : σ → Option σ) (fuel : Nat) (s : σ) : Option σ :=
  (body s).bind (whileLoop cond body fuel)

variable {cond : σ → Bool} {body : σ → Option σ}

theorem whileLoop_exit {fuel : Nat} {s : σ} (hc : cond s = false) :
    whileLoop cond body (fuel + 1) s = some s := by
  simp [whileLoop, hc]

theorem whileLoop_step {fuel : Nat} {s s' : σ} (hc : cond s = true) (hb : body s = some s') :
    whileLoop cond body (fuel + 1) s = whileLoop cond body fuel s' := by
  simp [whileLoop, hc, hb]

/-- An invariant the body keeps and a measure it decreases: the loop ends, in
one state for all fuels above the measure, and that state has the invariant and
fails the test. -/
theorem whileLoop_variant (Inv : σ → Prop) (measure : σ → Nat)
    (hstep : ∀ s, Inv s → cond s = true →
      ∃ s', body s = some s' ∧ Inv s' ∧ measure s' < measure s) (s : σ) (hinv : Inv s) :
    ∃ s', (∀ fuel, measure s < fuel → whileLoop cond body fuel s = some s') ∧
      Inv s' ∧ cond s' = false := by
  generalize hk : measure s = k
  induction k using Nat.strongRecOn generalizing s with
  | _ k ih =>
      cases hc : cond s with
      | false =>
          refine ⟨s, fun fuel hf => ?_, hinv, hc⟩
          obtain ⟨f, rfl⟩ : ∃ f, fuel = f + 1 := ⟨fuel - 1, by omega⟩
          exact whileLoop_exit hc
      | true =>
          obtain ⟨s', hb, hinv', hlt⟩ := hstep s hinv hc
          obtain ⟨t, ht, hit, hct⟩ := ih (measure s') (by omega) s' hinv' rfl
          refine ⟨t, fun fuel hf => ?_, hit, hct⟩
          obtain ⟨f, rfl⟩ : ∃ f, fuel = f + 1 := ⟨fuel - 1, by omega⟩
          rw [whileLoop_step hc hb]
          exact ht f (by omega)

/-- A loop that ends keeps what its body keeps. -/
theorem whileLoop_inv (Inv : σ → Prop)
    (hstep : ∀ s s', Inv s → cond s = true → body s = some s' → Inv s') {fuel : Nat} {s s' : σ}
    (hinv : Inv s) (h : whileLoop cond body fuel s = some s') : Inv s' := by
  induction fuel generalizing s with
  | zero => cases h
  | succ fuel ih =>
      rw [whileLoop] at h
      split at h
      next hc =>
        obtain ⟨s₁, hb, h⟩ := Option.bind_eq_some_iff.mp h
        exact ih (hstep s s₁ hinv hc hb) h
      next =>
        cases h
        exact hinv

/-- More fuel gives the same result. -/
theorem whileLoop_mono {fuel k : Nat} {s s' : σ} (h : whileLoop cond body fuel s = some s') :
    whileLoop cond body (fuel + k) s = some s' := by
  induction fuel generalizing s with
  | zero => cases h
  | succ fuel ih =>
      rw [show fuel + 1 + k = fuel + k + 1 by omega]
      rw [whileLoop] at h ⊢
      split at h
      next hc =>
        obtain ⟨s₁, hb, h⟩ := Option.bind_eq_some_iff.mp h
        rw [if_pos hc, hb]
        exact ih h
      next hc =>
        rw [if_neg hc]
        exact h

/-- The same for `doWhile`, whose first pass is taken without the test. -/
theorem doWhile_variant (Inv : σ → Prop) (measure : σ → Nat) {s s₁ : σ} {fuel : Nat}
    (hfirst : body s = some s₁) (hinv : Inv s₁)
    (hstep : ∀ s, Inv s → cond s = true →
      ∃ s', body s = some s' ∧ Inv s' ∧ measure s' < measure s) (hfuel : measure s₁ < fuel) :
    ∃ s', doWhile cond body fuel s = some s' ∧ Inv s' ∧ cond s' = false := by
  obtain ⟨s', hs', hinv', hc⟩ := whileLoop_variant Inv measure hstep s₁ hinv
  exact ⟨s', by rw [doWhile, hfirst]; exact hs' fuel hfuel, hinv', hc⟩

/-! ## Loops with a counter -/

/-- `for (i = 0; i < n; ++i) s = body i s;` -/
def forLoop (body : Nat → σ → Option σ) : Nat → σ → Option σ
  | 0, s => some s
  | n + 1, s => (forLoop body n s).bind (body n)
termination_by structural n => n

theorem forLoop_inv {body : Nat → σ → Option σ} (Inv : Nat → σ → Prop) {n : Nat} {s : σ}
    (h0 : Inv 0 s)
    (hstep : ∀ i s, i < n → Inv i s → ∃ s', body i s = some s' ∧ Inv (i + 1) s') :
    ∃ s', forLoop body n s = some s' ∧ Inv n s' := by
  induction n with
  | zero => exact ⟨s, rfl, h0⟩
  | succ n ih =>
      obtain ⟨s', hs', hinv'⟩ := ih fun i s hi => hstep i s (Nat.lt_succ_of_lt hi)
      obtain ⟨s'', hs'', hinv''⟩ := hstep n s' (Nat.lt_succ_self n) hinv'
      exact ⟨s'', by rw [forLoop, hs']; exact hs'', hinv''⟩

/-! ## Runs -/

/-- The given actions, one after another. -/
def exec (step : α → σ → Option σ) : List α → σ → Option σ
  | [], s => some s
  | a :: as, s => (step a s).bind (exec step as)
termination_by structural as => as

variable {step : α → σ → Option σ}

theorem exec_cons {a : α} {as : List α} {s s' : σ} (h : step a s = some s') :
    exec step (a :: as) s = exec step as s' := by
  rw [exec, h, Option.bind_some]

/-- The first action of a run, and the rest. -/
theorem exec_cons_eq_some {a : α} {as : List α} {s t : σ} (h : exec step (a :: as) s = some t) :
    ∃ s', step a s = some s' ∧ exec step as s' = some t := Option.bind_eq_some_iff.mp h

/-- A run over two lists, one after the other. -/
theorem exec_append {as bs : List α} {s t : σ} (h : exec step as s = some t) :
    exec step (as ++ bs) s = exec step bs t := by
  induction as generalizing s with
  | nil =>
      cases h
      rfl
  | cons a as ih =>
      obtain ⟨s', hs', h⟩ := exec_cons_eq_some h
      rw [List.cons_append, exec_cons hs', ih h]

/-- A run keeps what each of its actions keeps. -/
theorem exec_inv (Inv : σ → Prop) {as : List α} {s s' : σ}
    (hstep : ∀ a ∈ as, ∀ s s', Inv s → step a s = some s' → Inv s') (hinv : Inv s)
    (h : exec step as s = some s') : Inv s' := by
  induction as generalizing s with
  | nil =>
      cases h
      exact hinv
  | cons a as ih =>
      obtain ⟨s₁, h₁, h⟩ := exec_cons_eq_some h
      refine ih (fun b hb => hstep b (List.mem_cons_of_mem _ hb)) ?_ h
      exact hstep a (List.mem_cons_self ..) s s₁ hinv h₁

/-- A run, seen through a map that turns each of its steps into a step. -/
theorem exec_map {τ : Type} {step' : α → τ → Option τ} (f : σ → τ)
    (hstep : ∀ a s s', step a s = some s' → step' a (f s) = some (f s')) {as : List α} {s s' : σ}
    (h : exec step as s = some s') : exec step' as (f s) = some (f s') := by
  induction as generalizing s with
  | nil =>
      cases h
      rfl
  | cons a as ih =>
      obtain ⟨s₁, h₁, h⟩ := exec_cons_eq_some h
      rw [exec_cons (hstep a s s₁ h₁), ih h]

end Loop
