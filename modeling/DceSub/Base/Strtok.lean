import Mathlib.Data.List.TakeWhile

/-!
# Cutting up C strings

`strtok` skips delimiters, takes the run of other characters behind them as the
token, and keeps the place behind the delimiter that ends it for the next call.
Here that place is a result, so that a chain of calls passes it along.  The
tokens of a chain do not overlap, so a token is not changed by later calls.

`strtok_eq` says what a call does on a string that is given in pieces, and
`strtok_spec` gives the pieces back from the result.  With no delimiters a call
takes all that is left (`strtok_nil`).  A chain of calls gives the tokens of the
string, one after another (`strtok_tokens`).
-/

namespace Base

/-- A C string: its characters before the NUL. -/
abbrev Text := List Char

/-- A fact about the characters of a text, one after another: there are too many
characters to try them all. -/
theorem forall_mem_of_all {s : Text} {P : Char → Prop} [DecidablePred P]
    (h : s.all (fun c => decide (P c)) = true) : ∀ c ∈ s, P c := by
  intro c hc
  exact of_decide_eq_true (List.all_eq_true.mp h c hc)

/-- `strtok(s, delims)`: the token, or the null pointer, and the string that
`strtok(NULL, ...)` goes on with. -/
def strtok (delims s : Text) : Option Text × Text :=
  match s.dropWhile (· ∈ delims) with
  | [] => (none, [])
  | c :: cs =>
      (some ((c :: cs).takeWhile (· ∉ delims)), ((c :: cs).dropWhile (· ∉ delims)).tail)

/-- `strchr(s, c)`. -/
def strchr (c : Char) (s : Text) : Option Text :=
  match s.dropWhile (· ≠ c) with
  | [] => none
  | t :: ts => some (t :: ts)

variable {delims s w r : Text} {c : Char}

/-! ## Tokens -/

theorem head_of_dropWhile {p : Char → Bool} {x : Char} {xs : Text}
    (h : s.dropWhile p = x :: xs) : p x = false := by
  have hhead := List.head?_dropWhile_not p s
  rw [h] at hhead
  exact hhead

/-- A token is a run of characters that are no delimiters. -/
structure Word (delims w : Text) : Prop where
  nonempty : w ≠ []
  clean : ∀ c ∈ w, c ∉ delims

theorem takeWhile_word (hw : Word delims w) (hc : c ∈ delims) :
    (w ++ c :: r).takeWhile (· ∉ delims) = w := by
  rw [List.takeWhile_append_of_pos fun x hx => decide_eq_true (hw.clean x hx),
    List.takeWhile_cons_of_neg (by simpa using hc), List.append_nil]

theorem dropWhile_word (hw : Word delims w) (hc : c ∈ delims) :
    (w ++ c :: r).dropWhile (· ∉ delims) = c :: r := by
  rw [List.dropWhile_append_of_pos fun x hx => decide_eq_true (hw.clean x hx),
    List.dropWhile_cons_of_neg (by simpa using hc)]

/-- A token is not skipped. -/
theorem Word.dropWhile_append (hw : Word delims w) (s : Text) :
    (w ++ s).dropWhile (· ∈ delims) = w ++ s := by
  obtain ⟨x, xs, rfl⟩ := List.exists_cons_of_ne_nil hw.nonempty
  rw [List.cons_append, List.dropWhile_cons_of_neg]
  simpa using hw.clean x (List.mem_cons_self ..)

/-- A token that is ended by a delimiter. -/
theorem strtok_eq (hw : Word delims w) (hc : c ∈ delims) (r : Text) :
    strtok delims (w ++ c :: r) = (some w, r) := by
  have hdrop := hw.dropWhile_append (c :: r)
  have htake := takeWhile_word (r := r) hw hc
  have hrest := dropWhile_word (r := r) hw hc
  obtain ⟨x, xs, rfl⟩ := List.exists_cons_of_ne_nil hw.nonempty
  rw [strtok, hdrop]
  simp only [List.cons_append] at htake hrest ⊢
  rw [htake, hrest, List.tail_cons]

/-- A token at the end of the string. -/
theorem strtok_last (hw : Word delims w) : strtok delims w = (some w, []) := by
  have hdrop := hw.dropWhile_append []
  have hall : ∀ x ∈ w, decide (x ∉ delims) = true := fun x hx => decide_eq_true (hw.clean x hx)
  rw [List.append_nil] at hdrop
  obtain ⟨x, xs, rfl⟩ := List.exists_cons_of_ne_nil hw.nonempty
  rw [strtok, hdrop]
  simp only
  rw [List.takeWhile_eq_self_iff.mpr hall, List.dropWhile_eq_nil_iff.mpr hall, List.tail_nil]

/-- Delimiters in front are skipped. -/
theorem strtok_skip {lead : Text} (hlead : ∀ c ∈ lead, c ∈ delims) (s : Text) :
    strtok delims (lead ++ s) = strtok delims s := by
  rw [strtok, List.dropWhile_append_of_pos fun c hc => decide_eq_true (hlead c hc), strtok]

theorem strtok_delims (h : ∀ c ∈ s, c ∈ delims) : strtok delims s = (none, []) := by
  rw [strtok, List.dropWhile_eq_nil_iff.mpr fun c hc => decide_eq_true (h c hc)]

/-- The null pointer is the answer to a string of delimiters. -/
theorem strtok_of_none (h : (strtok delims s).1 = none) :
    strtok delims s = (none, []) ∧ ∀ c ∈ s, c ∈ delims := by
  rw [strtok] at h ⊢
  split
  next hd =>
    refine ⟨rfl, fun c hc => ?_⟩
    simpa using List.dropWhile_eq_nil_iff.mp hd c hc
  next x xs hd =>
    rw [hd] at h
    cases h

/-- The pieces of a string in which there is a token. -/
theorem strtok_spec (h : strtok delims s = (some w, r)) :
    Word delims w ∧ ∃ lead, (∀ c ∈ lead, c ∈ delims) ∧
      ((s = lead ++ w ∧ r = []) ∨ ∃ c ∈ delims, s = lead ++ (w ++ c :: r)) := by
  have hs := List.takeWhile_append_dropWhile (p := fun c => decide (c ∈ delims)) (l := s)
  have hlead : ∀ c ∈ s.takeWhile (· ∈ delims), c ∈ delims := by
    intro c hc
    simpa using List.mem_takeWhile_imp hc
  rw [strtok] at h
  cases hd : s.dropWhile (· ∈ delims) with
  | nil =>
      rw [hd] at h
      cases h
  | cons x xs =>
      rw [hd] at h hs
      rw [Prod.mk.injEq, Option.some.injEq] at h
      obtain ⟨rfl, rfl⟩ := h
      have hx : x ∉ delims := of_decide_eq_false (head_of_dropWhile hd)
      have hsplit :=
        List.takeWhile_append_dropWhile (p := fun c => decide (c ∉ delims)) (l := x :: xs)
      refine ⟨⟨?_, ?_⟩, _, hlead, ?_⟩
      · simp [hx]
      · intro c hc
        simpa using List.mem_takeWhile_imp hc
      · cases hrest : (x :: xs).dropWhile (· ∉ delims) with
        | nil =>
            rw [hrest, List.append_nil] at hsplit
            exact .inl ⟨by rw [hsplit, hs], rfl⟩
        | cons c r =>
            have hc : c ∈ delims := by simpa using head_of_dropWhile hrest
            rw [hrest] at hsplit
            exact .inr ⟨c, hc, by rw [List.tail_cons, hsplit, hs]⟩

/-- Without delimiters a call takes all that is left. -/
theorem strtok_nil (s : Text) : strtok [] s = (if s = [] then none else some s, []) := by
  by_cases hs : s = []
  · rw [if_pos hs, hs]
    rfl
  · rw [if_neg hs]
    exact strtok_last ⟨hs, fun _ _ => List.not_mem_nil⟩

/-- Two strings that are cut at the first of a character. -/
theorem append_sep_inj {w' r' : Text} (hw : c ∉ w) (hw' : c ∉ w')
    (h : w ++ c :: r = w' ++ c :: r') : w = w' ∧ r = r' := by
  have hcut : ∀ {v u : Text}, c ∉ v → (v ++ c :: u).takeWhile (· ≠ c) = v := by
    intro v u hv
    have hne : ∀ x ∈ v, decide (x ≠ c) = true := fun x hx =>
      decide_eq_true (ne_of_mem_of_not_mem hx hv)
    rw [List.takeWhile_append_of_pos hne, List.takeWhile_cons_of_neg (by simp), List.append_nil]
  have heq : w = w' := by rw [← hcut (u := r) hw, h, hcut hw']
  subst heq
  exact ⟨rfl, (List.cons.inj (List.append_cancel_left h)).2⟩

/-! ## All tokens -/

/-- The tokens of a string, one after another. -/
def tokens (delims s : Text) : List Text := (s.splitOnP (· ∈ delims)).filter (· ≠ [])

theorem tokens_nil (delims : Text) : tokens delims [] = [] := rfl

/-- Delimiters in front do not matter. -/
theorem tokens_skip {lead : Text} (hlead : ∀ c ∈ lead, c ∈ delims) (s : Text) :
    tokens delims (lead ++ s) = tokens delims s := by
  induction lead with
  | nil => rfl
  | cons c cs ih =>
      have hc : decide (c ∈ delims) = true := decide_eq_true (hlead c (List.mem_cons_self ..))
      have hsplit : (c :: (cs ++ s)).splitOnP (· ∈ delims) =
          [] :: (cs ++ s).splitOnP (· ∈ delims) :=
        List.splitOnP_append_cons [] (cs ++ s) hc
      have hrest := ih fun d hd => hlead d (List.mem_cons_of_mem c hd)
      rw [tokens] at hrest
      rw [List.cons_append, tokens, hsplit, List.filter_cons_of_neg (by simp), hrest]

theorem tokens_last (hw : Word delims w) : tokens delims w = [w] := by
  have hsplit : w.splitOnP (· ∈ delims) = [w] :=
    List.splitOnP_eq_singleton fun c hc => decide_eq_false (hw.clean c hc)
  have hkeep : decide (w ≠ []) = true := decide_eq_true hw.nonempty
  rw [tokens, hsplit]
  exact List.filter_cons_of_pos hkeep

theorem tokens_cons (hw : Word delims w) (hc : c ∈ delims) (r : Text) :
    tokens delims (w ++ c :: r) = w :: tokens delims r := by
  have hsplit : (w ++ c :: r).splitOnP (· ∈ delims) = w :: r.splitOnP (· ∈ delims) :=
    List.splitOnP_append_cons_of_forall_mem (fun d hd => decide_eq_false (hw.clean d hd)) c
      (decide_eq_true hc) r
  have hkeep : decide (w ≠ []) = true := decide_eq_true hw.nonempty
  rw [tokens, hsplit]
  exact List.filter_cons_of_pos hkeep

/-- A chain of calls gives the tokens in order, and then the null pointer. -/
theorem strtok_tokens (delims s : Text) :
    (strtok delims s).1 = (tokens delims s).head? ∧
      tokens delims (strtok delims s).2 = (tokens delims s).tail := by
  cases h : strtok delims s with
  | mk token rest =>
      cases token with
      | none =>
          obtain ⟨hnone, hall⟩ := strtok_of_none (congrArg Prod.fst h)
          obtain rfl : rest = [] := congrArg Prod.snd (h.symm.trans hnone)
          rw [← List.append_nil s, tokens_skip hall, tokens_nil]
          exact ⟨rfl, rfl⟩
      | some w =>
          obtain ⟨hw, lead, hlead, ⟨rfl, rfl⟩ | ⟨c, hc, rfl⟩⟩ := strtok_spec h
          · rw [tokens_skip hlead, tokens_last hw]
            exact ⟨rfl, rfl⟩
          · rw [tokens_skip hlead, tokens_cons hw hc]
            exact ⟨rfl, rfl⟩

/-! ## `strchr` -/

theorem strchr_append (hw : c ∉ w) (r : Text) : strchr c (w ++ c :: r) = some (c :: r) := by
  have hdrop : (w ++ c :: r).dropWhile (· ≠ c) = c :: r := by
    have hne : ∀ x ∈ w, decide (x ≠ c) = true := fun x hx =>
      decide_eq_true (ne_of_mem_of_not_mem hx hw)
    rw [List.dropWhile_append_of_pos hne, List.dropWhile_cons_of_neg (by simp)]
  rw [strchr, hdrop]

/-- The null pointer is the answer to a string without the character. -/
theorem strchr_eq_none_iff : strchr c s = none ↔ c ∉ s := by
  have hnil : s.dropWhile (· ≠ c) = [] ↔ c ∉ s := by
    rw [List.dropWhile_eq_nil_iff]
    constructor
    · intro h hc
      exact absurd rfl (of_decide_eq_true (h c hc))
    · intro h x hx
      exact decide_eq_true (ne_of_mem_of_not_mem hx h)
  rw [← hnil, strchr]
  split
  next hd => exact iff_of_true rfl hd
  next hd =>
    rw [hd]
    simp

end Base
