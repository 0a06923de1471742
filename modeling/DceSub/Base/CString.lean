import Mathlib.Data.List.Basic

/-!
# Strings in byte arrays

A `%s` conversion prints the bytes from a pointer up to the first NUL, wherever
that is (`cString`).  A text field of `n` bytes in a packed record ends at its
first NUL or after `n` bytes (`fieldText`).  The two are the same exactly when
there is a NUL in the field or right behind it (`cString_eq_fieldText_iff`).
-/

namespace Base

/-- What `%s` prints of the bytes from a pointer on; `none` if it runs over the
end of the array. -/
def cString : List UInt8 → Option (List UInt8)
  | [] => none
  | b :: bs => if b = 0 then some [] else (cString bs).map (b :: ·)

/-- The text of a field of `n` bytes. -/
def fieldText : Nat → List UInt8 → List UInt8
  | 0, _ => []
  | _ + 1, [] => []
  | n + 1, b :: bs => if b = 0 then [] else b :: fieldText n bs

section Pad

variable {α β : Type}

/-- Pad to a width with blanks on the left. -/
def padLeft (blank : α) (width : Nat) (s : List α) : List α :=
  List.replicate (width - s.length) blank ++ s

theorem padLeft_of_le {blank : α} {width : Nat} {s : List α} (h : width ≤ s.length) :
    padLeft blank width s = s := by
  rw [padLeft, Nat.sub_eq_zero_of_le h, List.replicate_zero, List.nil_append]

theorem map_padLeft (f : α → β) (blank : α) (width : Nat) (s : List α) :
    (padLeft blank width s).map f = padLeft (f blank) width (s.map f) := by
  rw [padLeft, padLeft, List.map_append, List.map_replicate, List.length_map]

theorem mem_padLeft {blank : α} {width : Nat} {s : List α} {c : α} (h : c ∈ padLeft blank width s) :
    (width ≠ 0 ∧ c = blank) ∨ c ∈ s := by
  rcases List.mem_append.mp h with h | h
  · obtain ⟨hlen, rfl⟩ := List.mem_replicate.mp h
    exact .inl ⟨by omega, rfl⟩
  · exact .inr h

theorem padLeft_inj [DecidableEq α] {blank : α} {width : Nat} {s s' : List α}
    (hs : s.head? ≠ some blank) (hs' : s'.head? ≠ some blank)
    (h : padLeft blank width s = padLeft blank width s') : s = s' := by
  have hstrip : ∀ {t : List α}, t.head? ≠ some blank →
      (padLeft blank width t).dropWhile (· = blank) = t := by
    intro t ht
    rw [padLeft, List.dropWhile_append_of_pos (by
      intro c hc
      exact decide_eq_true (List.eq_of_mem_replicate hc))]
    cases t with
    | nil => rfl
    | cons c t =>
        refine List.dropWhile_cons_of_neg ?_
        simpa using ht
  rw [← hstrip hs, h, hstrip hs']

end Pad

/-- A string is printed within the array when there is a NUL in it. -/
theorem cString_isSome_iff (bs : List UInt8) : (cString bs).isSome ↔ 0 ∈ bs := by
  induction bs with
  | nil => simp [cString]
  | cons b bs ih =>
      by_cases hb : b = 0
      · simp [cString, hb]
      · simp [cString, hb, ih, eq_comm]

theorem cString_eq_fieldText_iff (n : Nat) (bs : List UInt8) :
    cString bs = some (fieldText n bs) ↔ 0 ∈ bs.take n ∨ bs[n]? = some 0 := by
  induction n generalizing bs with
  | zero =>
      cases bs with
      | nil => simp [cString]
      | cons b bs =>
          by_cases hb : b = 0
          · simp [cString, fieldText, hb]
          · simp [cString, fieldText, hb]
  | succ n ih =>
      cases bs with
      | nil => simp [cString]
      | cons b bs =>
          by_cases hb : b = 0
          · simp [cString, fieldText, hb]
          · have hcons : Option.map (b :: ·) (cString bs) = some (b :: fieldText n bs) ↔
                cString bs = some (fieldText n bs) := by
              rw [Option.map_eq_some_iff]
              constructor
              · rintro ⟨s, hs, heq⟩
                rw [hs, (List.cons.inj heq).2]
              · intro hs
                exact ⟨_, hs, rfl⟩
            have hb' : ¬ (0 : UInt8) = b := fun h => hb h.symm
            rw [cString, fieldText, if_neg hb, if_neg hb, hcons, ih, List.take_succ_cons,
              List.mem_cons, List.getElem?_cons_succ]
            simp only [hb', false_or]

/-- A string that is not the text of the field is longer than the field, which
then has no NUL. -/
theorem cString_overrun {n : Nat} {bs s : List UInt8} (h : cString bs = some s)
    (hne : s ≠ fieldText n bs) : n < s.length ∧ (fieldText n bs).length = n := by
  induction n generalizing bs s with
  | zero =>
      rw [fieldText] at hne ⊢
      exact ⟨List.length_pos_iff.mpr hne, rfl⟩
  | succ n ih =>
      cases bs with
      | nil => cases h
      | cons b bs =>
          by_cases hb : b = 0
          · rw [cString, if_pos hb] at h
            rw [fieldText, if_pos hb] at hne
            exact absurd (Option.some.inj h).symm hne
          · rw [cString, if_neg hb] at h
            obtain ⟨t, ht, rfl⟩ := Option.map_eq_some_iff.mp h
            rw [fieldText, if_neg hb] at hne ⊢
            obtain ⟨hlt, hlen⟩ := ih ht fun heq => hne (congrArg (b :: ·) heq)
            rw [List.length_cons, List.length_cons, hlen]
            exact ⟨Nat.succ_lt_succ hlt, rfl⟩

/-- Padding to a width that is at most that of the field hides no overrun. -/
theorem padLeft_cString_iff {blank : UInt8} {width n : Nat} (hw : width ≤ n) (bs : List UInt8) :
    (cString bs).map (padLeft blank width) = some (padLeft blank width (fieldText n bs)) ↔
      0 ∈ bs.take n ∨ bs[n]? = some 0 := by
  rw [← cString_eq_fieldText_iff]
  constructor
  · intro h
    obtain ⟨s, hs, hpad⟩ := Option.map_eq_some_iff.mp h
    by_cases hne : s = fieldText n bs
    · rw [hs, hne]
    · obtain ⟨hlt, hlen⟩ := cString_overrun hs hne
      rw [padLeft_of_le (by omega), padLeft_of_le (by omega)] at hpad
      exact absurd hpad hne
  · intro h
    rw [h, Option.map_some]

end Base
