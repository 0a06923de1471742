import DceSub.Wire.Filter

/-!
# The bytes a filter reads

The filter of the packet block reads a byte only when the tests before it have
come out so that it has to: the second ethertype is looked at behind an 802.1Q
ethertype only, the id only in a frame for the address wanted.  `filterReads`
lists the addresses in the order of the source.

`lastIpId_of_reads` says that the list is complete: memories that agree on it
give the filter the same result.  `ReadsWithin` is this together with bounds for
the addresses.
-/

namespace Wire

open Base

/-- The addresses of a field of `n` bytes. -/
def field (a n : Nat) : List Nat := (List.range n).map (a + ·)

theorem mem_field {a n x : Nat} : x ∈ field a n ↔ a ≤ x ∧ x < a + n := by
  rw [field, List.mem_map]
  constructor
  · rintro ⟨k, hk, rfl⟩
    rw [List.mem_range] at hk
    omega
  · rintro ⟨hle, hlt⟩
    exact ⟨x - a, by rw [List.mem_range]; omega, by omega⟩

/-- A field is read, and what is read behind it only if no test ends the reading
there. -/
theorem mem_field_append_ite {c : Prop} [Decidable c] {a n x : Nat} {l : List Nat}
    (h : x ∈ field a n ++ if c then [] else l) : (a ≤ x ∧ x < a + n) ∨ x ∈ l := by
  rw [List.mem_append, mem_field] at h
  rcases h with h | h
  · exact .inl h
  · split at h
    · cases h
    · exact .inr h

/-- A result that depends on the bytes read and no others, all of which are
between two bounds. -/
def ReadsWithin {β : Type} (result : Mem → β) (reads : Mem → List Nat) (lo hi : Int) : Prop :=
  ∀ m, (∀ x ∈ reads m, lo ≤ x ∧ (x : Int) < hi) ∧
    ∀ m', (∀ x ∈ reads m, m x = m' x) → result m = result m'

/-- What the ethertype test reads. -/
def dot1qReads (m : Mem) (packetBuf : Nat) : List Nat :=
  field (packetBuf + ethtypeOffset) 2 ++
    if u16le m (packetBuf + ethtypeOffset) = ipv4Packet then []
    else if u16le m (packetBuf + ethtypeOffset) = dot1qFrame then
      field (packetBuf + dot1qEthtypeOffset) 2
    else []

/-- What the filter reads. -/
def filterReads (m : Mem) (packetBuf : Nat) : List Nat :=
  dot1qReads m packetBuf ++
    match dot1qOffset m packetBuf with
    | none => []
    | some off =>
        field (packetBuf + off + dstIpOffset) 4 ++
          if ntohl (u32le m (packetBuf + off + dstIpOffset)) ≠ dstIpFilter then []
          else field (packetBuf + off + ipIdOffset) 2

section

variable {m m' : Mem} {p : Nat}

theorem u16le_of_reads {a : Nat} (h : ∀ x ∈ field a 2, m x = m' x) : u16le m a = u16le m' a :=
  u16le_congr (h a (mem_field.mpr (by omega))) (h (a + 1) (mem_field.mpr (by omega)))

theorem u32le_of_reads {a : Nat} (h : ∀ x ∈ field a 4, m x = m' x) : u32le m a = u32le m' a :=
  u32le_congr fun k hk => h (a + k) (mem_field.mpr (by omega))

theorem dot1qOffset_of_reads (h : ∀ x ∈ dot1qReads m p, m x = m' x) :
    dot1qOffset m p = dot1qOffset m' p := by
  have heth : u16le m (p + ethtypeOffset) = u16le m' (p + ethtypeOffset) :=
    u16le_of_reads fun x hx => h x (List.mem_append_left _ hx)
  simp only [dot1qOffset, ← heth]
  by_cases h4 : u16le m (p + ethtypeOffset) = ipv4Packet
  · rw [if_pos h4, if_pos h4]
  · by_cases hq : u16le m (p + ethtypeOffset) = dot1qFrame
    · have hinner : u16le m (p + dot1qEthtypeOffset) = u16le m' (p + dot1qEthtypeOffset) :=
        u16le_of_reads fun x hx => h x (List.mem_append_right _ (by
          rw [if_neg h4, if_pos hq]
          exact hx))
      rw [hinner]
    · simp only [hq, false_and, if_false]

/-- The filter depends on nothing but what it reads. -/
theorem lastIpId_of_reads (h : ∀ x ∈ filterReads m p, m x = m' x) :
    lastIpId m p = lastIpId m' p := by
  have hoff : dot1qOffset m p = dot1qOffset m' p :=
    dot1qOffset_of_reads fun x hx => h x (List.mem_append_left _ hx)
  have hrest := fun x hx => h x (List.mem_append_right _ hx)
  rw [lastIpId, lastIpId, ← hoff]
  cases hq : dot1qOffset m p with
  | none => rfl
  | some off =>
      rw [hq] at hrest
      have hdst : u32le m (p + off + dstIpOffset) = u32le m' (p + off + dstIpOffset) :=
        u32le_of_reads fun x hx => hrest x (List.mem_append_left _ hx)
      simp only [← hdst]
      by_cases hd : ntohl (u32le m (p + off + dstIpOffset)) ≠ dstIpFilter
      · rw [if_pos hd, if_pos hd]
      · have hid : u16le m (p + off + ipIdOffset) = u16le m' (p + off + ipIdOffset) :=
          u16le_of_reads fun x hx => hrest x (List.mem_append_right _ (by
            rw [if_neg hd]
            exact hx))
        rw [hid]

end

/-- On every path, what the filter reads is between byte 12 and byte 38 of the
frame. -/
theorem filterReads_within {m : Mem} {p x : Nat} (h : x ∈ filterReads m p) :
    p + 12 ≤ x ∧ x < p + 38 := by
  rw [filterReads, List.mem_append] at h
  rcases h with h | h
  · obtain h | h := mem_field_append_ite h
    · rw [ethtypeOffset] at h
      omega
    · split at h
      · rw [mem_field, dot1qEthtypeOffset] at h
        omega
      · cases h
  · cases hq : dot1qOffset m p with
    | none =>
        rw [hq] at h
        cases h
    | some off =>
        have hle : off ≤ 4 := by
          cases (dot1qOffset_eq_some_iff m p off).mp hq <;> omega
        rw [hq] at h
        obtain h | h := mem_field_append_ite h
        · rw [dstIpOffset] at h
          omega
        · rw [mem_field, ipIdOffset] at h
          omega

end Wire
