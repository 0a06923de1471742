import DceSub.Base.Word

/-!
# Byte memories and machine words

A memory is a function from addresses to bytes.  `writeBytes` stores a list of
bytes, `readBytes` loads one, and `Holds` says that a list of bytes is stored
at an address.

Words are loaded as a little-endian host does: `u16le`, `u32le` and `u64le` put
the first byte in the low position.  `ntohs` and `ntohl` reverse the bytes, so
that a field in network order (`u16be`) has its first byte on top.  A comparison
of a loaded word with a constant is a comparison of its bytes (`u16le_eq_iff`,
`ntohl_u32le_eq_iff`).
-/

namespace Base

/-- A byte memory. -/
abbrev Mem := Nat → UInt8

/-! ## Storing and loading bytes -/

/-- Store `bs` at `a`. -/
def writeBytes (m : Mem) (a : Nat) (bs : List UInt8) : Mem := fun x =>
  if a ≤ x then (bs[x - a]?).getD (m x) else m x

/-- Load `n` bytes at `a`. -/
def readBytes (m : Mem) (a n : Nat) : List UInt8 := (List.range n).map fun k => m (a + k)

/-- The bytes `bs` are stored at `a`. -/
def Holds (m : Mem) (a : Nat) (bs : List UInt8) : Prop :=
  ∀ k, k < bs.length → bs[k]? = some (m (a + k))

@[simp] theorem readBytes_length (m : Mem) (a n : Nat) : (readBytes m a n).length = n := by
  simp [readBytes]

theorem getElem?_readBytes {m : Mem} {a n k : Nat} (h : k < n) :
    (readBytes m a n)[k]? = some (m (a + k)) := by
  simp [readBytes, h]

theorem readBytes_holds (m : Mem) (a n : Nat) : Holds m a (readBytes m a n) := by
  intro k hk
  rw [readBytes_length] at hk
  exact getElem?_readBytes hk

theorem Holds.readBytes {m : Mem} {a : Nat} {bs : List UInt8} (h : Holds m a bs) :
    readBytes m a bs.length = bs := by
  apply List.ext_getElem?
  intro k
  by_cases hk : k < bs.length
  · rw [getElem?_readBytes hk, h k hk]
  · rw [List.getElem?_eq_none (by rw [readBytes_length]; omega), List.getElem?_eq_none (by omega)]

/-- What has been stored is there. -/
theorem writeBytes_holds (m : Mem) (a : Nat) (bs : List UInt8) :
    Holds (writeBytes m a bs) a bs := by
  intro k hk
  have hsub : a + k - a = k := by omega
  simp only [writeBytes, Nat.le_add_right, if_true, hsub, List.getElem?_eq_getElem hk,
    Option.getD_some]

theorem writeBytes_lt {m : Mem} {a x : Nat} {bs : List UInt8} (h : x < a) :
    writeBytes m a bs x = m x := by
  rw [writeBytes, if_neg (by omega)]

theorem writeBytes_ge {m : Mem} {a x : Nat} {bs : List UInt8} (h : a + bs.length ≤ x) :
    writeBytes m a bs x = m x := by
  rw [writeBytes, if_pos (by omega), List.getElem?_eq_none (by omega), Option.getD_none]

/-- Storing bytes one after another. -/
theorem writeBytes_cons (m : Mem) (a : Nat) (b : UInt8) (bs : List UInt8) :
    writeBytes (Function.update m a b) (a + 1) bs = writeBytes m a (b :: bs) := by
  funext x
  rcases Nat.lt_trichotomy x a with h | rfl | h
  · rw [writeBytes_lt (by omega), writeBytes_lt h, Function.update_of_ne (by omega)]
  · rw [writeBytes_lt (by omega), Function.update_self]
    simp [writeBytes]
  · obtain ⟨k, rfl⟩ : ∃ k, x = a + 1 + k := ⟨x - a - 1, by omega⟩
    have h1 : a + 1 + k - (a + 1) = k := by omega
    have h2 : a + 1 + k - a = k + 1 := by omega
    simp only [writeBytes, h1, h2, Nat.le_add_right, if_true, List.getElem?_cons_succ,
      if_pos (show a ≤ a + 1 + k by omega)]
    rw [Function.update_of_ne (by omega)]

@[simp] theorem writeBytes_nil (m : Mem) (a : Nat) : writeBytes m a [] = m := by
  funext x
  simp [writeBytes]

/-- A load beside a store is not affected by it. -/
theorem readBytes_writeBytes_of_disjoint {m : Mem} {a b n : Nat} {bs : List UInt8}
    (h : b + n ≤ a ∨ a + bs.length ≤ b) :
    readBytes (writeBytes m a bs) b n = readBytes m b n := by
  apply List.map_congr_left
  intro k hk
  rw [List.mem_range] at hk
  rcases h with h | h
  · exact writeBytes_lt (by omega)
  · exact writeBytes_ge (by omega)

/-- The tail of what is stored is stored further on. -/
theorem Holds.append_right {m : Mem} {a : Nat} {bs cs : List UInt8} (h : Holds m a (bs ++ cs)) :
    Holds m (a + bs.length) cs := by
  intro k hk
  have hk' := h (bs.length + k) (by rw [List.length_append]; omega)
  rw [List.getElem?_append_right (by omega), Nat.add_sub_cancel_left, ← Nat.add_assoc] at hk'
  exact hk'

/-- A stored list seen from its own bytes. -/
theorem Holds.getD {m : Mem} {a k : Nat} {bs : List UInt8} (h : Holds m a bs) (hk : k < bs.length) :
    m (a + k) = bs.getD k 0 := by
  rw [List.getD_eq_getElem?_getD, h k hk, Option.getD_some]

/-! ### A list as a memory -/

/-- The bytes of a frame as a memory. -/
def view (f : List UInt8) : Mem := fun k => f.getD k 0

/-- A memory that holds a frame looks like it. -/
theorem Holds.view {m : Mem} {p k : Nat} {f : List UInt8} (h : Holds m p f) (hk : k < f.length) :
    m (p + k) = view f (0 + k) := by
  rw [Nat.zero_add]
  exact h.getD hk

theorem holds_view (f : List UInt8) : Holds (view f) 0 f := by
  intro k hk
  rw [view, Nat.zero_add, List.getD_eq_getElem?_getD, List.getElem?_eq_getElem hk,
    Option.getD_some]

/-! ## Little-endian words -/

/-- A 16-bit load. -/
def u16le (m : Mem) (a : Nat) : BitVec 16 :=
  BitVec.ofNat 16 ((m a).toNat + 256 * (m (a + 1)).toNat)

/-- A 32-bit load. -/
def u32le (m : Mem) (a : Nat) : BitVec 32 :=
  BitVec.ofNat 32 ((m a).toNat + 256 * (m (a + 1)).toNat + 65536 * (m (a + 2)).toNat +
    16777216 * (m (a + 3)).toNat)

/-- A 64-bit load. -/
def u64le (m : Mem) (a : Nat) : BitVec 64 :=
  BitVec.ofNat 64 ((u32le m a).toNat + 4294967296 * (u32le m (a + 4)).toNat)

/-- Reverse the two bytes of a word. -/
def ntohs (x : BitVec 16) : BitVec 16 :=
  BitVec.ofNat 16 (x.toNat % 256 * 256 + x.toNat / 256)

/-- Reverse the four bytes of a word. -/
def ntohl (x : BitVec 32) : BitVec 32 :=
  BitVec.ofNat 32 (x.toNat % 256 * 16777216 + x.toNat / 256 % 256 * 65536 +
    x.toNat / 65536 % 256 * 256 + x.toNat / 16777216)

/-- A 16-bit field in network order. -/
def u16be (m : Mem) (a : Nat) : BitVec 16 :=
  BitVec.ofNat 16 (256 * (m a).toNat + (m (a + 1)).toNat)

theorem toNat_u16le (m : Mem) (a : Nat) :
    (u16le m a).toNat = (m a).toNat + 256 * (m (a + 1)).toNat := by
  have h0 := (m a).toNat_lt
  have h1 := (m (a + 1)).toNat_lt
  rw [u16le, toNat_ofNat_of_lt (by omega)]

theorem toNat_u32le (m : Mem) (a : Nat) :
    (u32le m a).toNat = (m a).toNat + 256 * (m (a + 1)).toNat + 65536 * (m (a + 2)).toNat +
      16777216 * (m (a + 3)).toNat := by
  have h0 := (m a).toNat_lt
  have h1 := (m (a + 1)).toNat_lt
  have h2 := (m (a + 2)).toNat_lt
  have h3 := (m (a + 3)).toNat_lt
  rw [u32le, toNat_ofNat_of_lt (by omega)]

theorem toNat_u16be (m : Mem) (a : Nat) :
    (u16be m a).toNat = 256 * (m a).toNat + (m (a + 1)).toNat := by
  have h0 := (m a).toNat_lt
  have h1 := (m (a + 1)).toNat_lt
  rw [u16be, toNat_ofNat_of_lt (by omega)]

/-- A load with its bytes reversed is the field in network order. -/
theorem ntohs_u16le (m : Mem) (a : Nat) : ntohs (u16le m a) = u16be m a := by
  have h0 := (m a).toNat_lt
  have h1 := (m (a + 1)).toNat_lt
  apply BitVec.eq_of_toNat_eq
  rw [ntohs, toNat_u16le, toNat_u16be, toNat_ofNat_of_lt (by omega)]
  omega

/-- A 32-bit field in network order. -/
theorem toNat_ntohl_u32le (m : Mem) (a : Nat) :
    (ntohl (u32le m a)).toNat = 16777216 * (m a).toNat + 65536 * (m (a + 1)).toNat +
      256 * (m (a + 2)).toNat + (m (a + 3)).toNat := by
  have h0 := (m a).toNat_lt
  have h1 := (m (a + 1)).toNat_lt
  have h2 := (m (a + 2)).toNat_lt
  have h3 := (m (a + 3)).toNat_lt
  rw [ntohl, toNat_u32le, toNat_ofNat_of_lt (by omega)]
  omega

/-! ## Comparing a load with a constant -/

theorem u16le_eq_iff (m : Mem) (a : Nat) (lo hi : UInt8) :
    u16le m a = BitVec.ofNat 16 (lo.toNat + 256 * hi.toNat) ↔ m a = lo ∧ m (a + 1) = hi := by
  have h0 := (m a).toNat_lt
  have h1 := (m (a + 1)).toNat_lt
  have hl := lo.toNat_lt
  have hh := hi.toNat_lt
  rw [← BitVec.toNat_inj, toNat_u16le, toNat_ofNat_of_lt (by omega),
    ← UInt8.toNat_inj, ← UInt8.toNat_inj]
  omega

theorem u32le_eq_iff (m : Mem) (a : Nat) (b0 b1 b2 b3 : UInt8) :
    u32le m a = BitVec.ofNat 32 (b0.toNat + 256 * b1.toNat + 65536 * b2.toNat +
        16777216 * b3.toNat) ↔
      m a = b0 ∧ m (a + 1) = b1 ∧ m (a + 2) = b2 ∧ m (a + 3) = b3 := by
  have h0 := (m a).toNat_lt
  have h1 := (m (a + 1)).toNat_lt
  have h2 := (m (a + 2)).toNat_lt
  have h3 := (m (a + 3)).toNat_lt
  have k0 := b0.toNat_lt
  have k1 := b1.toNat_lt
  have k2 := b2.toNat_lt
  have k3 := b3.toNat_lt
  rw [← BitVec.toNat_inj, toNat_u32le, toNat_ofNat_of_lt (by omega),
    ← UInt8.toNat_inj, ← UInt8.toNat_inj, ← UInt8.toNat_inj, ← UInt8.toNat_inj]
  omega

theorem ntohl_u32le_eq_iff (m : Mem) (a : Nat) (b0 b1 b2 b3 : UInt8) :
    ntohl (u32le m a) = BitVec.ofNat 32 (16777216 * b0.toNat + 65536 * b1.toNat +
        256 * b2.toNat + b3.toNat) ↔
      m a = b0 ∧ m (a + 1) = b1 ∧ m (a + 2) = b2 ∧ m (a + 3) = b3 := by
  have h0 := (m a).toNat_lt
  have h1 := (m (a + 1)).toNat_lt
  have h2 := (m (a + 2)).toNat_lt
  have h3 := (m (a + 3)).toNat_lt
  have k0 := b0.toNat_lt
  have k1 := b1.toNat_lt
  have k2 := b2.toNat_lt
  have k3 := b3.toNat_lt
  rw [← BitVec.toNat_inj, toNat_ntohl_u32le, toNat_ofNat_of_lt (by omega),
    ← UInt8.toNat_inj, ← UInt8.toNat_inj, ← UInt8.toNat_inj, ← UInt8.toNat_inj]
  omega

/-! ## Memories that agree -/

theorem u16le_congr {m m' : Mem} {a a' : Nat} (h0 : m a = m' a') (h1 : m (a + 1) = m' (a' + 1)) :
    u16le m a = u16le m' a' := by
  rw [u16le, u16le, h0, h1]

theorem u32le_congr {m m' : Mem} {a a' : Nat} (h : ∀ k, k < 4 → m (a + k) = m' (a' + k)) :
    u32le m a = u32le m' a' := by
  have h0 : m a = m' a' := h 0 (by omega)
  rw [u32le, u32le, h0, h 1 (by omega), h 2 (by omega), h 3 (by omega)]

theorem u64le_congr {m m' : Mem} {a a' : Nat} (h : ∀ k, k < 8 → m (a + k) = m' (a' + k)) :
    u64le m a = u64le m' a' := by
  have hlo : u32le m a = u32le m' a' := u32le_congr fun k hk => h k (by omega)
  have hhi : u32le m (a + 4) = u32le m' (a' + 4) := by
    apply u32le_congr
    intro k hk
    rw [Nat.add_assoc, Nat.add_assoc]
    exact h (4 + k) (by omega)
  rw [u64le, u64le, hlo, hhi]

end Base
