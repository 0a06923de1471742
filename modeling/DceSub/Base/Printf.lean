import DceSub.Base.CString
import DceSub.Base.Double

/-!
# `printf`

The conversions `%d` and `%s`, with or without a width, and `%f` with a
precision.  A format string is parsed into the text in front of its first
conversion and the conversions, each with the text behind it.  A call has no
result when the arguments are not those the format asks for, and else prints the
texts of its conversions between the texts of the format (`Format.print_fill`).

What is printed can be read back if the text behind each conversion starts with
a character that the conversion does not print (`Separated`): then it determines
the numbers and the texts that were printed, doubles up to their last place
(`printItems_inj`).  A log is printed with several formats, and can be read back
if no line of one of them begins like a line of another (`Format.tells`,
`printCalls_inj`).  Texts are only printed verbatim, and must not contain the
characters `seps` that the formats are told apart by.
-/

namespace Base

/-! ## Formats -/

/-- A conversion. -/
inductive Conv where
  | int (width : Nat)
  | str (width : Nat)
  | double (precision : Nat)
deriving DecidableEq

/-- An argument of `printf`. -/
inductive Arg where
  | int (z : Int)
  | str (s : Text)
  | double (b : BitVec 64)
deriving DecidableEq

/-- A format string: the text in front, and each conversion with the text behind
it. -/
structure Format where
  lead : Text
  items : List (Conv × Text)
deriving DecidableEq

/-- A conversion behind its percent sign, and the rest of the format. -/
def parseConv (s : Text) : Option (Conv × Text) :=
  match s.dropWhile (isDigit 10) with
  | 'd' :: rest => some (.int (digitsVal 10 (s.takeWhile (isDigit 10))), rest)
  | 's' :: rest => some (.str (digitsVal 10 (s.takeWhile (isDigit 10))), rest)
  | '.' :: rest =>
      match s.takeWhile (isDigit 10), rest.dropWhile (isDigit 10) with
      | [], 'f' :: rest' => some (.double (digitsVal 10 (rest.takeWhile (isDigit 10))), rest')
      | _, _ => none
  | _ => none

/-- The conversions of a format that starts with one. -/
def parseItems : Nat → Text → Option (List (Conv × Text))
  | 0, _ => none
  | _ + 1, [] => some []
  | n + 1, _ :: s =>
      (parseConv s).bind fun r =>
        (parseItems n (r.2.dropWhile (· ≠ '%'))).map fun items =>
          (r.1, r.2.takeWhile (· ≠ '%')) :: items

/-- A format string taken apart. -/
def parseFormat (fmt : Text) : Option Format :=
  (parseItems (fmt.length + 1) (fmt.dropWhile (· ≠ '%'))).map fun items =>
    ⟨fmt.takeWhile (· ≠ '%'), items⟩

/-! ## Printing -/

/-- One conversion. -/
def Conv.print : Conv → Arg → Option Text
  | int width, .int z => some (padLeft ' ' width (numeral z))
  | str width, .str s => some (padLeft ' ' width s)
  | double precision, .double b => some (printDouble precision b)
  | _, _ => none

/-- The conversions, with the text behind each. -/
def printItems : List (Conv × Text) → List Arg → Option Text
  | [], [] => some []
  | (c, lit) :: items, a :: args =>
      (c.print a).bind fun t => (printItems items args).map fun r => t ++ (lit ++ r)
  | _, _ => none

/-- `printf` with a format that is taken apart. -/
def Format.print (f : Format) (args : List Arg) : Option Text :=
  (printItems f.items args).map (f.lead ++ ·)

/-- `printf(fmt, ...)`. -/
def printf (fmt : Text) (args : List Arg) : Option Text :=
  (parseFormat fmt).bind fun f => f.print args

/-! ### Fields -/

/-- The texts of the conversions, one for each. -/
def fieldTexts (items : List (Conv × Text)) (args : List Arg) : List Text :=
  List.zipWith (fun item a => (item.1.print a).getD []) items args

/-- Texts in the place of the conversions. -/
def fillItems : List (Conv × Text) → List Text → Text
  | (_, lit) :: items, t :: fields => t ++ (lit ++ fillItems items fields)
  | _, _ => []

/-- The texts of the conversions of a format. -/
def Format.fields (f : Format) (args : List Arg) : List Text := fieldTexts f.items args

/-- A line of a format, from the texts of its conversions. -/
def Format.fill (f : Format) (fields : List Text) : Text := f.lead ++ fillItems f.items fields

/-- What is printed, conversion by conversion. -/
theorem printItems_fill {items : List (Conv × Text)} {args : List Arg} {t : Text}
    (h : printItems items args = some t) : t = fillItems items (fieldTexts items args) := by
  induction items generalizing args t with
  | nil =>
      cases args with
      | nil =>
          cases h
          rfl
      | cons => cases h
  | cons item items ih =>
      obtain ⟨c, lit⟩ := item
      cases args with
      | nil => cases h
      | cons a args =>
          obtain ⟨u, hu, h⟩ := Option.bind_eq_some_iff.mp h
          obtain ⟨r, hr, rfl⟩ := Option.map_eq_some_iff.mp h
          rw [fieldTexts, List.zipWith_cons_cons, fillItems, hu, Option.getD_some, ih hr]
          rfl

/-- What a call prints is made of the texts of its conversions. -/
theorem Format.print_fill {f : Format} {args : List Arg} (h : (f.print args).isSome) :
    f.print args = some (f.fill (f.fields args)) := by
  rw [Format.print, Option.isSome_map] at h
  obtain ⟨t, ht⟩ := Option.isSome_iff_exists.mp h
  rw [Format.print, ht, printItems_fill ht]
  rfl

/-- The text of a conversion is what it prints of its argument. -/
theorem Format.getElem?_fields {f : Format} {args : List Arg} {i : Nat} {c : Conv} {lit t : Text}
    {a : Arg} (hitem : f.items[i]? = some (c, lit)) (harg : args[i]? = some a)
    (h : c.print a = some t) : (f.fields args)[i]? = some t := by
  rw [Format.fields, fieldTexts, List.getElem?_zipWith, hitem, harg]
  exact congrArg (some ∘ (Option.getD · [])) h

/-! ## Reading back -/

/-- What can be read of an argument. -/
inductive Reading where
  | int (z : Int)
  | str (s : Text)
  | double (s : Shown)
deriving DecidableEq

/-- What a conversion shows of its argument. -/
def Conv.read : Conv → Arg → Option Reading
  | int _, .int z => some (.int z)
  | str _, .str s => some (.str s)
  | double precision, .double b => some (.double (shown precision b))
  | _, _ => none

/-- A conversion that does not print a character, if there is none of `seps` in
the texts. -/
def Conv.avoids (seps : List Char) : Conv → Char → Bool
  | int width, c => !(isDigit 10 c || c = '-' || (width ≠ 0 && c = ' '))
  | str _, c => c ≠ ' ' && seps.contains c
  | double _, c => !isDoubleChar c

/-- A text argument contains none of `seps`, and does not start with a blank. -/
def Arg.Clean (seps : List Char) : Arg → Prop
  | str s => (∀ c ∈ seps, c ∉ s) ∧ s.head? ≠ some ' '
  | _ => True

/-- Each conversion is followed by a character it does not print. -/
def Separated (seps : List Char) (items : List (Conv × Text)) : Prop :=
  ∀ item ∈ items, item.2.head?.any (item.1.avoids seps) = true

instance (seps : List Char) (items : List (Conv × Text)) : Decidable (Separated seps items) :=
  inferInstanceAs (Decidable (∀ item ∈ items, _))

/-- What is shown of the arguments. -/
def readItems (items : List (Conv × Text)) (args : List Arg) : List (Option Reading) :=
  List.zipWith (fun item a => item.1.read a) items args

/-! ### One conversion -/

theorem numeral_inj {z z' : Int} (h : numeral z = numeral z') : z = z' := by
  have hminus : ∀ n, '-' ∉ Nat.toDigits 10 n := by
    intro n hmem
    exact absurd (Base.isDigit_of_mem_toDigits hmem) (by decide)
  have habs : ∀ {m n : Nat}, Nat.toDigits 10 m = Nat.toDigits 10 n → m = n := by
    intro m n hmn
    rw [← digitsVal_toDigits m, hmn, digitsVal_toDigits]
  rw [numeral, numeral] at h
  split at h <;> split at h
  · have := habs (List.cons.inj h).2
    omega
  · exact absurd (h ▸ List.mem_cons_self ..) (hminus _)
  · exact absurd (h ▸ List.mem_cons_self ..) (hminus _)
  · have := habs h
    omega

theorem head_numeral (z : Int) : (numeral z).head? ≠ some ' ' := by
  intro h
  rcases mem_numeral (List.mem_of_mem_head? h) with h | h
  · exact absurd h (by decide)
  · exact absurd h (by decide)

variable {seps : List Char}

/-- A conversion prints an argument of its own kind. -/
theorem Conv.print_eq_some {c : Conv} {a : Arg} {t : Text} (h : c.print a = some t) :
    (∃ width z, c = .int width ∧ a = .int z ∧ t = padLeft ' ' width (numeral z)) ∨
      (∃ width s, c = .str width ∧ a = .str s ∧ t = padLeft ' ' width s) ∨
      ∃ precision b, c = .double precision ∧ a = .double b ∧ t = printDouble precision b := by
  cases c <;> cases a <;> cases h
  · exact .inl ⟨_, _, rfl, rfl, rfl⟩
  · exact .inr (.inl ⟨_, _, rfl, rfl, rfl⟩)
  · exact .inr (.inr ⟨_, _, rfl, rfl, rfl⟩)

/-- A conversion does not print what it avoids. -/
theorem Conv.notMem_print {c : Conv} {a : Arg} {t : Text} {sep : Char} (h : c.print a = some t)
    (havoid : c.avoids seps sep = true) (hclean : a.Clean seps) : sep ∉ t := by
  intro hmem
  obtain ⟨width, z, rfl, rfl, rfl⟩ | ⟨width, s, rfl, rfl, rfl⟩ | ⟨precision, b, rfl, rfl, rfl⟩ :=
    Conv.print_eq_some h
  · rw [Conv.avoids, Bool.not_eq_true', Bool.or_eq_false_iff, Bool.or_eq_false_iff,
      decide_eq_false_iff_not] at havoid
    rcases mem_padLeft hmem with ⟨hwidth, rfl⟩ | h
    · simp [hwidth] at havoid
    · rcases mem_numeral h with h | h
      · exact havoid.1.2 h
      · rw [h] at havoid
        cases havoid.1.1
  · rw [Conv.avoids, Bool.and_eq_true, decide_eq_true_iff, List.contains_iff_mem] at havoid
    rcases mem_padLeft hmem with h | h
    · exact havoid.1 h.2
    · exact hclean.1 sep havoid.2 h
  · rw [Conv.avoids, Shown.mem_text hmem] at havoid
    cases havoid

/-- What a conversion prints shows its argument. -/
theorem Conv.read_of_print {c : Conv} {a a' : Arg} {t : Text} (h : c.print a = some t)
    (h' : c.print a' = some t) (hclean : a.Clean seps) (hclean' : a'.Clean seps) :
    c.read a = c.read a' := by
  obtain ⟨width, z, rfl, rfl, rfl⟩ | ⟨width, s, rfl, rfl, rfl⟩ | ⟨precision, b, rfl, rfl, rfl⟩ :=
    Conv.print_eq_some h
  · obtain ⟨_, z', hc, rfl, ht⟩ | ⟨_, _, hc, -⟩ | ⟨_, _, hc, -⟩ := Conv.print_eq_some h' <;>
      cases hc
    rw [numeral_inj (padLeft_inj (head_numeral z) (head_numeral z') ht)]
  · obtain ⟨_, _, hc, -⟩ | ⟨_, s', hc, rfl, ht⟩ | ⟨_, _, hc, -⟩ := Conv.print_eq_some h' <;>
      cases hc
    rw [padLeft_inj hclean.2 hclean'.2 ht]
  · obtain ⟨_, _, hc, -⟩ | ⟨_, _, hc, -⟩ | ⟨_, b', hc, rfl, ht⟩ := Conv.print_eq_some h' <;>
      cases hc
    have hshown : shown precision b = shown precision b' := Shown.text_inj ht
    rw [Conv.read, Conv.read, hshown]

/-! ### Whole formats -/

theorem printItems_cons {c : Conv} {lit : Text} {items : List (Conv × Text)} {args : List Arg}
    {t : Text} (h : printItems ((c, lit) :: items) args = some t) :
    ∃ a args' u r, args = a :: args' ∧ c.print a = some u ∧ printItems items args' = some r ∧
      t = u ++ (lit ++ r) := by
  cases args with
  | nil => cases h
  | cons a args =>
      obtain ⟨u, hu, h⟩ := Option.bind_eq_some_iff.mp h
      obtain ⟨r, hr, rfl⟩ := Option.map_eq_some_iff.mp h
      exact ⟨a, args, u, r, rfl, hu, hr, rfl⟩

/-- A conversion ends at the character behind it. -/
theorem Conv.print_ends {c c' : Conv} {a a' : Arg} {t t' rest rest' : Text} {sep : Char}
    (h : c.print a = some t) (h' : c'.print a' = some t') (havoid : c.avoids seps sep = true)
    (havoid' : c'.avoids seps sep = true) (hclean : a.Clean seps) (hclean' : a'.Clean seps)
    (heq : t ++ sep :: rest = t' ++ sep :: rest') : t = t' ∧ rest = rest' :=
  append_sep_inj (Conv.notMem_print h havoid hclean) (Conv.notMem_print h' havoid' hclean') heq

/-- What is printed with a separated format shows all of its arguments, whatever
follows it. -/
theorem printItems_inj {items : List (Conv × Text)} (hsep : Separated seps items)
    {args args' : List Arg} (hclean : ∀ a ∈ args, a.Clean seps)
    (hclean' : ∀ a ∈ args', a.Clean seps) {t t' rest rest' : Text}
    (h : printItems items args = some t) (h' : printItems items args' = some t')
    (heq : t ++ rest = t' ++ rest') :
    readItems items args = readItems items args' ∧ rest = rest' := by
  induction items generalizing args args' t t' with
  | nil =>
      cases args with
      | nil =>
          cases args' with
          | nil =>
              cases h
              cases h'
              exact ⟨rfl, heq⟩
          | cons => cases h'
      | cons => cases h
  | cons item items ih =>
      obtain ⟨c, lit⟩ := item
      obtain ⟨a, args, u, r, rfl, hu, hr, rfl⟩ := printItems_cons h
      obtain ⟨a', args', u', r', rfl, hu', hr', rfl⟩ := printItems_cons h'
      rw [List.forall_mem_cons] at hclean hclean'
      have hhead := hsep (c, lit) (List.mem_cons_self ..)
      cases lit with
      | nil => cases hhead
      | cons sep lit =>
          simp only [List.append_assoc, List.cons_append] at heq
          obtain ⟨rfl, hrest⟩ := Conv.print_ends hu hu' hhead hhead hclean.1 hclean'.1 heq
          have hread := Conv.read_of_print hu hu' hclean.1 hclean'.1
          obtain ⟨hreads, hend⟩ := ih (fun i hi => hsep i (List.mem_cons_of_mem _ hi)) hclean.2
            hclean'.2 hr hr' (List.append_cancel_left hrest)
          exact ⟨congrArg₂ List.cons hread hreads, hend⟩

/-! ### Telling formats apart -/

/-- Two texts that differ before one of them ends. -/
def differ (s s' : Text) : Bool := !s.isPrefixOf s' && !s'.isPrefixOf s

/-- Two formats without text in front have the same text behind some of their
conversions, and then texts that differ. -/
def diverge (seps : List Char) : List (Conv × Text) → List (Conv × Text) → Bool
  | (c, lit) :: items, (c', lit') :: items' =>
      lit.head?.any (c.avoids seps) && lit.head?.any (c'.avoids seps) &&
        if lit = lit' then diverge seps items items' else lit.head? = lit'.head? && differ lit lit'
  | _, _ => false

/-- A format starts with a conversion, and the other one with a character that is
not found there. -/
def Format.opens (seps : List Char) (f f' : Format) : Bool :=
  f.lead = [] &&
    match f.items, f'.lead with
    | (c, lit) :: _, x :: _ => c.avoids seps x && lit.head?.any (· ≠ x)
    | _, _ => false

/-- A line of one format cannot be taken for a line of the other. -/
def Format.tells (seps : List Char) (f f' : Format) : Bool :=
  differ f.lead f'.lead || (f.lead = f'.lead && diverge seps f.items f'.items) ||
    f.opens seps f' || f'.opens seps f

theorem append_ne_of_differ {s s' : Text} (h : differ s s' = true) (rest rest' : Text) :
    s ++ rest ≠ s' ++ rest' := by
  intro heq
  rw [differ, Bool.and_eq_true, Bool.not_eq_true', Bool.not_eq_true'] at h
  rcases List.append_eq_append_iff.mp heq with ⟨u, rfl, -⟩ | ⟨u, rfl, -⟩
  · have hpre := List.isPrefixOf_iff_prefix.mpr (List.prefix_append s u)
    rw [hpre] at h
    cases h.1
  · have hpre := List.isPrefixOf_iff_prefix.mpr (List.prefix_append s' u)
    rw [hpre] at h
    cases h.2

theorem printItems_ne {items items' : List (Conv × Text)}
    (hdiv : diverge seps items items' = true) {args args' : List Arg}
    (hclean : ∀ a ∈ args, a.Clean seps) (hclean' : ∀ a ∈ args', a.Clean seps) {t t' : Text}
    (h : printItems items args = some t) (h' : printItems items' args' = some t')
    (rest rest' : Text) : t ++ rest ≠ t' ++ rest' := by
  intro heq
  induction items generalizing items' args args' t t' with
  | nil => cases hdiv
  | cons item items ih =>
      obtain ⟨c, lit⟩ := item
      cases items' with
      | nil => cases hdiv
      | cons item' items' =>
          obtain ⟨c', lit'⟩ := item'
          obtain ⟨a, args, u, r, rfl, hu, hr, rfl⟩ := printItems_cons h
          obtain ⟨a', args', u', r', rfl, hu', hr', rfl⟩ := printItems_cons h'
          rw [List.forall_mem_cons] at hclean hclean'
          rw [diverge, Bool.and_eq_true, Bool.and_eq_true] at hdiv
          obtain ⟨⟨hhead, hhead'⟩, hdiv⟩ := hdiv
          cases lit with
          | nil => cases hhead
          | cons sep lit =>
              split at hdiv
              next hlit =>
                subst hlit
                simp only [List.append_assoc, List.cons_append] at heq
                obtain ⟨-, hrest⟩ := Conv.print_ends hu hu' hhead hhead' hclean.1 hclean'.1 heq
                exact ih hdiv hclean.2 hclean'.2 hr hr' (List.append_cancel_left hrest)
              next =>
                rw [Bool.and_eq_true, decide_eq_true_iff] at hdiv
                obtain ⟨hsame, hdiff⟩ := hdiv
                cases lit' with
                | nil => cases hsame
                | cons sep' lit' =>
                    obtain rfl : sep = sep' := Option.some.inj hsame
                    simp only [List.append_assoc, List.cons_append] at heq
                    obtain ⟨-, hrest⟩ := Conv.print_ends hu hu' hhead hhead' hclean.1 hclean'.1 heq
                    refine append_ne_of_differ hdiff (r ++ rest) (r' ++ rest') ?_
                    rw [List.cons_append, List.cons_append, hrest]

/-- A line that starts with a conversion does not start with a character that the
conversion avoids. -/
theorem Format.print_ne_of_opens {f f' : Format} (hopens : f.opens seps f' = true)
    {args args' : List Arg} (hclean : ∀ a ∈ args, a.Clean seps) {t t' : Text}
    (h : f.print args = some t) (h' : f'.print args' = some t') (rest rest' : Text) :
    t ++ rest ≠ t' ++ rest' := by
  obtain ⟨lead, items⟩ := f
  obtain ⟨lead', items'⟩ := f'
  rw [Format.opens, Bool.and_eq_true, decide_eq_true_iff] at hopens
  obtain ⟨rfl, hopens⟩ := hopens
  obtain ⟨r, hr, rfl⟩ := Option.map_eq_some_iff.mp h
  obtain ⟨r', hr', rfl⟩ := Option.map_eq_some_iff.mp h'
  intro heq
  cases items with
  | nil => cases hopens
  | cons item items =>
      obtain ⟨c, lit⟩ := item
      cases lead' with
      | nil => cases hopens
      | cons x lead' =>
          obtain ⟨havoid, hlit⟩ := (Bool.and_eq_true ..).mp hopens
          obtain ⟨a, args, u, r, rfl, hu, -, rfl⟩ := printItems_cons hr
          have hx := Conv.notMem_print hu havoid (hclean a (List.mem_cons_self ..))
          cases u with
          | nil =>
              cases lit with
              | nil => cases hlit
              | cons y lit =>
                  simp only [List.nil_append, List.cons_append, List.cons.injEq] at heq
                  exact of_decide_eq_true hlit heq.1
          | cons y u =>
              simp only [List.nil_append, List.cons_append, List.cons.injEq] at heq
              exact hx (List.mem_cons.mpr (.inl heq.1.symm))

theorem Format.print_ne {f f' : Format} (htells : f.tells seps f' = true) {args args' : List Arg}
    (hclean : ∀ a ∈ args, a.Clean seps) (hclean' : ∀ a ∈ args', a.Clean seps) {t t' : Text}
    (h : f.print args = some t) (h' : f'.print args' = some t') (rest rest' : Text) :
    t ++ rest ≠ t' ++ rest' := by
  simp only [Format.tells, Bool.or_eq_true, Bool.and_eq_true, decide_eq_true_iff] at htells
  rcases htells with ((hlead | ⟨hlead, hdiv⟩) | hopens) | hopens
  · obtain ⟨r, -, rfl⟩ := Option.map_eq_some_iff.mp h
    obtain ⟨r', -, rfl⟩ := Option.map_eq_some_iff.mp h'
    rw [List.append_assoc, List.append_assoc]
    exact append_ne_of_differ hlead _ _
  · obtain ⟨r, hr, rfl⟩ := Option.map_eq_some_iff.mp h
    obtain ⟨r', hr', rfl⟩ := Option.map_eq_some_iff.mp h'
    rw [hlead, List.append_assoc, List.append_assoc]
    intro heq
    exact printItems_ne hdiv hclean hclean' hr hr' rest rest' (List.append_cancel_left heq)
  · exact print_ne_of_opens hopens hclean h h' rest rest'
  · exact (print_ne_of_opens hopens hclean' h' h rest' rest).symm

/-! ### Logs -/

section

variable {κ : Type} {fmt : κ → Format}

/-- What calls print, one after another, each with the format of its kind. -/
def printCalls (fmt : κ → Format) : List (κ × List Arg) → Option Text
  | [] => some []
  | (k, args) :: calls =>
      ((fmt k).print args).bind fun t => (printCalls fmt calls).map fun r => t ++ r

/-- What a call shows: its kind, and the arguments. -/
def showCall (fmt : κ → Format) (call : κ × List Arg) : κ × List (Option Reading) :=
  (call.1, readItems (fmt call.1).items call.2)

theorem printCalls_cons {k : κ} {args : List Arg} {calls : List (κ × List Arg)} {t : Text}
    (h : printCalls fmt ((k, args) :: calls) = some t) :
    ∃ u r, (fmt k).print args = some u ∧ printCalls fmt calls = some r ∧ t = u ++ r := by
  obtain ⟨u, hu, h⟩ := Option.bind_eq_some_iff.mp h
  obtain ⟨r, hr, rfl⟩ := Option.map_eq_some_iff.mp h
  exact ⟨u, r, hu, hr, rfl⟩

/-- A format that prints something in any case. -/
def Format.Prints (f : Format) : Prop := f.lead ≠ [] ∨ f.items ≠ []

instance (f : Format) : Decidable f.Prints := inferInstanceAs (Decidable (_ ∨ _))

/-- A line of a separated format is not empty. -/
theorem Format.print_ne_nil {f : Format} (hsep : Separated seps f.items) (hprints : f.Prints)
    {args : List Arg} {t : Text} (h : f.print args = some t) : t ≠ [] := by
  obtain ⟨r, hr, rfl⟩ := Option.map_eq_some_iff.mp h
  intro hnil
  obtain ⟨hlead, rfl⟩ := List.append_eq_nil_iff.mp hnil
  rcases hprints with hne | hne
  · exact hne hlead
  · obtain ⟨⟨c, lit⟩, items, hf⟩ := List.exists_cons_of_ne_nil hne
    rw [hf] at hsep hr
    obtain ⟨a, args, u, r, -, -, -, heq⟩ := printItems_cons hr
    have hhead := hsep (c, lit) (List.mem_cons_self ..)
    cases lit with
    | nil => cases hhead
    | cons => simp at heq

/-- A log shows the calls it was printed by, one after another. -/
theorem printCalls_inj (hsep : ∀ k, Separated seps (fmt k).items)
    (hprints : ∀ k, (fmt k).Prints)
    (htells : ∀ k k', k ≠ k' → (fmt k).tells seps (fmt k') = true)
    {calls calls' : List (κ × List Arg)} (hclean : ∀ c ∈ calls, ∀ a ∈ c.2, a.Clean seps)
    (hclean' : ∀ c ∈ calls', ∀ a ∈ c.2, a.Clean seps) {t : Text}
    (h : printCalls fmt calls = some t) (h' : printCalls fmt calls' = some t) :
    calls.map (showCall fmt) = calls'.map (showCall fmt) := by
  induction calls generalizing calls' t with
  | nil =>
      cases h
      cases calls' with
      | nil => rfl
      | cons c calls' =>
          obtain ⟨u, r, hu, -, heq⟩ := printCalls_cons h'
          exact absurd (List.append_eq_nil_iff.mp heq.symm).1
            (Format.print_ne_nil (hsep _) (hprints _) hu)
  | cons c calls ih =>
      obtain ⟨k, args⟩ := c
      obtain ⟨u, r, hu, hr, rfl⟩ := printCalls_cons h
      cases calls' with
      | nil =>
          exact absurd (List.append_eq_nil_iff.mp (Option.some.inj h').symm).1
            (Format.print_ne_nil (hsep _) (hprints _) hu)
      | cons c' calls' =>
          obtain ⟨k', args'⟩ := c'
          obtain ⟨u', r', hu', hr', heq⟩ := printCalls_cons h'
          rw [List.forall_mem_cons] at hclean hclean'
          by_cases hk : k = k'
          · subst hk
            obtain ⟨v, hv, rfl⟩ := Option.map_eq_some_iff.mp hu
            obtain ⟨v', hv', rfl⟩ := Option.map_eq_some_iff.mp hu'
            rw [List.append_assoc, List.append_assoc] at heq
            obtain ⟨hread, rfl⟩ := printItems_inj (hsep k) hclean.1 hclean'.1 hv hv'
              (List.append_cancel_left heq)
            rw [List.map_cons, List.map_cons, ih hclean.2 hclean'.2 hr hr', showCall, showCall,
              hread]
          · exact absurd heq (Format.print_ne (htells k k' hk) hclean.1 hclean'.1 hu hu' r r')

end

end Base
