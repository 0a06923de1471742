import DceSub.Base.Printf
import DceSub.Wire.Text
import DceSub.Wire.Receiver

/-!
# The log on `stdout`

What each program prints for an accepted packet: a warning if the IP id does not
follow the one before, and a line for the record or for the decoding error.  The
format strings and the order of the arguments are those of the source.  A
`uint32_t` is printed with `%d`, so a quantity from `2 ^ 31` on is printed as a
negative number, and prices are printed with one place behind the point.

`logText_inj` says what the log is good for.  As long as the texts of the
records contain none of the characters of the format, the log of a run determines
the sequence of packets: which ids were accepted and where a warning was due,
also in the programs that do not print the id, and every field of every record,
the prices up to the place that is printed.  `logText_ended_inj` adds the last line
of the raw-socket client, which is no line of a packet.
-/

namespace Wire

open Base

/-! ## Formats -/

/-- The programs, as far as they print differently. -/
inductive Program where
  | efvi
  | rawsock
  | exanic
  | socket
deriving DecidableEq

/-- The lines a program prints. -/
inductive LineKind where
  | warn
  | best
  | deep
  | err
deriving DecidableEq

/-- The warning for an id that does not follow the one before. -/
def warnFormat : String := "<WARN> IP_ID sequence number gap previous/latest: %d/%d \n"

/-- The error for a packet that is not decoded. -/
def errFormat : String := "<ERROR> packet_decode_err: %d\n"

/-- The line for a best quote. -/
def Program.bestFormat : Program → String
  | efvi => "%5d, %s, %12s, best, %d_%.1f x %.1f_%d, %d/%d, %.1f/%d\n"
  | rawsock => "%5d, %s, best, %d_%.1f x %.1f_%d, %d/%d, %.1f/%d\n"
  | exanic => "%s, %8s, best, %d_%.1f x %.1f_%d, %d/%.2f/%d, %.1f/%d\n"
  | socket => "%s, %s, best, %d_%.1f x %.1f_%d, %d/%.2f/%d, %.1f/%d\n"

/-- The line for a depth update. -/
def Program.deepFormat : Program → String
  | efvi => "%5d, %s, %12s, deep, %d_%.1f|%d_%.1f|%d_%.1f|%d_%.1f|%d_%.1f x " ++
      "%.1f_%d|%.1f_%d|%.1f_%d|%.1f_%d|%.1f_%d\n"
  | rawsock => "%5d, %s, deep, %d_%.1f|%d_%.1f|%d_%.1f|%d_%.1f|%d_%.1f x " ++
      "%.1f_%d|%.1f_%d|%.1f_%d|%.1f_%d|%.1f_%d\n"
  | exanic => "%s, %8s, deep, %d_%.1f|%d_%.1f|%d_%.1f|%d_%.1f|%d_%.1f x " ++
      "%.1f_%d|%.1f_%d|%.1f_%d|%.1f_%d|%.1f_%d\n"
  | socket => "%s, %s, deep, %d_%.1f|%d_%.1f|%d_%.1f|%d_%.1f|%d_%.1f x " ++
      "%.1f_%d|%.1f_%d|%.1f_%d|%.1f_%d|%.1f_%d\n"

/-- The format string of a line. -/
def Program.format (p : Program) : LineKind → String
  | .warn => warnFormat
  | .best => p.bestFormat
  | .deep => p.deepFormat
  | .err => errFormat

/-! ## Arguments -/

/-- A `uint32_t` of a record, printed with `%d`. -/
def OutputData.qty (out : OutputData) (off : Nat) : Arg := .int (u32le out.mem off).toInt

/-- A `double` of a record. -/
def OutputData.price (out : OutputData) (off : Nat) : Arg := .double (u64le out.mem off)

/-- The bytes of a string as characters. -/
def charsOf (bs : List UInt8) : Text := bs.map fun b => Char.ofNat b.toNat

/-- What `%s` prints of a record from an offset on. -/
def OutputData.text (out : OutputData) (off : Nat) : Option Text :=
  (cString (out.bytesFrom off)).map charsOf

/-- `last_ip_id`, `contract_id` and `gen_time`, as far as a program prints
them. -/
def Program.headArgs (p : Program) (ipId : BitVec 16) (out : OutputData) : Option (List Arg) :=
  (out.text 0).bind fun contractId =>
    match p with
    | efvi => (out.text 8).map fun genTime => [.int ipId.toNat, .str contractId, .str genTime]
    | rawsock => some [.int ipId.toNat, .str contractId]
    | exanic | socket => (out.text 8).map fun genTime => [.str contractId, .str genTime]

/-- The fields of a `normal_best_quote`: bid and ask, the totals, with the
turnover in two programs, and the last match. -/
def Program.bestArgs (p : Program) (out : OutputData) : List Arg :=
  [out.qty 52, out.price 44, out.price 56, out.qty 64, out.qty 28] ++
    (match p with
    | efvi | rawsock => [out.qty 40]
    | exanic | socket => [out.price 32, out.qty 40]) ++
    [out.price 20, out.qty 68]

/-- The fields of a `normal_depth_update`: the bids from the fifth to the first,
and the asks from the first to the fifth. -/
def deepArgs (out : OutputData) : List Arg :=
  [out.qty 76, out.price 68, out.qty 64, out.price 56, out.qty 52, out.price 44, out.qty 40,
    out.price 32, out.qty 28, out.price 20, out.price 80, out.qty 88, out.price 92, out.qty 100,
    out.price 104, out.qty 112, out.price 116, out.qty 124, out.price 128, out.qty 136]

/-! ## Calls of `printf` -/

/-- A call of `printf`: the line it prints, and the arguments. -/
abbrev PrintCall := LineKind × List Arg

/-- What a call prints. -/
def Program.printCall (p : Program) (call : PrintCall) : Option Text :=
  printf (p.format call.1).toList call.2

/-- The call for a line. -/
def Line.call (p : Program) (ipId : BitVec 16) : Line → Option PrintCall
  | best out => (p.headArgs ipId out).map fun head => (.best, head ++ p.bestArgs out)
  | deep out => (p.headArgs ipId out).map fun head => (.deep, head ++ deepArgs out)
  | packetDecodeErr size => some (.err, [.int size])

/-- The call for a warning, if there is one. -/
def warnCalls (gap : Option (BitVec 16 × BitVec 16)) : List PrintCall :=
  (gap.map fun g => (.warn, [.int g.1.toNat, .int g.2.toNat])).toList

/-- The calls for accepted packets, one after another.  There are none if a text
runs over the end of `output_data`. -/
def logCalls (p : Program) : List Report → Option (List PrintCall)
  | [] => some []
  | r :: rs =>
      (r.line.call p r.ipId).bind fun call =>
        (logCalls p rs).map fun calls => warnCalls r.gap ++ call :: calls

/-- What calls print, one after another. -/
def Program.printAll (p : Program) : List PrintCall → Option Text
  | [] => some []
  | call :: calls => (p.printCall call).bind fun t => (p.printAll calls).map fun u => t ++ u

/-- What is printed for accepted packets. -/
def logText (p : Program) (rs : List Report) : Option Text := (logCalls p rs).bind p.printAll

/-- What is printed depends on the decisions and the lines only. -/
theorem logText_congr (p : Program) {rs rs' : List Report}
    (h : (rs.map fun r => (r.decision, r.line)) = rs'.map fun r => (r.decision, r.line)) :
    logText p rs = logText p rs' := by
  have hcalls : logCalls p rs = logCalls p rs' := by
    induction rs generalizing rs' with
    | nil => rw [List.map_eq_nil_iff.mp h.symm]
    | cons r rs ih =>
        cases rs' with
        | nil => cases h
        | cons r' rs' =>
            obtain ⟨hhead, htail⟩ := List.cons.inj h
            obtain ⟨hdec, hline⟩ := Prod.mk.inj hhead
            have hid : r.ipId = r'.ipId := congrArg Decision.ipId hdec
            have hgap : r.gap = r'.gap := congrArg Decision.gap hdec
            rw [logCalls, logCalls, hline, hid, hgap, ih htail]
  rw [logText, logText, hcalls]

/-! ## The formats taken apart -/

/-- The characters that the texts of a record must not contain: the one behind
each text in the formats, and the one that warnings and errors start with. -/
def logSeps : List Char := [',', '<']

/-- The conversions in front of the fields of a record, and the text before the
fields. -/
def Program.headItems (tag : Text) : Program → List (Conv × Text)
  | efvi => [(.int 5, [',', ' ']), (.str 0, [',', ' ']), (.str 12, tag)]
  | rawsock => [(.int 5, [',', ' ']), (.str 0, tag)]
  | exanic => [(.str 0, [',', ' ']), (.str 8, tag)]
  | socket => [(.str 0, [',', ' ']), (.str 0, tag)]

/-- The conversions of a best quote. -/
def Program.bestItems (p : Program) : List (Conv × Text) :=
  [(.int 0, ['_']), (.double 1, [' ', 'x', ' ']), (.double 1, ['_']), (.int 0, [',', ' ']),
      (.int 0, ['/'])] ++
    (match p with
    | efvi | rawsock => []
    | exanic | socket => [(.double 2, ['/'])]) ++
    [(.int 0, [',', ' ']), (.double 1, ['/']), (.int 0, ['\n'])]

/-- The conversions of a depth update. -/
def deepItems : List (Conv × Text) :=
  [(.int 0, ['_']), (.double 1, ['|']), (.int 0, ['_']), (.double 1, ['|']), (.int 0, ['_']),
    (.double 1, ['|']), (.int 0, ['_']), (.double 1, ['|']), (.int 0, ['_']),
    (.double 1, [' ', 'x', ' ']), (.double 1, ['_']), (.int 0, ['|']), (.double 1, ['_']),
    (.int 0, ['|']), (.double 1, ['_']), (.int 0, ['|']), (.double 1, ['_']), (.int 0, ['|']),
    (.double 1, ['_']), (.int 0, ['\n'])]

/-- The format of a line, taken apart. -/
def Program.fmt (p : Program) : LineKind → Format
  | .warn => ⟨'<' :: 'W' :: "ARN> IP_ID sequence number gap previous/latest: ".toList,
      [(.int 0, ['/']), (.int 0, [' ', '\n'])]⟩
  | .err => ⟨'<' :: 'E' :: "RROR> packet_decode_err: ".toList, [(.int 0, ['\n'])]⟩
  | .best => ⟨[], p.headItems [',', ' ', 'b', 'e', 's', 't', ',', ' '] ++ p.bestItems⟩
  | .deep => ⟨[], p.headItems [',', ' ', 'd', 'e', 'e', 'p', ',', ' '] ++ deepItems⟩

theorem parseFormat_warnFormat :
    parseFormat warnFormat.toList = some (Program.efvi.fmt .warn) := by decide +kernel

theorem parseFormat_errFormat :
    parseFormat errFormat.toList = some (Program.efvi.fmt .err) := by decide +kernel

theorem Program.parseFormat_format (p : Program) (k : LineKind) :
    parseFormat (p.format k).toList = some (p.fmt k) := by
  cases k with
  | warn => exact parseFormat_warnFormat
  | best => cases p <;> decide +kernel
  | deep => cases p <;> decide +kernel
  | err => exact parseFormat_errFormat

theorem Program.printCall_eq (p : Program) (call : PrintCall) :
    p.printCall call = (p.fmt call.1).print call.2 := by
  rw [Program.printCall, printf, p.parseFormat_format]
  rfl

theorem Program.printAll_eq (p : Program) (calls : List PrintCall) :
    p.printAll calls = printCalls p.fmt calls := by
  induction calls with
  | nil => rfl
  | cons call calls ih =>
      obtain ⟨k, args⟩ := call
      rw [Program.printAll, printCalls, ih, p.printCall_eq]

theorem Program.fmt_separated (p : Program) (k : LineKind) :
    Separated logSeps (p.fmt k).items ∧ (p.fmt k).Prints := by
  cases p <;> cases k <;> decide +kernel

theorem Program.fmt_tells (p : Program) {k k' : LineKind} (h : k ≠ k') :
    (p.fmt k).tells logSeps (p.fmt k') = true := by
  have hall : ∀ p k k', k ≠ k' → (Program.fmt p k).tells logSeps (p.fmt k') = true := by
    intro p k k'
    cases p <;> cases k <;> cases k' <;> decide +kernel
  exact hall p k k' h

/-! ## There is a log -/

theorem logCalls_cons {p : Program} {r : Report} {rs : List Report} {calls : List PrintCall}
    (h : logCalls p (r :: rs) = some calls) :
    ∃ call rest, r.line.call p r.ipId = some call ∧ logCalls p rs = some rest ∧
      calls = warnCalls r.gap ++ call :: rest := by
  obtain ⟨call, hcall, h⟩ := Option.bind_eq_some_iff.mp h
  obtain ⟨rest, hrest, rfl⟩ := Option.map_eq_some_iff.mp h
  exact ⟨call, rest, hcall, hrest, rfl⟩

theorem Program.headArgs_isSome {p : Program} {ipId : BitVec 16} {out : OutputData}
    (h : ∀ off ∈ [0, 8], (cString (out.bytesFrom off)).isSome) :
    (p.headArgs ipId out).isSome := by
  obtain ⟨cid, hcid⟩ := Option.isSome_iff_exists.mp (h 0 (by decide))
  obtain ⟨time, htime⟩ := Option.isSome_iff_exists.mp (h 8 (by decide))
  cases p <;> simp [Program.headArgs, OutputData.text, hcid, htime]

theorem Line.call_isSome {p : Program} {line : Line} (ipId : BitVec 16)
    (h : ∀ out ∈ line.record, ∀ off ∈ [0, 8], (cString (out.bytesFrom off)).isSome) :
    (line.call p ipId).isSome := by
  cases line with
  | best out =>
      rw [Line.call, Option.isSome_map]
      exact Program.headArgs_isSome (h out rfl)
  | deep out =>
      rw [Line.call, Option.isSome_map]
      exact Program.headArgs_isSome (h out rfl)
  | packetDecodeErr size => rfl

/-- The arguments of a call are those its format asks for. -/
theorem Line.call_prints {p : Program} {line : Line} {ipId : BitVec 16} {call : PrintCall}
    (h : line.call p ipId = some call) : (p.printCall call).isSome := by
  rw [p.printCall_eq]
  cases line with
  | best out =>
      obtain ⟨head, hhead, rfl⟩ := Option.map_eq_some_iff.mp h
      obtain ⟨cid, -, hhead⟩ := Option.bind_eq_some_iff.mp hhead
      cases p with
      | rawsock =>
          cases hhead
          rfl
      | efvi | exanic | socket =>
          obtain ⟨time, -, rfl⟩ := Option.map_eq_some_iff.mp hhead
          rfl
  | deep out =>
      obtain ⟨head, hhead, rfl⟩ := Option.map_eq_some_iff.mp h
      obtain ⟨cid, -, hhead⟩ := Option.bind_eq_some_iff.mp hhead
      cases p with
      | rawsock =>
          cases hhead
          rfl
      | efvi | exanic | socket =>
          obtain ⟨time, -, rfl⟩ := Option.map_eq_some_iff.mp hhead
          rfl
  | packetDecodeErr size =>
      cases h
      rfl

theorem Program.printAll_isSome {p : Program} {calls : List PrintCall}
    (h : ∀ c ∈ calls, (p.printCall c).isSome) : (p.printAll calls).isSome := by
  induction calls with
  | nil => rfl
  | cons c calls ih =>
      rw [List.forall_mem_cons] at h
      obtain ⟨t, ht⟩ := Option.isSome_iff_exists.mp h.1
      rw [Program.printAll, ht, Option.bind_some, Option.isSome_map]
      exact ih h.2

/-- Records whose texts end within `output_data` are printed. -/
theorem logText_isSome {p : Program} {rs : List Report}
    (h : ∀ r ∈ rs, ∀ out ∈ r.line.record, ∀ off ∈ [0, 8], (cString (out.bytesFrom off)).isSome) :
    (logText p rs).isSome := by
  have hcalls : ∃ calls, logCalls p rs = some calls ∧ ∀ c ∈ calls, (p.printCall c).isSome := by
    induction rs with
    | nil => exact ⟨[], rfl, by simp⟩
    | cons r rs ih =>
        rw [List.forall_mem_cons] at h
        obtain ⟨calls, hcalls, hprint⟩ := ih h.2
        obtain ⟨call, hcall⟩ := Option.isSome_iff_exists.mp (Line.call_isSome r.ipId h.1)
        refine ⟨warnCalls r.gap ++ call :: calls, by rw [logCalls, hcall, hcalls]; rfl, ?_⟩
        rw [List.forall_mem_append, List.forall_mem_cons]
        refine ⟨?_, Line.call_prints hcall, hprint⟩
        intro c hc
        rw [warnCalls, Option.mem_toList] at hc
        obtain ⟨g, -, rfl⟩ := Option.map_eq_some_iff.mp hc
        rw [p.printCall_eq]
        rfl
  obtain ⟨calls, hcalls, hprint⟩ := hcalls
  rw [logText, hcalls]
  exact Program.printAll_isSome hprint

/-! ## The fields of a line -/

/-- The texts that a call prints in the place of its conversions. -/
def Program.fields (p : Program) (call : PrintCall) : List Text := (p.fmt call.1).fields call.2

/-- The number of the fields in front of those of the record. -/
def Program.headFields : Program → Nat
  | efvi => 3
  | rawsock | exanic | socket => 2

/-- The line for a record. -/
def Kind.line : Kind → LineKind
  | .bestQuote => .best
  | .depthUpdate => .deep

/-- The arguments for the fields of a record. -/
def Program.recordArgs (p : Program) : Kind → OutputData → List Arg
  | .bestQuote => p.bestArgs
  | .depthUpdate => deepArgs

/-- A line is made of its fields. -/
theorem Line.printCall_fill {p : Program} {line : Line} {ipId : BitVec 16} {call : PrintCall}
    (h : line.call p ipId = some call) :
    p.printCall call = some ((p.fmt call.1).fill (p.fields call)) := by
  have hprints := Line.call_prints h
  rw [p.printCall_eq] at hprints ⊢
  exact Format.print_fill hprints

/-- The call for a record. -/
theorem call_printRecord {p : Program} {k : Kind} {out : OutputData} {size : Int}
    {ipId : BitVec 16} {call : PrintCall}
    (h : (printRecord k.code out size).1.call p ipId = some call) :
    ∃ head, p.headArgs ipId (capPrices k.prices out) = some head ∧
      call = (k.line, head ++ p.recordArgs k (capPrices k.prices out)) := by
  have hline : (printRecord k.code out size).1.call p ipId =
      (p.headArgs ipId (capPrices k.prices out)).map fun head =>
        (k.line, head ++ p.recordArgs k (capPrices k.prices out)) := by
    cases k <;> rfl
  rw [hline] at h
  obtain ⟨head, hhead, rfl⟩ := Option.map_eq_some_iff.mp h
  exact ⟨head, hhead, rfl⟩

theorem Program.headArgs_length {p : Program} {ipId : BitVec 16} {out : OutputData}
    {head : List Arg} (h : p.headArgs ipId out = some head) : head.length = p.headFields := by
  obtain ⟨cid, -, h⟩ := Option.bind_eq_some_iff.mp h
  cases p with
  | rawsock =>
      cases h
      rfl
  | efvi | exanic | socket =>
      obtain ⟨time, -, rfl⟩ := Option.map_eq_some_iff.mp h
      rfl

/-! ### The texts of a record -/

/-- The program of a printer. -/
def Printer.program : Printer → Program
  | efvi => .efvi
  | exanic => .exanic
  | socket => .socket

/-- The field of `contract_id`.  The one of `gen_time` is behind it. -/
def Printer.textField : Printer → Nat
  | efvi => 1
  | exanic | socket => 0

theorem charsOf_injective : Function.Injective charsOf := by
  have hchar : ∀ b : UInt8, (Char.ofNat b.toNat).toNat = b.toNat := by
    intro b
    have hb := b.toNat_lt
    rw [Char.ofNat, dif_pos (.inl (by omega))]
    rfl
  refine List.map_injective_iff.mpr fun b b' h => ?_
  have hval := congrArg Char.toNat h
  rw [hchar, hchar] at hval
  exact UInt8.toNat_inj.mp hval

theorem charsOf_padLeft (width : Nat) (bs : List UInt8) :
    charsOf (padLeft 0x20 width bs) = padLeft ' ' width (charsOf bs) :=
  map_padLeft (fun b : UInt8 => Char.ofNat b.toNat) 0x20 width bs

/-- The widths of a printer are those of its formats: the line for a record has
the two texts, padded, in two of its fields. -/
theorem Printer.fields_texts (c : Printer) {k : Kind} {out : OutputData} {size : Int}
    {ipId : BitVec 16} {call : PrintCall}
    (h : (printRecord k.code out size).1.call c.program ipId = some call) :
    (c.program.fields call)[c.textField]? =
        (c.contractId (capPrices k.prices out)).map charsOf ∧
      (c.program.fields call)[c.textField + 1]? =
        (c.genTime (capPrices k.prices out)).map charsOf := by
  obtain ⟨head, hhead, rfl⟩ := call_printRecord h
  obtain ⟨cid, hcid, hhead⟩ := Option.bind_eq_some_iff.mp hhead
  obtain ⟨cidBytes, hcidBytes, rfl⟩ := Option.map_eq_some_iff.mp hcid
  rw [Printer.contractId, Printer.genTime, hcidBytes]
  cases c with
  | efvi | exanic | socket =>
      obtain ⟨time, htime, rfl⟩ := Option.map_eq_some_iff.mp hhead
      obtain ⟨timeBytes, htimeBytes, rfl⟩ := Option.map_eq_some_iff.mp htime
      rw [htimeBytes]
      simp only [Option.map_some, charsOf_padLeft]
      cases k <;> exact ⟨rfl, rfl⟩

/-- In the line on `stdout` the texts of a record are those of its fields exactly
if they end where their fields do. -/
theorem Printer.fields_exact_iff (c : Printer) {k : Kind} {out : OutputData} {size : Int}
    {ipId : BitVec 16} {call : PrintCall}
    (h : (printRecord k.code out size).1.call c.program ipId = some call) :
    (c.program.fields call)[c.textField]? = some (padLeft ' ' c.contractIdWidth
          (charsOf (fieldText 8 ((capPrices k.prices out).bytesFrom 0)))) ∧
        (c.program.fields call)[c.textField + 1]? = some (padLeft ' ' c.genTimeWidth
          (charsOf (fieldText 12 ((capPrices k.prices out).bytesFrom 8)))) ↔
      TextsEnd out := by
  have hinj : ∀ (t : Option (List UInt8)) bs, t.map charsOf = some (charsOf bs) ↔ t = some bs :=
    fun t bs => (Option.map_injective charsOf_injective).eq_iff (b := some bs)
  obtain ⟨hcid, htime⟩ := c.fields_texts h
  rw [hcid, htime, ← charsOf_padLeft, ← charsOf_padLeft, hinj, hinj, TextsEnd,
    ← printedContractId_iff (k := k) c, ← printedGenTime_iff (k := k) c]

/-! ## Reading the log -/

/-- The texts of a record, as they are printed, contain none of the characters of
the formats. -/
def Line.Clean (line : Line) : Prop :=
  ∀ out ∈ line.record, ∀ off ∈ [0, 8], ∀ t ∈ out.text off, (Arg.str t).Clean logSeps

/-- The texts of the sample contain neither a comma nor `<`, also where the price
is printed as part of the time. -/
theorem fullTime_clean (size : Int) : (printRecord bestQuoteMsg fullTime size).1.Clean := by
  have htexts : ((capPrices bestPrices fullTime).text 0 = some "m2409".toList) ∧
      (capPrices bestPrices fullTime).text 8 = some "09:30:00.50033333X«@".toList := by
    decide +kernel
  have hclean : (Arg.str "m2409".toList).Clean logSeps ∧
      (Arg.str "09:30:00.50033333X«@".toList).Clean logSeps := by
    simp [Arg.Clean, logSeps]
  have hrecord := printRecord_record .bestQuote fullTime size
  intro out hout off hoff t ht
  obtain rfl : capPrices bestPrices fullTime = out := Option.some.inj (hrecord.symm.trans hout)
  rcases List.mem_cons.mp hoff with rfl | hoff
  · obtain rfl := Option.some.inj (htexts.1.symm.trans ht)
    exact hclean.1
  · obtain rfl := List.mem_singleton.mp hoff
    obtain rfl := Option.some.inj (htexts.2.symm.trans ht)
    exact hclean.2

/-- What the log is to tell of an accepted packet: the id, the warning, and what
the line shows of its arguments. -/
structure Entry where
  decision : Decision
  shown : Option (LineKind × List (Option Reading))
deriving DecidableEq

/-- The entry of an accepted packet. -/
def Report.entry (p : Program) (r : Report) : Entry :=
  ⟨r.decision, (r.line.call p r.ipId).map (showCall p.fmt)⟩

/-- Decisions one after another: each warning is due to the id before. -/
def Chained : BitVec 16 → List Decision → Prop
  | _, [] => True
  | prev, d :: ds => d.gap = gapWarning prev d.ipId ∧ Chained d.ipId ds

variable {p : Program}

theorem Arg.clean_qty (out : OutputData) (off : Nat) : (out.qty off).Clean logSeps := trivial

theorem Arg.clean_price (out : OutputData) (off : Nat) : (out.price off).Clean logSeps := trivial

theorem Program.headArgs_clean {ipId : BitVec 16} {out : OutputData} {head : List Arg}
    (hclean : ∀ off ∈ [0, 8], ∀ t ∈ out.text off, (Arg.str t).Clean logSeps)
    (h : p.headArgs ipId out = some head) : ∀ a ∈ head, a.Clean logSeps := by
  obtain ⟨cid, hcid, h⟩ := Option.bind_eq_some_iff.mp h
  have hcid := hclean 0 (by decide) cid hcid
  have hid : (Arg.int ipId.toNat).Clean logSeps := trivial
  have htime := hclean 8 (by decide)
  cases p with
  | efvi =>
      obtain ⟨time, ht, rfl⟩ := Option.map_eq_some_iff.mp h
      simpa using ⟨hid, hcid, htime time ht⟩
  | rawsock =>
      cases h
      simpa using ⟨hid, hcid⟩
  | exanic =>
      obtain ⟨time, ht, rfl⟩ := Option.map_eq_some_iff.mp h
      simpa using ⟨hcid, htime time ht⟩
  | socket =>
      obtain ⟨time, ht, rfl⟩ := Option.map_eq_some_iff.mp h
      simpa using ⟨hcid, htime time ht⟩

theorem Program.bestArgs_clean (out : OutputData) : ∀ a ∈ p.bestArgs out, a.Clean logSeps := by
  cases p <;> simp [Program.bestArgs, Arg.clean_qty, Arg.clean_price]

theorem deepArgs_clean (out : OutputData) : ∀ a ∈ deepArgs out, a.Clean logSeps := by
  simp [deepArgs, Arg.clean_qty, Arg.clean_price]

/-- A clean line is printed with clean arguments, and is not a warning. -/
theorem Line.call_clean {line : Line} (hclean : line.Clean) {ipId : BitVec 16} {call : PrintCall}
    (h : line.call p ipId = some call) :
    (∀ a ∈ call.2, a.Clean logSeps) ∧ call.1 ≠ .warn := by
  cases line with
  | best out =>
      obtain ⟨head, hhead, rfl⟩ := Option.map_eq_some_iff.mp h
      refine ⟨?_, by simp⟩
      rw [List.forall_mem_append]
      exact ⟨Program.headArgs_clean (hclean out rfl) hhead, Program.bestArgs_clean out⟩
  | deep out =>
      obtain ⟨head, hhead, rfl⟩ := Option.map_eq_some_iff.mp h
      refine ⟨?_, by simp⟩
      rw [List.forall_mem_append]
      exact ⟨Program.headArgs_clean (hclean out rfl) hhead, deepArgs_clean out⟩
  | packetDecodeErr size =>
      cases h
      exact ⟨by simp [Arg.Clean], by simp⟩

theorem logCalls_clean {rs : List Report} (hclean : ∀ r ∈ rs, r.line.Clean)
    {calls : List PrintCall} (h : logCalls p rs = some calls) :
    ∀ c ∈ calls, ∀ a ∈ c.2, a.Clean logSeps := by
  induction rs generalizing calls with
  | nil =>
      cases h
      simp
  | cons r rs ih =>
      obtain ⟨call, rest, hcall, hrest, rfl⟩ := logCalls_cons h
      rw [List.forall_mem_cons] at hclean
      rw [List.forall_mem_append, List.forall_mem_cons]
      refine ⟨?_, (Line.call_clean hclean.1 hcall).1, ih hclean.2 hrest⟩
      cases r.gap with
      | none => simp [warnCalls]
      | some g => simp [warnCalls, Arg.Clean]

/-- The first line of a log is a warning if there is one, and the line of the
packet is behind it. -/
theorem warnCalls_inj {gap gap' : Option (BitVec 16 × BitVec 16)} {call call' : PrintCall}
    (hcall : call.1 ≠ .warn) (hcall' : call'.1 ≠ .warn)
    {rest rest' : List (LineKind × List (Option Reading))}
    (h : (warnCalls gap).map (showCall p.fmt) ++ showCall p.fmt call :: rest =
      (warnCalls gap').map (showCall p.fmt) ++ showCall p.fmt call' :: rest') :
    gap = gap' ∧ showCall p.fmt call = showCall p.fmt call' ∧ rest = rest' := by
  cases gap with
  | none =>
      cases gap' with
      | none =>
          obtain ⟨hshow, hrest⟩ := List.cons.inj h
          exact ⟨rfl, hshow, hrest⟩
      | some g' => exact absurd (congrArg Prod.fst (List.cons.inj h).1) hcall
  | some g =>
      cases gap' with
      | none => exact absurd (congrArg Prod.fst (List.cons.inj h).1).symm hcall'
      | some g' =>
          obtain ⟨hwarn, h⟩ := List.cons.inj h
          obtain ⟨hshow, hrest⟩ := List.cons.inj h
          have hread : [some (Reading.int g.1.toNat), some (Reading.int g.2.toNat)] =
              [some (Reading.int g'.1.toNat), some (Reading.int g'.2.toNat)] :=
            congrArg Prod.snd hwarn
          simp only [List.cons.injEq, Option.some.injEq, Reading.int.injEq, Int.natCast_inj,
            and_true] at hread
          have hg : g = g' :=
            Prod.ext (BitVec.eq_of_toNat_eq hread.1) (BitVec.eq_of_toNat_eq hread.2)
          exact ⟨congrArg some hg, hshow, hrest⟩

/-- The id that follows another is known from the warning. -/
theorem gapWarning_inj {prev id id' : BitVec 16} (h : gapWarning prev id = gapWarning prev id') :
    id = id' := by
  unfold gapWarning at h
  split at h <;> split at h
  next => exact (Prod.mk.inj (Option.some.inj h)).2
  next => cases h
  next => cases h
  next hid hid' => exact (not_not.mp hid).symm.trans (not_not.mp hid')

theorem entries_of_shown {prev : BitVec 16} {rs rs' : List Report}
    (hchain : Chained prev (rs.map fun r => r.decision))
    (hchain' : Chained prev (rs'.map fun r => r.decision)) (hclean : ∀ r ∈ rs, r.line.Clean)
    (hclean' : ∀ r ∈ rs', r.line.Clean) {calls calls' : List PrintCall}
    (h : logCalls p rs = some calls) (h' : logCalls p rs' = some calls')
    (hshow : calls.map (showCall p.fmt) = calls'.map (showCall p.fmt)) :
    rs.map (Report.entry p) = rs'.map (Report.entry p) := by
  induction rs generalizing prev rs' calls calls' with
  | nil =>
      cases h
      cases rs' with
      | nil => rfl
      | cons r' rs' =>
          obtain ⟨call', rest', -, -, rfl⟩ := logCalls_cons h'
          simp at hshow
  | cons r rs ih =>
      obtain ⟨call, rest, hcall, hrest, rfl⟩ := logCalls_cons h
      cases rs' with
      | nil =>
          cases h'
          simp at hshow
      | cons r' rs' =>
          obtain ⟨call', rest', hcall', hrest', rfl⟩ := logCalls_cons h'
          rw [List.forall_mem_cons] at hclean hclean'
          rw [List.map_append, List.map_append, List.map_cons, List.map_cons] at hshow
          obtain ⟨hgap, hline, hshow⟩ := warnCalls_inj (Line.call_clean hclean.1 hcall).2
            (Line.call_clean hclean'.1 hcall').2 hshow
          have hid : r.ipId = r'.ipId :=
            gapWarning_inj ((hchain.1.symm.trans hgap).trans hchain'.1)
          have hdec : r.decision = r'.decision := by
            rw [Accepted.decision, Accepted.decision, hid, hgap]
          have hentry : r.entry p = r'.entry p := by
            rw [Report.entry, Report.entry, hcall, hcall', Option.map_some, Option.map_some, hline,
              hdec]
          rw [List.map_cons] at hchain hchain'
          rw [List.map_cons, List.map_cons, hentry,
            ih hchain.2 (hdec ▸ hchain'.2) hclean.2 hclean'.2 hrest hrest' hshow]

/-- The formats of a program can be read back. -/
theorem Program.printCalls_shown {calls calls' : List PrintCall}
    (hclean : ∀ c ∈ calls, ∀ a ∈ c.2, a.Clean logSeps)
    (hclean' : ∀ c ∈ calls', ∀ a ∈ c.2, a.Clean logSeps) {t : Text}
    (h : printCalls p.fmt calls = some t) (h' : printCalls p.fmt calls' = some t) :
    calls.map (showCall p.fmt) = calls'.map (showCall p.fmt) :=
  printCalls_inj (fun k => (p.fmt_separated k).1) (fun k => (p.fmt_separated k).2)
    (fun _ _ hk => p.fmt_tells hk) hclean hclean' h h'

/-- The log determines the packets, as far as it shows them. -/
theorem logText_inj {prev : BitVec 16} {rs rs' : List Report}
    (hchain : Chained prev (rs.map fun r => r.decision))
    (hchain' : Chained prev (rs'.map fun r => r.decision)) (hclean : ∀ r ∈ rs, r.line.Clean)
    (hclean' : ∀ r ∈ rs', r.line.Clean) {t : Text} (h : logText p rs = some t)
    (h' : logText p rs' = some t) : rs.map (Report.entry p) = rs'.map (Report.entry p) := by
  obtain ⟨calls, hcalls, h⟩ := Option.bind_eq_some_iff.mp h
  obtain ⟨calls', hcalls', h'⟩ := Option.bind_eq_some_iff.mp h'
  rw [p.printAll_eq] at h h'
  refine entries_of_shown hchain hchain' hclean hclean' hcalls hcalls' ?_
  exact Program.printCalls_shown (logCalls_clean hclean hcalls) (logCalls_clean hclean' hcalls') h
    h'

/-! ## The end of a log -/

/-- What the raw-socket client prints when it has left its loop, because `recv`
has failed. -/
def ending (ended : Bool) : Text := if ended then "recv error!\n".toList else []

/-- The formats of the raw-socket client, with that one. -/
def endedFmt : Option LineKind → Format
  | some k => Program.rawsock.fmt k
  | none => ⟨['r', 'e', 'c', 'v', ' ', 'e', 'r', 'r', 'o', 'r', '!', '\n'], []⟩

/-- The calls of a log and of its end. -/
def endedCalls (calls : List PrintCall) (ended : Bool) : List (Option LineKind × List Arg) :=
  calls.map (Prod.map some id) ++ if ended then [(none, [])] else []

theorem endedFmt_separated (k : Option LineKind) :
    Separated logSeps (endedFmt k).items ∧ (endedFmt k).Prints := by
  cases k with
  | none => decide
  | some k => exact Program.fmt_separated .rawsock k

theorem endedFmt_tells {k k' : Option LineKind} (h : k ≠ k') :
    (endedFmt k).tells logSeps (endedFmt k') = true := by
  cases k with
  | none =>
      cases k' with
      | none => exact absurd rfl h
      | some k' => cases k' <;> decide +kernel
  | some k =>
      cases k' with
      | none => cases k <;> decide +kernel
      | some k' => exact Program.fmt_tells .rawsock fun hk => h (congrArg some hk)

theorem printCalls_ended {calls : List PrintCall} {t : Text}
    (h : printCalls Program.rawsock.fmt calls = some t) (ended : Bool) :
    printCalls endedFmt (endedCalls calls ended) = some (t ++ ending ended) := by
  induction calls generalizing t with
  | nil =>
      cases h
      cases ended <;> decide
  | cons c calls ih =>
      obtain ⟨k, args⟩ := c
      obtain ⟨u, r, hu, hr, rfl⟩ := printCalls_cons h
      have hrest := ih hr
      rw [endedCalls] at hrest
      have hu' : (endedFmt (some k)).print args = some u := hu
      rw [endedCalls, List.map_cons, List.cons_append, Prod.map_apply, id, printCalls, hu', hrest,
        Option.bind_some, Option.map_some, List.append_assoc]

theorem endedCalls_clean {calls : List PrintCall} (h : ∀ c ∈ calls, ∀ a ∈ c.2, a.Clean logSeps)
    (ended : Bool) : ∀ c ∈ endedCalls calls ended, ∀ a ∈ c.2, a.Clean logSeps := by
  rw [endedCalls, List.forall_mem_append, List.forall_mem_map]
  refine ⟨h, ?_⟩
  cases ended <;> simp

/-- What is shown of a log and its end. -/
theorem map_showCall_ended (calls : List PrintCall) (ended : Bool) :
    (endedCalls calls ended).map (showCall endedFmt) =
      (calls.map (showCall Program.rawsock.fmt)).map (Prod.map some id) ++
        if ended then [(none, [])] else [] := by
  rw [endedCalls, List.map_append, List.map_map, List.map_map]
  cases ended <;> rfl

/-- No line of a log is its end. -/
theorem ended_inj {α β : Type} {xs ys : List (α × List β)} {ended ended' : Bool}
    (h : xs.map (Prod.map some id) ++ (if ended then [(none, [])] else []) =
      ys.map (Prod.map some id) ++ if ended' then [(none, [])] else []) :
    xs = ys ∧ ended = ended' := by
  have hinj : Function.Injective (Prod.map (some : α → Option α) (id : List β → List β)) :=
    (Option.some_injective α).prodMap Function.injective_id
  have hmem : ∀ (zs : List (α × List β)) (e : Bool),
      (none, []) ∈ zs.map (Prod.map some id) ++ (if e then [(none, [])] else []) ↔ e = true := by
    intro zs e
    cases e <;> simp
  have hended : ended = ended' := by
    rw [Bool.eq_iff_iff, ← hmem xs ended, h, hmem]
  subst hended
  exact ⟨List.map_injective_iff.mpr hinj (List.append_cancel_right h), rfl⟩

/-- The log with its end determines the packets, and whether `recv` has failed. -/
theorem logText_ended_inj {prev : BitVec 16} {rs rs' : List Report} {ended ended' : Bool}
    (hchain : Chained prev (rs.map fun r => r.decision))
    (hchain' : Chained prev (rs'.map fun r => r.decision)) (hclean : ∀ r ∈ rs, r.line.Clean)
    (hclean' : ∀ r ∈ rs', r.line.Clean) {t t' : Text} (h : logText .rawsock rs = some t)
    (h' : logText .rawsock rs' = some t') (heq : t ++ ending ended = t' ++ ending ended') :
    rs.map (Report.entry .rawsock) = rs'.map (Report.entry .rawsock) ∧ ended = ended' := by
  obtain ⟨calls, hcalls, h⟩ := Option.bind_eq_some_iff.mp h
  obtain ⟨calls', hcalls', h'⟩ := Option.bind_eq_some_iff.mp h'
  rw [Program.printAll_eq] at h h'
  have hprint := printCalls_ended h ended
  rw [heq] at hprint
  have hshow := printCalls_inj (fun k => (endedFmt_separated k).1)
    (fun k => (endedFmt_separated k).2) (fun _ _ hk => endedFmt_tells hk)
    (endedCalls_clean (logCalls_clean hclean hcalls) ended)
    (endedCalls_clean (logCalls_clean hclean' hcalls') ended') hprint (printCalls_ended h' ended')
  rw [map_showCall_ended, map_showCall_ended] at hshow
  obtain ⟨hshow, hended⟩ := ended_inj hshow
  exact ⟨entries_of_shown hchain hchain' hclean hclean' hcalls hcalls' hshow, hended⟩

/-! ## Logs of runs -/

theorem chained_judge (vs : List (Option (BitVec 16))) (prev : BitVec 16) :
    Chained prev (run judge prev vs).1.reduceOption := by
  induction vs generalizing prev with
  | nil => trivial
  | cons v vs ih =>
      rw [run_cons (judge_stop prev v)]
      cases v with
      | none => exact ih prev
      | some id => exact ⟨rfl, ih id⟩

theorem map_ipId_judge (vs : List (Option (BitVec 16))) (prev : BitVec 16) :
    (run judge prev vs).1.reduceOption.map Decision.ipId = vs.reduceOption := by
  induction vs generalizing prev with
  | nil => rfl
  | cons v vs ih =>
      rw [run_cons (judge_stop prev v)]
      cases v with
      | none => exact ih prev
      | some id => exact congrArg (id :: ·) (ih id)

/-- The reports of a run are those of the receiver. -/
theorem Implements.map_decision {σ ι : Type} {body : σ → ι → Pass σ Report}
    {prevIpId : σ → BitVec 16} {frame : ι → List UInt8} {v : List UInt8 → Option (BitVec 16)}
    (h : Implements body prevIpId frame v) (is : List ι) (s : σ) :
    ((run body s is).1.reduceOption.map fun r => r.decision) =
      (run judge (prevIpId s) (is.map fun i => v (frame i))).1.reduceOption := by
  rw [← h.decisions_eq is s, decisions, List.reduceOption_map]

end Wire
