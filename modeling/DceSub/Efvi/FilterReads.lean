import DceSub.Efvi.FilterText

/-!
# Every filter string

What `filter_parse` does with a string that nobody has written down as a
`FilterText`.  Either it does what some valid `FilterText` means, for every
library, or it ends in `-EINVAL` or in a call that fails, or it is a `udp` or `tcp`
string in which a host is missing beside a comma (`NullHosts`).  Such a string gives
the resolver a null pointer, unless a call before that fails
(`filterParse_meaning`).
-/

namespace Efvi

open Base

/-- A way to treat a string does what some valid text means, or it fails. -/
def Reads (parse : FilterLib → Bool → Outcome Parsed) : Prop :=
  (∃ t : FilterText, t.Valid ∧ ∀ lib saMcast, parse lib saMcast = t.perform lib saMcast) ∨
    ∀ lib saMcast, parse lib saMcast = .abort ∨ ∃ fs, parse lib saMcast = .done (.bad fs)

theorem trySet_cases (lib : FilterLib) (fs : FilterSpec) (call : FilterCall) :
    lib.trySet fs call = .abort ∨ ∃ fs', lib.trySet fs call = .done fs' := by
  rw [FilterLib.trySet]
  split
  · exact .inl rfl
  · exact .inr ⟨_, rfl⟩

theorem setAll_cases (lib : FilterLib) (fs : FilterSpec) (calls : List FilterCall) :
    lib.setAll fs calls = .abort ∨ ∃ fs', lib.setAll fs calls = .done fs' := by
  induction calls generalizing fs with
  | nil => exact .inr ⟨fs, rfl⟩
  | cons call calls ih =>
      rw [setAll_cons]
      obtain h | ⟨fs', h⟩ := trySet_cases lib fs call
      · exact .inl (by rw [h, Outcome.abort_bind])
      · rw [h, Outcome.done_bind]
        exact ih fs'

namespace Reads

theorem bad (fs : FilterSpec) : Reads fun _ _ => .done (.bad fs) :=
  .inr fun _ _ => .inr ⟨fs, rfl⟩

/-- Failing after some setters. -/
theorem setBad (fs : FilterSpec) (calls : List FilterCall) :
    Reads fun lib _ => lib.setAll fs calls >>= fun fs => .done (.bad fs) := by
  refine .inr fun lib saMcast => ?_
  obtain h | ⟨fs', h⟩ := setAll_cases lib fs calls
  · exact .inl (by simp only [h, Outcome.abort_bind])
  · exact .inr ⟨fs', by simp only [h, Outcome.done_bind]⟩

theorem ite {c : Prop} [Decidable c] {p q : FilterLib → Bool → Outcome Parsed}
    (hp : c → Reads p) (hq : ¬ c → Reads q) :
    Reads fun lib saMcast => if c then p lib saMcast else q lib saMcast := by
  by_cases hc : c
  · simpa only [if_pos hc] using hp hc
  · simpa only [if_neg hc] using hq hc

end Reads

/-! ## Parameters and octets -/

section Parameter

variable {name rest : Text}

theorem isInt_atoi (s : Text) : IsInt (atoi s) := toInt32_range _

theorem ne_nil_of_strtok {s : Text} (h : (strtok [] s).1 = some rest) : rest ≠ [] := by
  rw [strtok_nil] at h
  split at h
  next => cases h
  next hs =>
    cases h
    exact hs

/-- What becomes of a parameter: nothing is left behind it, or it has a value and
something behind it. -/
theorem consumeParameter_cases (hname : ParamName name) (s : Text) :
    (∃ v, consumeParameter (name ++ s) = .done (v, none)) ∨
      ∃ val rest, s = val ++ ',' :: rest ∧ val ≠ [] ∧ ',' ∉ val ∧ rest ≠ [] ∧
        consumeParameter (name ++ s) = .done (atoi val, some rest) := by
  by_cases hs : ',' ∈ s
  · obtain ⟨val, rest, rfl, hval⟩ := List.eq_append_cons_of_mem hs
    rw [consumeParameter_eq hname hval]
    by_cases hnil : val = []
    · exact .inl ⟨0, by rw [if_pos hnil]⟩
    · rw [if_neg hnil, strtok_nil]
      by_cases hrest : rest = []
      · exact .inl ⟨_, by rw [if_pos hrest]⟩
      · exact .inr ⟨val, rest, rfl, hnil, hval, hrest, by rw [if_neg hrest]⟩
  · exact .inl ⟨_, consumeParameter_last hname hs⟩

theorem optParameter_cases (hname : ParamName name) (s : Text) (hs : s ≠ []) :
    (∃ v, optParameter name s = .done (v, none)) ∨
      ∃ v rest, rest ≠ [] ∧ ParamRead name rest s v := by
  by_cases hpre : name <+: s
  · obtain ⟨t, rfl⟩ := hpre
    obtain ⟨v, h⟩ | ⟨val, rest, rfl, hval, hcomma, hrest, -⟩ := consumeParameter_cases hname t
    · have hpre := List.isPrefixOf_iff_prefix.mpr (List.prefix_append name t)
      exact .inl ⟨some v, by rw [optParameter, if_pos hpre, h]; rfl⟩
    · exact .inr ⟨_, rest, hrest, .some val hval hcomma⟩
  · exact .inr ⟨none, s, hs, .none hpre⟩

theorem ParamRead.isInt {s : Text} {v : Option Int} (h : ParamRead name rest s v) :
    ∀ z ∈ v, IsInt z := by
  cases h with
  | none => simp
  | some val => simpa using isInt_atoi val

end Parameter

theorem parseMac_length {n : Nat} {s rest : Text} {mac : List UInt8}
    (h : parseMac n s = some (mac, rest)) : mac.length = n := by
  induction n generalizing s mac with
  | zero =>
      cases h
      rfl
  | succ n ih =>
      rw [parseMac] at h
      split at h
      next =>
        split at h
        next => cases h
        next =>
          split at h
          next => cases h
          next =>
            obtain ⟨⟨mac', rest'⟩, hmac, heq⟩ := Option.map_eq_some_iff.mp h
            cases heq
            rw [List.length_cons, ih hmac]
      next hn =>
        cases h
        rw [not_not.mp hn]
        rfl

/-! ## The types -/

theorem optMcastloop_cases {s : Text} (hs : s ≠ []) :
    (∃ fs, optMcastloop (.init .none) s = (fs, none)) ∨
      ∃ mcastloop rest, rest ≠ [] ∧ LoopRead rest s mcastloop := by
  by_cases hpre : mcastloopRx <+: s
  · obtain ⟨rest, rfl⟩ := hpre
    by_cases hrest : rest = []
    · subst hrest
      exact .inl ⟨_, rfl⟩
    · exact .inr ⟨true, rest, hrest, .yes⟩
  · exact .inr ⟨false, s, hs, .no hpre⟩

/-- A string is read up to its hosts, or it is refused. -/
theorem parseIp_cases (protocol : Protocol) (saved : Text) :
    (Reads fun lib saMcast => parseIp lib protocol (.init .none) saved saMcast) ∨
      ∃ mcastloop vid hosts, IpRead saved mcastloop vid hosts := by
  cases hall : (strtok [] saved).1 with
  | none =>
      simp only [parseIp, hall]
      exact .inl (.bad _)
  | some remainder =>
      have hne : saved ≠ [] := by
        rintro rfl
        cases hall
      rw [strtok_all hne, Option.some.injEq] at hall
      subst hall
      obtain ⟨fs, hloop⟩ | ⟨mcastloop, rest, hrest, hloop⟩ := optMcastloop_cases hne
      · simp only [parseIp, strtok_all hne, hloop]
        exact .inl (.bad _)
      · obtain ⟨v, hvid⟩ | ⟨vid, hosts, hhosts, hvid⟩ := optParameter_cases vidEq_name rest hrest
        · simp only [parseIp, strtok_all hne, optMcastloop_eq hrest hloop, hvid,
            Outcome.done_bind]
          exact .inl (.bad _)
        · exact .inr ⟨mcastloop, vid, hosts, hhosts, rest, hloop, hvid⟩

/-! ## Missing hosts -/

/-- Hosts of which one is missing beside a comma, and the local one if it is there. -/
inductive NullHost : Text → Option Text → Prop where
  /-- Both are missing. -/
  | both {s : Text} : s ≠ [] → (∀ c ∈ s, c ∈ [',']) → NullHost s none
  /-- The only commas are in front of the local host. -/
  | front {lead host : Text} : lead ≠ [] → (∀ c ∈ lead, c ∈ [',']) → Word [','] host →
      NullHost (lead ++ host) (some host)
  /-- Nothing stands behind the comma that ends the local host. -/
  | behind {lead host : Text} : (∀ c ∈ lead, c ∈ [',']) → Word [','] host →
      NullHost (lead ++ (host ++ [','])) (some host)

/-- The resolver is given the local host, if it is there, and then a null pointer. -/
def FilterLib.nullHost (lib : FilterLib) : Option Text → Outcome Parsed
  | none => .crash
  | some host => do
      let _ ← lib.resolve .unspec host
      .crash

theorem NullHost.ne_nil {s : Text} {host : Option Text} (h : NullHost s host) : s ≠ [] := by
  cases h with
  | both hs => exact hs
  | front hlead => simp [hlead]
  | behind => simp

theorem NullHost.comma_mem {s : Text} {host : Option Text} (h : NullHost s host) : ',' ∈ s := by
  have hmem : ∀ {lead : Text}, lead ≠ [] → (∀ c ∈ lead, c ∈ [',']) → ',' ∈ lead := by
    intro lead hne hlead
    obtain ⟨c, lead, rfl⟩ := List.exists_cons_of_ne_nil hne
    rw [List.mem_singleton.mp (hlead c (List.mem_cons_self ..))]
    exact List.mem_cons_self ..
  cases h with
  | both hs hall => exact hmem hs hall
  | front hne hlead => exact List.mem_append_left _ (hmem hne hlead)
  | behind => simp

/-- A missing host is a null pointer. -/
theorem parseHosts_null {s : Text} {host : Option Text} (h : NullHost s host) (lib : FilterLib)
    (protocol : Protocol) (fs : FilterSpec) (saMcast : Bool) :
    parseHosts lib protocol fs s saMcast = lib.nullHost host := by
  rw [parseHosts, if_pos h.comma_mem]
  cases h with
  | both _ hall =>
      rw [strtok_delims hall]
      rfl
  | front _ hlead hw =>
      rw [strtok_skip hlead, strtok_last hw]
      rfl
  | behind hlead hw =>
      rw [strtok_skip hlead, strtok_eq hw (by decide)]
      rfl

/-- Whatever the hosts look like, they are valid as they are cut up, or one is
missing. -/
theorem parseHosts_cases {s : Text} (hs : s ≠ []) :
    (∃ host remote, HostsValid host remote ∧ ∀ lib protocol fs saMcast,
      parseHosts lib protocol fs s saMcast = lib.setHosts protocol saMcast fs host remote) ∨
    ∃ host, NullHost s host := by
  by_cases hcomma : ',' ∈ s
  · cases htok : strtok [','] s with
    | mk host rest =>
    cases host with
    | none => exact .inr ⟨none, .both hs (strtok_of_none (by rw [htok])).2⟩
    | some host =>
        obtain ⟨hw, lead, hlead, ⟨rfl, rfl⟩ | ⟨c, hc, rfl⟩⟩ := strtok_spec htok
        · have hne : lead ≠ [] := by
            rintro rfl
            exact hw.clean _ hcomma (List.mem_singleton_self _)
          exact .inr ⟨some host, .front hne hlead hw⟩
        · by_cases hrest : rest = []
          · rw [List.mem_singleton.mp hc, hrest]
            exact .inr ⟨some host, .behind hlead hw⟩
          · refine .inl ⟨host, some rest, ⟨hw, by simpa using hrest⟩, ?_⟩
            intro lib protocol fs saMcast
            rw [parseHosts, if_pos hcomma, htok, strtok_all hrest]
            exact ipFull_eq lib protocol fs saMcast host rest
  · have hw : Word [','] s :=
      ⟨hs, fun c hc hmem => hcomma (List.mem_singleton.mp hmem ▸ hc)⟩
    have hv : HostsValid s none := ⟨hw, by simp⟩
    exact .inl ⟨s, none, hv, fun lib protocol fs saMcast =>
      parseHosts_text lib protocol fs saMcast hv⟩

theorem parseIp_reads (protocol : Protocol) (saved : Text) :
    (Reads fun lib saMcast => parseIp lib protocol (.init .none) saved saMcast) ∨
      ∃ mcastloop vid hosts host, IpRead saved mcastloop vid hosts ∧ NullHost hosts host := by
  obtain h | ⟨mcastloop, vid, hosts, hread⟩ := parseIp_cases protocol saved
  · exact .inl h
  obtain ⟨host, remote, hv, hhosts⟩ | ⟨host, hnull⟩ := parseHosts_cases hread.nonempty
  · obtain ⟨rest, -, hvid⟩ := hread.params
    refine .inl (.inl ⟨.ip protocol mcastloop vid host remote, ⟨hvid.isInt, hv⟩, ?_⟩)
    intro lib saMcast
    simp only [parseIp_eq hread, hhosts, FilterText.perform]
  · exact .inr ⟨mcastloop, vid, hosts, host, hread, hnull⟩

/-! ## The other types -/

theorem parseEthMac_reads {vid : Option Int} (param : EthParam) (hvid : ∀ v ∈ vid, IsInt v)
    (hparam : param.Valid) (s : Text) :
    Reads fun lib _ => lib.setAll (.init .none) param.calls >>= fun fs =>
      parseEthMac lib (vid.getD vlanIdAny) fs s := by
  cases hmac : parseMac 6 s with
  | none =>
      simp only [parseEthMac, hmac]
      exact .setBad _ _
  | some m =>
      obtain ⟨mac, rest⟩ := m
      by_cases hrest : rest = []
      · refine .inl ⟨.eth vid param mac, ⟨hvid, hparam, parseMac_length hmac⟩, fun lib _ => ?_⟩
        simp [parseEthMac, hmac, hrest, FilterText.perform, setGood_append]
      · simp only [parseEthMac, hmac, ne_eq, hrest, not_false_eq_true, if_true]
        exact .setBad _ _

theorem parseEth_reads (saved : Text) : Reads fun lib _ => parseEth lib (.init .none) saved := by
  cases hall : (strtok [] saved).1 with
  | none =>
      simp only [parseEth, hall]
      exact .bad _
  | some remainder =>
      obtain ⟨v, hvid⟩ | ⟨vid, rest, hrest, hvid⟩ :=
        optParameter_cases vidEq_name remainder (ne_nil_of_strtok hall)
      · simp only [parseEth, hall, hvid, Outcome.done_bind]
        exact .bad _
      · simp only [parseEth, hall, optParameter_eq vidEq_name hrest hvid, Outcome.done_bind]
        refine .ite (fun hpre => ?_) fun _ => .ite (fun hpre => ?_) fun _ => ?_
        · obtain ⟨t, rfl⟩ := List.isPrefixOf_iff_prefix.mp hpre
          obtain ⟨v, h⟩ | ⟨val, mac, -, -, -, -, h⟩ := consumeParameter_cases ethertypeEq_name t
          · simp only [h, Outcome.done_bind]
            exact .bad _
          · have hmac := parseEthMac_reads (.ethertype (atoi val)) hvid.isInt (isInt_atoi val) mac
            simp only [h, Outcome.done_bind]
            simpa [EthParam.calls] using hmac
        · obtain ⟨t, rfl⟩ := List.isPrefixOf_iff_prefix.mp hpre
          obtain ⟨v, h⟩ | ⟨val, mac, -, -, -, -, h⟩ := consumeParameter_cases ipprotoEq_name t
          · simp only [h, Outcome.done_bind]
            exact .bad _
          · have hmac := parseEthMac_reads (.ipproto (atoi val)) hvid.isInt (isInt_atoi val) mac
            simp only [h, Outcome.done_bind]
            simpa [EthParam.calls] using hmac
        · exact parseEthMac_reads .none hvid.isInt trivial rest

theorem isLong_strtol (base : Nat) (s : Text) : IsLong (strtol base s).1 := by
  rw [strtol]
  simp only
  split
  · exact ⟨show -2 ^ 63 ≤ (0 : Int) by decide, show (0 : Int) < 2 ^ 63 by decide⟩
  · rw [IsLong, clampLong]
    omega

/-- `mk` makes the text of a type whose number goes to `setter`. -/
theorem parseNumber_reads (setter : Int → FilterCall) (mk : Option Int → Int → FilterText)
    (hvalid : ∀ vid val, (∀ v ∈ vid, IsInt v) → IsLong val → (mk vid val).Valid)
    (hperform : ∀ vid val lib saMcast,
      (mk vid val).perform lib saMcast = lib.setGood (vlanCalls vid ++ [setter val]))
    (saved : Text) : Reads fun lib _ => parseNumber lib setter (.init .none) saved := by
  cases hall : (strtok [] saved).1 with
  | none =>
      simp only [parseNumber, hall]
      exact .bad _
  | some remainder =>
      obtain ⟨v, hvid⟩ | ⟨vid, rest, hrest, hvid⟩ :=
        optParameter_cases vidEq_name remainder (ne_nil_of_strtok hall)
      · simp only [parseNumber, hall, hvid, Outcome.done_bind]
        exact .bad _
      · simp only [parseNumber, hall, optParameter_eq vidEq_name hrest hvid, Outcome.done_bind,
          setVlan_eq]
        by_cases hend : (strtol 10 rest).2 = []
        · refine .inl ⟨mk vid (strtol 10 rest).1,
            hvalid vid _ hvid.isInt (isLong_strtol 10 rest), fun lib saMcast => ?_⟩
          simp [hperform, hend, setGood_append]
        · simp only [ne_eq, hend, not_false_eq_true, if_true]
          exact .setBad _ _

/-- `mk` makes the text of a type whose setter is `call`. -/
theorem parseMis_reads (call : FilterCall) (mk : Option Int → FilterText)
    (hvalid : ∀ vid, (∀ v ∈ vid, IsInt v) → (mk vid).Valid)
    (hperform : ∀ vid lib saMcast,
      (mk vid).perform lib saMcast = lib.setGood (call :: vlanCalls vid))
    (type sIn saved : Text) :
    Reads fun lib _ => parseMis lib call (.init .none) type sIn saved := by
  have hbad := Reads.setBad (.init .none) [call]
  simp only [setAll_cons, setAll_nil, bind_assoc, Outcome.done_bind] at hbad
  by_cases hlen : type.length ≠ sIn.length
  · cases hall : (strtok [] saved).1 with
    | none => simpa [parseMis, hlen, hall] using hbad
    | some remainder =>
        by_cases hpre : vidEq.isPrefixOf remainder = true
        · obtain ⟨val, rfl⟩ := List.isPrefixOf_iff_prefix.mp hpre
          by_cases hval : val = []
          · simp only [parseMis, if_pos hlen, hall, hpre, Bool.not_true, Bool.false_eq_true,
              if_false, strchr_param vidEq_name, List.tail_cons]
            simpa only [hval, if_true, Outcome.pure_eq] using hbad
          · refine .inl ⟨mk (some (atoi val)), hvalid _ (by simpa using isInt_atoi val),
              fun lib saMcast => ?_⟩
            simp [parseMis, hlen, hall, hpre, strchr_param vidEq_name, hval, hperform,
              FilterLib.setGood, vlanCalls]
        · simpa [parseMis, hlen, hall, hpre] using hbad
  · refine .inl ⟨mk none, hvalid none (by simp), fun lib saMcast => ?_⟩
    simp [parseMis, not_not.mp hlen, hperform, FilterLib.setGood, vlanCalls]

theorem setOnly_reads (t : FilterText) (call : FilterCall) (hvalid : t.Valid)
    (hperform : ∀ lib saMcast, t.perform lib saMcast = lib.setGood [call]) :
    Reads fun lib _ => setOnly lib (.init .none) call :=
  .inl ⟨t, hvalid, fun lib saMcast => (setOnly_eq lib call).trans (hperform lib saMcast).symm⟩

theorem parseSniff_reads (type sIn saved : Text) :
    Reads fun lib _ => parseSniff lib (.init .none) type sIn saved := by
  refine .ite (fun _ => setOnly_reads (.sniff true) _ trivial fun _ _ => rfl) fun _ => ?_
  cases (strtok [] saved).1 with
  | none => exact .bad _
  | some remainder =>
      exact .ite (fun _ => setOnly_reads (.sniff true) _ trivial fun _ _ => rfl) fun _ =>
        .ite (fun _ => setOnly_reads (.sniff false) _ trivial fun _ _ => rfl) fun _ => .bad _

theorem parseType_reads {type : Text} (htype : ∀ p : Protocol, type ≠ p.name.toList)
    (saved sIn : Text) : Reads fun lib saMcast => parseType lib type saved sIn saMcast := by
  refine .ite (fun h => (h.elim (htype .udp) (htype .tcp)).elim) fun _ => ?_
  refine .ite (fun _ => parseEth_reads _) fun _ => ?_
  refine .ite (fun _ => ?_) fun _ => ?_
  · exact parseNumber_reads _ .ethertype (fun _ _ hvid hval => ⟨hvid, hval⟩)
      (fun _ _ _ _ => rfl) saved
  refine .ite (fun _ => ?_) fun _ => ?_
  · exact parseNumber_reads _ .ipproto (fun _ _ hvid hval => ⟨hvid, hval⟩)
      (fun _ _ _ _ => rfl) saved
  refine .ite (fun _ => .ite (fun _ => .bad _) fun _ => ?_) fun _ => ?_
  · exact setOnly_reads .multicastAll _ trivial fun _ _ => rfl
  refine .ite (fun _ => .ite (fun _ => .bad _) fun _ => ?_) fun _ => ?_
  · exact setOnly_reads .unicastAll _ trivial fun _ _ => rfl
  refine .ite (fun _ => ?_) fun _ => ?_
  · exact parseMis_reads _ .multicastMis (fun _ h => h) (fun _ _ _ => rfl) type sIn saved
  refine .ite (fun _ => ?_) fun _ => ?_
  · exact parseMis_reads _ .unicastMis (fun _ h => h) (fun _ _ _ => rfl) type sIn saved
  refine .ite (fun _ => parseSniff_reads type sIn saved) fun _ => ?_
  refine .ite (fun _ => setOnly_reads .txSniff _ trivial fun _ _ => rfl) fun _ => ?_
  refine .ite (fun _ => setOnly_reads .blockKernel _ trivial fun _ _ => rfl) fun _ => ?_
  refine .ite (fun _ => setOnly_reads .blockKernelUnicast _ trivial fun _ _ => rfl) fun _ => ?_
  exact .ite (fun _ => setOnly_reads .blockKernelMulticast _ trivial fun _ _ => rfl)
    fun _ => .bad _

/-! ## Every string -/

/-- A `udp` or `tcp` string in which a host is missing: what stands before its hosts,
and the local host if it is there. -/
inductive NullHosts : Text → Bool → Option Int → Option Text → Prop where
  | mk (lead : Text) (protocol : Protocol) {body hosts : Text} {mcastloop : Bool}
      {vid : Option Int} {host : Option Text} :
      (∀ c ∈ lead, c ∈ [':']) → IpRead body mcastloop vid hosts → NullHost hosts host →
      NullHosts (lead ++ (protocol.name.toList ++ ':' :: body)) mcastloop vid host

/-- The calls for such a string. -/
def FilterLib.nullHosts (lib : FilterLib) (mcastloop : Bool) (vid : Option Int)
    (host : Option Text) : Outcome Parsed := do
  let _ ← lib.setAll (.init (mcastloopFlags mcastloop)) (vlanCalls vid)
  lib.nullHost host

theorem filterParse_null {sIn : Text} {mcastloop : Bool} {vid : Option Int} {host : Option Text}
    (h : NullHosts sIn mcastloop vid host) (lib : FilterLib) (saMcast : Bool) :
    filterParse lib sIn saMcast = lib.nullHosts mcastloop vid host := by
  obtain ⟨lead, protocol, hlead, hread, hnull⟩ := h
  rw [filterParse, strtok_skip hlead, strtok_eq protocol.name_word (by decide)]
  simp only [parseType_protocol, parseIp_eq hread, parseHosts_null hnull]
  rfl

theorem filterParse_reads (sIn : Text) :
    (Reads fun lib saMcast => filterParse lib sIn saMcast) ∨
      ∃ mcastloop vid host, NullHosts sIn mcastloop vid host := by
  cases htok : strtok [':'] sIn with
  | mk type saved =>
  simp only [filterParse, htok]
  cases type with
  | none => exact .inl (.bad _)
  | some type =>
      by_cases htype : ∃ p : Protocol, type = p.name.toList
      · obtain ⟨protocol, rfl⟩ := htype
        simp only [parseType_protocol]
        obtain h | ⟨mcastloop, vid, hosts, host, hread, hnull⟩ := parseIp_reads protocol saved
        · exact .inl h
        · obtain ⟨-, lead, hlead, ⟨-, rfl⟩ | ⟨c, hc, rfl⟩⟩ := strtok_spec htok
          · exact absurd rfl hread.ne_nil
          · rw [List.mem_singleton.mp hc]
            exact .inr ⟨mcastloop, vid, host, .mk lead protocol hlead hread hnull⟩
      · exact .inl (parseType_reads (not_exists.mp htype) saved sIn)

/-! ## Null pointers -/

theorem setAll_ne_crash (lib : FilterLib) (fs : FilterSpec) (calls : List FilterCall) :
    lib.setAll fs calls ≠ .crash := by
  obtain h | ⟨fs', h⟩ := setAll_cases lib fs calls <;> simp [h]

theorem resolve_ne_crash (lib : FilterLib) (af : Family) (host : Text) :
    lib.resolve af host ≠ .crash := by
  rw [FilterLib.resolve]
  split <;> simp

theorem setGood_ne_crash (lib : FilterLib) (calls : List FilterCall) :
    lib.setGood calls ≠ .crash :=
  Outcome.bind_ne_crash (setAll_ne_crash _ _ _) fun _ _ => by simp

theorem setAddr_ne_crash (lib : FilterLib) (fs : FilterSpec) (call : Option FilterCall)
    (mcast : Option (BitVec 32)) (err : String) : lib.setAddr fs call mcast err ≠ .crash := by
  cases call with
  | none => simp [FilterLib.setAddr]
  | some call => exact Outcome.bind_ne_crash (setAll_ne_crash _ _ _) fun _ _ => by simp

theorem setHosts_ne_crash (lib : FilterLib) (protocol : Protocol) (saMcast : Bool)
    (fs : FilterSpec) (host : Text) (remote : Option Text) :
    lib.setHosts protocol saMcast fs host remote ≠ .crash := by
  refine Outcome.bind_ne_crash (resolve_ne_crash _ _ _) fun laddr _ => ?_
  cases remote with
  | none => exact setAddr_ne_crash _ _ _ _ _
  | some remote =>
      exact Outcome.bind_ne_crash (resolve_ne_crash _ _ _) fun raddr _ =>
        setAddr_ne_crash _ _ _ _ _

theorem FilterText.perform_ne_crash (lib : FilterLib) (saMcast : Bool) (t : FilterText) :
    t.perform lib saMcast ≠ .crash := by
  cases t with
  | ip =>
      exact Outcome.bind_ne_crash (setAll_ne_crash _ _ _) fun _ _ =>
        setHosts_ne_crash _ _ _ _ _ _
  | _ => exact setGood_ne_crash _ _

theorem Reads.ne_crash {parse : FilterLib → Bool → Outcome Parsed} (h : Reads parse)
    (lib : FilterLib) (saMcast : Bool) : parse lib saMcast ≠ .crash := by
  obtain ⟨t, -, h⟩ | h := h
  · exact (h lib saMcast).trans_ne (t.perform_ne_crash lib saMcast)
  · obtain h | ⟨fs, h⟩ := h lib saMcast
    · exact h.trans_ne (by simp)
    · exact h.trans_ne (by simp)

/-- The calls before the null pointer do not fail. -/
structure FilterLib.Reaches (lib : FilterLib) (mcastloop : Bool) (vid : Option Int)
    (host : Option Text) : Prop where
  vlan : ∀ v ∈ vid, 0 ≤ lib.set (.init (mcastloopFlags mcastloop)) (.vlan v)
  resolved : ∀ h ∈ host, 0 ≤ (lib.hostport .unspec h).1

theorem nullHost_eq_crash_iff (lib : FilterLib) (host : Option Text) :
    lib.nullHost host = .crash ↔ ∀ h ∈ host, 0 ≤ (lib.hostport .unspec h).1 := by
  cases host with
  | none => simp [FilterLib.nullHost]
  | some host =>
      by_cases hneg : (lib.hostport .unspec host).1 < 0
      · simp [FilterLib.nullHost, FilterLib.resolve, hneg]
      · simp [FilterLib.nullHost, FilterLib.resolve, hneg, not_lt.mp hneg]

theorem nullHosts_eq_crash_iff (lib : FilterLib) (mcastloop : Bool) (vid : Option Int)
    (host : Option Text) :
    lib.nullHosts mcastloop vid host = .crash ↔ lib.Reaches mcastloop vid host := by
  have hhost := nullHost_eq_crash_iff lib host
  have hreach : lib.Reaches mcastloop vid host ↔
      (∀ v ∈ vid, 0 ≤ lib.set (.init (mcastloopFlags mcastloop)) (.vlan v)) ∧
        lib.nullHost host = .crash :=
    ⟨fun h => ⟨h.vlan, hhost.mpr h.resolved⟩, fun h => ⟨h.1, hhost.mp h.2⟩⟩
  rw [hreach, FilterLib.nullHosts]
  cases vid with
  | none => simp [vlanCalls]
  | some v =>
      by_cases hneg : lib.set (.init (mcastloopFlags mcastloop)) (.vlan v) < 0
      · simp [vlanCalls, FilterLib.trySet, hneg]
      · simp [vlanCalls, FilterLib.trySet, hneg, not_lt.mp hneg]

/-- Every string means a valid text, whatever the library does, or is refused, or
has a missing host; and the null pointer is followed for the last kind of string
only, unless a call before that fails. -/
theorem filterParse_meaning (sIn : Text) :
    ((Reads fun lib saMcast => filterParse lib sIn saMcast) ∨
      ∃ mcastloop vid host, NullHosts sIn mcastloop vid host ∧
        ∀ lib saMcast, filterParse lib sIn saMcast = lib.nullHosts mcastloop vid host) ∧
    ∀ lib saMcast, filterParse lib sIn saMcast = .crash ↔
      ∃ mcastloop vid host, NullHosts sIn mcastloop vid host ∧
        lib.Reaches mcastloop vid host := by
  refine ⟨(filterParse_reads sIn).imp_right ?_, fun lib saMcast => ⟨fun hcrash => ?_, ?_⟩⟩
  · rintro ⟨mcastloop, vid, host, h⟩
    exact ⟨mcastloop, vid, host, h, filterParse_null h⟩
  · obtain h | ⟨mcastloop, vid, host, h⟩ := filterParse_reads sIn
    · exact absurd hcrash (h.ne_crash lib saMcast)
    · rw [filterParse_null h, nullHosts_eq_crash_iff] at hcrash
      exact ⟨mcastloop, vid, host, h, hcrash⟩
  · rintro ⟨mcastloop, vid, host, h, hreach⟩
    rw [filterParse_null h, nullHosts_eq_crash_iff]
    exact hreach

example : filterParse .succeeding "udp:,".toList false = .crash := by decide

example : filterParse .succeeding "tcp:vid=7,10.0.0.1:80,".toList true = .crash := by decide

end Efvi
