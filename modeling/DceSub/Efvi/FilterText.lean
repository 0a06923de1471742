import DceSub.Efvi.FilterParse

/-!
# What filter texts mean

`FilterText` is the language of `filter_parse`: what a text can say, free of how
it is cut up.  `FilterText.text` writes it down, and `FilterText.perform` is its
meaning, the calls it stands for.

A text that was written down is parsed to its meaning (`filterParse_text`).  A
number that does not fit is not refused: it is clamped to a `long`, and then cut
to the width of its field.
-/

namespace Efvi

open Base

/-! ## The language -/

/-- The parameter of an `eth` filter. -/
inductive EthParam where
  | none
  | ethertype (val : Int)
  | ipproto (val : Int)
deriving DecidableEq

/-- What a filter text says. -/
inductive FilterText where
  | ip (protocol : Protocol) (mcastloop : Bool) (vid : Option Int) (host : Text)
      (remote : Option Text)
  | eth (vid : Option Int) (param : EthParam) (mac : List UInt8)
  | ethertype (vid : Option Int) (val : Int)
  | ipproto (vid : Option Int) (val : Int)
  | multicastAll
  | unicastAll
  | multicastMis (vid : Option Int)
  | unicastMis (vid : Option Int)
  | sniff (promiscuous : Bool)
  | txSniff
  | blockKernel
  | blockKernelUnicast
  | blockKernelMulticast
deriving DecidableEq

/-! ### Meaning -/

/-- The setter of a VLAN, if there is one. -/
def vlanCalls (vid : Option Int) : List FilterCall := (vid.map .vlan).toList

/-- The setter of the parameter of an `eth` filter. -/
def EthParam.calls : EthParam → List FilterCall
  | none => []
  | ethertype val => [.ethType (htons (BitVec.ofInt 16 val))]
  | ipproto val => [.ipProto (BitVec.ofInt 8 val)]

/-- The flags a filter is initialised with. -/
def mcastloopFlags (mcastloop : Bool) : FilterFlags :=
  if mcastloop then .mcastLoopReceive else .none

/-- The setters in their order. -/
def FilterLib.setAll (lib : FilterLib) : FilterSpec → List FilterCall → Outcome FilterSpec
  | fs, [] => return fs
  | fs, call :: calls => do
      let fs ← lib.trySet fs call
      lib.setAll fs calls

/-- The setters alone. -/
def FilterLib.setGood (lib : FilterLib) (calls : List FilterCall) : Outcome Parsed := do
  let fs ← lib.setAll (.init .none) calls
  return .good fs

/-- A name is resolved, or the program ends. -/
def FilterLib.resolve (lib : FilterLib) (af : Family) (host : Text) : Outcome SockAddr :=
  if (lib.hostport af host).1 < 0 then .abort else .done (lib.hostport af host).2

/-- The setter for a local address. -/
def localCall (protocol : Protocol) : SockAddr → Option FilterCall
  | .inet host port => some (.ip4Local protocol host port)
  | .inet6 host port => some (.ip6Local protocol host port)
  | .other _ => none

/-- The setter for a local and a remote address, which are of one family. -/
def fullCall (protocol : Protocol) : SockAddr → SockAddr → Option FilterCall
  | .inet host port, .inet rhost rport => some (.ip4Full protocol host port rhost rport)
  | .inet6 host port, .inet6 rhost rport => some (.ip6Full protocol host port rhost rport)
  | _, _ => none

/-- The multicast address, which is the local one. -/
def mcastAddr : SockAddr → Option (BitVec 32)
  | .inet host _ => some host
  | _ => none

/-- The setter for addresses, or the error if there is none. -/
def FilterLib.setAddr (lib : FilterLib) (fs : FilterSpec) (call : Option FilterCall)
    (mcast : Option (BitVec 32)) (err : String) : Outcome Parsed :=
  match call with
  | none => return { Parsed.bad fs with err := err.toList }
  | some call => do
      let fs ← lib.setAll fs [call]
      return { Parsed.good fs with mcast := mcast }

/-- The calls for hosts: the local one is resolved in any family, and the remote one
in that of the local one. -/
def FilterLib.setHosts (lib : FilterLib) (protocol : Protocol) (saMcast : Bool) (fs : FilterSpec)
    (host : Text) (remote : Option Text) : Outcome Parsed := do
  let laddr ← lib.resolve .unspec host
  match remote with
  | none =>
      lib.setAddr fs (localCall protocol laddr) (if saMcast then mcastAddr laddr else none)
        "ERROR: invalid family in local host\n"
  | some remote => do
      let raddr ← lib.resolve laddr.family remote
      lib.setAddr fs (fullCall protocol laddr raddr) none
        "ERROR: invalid families in local/remote hosts\n"

/-- The calls a filter text stands for. -/
def FilterText.perform (lib : FilterLib) (saMcast : Bool) : FilterText → Outcome Parsed
  | ip protocol mcastloop vid host remote => do
      let fs ← lib.setAll (.init (mcastloopFlags mcastloop)) (vlanCalls vid)
      lib.setHosts protocol saMcast fs host remote
  | eth vid param mac => lib.setGood (param.calls ++ [.ethLocal (vid.getD vlanIdAny) mac])
  | ethertype vid val => lib.setGood (vlanCalls vid ++ [.ethType (htons (BitVec.ofInt 16 val))])
  | ipproto vid val => lib.setGood (vlanCalls vid ++ [.ipProto (BitVec.ofInt 8 val)])
  | multicastAll => lib.setGood [.multicastAll]
  | unicastAll => lib.setGood [.unicastAll]
  | multicastMis vid => lib.setGood (.multicastMismatch :: vlanCalls vid)
  | unicastMis vid => lib.setGood (.unicastMismatch :: vlanCalls vid)
  | sniff promiscuous => lib.setGood [.portSniff promiscuous]
  | txSniff => lib.setGood [.txPortSniff]
  | blockKernel => lib.setGood [.blockKernel]
  | blockKernelUnicast => lib.setGood [.blockKernelUnicast]
  | blockKernelMulticast => lib.setGood [.blockKernelMulticast]

/-! ### Writing -/

/-- A parameter in front of the rest. -/
def paramText (name : Text) (val : Int) : Text := name ++ (numeral val ++ [','])

/-- A VLAN in front of the rest. -/
def vidText : Option Int → Text
  | none => []
  | some vid => paramText vidEq vid

/-- The parameter of an `eth` filter in front of the rest. -/
def EthParam.text : EthParam → Text
  | none => []
  | ethertype val => paramText ethertypeEq val
  | ipproto val => paramText ipprotoEq val

/-- The octets of a MAC address. -/
def macText : List UInt8 → Text
  | [] => []
  | [b] => hexByte b
  | b :: bs => hexByte b ++ ':' :: macText bs

/-- The hosts of an `ip` filter. -/
def hostsText (host : Text) : Option Text → Text
  | none => host
  | some remote => host ++ ',' :: remote

/-- The name of a protocol. -/
def Protocol.name : Protocol → String
  | udp => "udp"
  | tcp => "tcp"

/-- The word in front of the first colon. -/
def FilterText.type : FilterText → String
  | ip protocol .. => protocol.name
  | eth .. => "eth"
  | ethertype .. => "ethertype"
  | ipproto .. => "ipproto"
  | multicastAll => "multicast-all"
  | unicastAll => "unicast-all"
  | multicastMis _ => "multicast-mis"
  | unicastMis _ => "unicast-mis"
  | sniff _ => "sniff"
  | txSniff => "tx-sniff"
  | blockKernel => "block-kernel"
  | blockKernelUnicast => "block-kernel-unicast"
  | blockKernelMulticast => "block-kernel-multicast"

/-- What is behind the first colon, if there is one. -/
def FilterText.args : FilterText → Option Text
  | ip _ mcastloop vid host remote =>
      some ((if mcastloop then mcastloopRx else []) ++ (vidText vid ++ hostsText host remote))
  | eth vid param mac => some (vidText vid ++ (param.text ++ macText mac))
  | ethertype vid val => some (vidText vid ++ numeral val)
  | ipproto vid val => some (vidText vid ++ numeral val)
  | multicastMis vid => vid.map fun vid => vidEq ++ numeral vid
  | unicastMis vid => vid.map fun vid => vidEq ++ numeral vid
  | sniff promiscuous => some (if promiscuous then "promisc".toList else "no-promisc".toList)
  | _ => none

/-- A filter text written down. -/
def FilterText.text (t : FilterText) : Text :=
  match t.args with
  | none => t.type.toList
  | some args => t.type.toList ++ ':' :: args

/-! ### Validity -/

/-- The range of an `int`. -/
def IsInt (z : Int) : Prop := -2 ^ 31 ≤ z ∧ z < 2 ^ 31

/-- The range of a `long`. -/
def IsLong (z : Int) : Prop := -2 ^ 63 ≤ z ∧ z < 2 ^ 63

/-- Hosts as `strtok` gives them. -/
structure HostsValid (host : Text) (remote : Option Text) : Prop where
  word : Word [','] host
  rest : ∀ r ∈ remote, r ≠ []

/-- The values an `EthParam` can have. -/
def EthParam.Valid : EthParam → Prop
  | none => True
  | ethertype val => IsInt val
  | ipproto val => IsInt val

/-- What `filter_parse` can be told. -/
def FilterText.Valid : FilterText → Prop
  | ip _ _ vid host remote => (∀ v ∈ vid, IsInt v) ∧ HostsValid host remote
  | eth vid param mac => (∀ v ∈ vid, IsInt v) ∧ param.Valid ∧ mac.length = 6
  | ethertype vid val => (∀ v ∈ vid, IsInt v) ∧ IsLong val
  | ipproto vid val => (∀ v ∈ vid, IsInt v) ∧ IsLong val
  | multicastMis vid => ∀ v ∈ vid, IsInt v
  | unicastMis vid => ∀ v ∈ vid, IsInt v
  | _ => True

/-- A local host that is not taken for something else. -/
def FilterText.Plain : FilterText → Prop
  | ip _ _ _ host _ => ¬ vidEq <+: host ∧ host ++ [','] ≠ mcastloopRx
  | _ => True

/-! ## Setters -/

@[simp] theorem setAll_nil (lib : FilterLib) (fs : FilterSpec) : lib.setAll fs [] = .done fs := rfl

@[simp] theorem setAll_cons (lib : FilterLib) (fs : FilterSpec) (call : FilterCall)
    (calls : List FilterCall) :
    lib.setAll fs (call :: calls) = (lib.trySet fs call >>= fun fs => lib.setAll fs calls) := rfl

theorem setAll_append (lib : FilterLib) (fs : FilterSpec) (calls calls' : List FilterCall) :
    lib.setAll fs (calls ++ calls') =
      (lib.setAll fs calls >>= fun fs => lib.setAll fs calls') := by
  induction calls generalizing fs with
  | nil => rfl
  | cons call calls ih => simp only [List.cons_append, setAll_cons, ih, bind_assoc]

theorem setVlan_eq (lib : FilterLib) (fs : FilterSpec) (vid : Option Int) :
    setVlan lib fs vid = lib.setAll fs (vlanCalls vid) := by
  cases vid with
  | none => rfl
  | some vid => exact (bind_pure _).symm

theorem setOnly_eq (lib : FilterLib) (call : FilterCall) :
    setOnly lib (.init .none) call = lib.setGood [call] := by
  simp [setOnly, FilterLib.setGood]

/-! ## Parameters -/

/-- A name with its equals sign. -/
def ParamName (name : Text) : Prop := ∃ n, name = n ++ ['='] ∧ ',' ∉ n ∧ '=' ∉ n

theorem vidEq_name : ParamName vidEq := ⟨"vid".toList, rfl, by decide, by decide⟩

theorem ethertypeEq_name : ParamName ethertypeEq := ⟨"ethertype".toList, rfl, by decide, by decide⟩

theorem ipprotoEq_name : ParamName ipprotoEq := ⟨"ipproto".toList, rfl, by decide, by decide⟩

section Parameter

variable {name val rest : Text}

theorem word_param (hname : ParamName name) (hval : ',' ∉ val) : Word [','] (name ++ val) := by
  obtain ⟨n, rfl, hcomma, -⟩ := hname
  refine ⟨by simp, ?_⟩
  intro c hc hmem
  obtain rfl := List.mem_singleton.mp hmem
  simp [hcomma, hval] at hc

theorem strchr_param (hname : ParamName name) (val : Text) :
    strchr '=' (name ++ val) = some ('=' :: val) := by
  obtain ⟨n, rfl, -, hequals⟩ := hname
  rw [List.append_assoc]
  exact strchr_append hequals val

/-- A parameter that a comma ends. -/
theorem consumeParameter_eq (hname : ParamName name) (hval : ',' ∉ val) (rest : Text) :
    consumeParameter (name ++ (val ++ ',' :: rest)) =
      .done (if val = [] then (0, none) else (atoi val, (strtok [] rest).1)) := by
  have htok : strtok [','] (name ++ (val ++ ',' :: rest)) = (some (name ++ val), rest) := by
    rw [← List.append_assoc]
    exact strtok_eq (word_param hname hval) (List.mem_singleton.mpr rfl) rest
  simp only [consumeParameter, htok, strchr_param hname, List.tail_cons]
  split <;> rfl

/-- A parameter that nothing follows. -/
theorem consumeParameter_last (hname : ParamName name) (hval : ',' ∉ val) :
    consumeParameter (name ++ val) = .done (if val = [] then 0 else atoi val, none) := by
  simp only [consumeParameter, strtok_last (word_param hname hval), strchr_param hname,
    List.tail_cons]
  split <;> rfl

theorem comma_notMem_numeral (z : Int) : ',' ∉ numeral z := by
  intro h
  rcases mem_numeral h with h | h
  · exact absurd h (by decide)
  · exact absurd h (by decide)

theorem atoi_numeral_int {v : Int} (hv : IsInt v) : atoi (numeral v) = v := by
  have h := atoi_numeral hv.1 hv.2 (ends_nil 10)
  rwa [List.append_nil] at h

/-- A parameter as it is written. -/
theorem consumeParameter_text (hname : ParamName name) {v : Int} (hv : IsInt v)
    (hrest : rest ≠ []) :
    consumeParameter (paramText name v ++ rest) = .done (v, some rest) := by
  have hval := consumeParameter_eq hname (comma_notMem_numeral v) rest
  rw [if_neg (numeral_ne_nil v), atoi_numeral_int hv, strtok_nil, if_neg hrest] at hval
  rw [paramText, List.append_assoc, List.append_assoc]
  exact hval

theorem isPrefixOf_paramText (name : Text) (v : Int) (rest : Text) :
    name.isPrefixOf (paramText name v ++ rest) = true := by
  rw [paramText, List.append_assoc, List.isPrefixOf_iff_prefix]
  exact List.prefix_append ..

/-- A parameter that a string may start with, and what stands behind it. -/
inductive ParamRead (name rest : Text) : Text → Option Int → Prop where
  | none : ¬ name <+: rest → ParamRead name rest rest none
  | some (val : Text) : val ≠ [] → ',' ∉ val →
      ParamRead name rest (name ++ (val ++ ',' :: rest)) (some (atoi val))

theorem optParameter_eq (hname : ParamName name) (hrest : rest ≠ []) {s : Text} {v : Option Int}
    (h : ParamRead name rest s v) : optParameter name s = .done (v, some rest) := by
  cases h with
  | none hnot =>
      rw [optParameter, if_neg (mt List.isPrefixOf_iff_prefix.mp hnot)]
      rfl
  | some val hval hcomma =>
      have hpre := List.isPrefixOf_iff_prefix.mpr (List.prefix_append name (val ++ ',' :: rest))
      rw [optParameter, if_pos hpre, consumeParameter_eq hname hcomma, if_neg hval, strtok_nil,
        if_neg hrest]
      rfl

/-- The VLAN as it is written. -/
theorem paramRead_vidText {vid : Option Int} (hvid : ∀ v ∈ vid, IsInt v)
    (hnone : vid = none → ¬ vidEq <+: rest) : ParamRead vidEq rest (vidText vid ++ rest) vid := by
  cases vid with
  | none => exact .none (hnone rfl)
  | some v =>
      have hread : ParamRead vidEq rest _ _ :=
        .some (numeral v) (numeral_ne_nil v) (comma_notMem_numeral v)
      rw [atoi_numeral_int (hvid v rfl)] at hread
      rw [vidText, paramText, List.append_assoc, List.append_assoc]
      exact hread

theorem optParameter_vidText {vid : Option Int} (hvid : ∀ v ∈ vid, IsInt v) (hrest : rest ≠ [])
    (hnone : vid = none → ¬ vidEq <+: rest) :
    optParameter vidEq (vidText vid ++ rest) = .done (vid, some rest) :=
  optParameter_eq vidEq_name hrest (paramRead_vidText hvid hnone)

end Parameter

/-! ## Hosts -/

theorem strtok_all {s : Text} (hs : s ≠ []) : (strtok [] s).1 = some s := by
  rw [strtok_nil, if_neg hs]

/-- The option that a string may start with, and what stands behind it. -/
inductive LoopRead (rest : Text) : Text → Bool → Prop where
  | no : ¬ mcastloopRx <+: rest → LoopRead rest rest false
  | yes : LoopRead rest (mcastloopRx ++ rest) true

theorem optMcastloop_eq {s rest : Text} {mcastloop : Bool} (hrest : rest ≠ [])
    (h : LoopRead rest s mcastloop) :
    optMcastloop (.init .none) s = (.init (mcastloopFlags mcastloop), some rest) := by
  cases h with
  | no hnot => exact if_neg (mt List.isPrefixOf_iff_prefix.mp hnot)
  | yes =>
      have hpre : mcastloopRx.isPrefixOf (mcastloopRx ++ rest) = true :=
        List.isPrefixOf_iff_prefix.mpr (List.prefix_append ..)
      have hword : Word [','] "mcastloop-rx".toList := ⟨by decide, forall_mem_of_all (by decide)⟩
      have htok : strtok [','] (mcastloopRx ++ rest) = (some "mcastloop-rx".toList, rest) :=
        strtok_eq hword (by decide) rest
      rw [optMcastloop, if_pos hpre, htok, strtok_all hrest]
      rfl

/-- The hosts of a string, behind the option and the VLAN. -/
structure IpRead (body : Text) (mcastloop : Bool) (vid : Option Int) (hosts : Text) : Prop where
  nonempty : hosts ≠ []
  params : ∃ rest, LoopRead rest body mcastloop ∧ ParamRead vidEq hosts rest vid

theorem ParamRead.ne_nil {name rest s : Text} {v : Option Int} (h : ParamRead name rest s v)
    (hrest : rest ≠ []) : s ≠ [] := by
  cases h with
  | none => exact hrest
  | some => simp

theorem LoopRead.ne_nil {rest s : Text} {mcastloop : Bool} (h : LoopRead rest s mcastloop)
    (hrest : rest ≠ []) : s ≠ [] := by
  cases h with
  | no => exact hrest
  | yes => exact List.cons_ne_nil _ _

theorem IpRead.ne_nil {body hosts : Text} {mcastloop : Bool} {vid : Option Int}
    (h : IpRead body mcastloop vid hosts) : body ≠ [] := by
  obtain ⟨rest, hloop, hvid⟩ := h.params
  exact hloop.ne_nil (hvid.ne_nil h.nonempty)

/-- A string is read up to its hosts. -/
theorem parseIp_eq {body hosts : Text} {mcastloop : Bool} {vid : Option Int}
    (h : IpRead body mcastloop vid hosts) (lib : FilterLib) (protocol : Protocol)
    (saMcast : Bool) :
    parseIp lib protocol (.init .none) body saMcast =
      (lib.setAll (.init (mcastloopFlags mcastloop)) (vlanCalls vid) >>= fun fs =>
        parseHosts lib protocol fs hosts saMcast) := by
  obtain ⟨rest, hloop, hvid⟩ := h.params
  have hrest := hvid.ne_nil h.nonempty
  rw [parseIp, strtok_all h.ne_nil]
  simp only [optMcastloop_eq hrest hloop, optParameter_eq vidEq_name h.nonempty hvid,
    Outcome.done_bind, setVlan_eq]

section Hosts

variable {host : Text} {remote : Option Text}

theorem hostsText_ne_nil (hv : HostsValid host remote) : hostsText host remote ≠ [] := by
  cases remote with
  | none => exact hv.word.nonempty
  | some remote => simp [hostsText]

/-- The local host is what stands before the first comma. -/
theorem takeWhile_hostsText (hv : HostsValid host remote) :
    (hostsText host remote).takeWhile (· ∉ [',']) = host := by
  cases remote with
  | none =>
      exact List.takeWhile_eq_self_iff.mpr fun c hc => decide_eq_true (hv.word.clean c hc)
  | some remote => exact takeWhile_word hv.word (by decide)

/-- Hosts that are written down do not start like a VLAN. -/
theorem hostsText_not_vid (hv : HostsValid host remote) (hplain : ¬ vidEq <+: host) :
    ¬ vidEq <+: hostsText host remote := by
  rintro ⟨t, ht⟩
  have hword := takeWhile_hostsText hv
  rw [← ht, List.takeWhile_append_of_pos (forall_mem_of_all (by decide))] at hword
  exact hplain ⟨_, hword⟩

/-- Nor do they start with the option in front of them. -/
theorem hostsText_not_mcastloop (hv : HostsValid host remote)
    (hplain : host ++ [','] ≠ mcastloopRx) : ¬ mcastloopRx <+: hostsText host remote := by
  rintro ⟨t, ht⟩
  have hword := takeWhile_hostsText hv
  rw [← ht, show mcastloopRx ++ t = "mcastloop-rx".toList ++ ',' :: t from rfl,
    takeWhile_word ⟨by decide, forall_mem_of_all (by decide)⟩ (by decide)] at hword
  exact hplain (by rw [← hword]; rfl)

theorem vidText_not_mcastloop (v : Int) (rest : Text) :
    ¬ mcastloopRx <+: vidText (some v) ++ rest := by
  intro hpre
  exact absurd (List.cons_prefix_cons.mp hpre).1 (by decide)

/-- What is done with a local host. -/
theorem ipLocal_eq (lib : FilterLib) (protocol : Protocol) (fs : FilterSpec) (host : Text)
    (saMcast : Bool) :
    ipLocal lib protocol fs (some host) saMcast = lib.setHosts protocol saMcast fs host none := by
  refine bind_congr fun laddr => ?_
  cases laddr with
  | inet =>
      simp only [localCall, FilterLib.setAddr, setAll_cons, setAll_nil, bind_assoc,
        Outcome.done_bind, mcastAddr]
  | inet6 =>
      simp only [localCall, FilterLib.setAddr, setAll_cons, setAll_nil, bind_assoc,
        Outcome.done_bind, mcastAddr, ite_self]
      rfl
  | other => rfl

/-- What is done with a local and a remote host. -/
theorem ipFull_eq (lib : FilterLib) (protocol : Protocol) (fs : FilterSpec) (saMcast : Bool)
    (host remote : Text) :
    ipFull lib protocol fs (some host) (some remote) =
      lib.setHosts protocol saMcast fs host (some remote) := by
  refine bind_congr fun laddr => bind_congr fun raddr => ?_
  cases laddr <;> cases raddr <;>
    simp [fullCall, FilterLib.setAddr, Parsed.good]

/-- Hosts are cut up as they were put together. -/
theorem parseHosts_text (lib : FilterLib) (protocol : Protocol) (fs : FilterSpec) (saMcast : Bool)
    (hv : HostsValid host remote) :
    parseHosts lib protocol fs (hostsText host remote) saMcast =
      lib.setHosts protocol saMcast fs host remote := by
  cases remote with
  | none =>
      have hcomma : ',' ∉ host := fun hmem => hv.word.clean _ hmem (by decide)
      rw [parseHosts, hostsText, if_neg hcomma, strtok_last hv.word]
      exact ipLocal_eq lib protocol fs host saMcast
  | some remote =>
      have hcomma : ',' ∈ hostsText host (some remote) := by simp [hostsText]
      rw [parseHosts, if_pos hcomma, hostsText, strtok_eq hv.word (by decide),
        strtok_all (hv.rest remote rfl)]
      exact ipFull_eq lib protocol fs saMcast host remote

end Hosts

theorem parseIp_text (lib : FilterLib) (protocol : Protocol) (mcastloop : Bool) (vid : Option Int)
    {host : Text} {remote : Option Text} (saMcast : Bool)
    (hvid : ∀ v ∈ vid, IsInt v) (hv : HostsValid host remote)
    (hplain : ¬ vidEq <+: host ∧ host ++ [','] ≠ mcastloopRx) :
    parseIp lib protocol (.init .none)
        ((if mcastloop then mcastloopRx else []) ++ (vidText vid ++ hostsText host remote))
        saMcast =
      (FilterText.ip protocol mcastloop vid host remote).perform lib saMcast := by
  have hother : ¬ mcastloopRx <+: vidText vid ++ hostsText host remote := by
    cases vid with
    | none => exact hostsText_not_mcastloop hv hplain.2
    | some v => exact vidText_not_mcastloop v _
  have hloop : LoopRead (vidText vid ++ hostsText host remote)
      ((if mcastloop then mcastloopRx else []) ++ (vidText vid ++ hostsText host remote))
      mcastloop := by
    cases mcastloop with
    | false => exact .no hother
    | true => exact .yes
  have hread := paramRead_vidText hvid fun _ => hostsText_not_vid hv hplain.1
  rw [parseIp_eq ⟨hostsText_ne_nil hv, _, hloop, hread⟩]
  simp only [parseHosts_text lib _ _ _ hv]
  rfl

/-! ## MAC addresses -/

theorem macText_ne_nil {mac : List UInt8} (h : mac ≠ []) : macText mac ≠ [] := by
  match mac, h with
  | [b], _ => exact List.cons_ne_nil _ _
  | b :: b' :: bs, _ => exact List.cons_ne_nil _ _

theorem ofInt_toNat (b : UInt8) : UInt8.ofInt (b.toNat : Int) = b := by
  have hb := b.toNat_lt
  have hmod : ((b.toNat : Int) % 2 ^ 8).toNat = b.toNat := by omega
  rw [UInt8.ofInt, hmod, UInt8.ofNat_toNat]

/-- The octets are read as they were written, by induction on them. -/
theorem parseMac_text {mac : List UInt8} (h : mac ≠ []) :
    parseMac mac.length (macText mac) = some (mac, []) := by
  induction mac with
  | nil => exact absurd rfl h
  | cons b bs ih =>
      cases bs with
      | nil =>
          have hoct := strtol_hex b (ends_nil 16)
          rw [List.append_nil] at hoct
          simp [parseMac, macText, hoct, ofInt_toNat]
      | cons b' bs =>
          have hne : macText (b' :: bs) ≠ [] := macText_ne_nil (List.cons_ne_nil _ _)
          have hends : Ends 16 (':' :: macText (b' :: bs)) := by
            intro c hc
            obtain rfl : ':' = c := Option.some.inj hc
            decide
          have hoct := strtol_hex b hends
          have hmac := ih (List.cons_ne_nil _ _)
          rw [List.length_cons] at hmac
          rw [List.length_cons, List.length_cons, parseMac, macText, hoct]
          · simp [hne, hmac, ofInt_toNat]
          · exact fun h => absurd h (List.cons_ne_nil _ _)

theorem digitChar_plain : ∀ d, d < 16 →
    d.digitChar ≠ 'v' ∧ d.digitChar ≠ 'i' ∧ d.digitChar ≠ 't' := by decide

/-- Octets are not taken for a parameter. -/
theorem macText_plain {mac : List UInt8} (h : mac ≠ []) :
    ¬ vidEq <+: macText mac ∧ ¬ ethertypeEq <+: macText mac ∧ ¬ ipprotoEq <+: macText mac := by
  obtain ⟨b, bs, rfl⟩ := List.exists_cons_of_ne_nil h
  obtain ⟨rest, hrest⟩ : ∃ rest, macText (b :: bs) = hexByte b ++ rest := by
    cases bs with
    | nil => exact ⟨[], (List.append_nil _).symm⟩
    | cons b' bs => exact ⟨_, rfl⟩
  have hb := b.toNat_lt
  obtain ⟨hv, hi, -⟩ := digitChar_plain (b.toNat / 16) (by omega)
  obtain ⟨-, -, ht⟩ := digitChar_plain (b.toNat % 16) (by omega)
  rw [hrest]
  refine ⟨?_, ?_, ?_⟩
  · intro hpre
    exact hv (List.cons_prefix_cons.mp hpre).1.symm
  · intro hpre
    exact ht (List.cons_prefix_cons.mp (List.cons_prefix_cons.mp hpre).2).1.symm
  · intro hpre
    exact hi (List.cons_prefix_cons.mp hpre).1.symm

theorem parseEthMac_text (lib : FilterLib) (vlanId : Int) (fs : FilterSpec) {mac : List UInt8}
    (h : mac.length = 6) :
    parseEthMac lib vlanId fs (macText mac) =
      (lib.setAll fs [.ethLocal vlanId mac] >>= fun fs => .done (.good fs)) := by
  have hne : mac ≠ [] := by
    rintro rfl
    cases h
  have hmac := parseMac_text hne
  rw [h] at hmac
  simp [parseEthMac, hmac]

/-! ## The other types as they are written -/

theorem setGood_append (lib : FilterLib) (calls calls' : List FilterCall) :
    lib.setGood (calls ++ calls') =
      (lib.setAll (.init .none) calls >>= fun fs =>
        lib.setAll fs calls' >>= fun fs => .done (.good fs)) := by
  rw [FilterLib.setGood, setAll_append, bind_assoc]
  rfl

theorem parseEth_text (lib : FilterLib) {vid : Option Int} {param : EthParam} {mac : List UInt8}
    (hvid : ∀ v ∈ vid, IsInt v) (hparam : param.Valid) (hmac : mac.length = 6) :
    parseEth lib (.init .none) (vidText vid ++ (param.text ++ macText mac)) =
      lib.setGood (param.calls ++ [.ethLocal (vid.getD vlanIdAny) mac]) := by
  have hne : mac ≠ [] := by
    rintro rfl
    cases hmac
  have hmacne := macText_ne_nil hne
  obtain ⟨hnovid, hnotype, hnoproto⟩ := macText_plain hne
  have hvidEq : optParameter vidEq (vidText vid ++ (param.text ++ macText mac)) =
      .done (vid, some (param.text ++ macText mac)) := by
    refine optParameter_vidText hvid (by simp [hmacne]) fun _ hpre => ?_
    cases param with
    | none => exact hnovid hpre
    | ethertype val => exact absurd (List.cons_prefix_cons.mp hpre).1 (by decide)
    | ipproto val => exact absurd (List.cons_prefix_cons.mp hpre).1 (by decide)
  rw [parseEth, strtok_all (by simp [hmacne]), setGood_append]
  simp only [hvidEq, Outcome.done_bind]
  cases param with
  | none =>
      rw [EthParam.text, List.nil_append,
        if_neg (mt List.isPrefixOf_iff_prefix.mp hnotype),
        if_neg (mt List.isPrefixOf_iff_prefix.mp hnoproto)]
      exact parseEthMac_text lib _ _ hmac
  | ethertype val =>
      rw [EthParam.text, if_pos (isPrefixOf_paramText ..)]
      simp only [consumeParameter_text ethertypeEq_name hparam hmacne, Outcome.done_bind,
        parseEthMac_text lib _ _ hmac, EthParam.calls, setAll_cons, setAll_nil, bind_assoc]
  | ipproto val =>
      have hother : ¬ ethertypeEq.isPrefixOf (paramText ipprotoEq val ++ macText mac) = true := by
        intro hpre
        rw [List.isPrefixOf_iff_prefix] at hpre
        exact absurd (List.cons_prefix_cons.mp hpre).1 (by decide)
      rw [EthParam.text, if_neg hother, if_pos (isPrefixOf_paramText ..)]
      simp only [consumeParameter_text ipprotoEq_name hparam hmacne, Outcome.done_bind,
        parseEthMac_text lib _ _ hmac, EthParam.calls, setAll_cons, setAll_nil, bind_assoc]

/-- Any number at all, clamped to a `long`. -/
theorem parseNumber_text (lib : FilterLib) (setter : Int → FilterCall) {vid : Option Int}
    (hvid : ∀ v ∈ vid, IsInt v) (val : Int) :
    parseNumber lib setter (.init .none) (vidText vid ++ numeral val) =
      lib.setGood (vlanCalls vid ++ [setter (clampLong val)]) := by
  have hne := numeral_ne_nil val
  have hplain : ¬ vidEq <+: numeral val := by
    intro hpre
    rcases mem_numeral (hpre.subset (by decide : 'v' ∈ vidEq)) with h | h
    · exact absurd h (by decide)
    · exact absurd h (by decide)
  have hvidEq := optParameter_vidText hvid hne fun _ => hplain
  have hval := strtol_numeral val (ends_nil 10)
  rw [List.append_nil] at hval
  rw [parseNumber, strtok_all (by simp [hne]), setGood_append]
  simp only [hvidEq, Outcome.done_bind, setVlan_eq, hval, ne_eq,
    not_true_eq_false, if_false, setAll_cons, setAll_nil, bind_assoc, Outcome.pure_eq]

/-- A VLAN behind `multicast-mis` or `unicast-mis`. -/
theorem parseMis_text (lib : FilterLib) (call : FilterCall) (type : Text) {vid : Int}
    (hvid : IsInt vid) :
    parseMis lib call (.init .none) type (type ++ ':' :: (vidEq ++ numeral vid))
        (vidEq ++ numeral vid) = lib.setGood (call :: vlanCalls (some vid)) := by
  have hpre : vidEq.isPrefixOf (vidEq ++ numeral vid) = true :=
    List.isPrefixOf_iff_prefix.mpr (List.prefix_append ..)
  have hatoi : atoi (numeral vid) = vid := atoi_numeral_int hvid
  have hstrtok := strtok_all (s := vidEq ++ numeral vid) (List.cons_ne_nil _ _)
  simp [parseMis, hstrtok, hpre, strchr_param vidEq_name, numeral_ne_nil, hatoi,
    FilterLib.setGood, vlanCalls]

theorem parseMis_alone (lib : FilterLib) (call : FilterCall) (type saved : Text) :
    parseMis lib call (.init .none) type type saved = lib.setGood [call] := by
  simp [parseMis, FilterLib.setGood]

/-! ## Round trip -/

theorem Protocol.name_word (protocol : Protocol) : Word [':'] protocol.name.toList := by
  cases protocol <;> exact ⟨by decide, forall_mem_of_all (by decide)⟩

theorem FilterText.type_word (t : FilterText) : Word [':'] t.type.toList := by
  cases t with
  | ip protocol => exact protocol.name_word
  | _ =>
      rw [FilterText.type]
      exact ⟨by decide, forall_mem_of_all (by decide)⟩

theorem parseType_protocol (lib : FilterLib) (protocol : Protocol) (saved sIn : Text)
    (saMcast : Bool) :
    parseType lib protocol.name.toList saved sIn saMcast =
      parseIp lib protocol (.init .none) saved saMcast := by
  cases protocol <;> simp [parseType, Protocol.name]

/-- The branch that a type is sent to. -/
theorem FilterText.parseType_type (lib : FilterLib) (saved sIn : Text) (saMcast : Bool)
    (t : FilterText) :
    parseType lib t.type.toList saved sIn saMcast =
      match t with
      | ip protocol .. => parseIp lib protocol (.init .none) saved saMcast
      | eth .. => parseEth lib (.init .none) saved
      | ethertype .. => parseEthertype lib (.init .none) saved
      | ipproto .. => parseIpproto lib (.init .none) saved
      | multicastAll => parseAll lib .multicastAll (.init .none) "multicast-all".toList sIn
      | unicastAll => parseAll lib .unicastAll (.init .none) "unicast-all".toList sIn
      | multicastMis _ =>
          parseMis lib .multicastMismatch (.init .none) "multicast-mis".toList sIn saved
      | unicastMis _ => parseMis lib .unicastMismatch (.init .none) "unicast-mis".toList sIn saved
      | sniff _ => parseSniff lib (.init .none) "sniff".toList sIn saved
      | txSniff => setOnly lib (.init .none) .txPortSniff
      | blockKernel => setOnly lib (.init .none) .blockKernel
      | blockKernelUnicast => setOnly lib (.init .none) .blockKernelUnicast
      | blockKernelMulticast => setOnly lib (.init .none) .blockKernelMulticast := by
  cases t with
  | ip protocol => exact parseType_protocol lib protocol saved sIn saMcast
  | _ => simp [parseType, FilterText.type]

theorem FilterText.strtok_text (t : FilterText) :
    strtok [':'] t.text = (some t.type.toList, t.args.getD []) := by
  rw [FilterText.text]
  cases t.args with
  | none => exact strtok_last t.type_word
  | some args => exact strtok_eq t.type_word (by decide) args

/-- A number is clamped, whatever it is. -/
theorem filterParse_ethertype (lib : FilterLib) (saMcast : Bool) {vid : Option Int}
    (hvid : ∀ v ∈ vid, IsInt v) (val : Int) :
    filterParse lib (FilterText.ethertype vid val).text saMcast =
      (FilterText.ethertype vid (clampLong val)).perform lib saMcast := by
  simp only [filterParse, FilterText.strtok_text, FilterText.parseType_type]
  exact parseNumber_text lib _ hvid val

theorem filterParse_ipproto (lib : FilterLib) (saMcast : Bool) {vid : Option Int}
    (hvid : ∀ v ∈ vid, IsInt v) (val : Int) :
    filterParse lib (FilterText.ipproto vid val).text saMcast =
      (FilterText.ipproto vid (clampLong val)).perform lib saMcast := by
  simp only [filterParse, FilterText.strtok_text, FilterText.parseType_type]
  exact parseNumber_text lib _ hvid val

/-- What is written down is parsed to its meaning, with every library. -/
theorem filterParse_text (lib : FilterLib) (saMcast : Bool) (t : FilterText) (hv : t.Valid)
    (hplain : t.Plain) : filterParse lib t.text saMcast = t.perform lib saMcast := by
  simp only [filterParse, t.strtok_text, t.parseType_type]
  cases t with
  | ip protocol mcastloop vid host remote =>
      exact parseIp_text lib protocol mcastloop vid saMcast hv.1 hv.2 hplain
  | eth vid param mac => exact parseEth_text lib hv.1 hv.2.1 hv.2.2
  | ethertype vid val =>
      have h := parseNumber_text lib (fun v => .ethType (htons (BitVec.ofInt 16 v))) hv.1 val
      rw [clampLong_of_range hv.2.1 hv.2.2] at h
      exact h
  | ipproto vid val =>
      have h := parseNumber_text lib (fun v => .ipProto (BitVec.ofInt 8 v)) hv.1 val
      rw [clampLong_of_range hv.2.1 hv.2.2] at h
      exact h
  | multicastAll => exact setOnly_eq lib _
  | unicastAll => exact setOnly_eq lib _
  | multicastMis vid =>
      cases vid with
      | none => exact parseMis_alone lib _ _ _
      | some vid => exact parseMis_text lib _ _ (hv vid rfl)
  | unicastMis vid =>
      cases vid with
      | none => exact parseMis_alone lib _ _ _
      | some vid => exact parseMis_text lib _ _ (hv vid rfl)
  | sniff promiscuous =>
      cases promiscuous with
      | true => exact setOnly_eq lib _
      | false => exact setOnly_eq lib _
  | txSniff => exact setOnly_eq lib _
  | blockKernel => exact setOnly_eq lib _
  | blockKernelUnicast => exact setOnly_eq lib _
  | blockKernelMulticast => exact setOnly_eq lib _

/-- A library whose calls succeed, and where every name is one address. -/
def FilterLib.succeeding : FilterLib where
  set _ _ := 0
  hostport _ _ := (0, .inet 0x010000e0 0x3175)

/-- A multicast group on a VLAN, with the loopback option. -/
theorem filterParse_text_group :
    filterParse .succeeding
        (FilterText.ip .udp true (some 7) "224.0.0.1:30001".toList none).text true =
      .done { rc := 0
              fs := ⟨.mcastLoopReceive, [.vlan 7, .ip4Local .udp 0x010000e0 0x3175]⟩
              mcast := some 0x010000e0 } :=
  (filterParse_text .succeeding true
    (.ip .udp true (some 7) "224.0.0.1:30001".toList none)
    ⟨by simp [IsInt], ⟨by decide, forall_mem_of_all (by decide)⟩, by simp⟩
    ⟨by decide, by decide⟩).trans rfl

-- The filter of `init`.
example (lib : FilterLib) (saMcast : Bool) :
    filterParse lib "sniff".toList saMcast = setOnly lib (.init .none) (.portSniff true) := rfl

/-! ## Numbers that do not fit -/

theorem ofInt_emod (w : Nat) (v : Int) : BitVec.ofInt w (v % 2 ^ w) = BitVec.ofInt w v := by
  apply BitVec.eq_of_toNat_eq
  rw [BitVec.toNat_ofInt, BitVec.toNat_ofInt, Nat.cast_pow, Nat.cast_ofNat, Int.emod_emod]

/-- The numbers of `ethertype` and `ipproto` filters are never refused: each is
as good as one that fits. -/
theorem filterParse_cut (lib : FilterLib) (saMcast : Bool) {vid : Option Int}
    (hvid : ∀ v ∈ vid, IsInt v) (val : Int) :
    filterParse lib (FilterText.ethertype vid val).text saMcast =
        filterParse lib (FilterText.ethertype vid (clampLong val % 2 ^ 16)).text saMcast ∧
      filterParse lib (FilterText.ipproto vid val).text saMcast =
        filterParse lib (FilterText.ipproto vid (clampLong val % 2 ^ 8)).text saMcast := by
  have h16 : clampLong (clampLong val % 2 ^ 16) = clampLong val % 2 ^ 16 :=
    clampLong_of_range (by omega) (by omega)
  have h8 : clampLong (clampLong val % 2 ^ 8) = clampLong val % 2 ^ 8 :=
    clampLong_of_range (by omega) (by omega)
  constructor
  · rw [filterParse_ethertype lib saMcast hvid, filterParse_ethertype lib saMcast hvid, h16]
    simp only [FilterText.perform, ofInt_emod]
  · rw [filterParse_ipproto lib saMcast hvid, filterParse_ipproto lib saMcast hvid, h8]
    simp only [FilterText.perform, ofInt_emod]

/-- `ethertype:67584` is `ethertype:2048`, IPv4. -/
theorem filterParse_cut_ipv4 :
    filterParse .succeeding (FilterText.ethertype none 67584).text false =
        filterParse .succeeding (FilterText.ethertype none (clampLong 67584 % 2 ^ 16)).text false ∧
      filterParse .succeeding (FilterText.ipproto none 67584).text false =
        filterParse .succeeding (FilterText.ipproto none (clampLong 67584 % 2 ^ 8)).text false :=
  filterParse_cut .succeeding false (by simp) 67584

end Efvi
