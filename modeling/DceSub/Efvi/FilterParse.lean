import DceSub.Base.Bytes
import DceSub.Base.Numeral
import DceSub.Base.Outcome

/-!
# `filter_parse`

A filter is given as a text: a type, and for most types a list of parameters
behind a colon.  `filter_parse` cuts the text up with `strtok`, reads numbers
with `atoi` and `strtol`, and passes what it has read to the setters of `ef_vi`.

The setters and the resolver of host names are closed libraries.  A filter is
therefore modelled by the calls that have built it, and a library by what its
functions return (`FilterLib`).  A call whose code is negative ends the program
(`TRY`).  `goto out` is a result with the code `-EINVAL`.  The result of `strtok` is
given to the resolver unchecked, which follows the pointer.
-/

namespace Efvi

open Base

/-! ## Filters -/

/-- `IPPROTO_UDP` and `IPPROTO_TCP`. -/
inductive Protocol where
  | udp
  | tcp
deriving DecidableEq

/-- `enum ef_filter_flags`. -/
inductive FilterFlags where
  | none
  | mcastLoopReceive
deriving DecidableEq

/-- The calls of `ef_filter_spec_set_*`.  Hosts and ports are in network order. -/
inductive FilterCall where
  | ip4Local (protocol : Protocol) (host : BitVec 32) (port : BitVec 16)
  | ip4Full (protocol : Protocol) (host : BitVec 32) (port : BitVec 16) (rhost : BitVec 32)
      (rport : BitVec 16)
  | ip6Local (protocol : Protocol) (host : BitVec 128) (port : BitVec 16)
  | ip6Full (protocol : Protocol) (host : BitVec 128) (port : BitVec 16) (rhost : BitVec 128)
      (rport : BitVec 16)
  | vlan (vlanId : Int)
  | ethLocal (vlanId : Int) (mac : List UInt8)
  | ethType (ethertype : BitVec 16)
  | ipProto (ipproto : BitVec 8)
  | unicastAll
  | multicastAll
  | unicastMismatch
  | multicastMismatch
  | portSniff (promiscuous : Bool)
  | txPortSniff
  | blockKernel
  | blockKernelUnicast
  | blockKernelMulticast
deriving DecidableEq

/-- `ef_filter_spec`: the flags it was initialised with, and what was set since. -/
structure FilterSpec where
  flags : FilterFlags
  calls : List FilterCall
deriving DecidableEq

/-- `ef_filter_spec_init`. -/
def FilterSpec.init (flags : FilterFlags) : FilterSpec := ⟨flags, []⟩

/-- `sa_family_t`. -/
inductive Family where
  | unspec
  | inet
  | inet6
  | other (af : Nat)
deriving DecidableEq

/-- `struct sockaddr_storage`. -/
inductive SockAddr where
  | inet (addr : BitVec 32) (port : BitVec 16)
  | inet6 (addr : BitVec 128) (port : BitVec 16)
  | other (af : Nat)
deriving DecidableEq

/-- `ss_family`. -/
def SockAddr.family : SockAddr → Family
  | .inet .. => .inet
  | .inet6 .. => .inet6
  | .other af => .other af

/-- The libraries `filter_parse` calls. -/
structure FilterLib where
  /-- The code of a setter. -/
  set : FilterSpec → FilterCall → Int
  /-- `ci_hostport_to_sockaddr`, on a pointer that is not null. -/
  hostport : Family → Text → Int × SockAddr

namespace FilterLib

/-- `TRY(ef_filter_spec_set_...)`. -/
def trySet (lib : FilterLib) (fs : FilterSpec) (call : FilterCall) : Outcome FilterSpec :=
  if lib.set fs call < 0 then .abort else .done { fs with calls := fs.calls ++ [call] }

/-- `TRY(ci_hostport_to_sockaddr(...))`.  The resolver searches the text for a
character, and does not check the pointer. -/
def tryHostport (lib : FilterLib) (af : Family) : Option Text → Outcome SockAddr
  | none => .crash
  | some hp => if (lib.hostport af hp).1 < 0 then .abort else .done (lib.hostport af hp).2

end FilterLib

/-! ## Results -/

/-- What `filter_parse` leaves: its code, `*fs`, the multicast address if it is
written, and what goes to `stderr`. -/
structure Parsed where
  rc : Int
  fs : FilterSpec
  mcast : Option (BitVec 32) := none
  err : Text := []
deriving DecidableEq

/-- `EINVAL`. -/
def einval : Int := 22

/-- `goto out`. -/
def Parsed.bad (fs : FilterSpec) : Parsed := { rc := -einval, fs := fs }

/-- `rc = 0`. -/
def Parsed.good (fs : FilterSpec) : Parsed := { rc := 0, fs := fs }

/-! ## Parameters -/

/-- `consume_parameter`: the value, and `*arg` afterwards. -/
def consumeParameter (arg : Text) : Outcome (Int × Option Text) :=
  match (strtok [','] arg).1 with
  | none => .crash
  | some param =>
      match strchr '=' param with
      | none => .crash
      | some param =>
          if param.tail = [] then .done (0, none)
          else .done (atoi param.tail, (strtok [] (strtok [','] arg).2).1)

/-- The texts in front of a parameter. -/
def vidEq : Text := "vid=".toList
/-- See `vidEq`. -/
def ethertypeEq : Text := "ethertype=".toList
/-- See `vidEq`. -/
def ipprotoEq : Text := "ipproto=".toList

/-- A parameter is consumed if `remainder` starts with its name. -/
def optParameter (name remainder : Text) : Outcome (Option Int × Option Text) :=
  if name.isPrefixOf remainder then do
    let r ← consumeParameter remainder
    return (some r.1, r.2)
  else return (none, some remainder)

/-- `TRY(ef_filter_spec_set_vlan(fs, vlan_id))` if a VLAN was given. -/
def setVlan (lib : FilterLib) (fs : FilterSpec) : Option Int → Outcome FilterSpec
  | none => return fs
  | some vlanId => lib.trySet fs (.vlan vlanId)

/-- `htons`. -/
def htons (x : BitVec 16) : BitVec 16 := ntohs x

/-! ## The types -/

/-- The text in front of `mcastloop-rx,` filters. -/
def mcastloopRx : Text := "mcastloop-rx,".toList

/-- `mcastloop-rx,` is taken off, and sets a flag. -/
def optMcastloop (fs : FilterSpec) (remainder : Text) : FilterSpec × Option Text :=
  if mcastloopRx.isPrefixOf remainder then
    (.init .mcastLoopReceive, (strtok [] (strtok [','] remainder).2).1)
  else (fs, some remainder)

/-- A local and a remote host. -/
def ipFull (lib : FilterLib) (protocol : Protocol) (fs : FilterSpec)
    (hostport remainder : Option Text) : Outcome Parsed := do
  let laddr ← lib.tryHostport .unspec hostport
  let raddr ← lib.tryHostport laddr.family remainder
  match laddr, raddr with
  | .inet lhost lport, .inet rhost rport =>
      let fs ← lib.trySet fs (.ip4Full protocol lhost lport rhost rport)
      return .good fs
  | .inet6 lhost lport, .inet6 rhost rport =>
      let fs ← lib.trySet fs (.ip6Full protocol lhost lport rhost rport)
      return .good fs
  | _, _ =>
      return { Parsed.bad fs with
        err := "ERROR: invalid families in local/remote hosts\n".toList }

/-- A local host only. -/
def ipLocal (lib : FilterLib) (protocol : Protocol) (fs : FilterSpec) (hostport : Option Text)
    (saMcast : Bool) : Outcome Parsed := do
  let laddr ← lib.tryHostport .unspec hostport
  match laddr with
  | .inet host port =>
      let fs ← lib.trySet fs (.ip4Local protocol host port)
      return { Parsed.good fs with mcast := if saMcast then some host else none }
  | .inet6 host port =>
      let fs ← lib.trySet fs (.ip6Local protocol host port)
      return .good fs
  | .other _ =>
      return { Parsed.bad fs with err := "ERROR: invalid family in local host\n".toList }

/-- The hosts of a `udp` or `tcp` filter. -/
def parseHosts (lib : FilterLib) (protocol : Protocol) (fs : FilterSpec) (remainder : Text)
    (saMcast : Bool) : Outcome Parsed :=
  if ',' ∈ remainder then
    ipFull lib protocol fs (strtok [','] remainder).1 (strtok [] (strtok [','] remainder).2).1
  else ipLocal lib protocol fs (strtok [','] remainder).1 saMcast

/-- `udp` and `tcp`. -/
def parseIp (lib : FilterLib) (protocol : Protocol) (fs : FilterSpec) (saved : Text)
    (saMcast : Bool) : Outcome Parsed :=
  match (strtok [] saved).1 with
  | none => return .bad fs
  | some remainder =>
      match optMcastloop fs remainder with
      | (fs, none) => return .bad fs
      | (fs, some remainder) => do
          match ← optParameter vidEq remainder with
          | (_, none) => return .bad fs
          | (vid, some remainder) =>
              let fs ← setVlan lib fs vid
              parseHosts lib protocol fs remainder saMcast

/-- The loop over the octets of a MAC address, with `n` of them to come. -/
def parseMac : Nat → Text → Option (List UInt8 × Text)
  | 0, remainder => some ([], remainder)
  | n + 1, remainder =>
      let r := strtol 16 remainder
      if n ≠ 0 then
        if r.2.head? ≠ some ':' then none
        else if r.2.tail = [] then none
        else (parseMac n r.2.tail).map fun m => (UInt8.ofInt r.1 :: m.1, m.2)
      else some ([UInt8.ofInt r.1], r.2)

/-- The octets of an `eth` filter, and its setter. -/
def parseEthMac (lib : FilterLib) (vlanId : Int) (fs : FilterSpec) (remainder : Text) :
    Outcome Parsed :=
  match parseMac 6 remainder with
  | none => return .bad fs
  | some (mac, remainder) =>
      if remainder ≠ [] then return .bad fs
      else do
        let fs ← lib.trySet fs (.ethLocal vlanId mac)
        return .good fs

/-- `EF_FILTER_VLAN_ID_ANY`. -/
def vlanIdAny : Int := -1

/-- `eth`. -/
def parseEth (lib : FilterLib) (fs : FilterSpec) (saved : Text) : Outcome Parsed :=
  match (strtok [] saved).1 with
  | none => return .bad fs
  | some remainder => do
      match ← optParameter vidEq remainder with
      | (_, none) => return .bad fs
      | (vid, some remainder) =>
          let vlanId := vid.getD vlanIdAny
          if ethertypeEq.isPrefixOf remainder then
            match ← consumeParameter remainder with
            | (_, none) => return .bad fs
            | (val, some remainder) =>
                let fs ← lib.trySet fs (.ethType (htons (BitVec.ofInt 16 val)))
                parseEthMac lib vlanId fs remainder
          else if ipprotoEq.isPrefixOf remainder then
            match ← consumeParameter remainder with
            | (_, none) => return .bad fs
            | (val, some remainder) =>
                let fs ← lib.trySet fs (.ipProto (BitVec.ofInt 8 val))
                parseEthMac lib vlanId fs remainder
          else parseEthMac lib vlanId fs remainder

/-- `ethertype` and `ipproto`: an optional VLAN, and a number for a setter. -/
def parseNumber (lib : FilterLib) (setter : Int → FilterCall) (fs : FilterSpec) (saved : Text) :
    Outcome Parsed :=
  match (strtok [] saved).1 with
  | none => return .bad fs
  | some remainder => do
      match ← optParameter vidEq remainder with
      | (_, none) => return .bad fs
      | (vid, some remainder) =>
          let fs ← setVlan lib fs vid
          let r := strtol 10 remainder
          if r.2 ≠ [] then return .bad fs
          else
            let fs ← lib.trySet fs (setter r.1)
            return .good fs

/-- `ethertype`. -/
def parseEthertype (lib : FilterLib) (fs : FilterSpec) (saved : Text) : Outcome Parsed :=
  parseNumber lib (fun v => .ethType (htons (BitVec.ofInt 16 v))) fs saved

/-- `ipproto`. -/
def parseIpproto (lib : FilterLib) (fs : FilterSpec) (saved : Text) : Outcome Parsed :=
  parseNumber lib (fun v => .ipProto (BitVec.ofInt 8 v)) fs saved

/-- A setter without parameters. -/
def setOnly (lib : FilterLib) (fs : FilterSpec) (call : FilterCall) : Outcome Parsed := do
  let fs ← lib.trySet fs call
  return .good fs

/-- `multicast-all` and `unicast-all`: nothing may follow. -/
def parseAll (lib : FilterLib) (call : FilterCall) (fs : FilterSpec) (type sIn : Text) :
    Outcome Parsed :=
  if type.length ≠ sIn.length then return .bad fs else setOnly lib fs call

/-- `multicast-mis` and `unicast-mis`: only a VLAN may follow. -/
def parseMis (lib : FilterLib) (call : FilterCall) (fs : FilterSpec) (type sIn saved : Text) :
    Outcome Parsed := do
  let fs ← lib.trySet fs call
  if type.length ≠ sIn.length then
    match (strtok [] saved).1 with
    | none => return .bad fs
    | some remainder =>
        if ! vidEq.isPrefixOf remainder then return .bad fs
        else
          match strchr '=' remainder with
          | none => .crash
          | some vlan =>
              if vlan.tail = [] then return .bad fs
              else
                let fs ← lib.trySet fs (.vlan (atoi vlan.tail))
                return .good fs
  else return .good fs

/-- `sniff`. -/
def parseSniff (lib : FilterLib) (fs : FilterSpec) (type sIn saved : Text) : Outcome Parsed :=
  if type.length = sIn.length then setOnly lib fs (.portSniff true)
  else
    match (strtok [] saved).1 with
    | none => return .bad fs
    | some remainder =>
        if remainder = "promisc".toList then setOnly lib fs (.portSniff true)
        else if remainder = "no-promisc".toList then setOnly lib fs (.portSniff false)
        else return .bad fs

/-- The branch of a type.  `sIn` is the text as it was given, `saved` what
`strtok` goes on with behind the type. -/
def parseType (lib : FilterLib) (type saved sIn : Text) (saMcast : Bool) : Outcome Parsed :=
  let fs := FilterSpec.init .none
  if type = "udp".toList ∨ type = "tcp".toList then
    parseIp lib (if type = "tcp".toList then .tcp else .udp) fs saved saMcast
  else if type = "eth".toList then parseEth lib fs saved
  else if type = "ethertype".toList then parseEthertype lib fs saved
  else if type = "ipproto".toList then parseIpproto lib fs saved
  else if type = "multicast-all".toList then parseAll lib .multicastAll fs type sIn
  else if type = "unicast-all".toList then parseAll lib .unicastAll fs type sIn
  else if type = "multicast-mis".toList then
    parseMis lib .multicastMismatch fs type sIn saved
  else if type = "unicast-mis".toList then parseMis lib .unicastMismatch fs type sIn saved
  else if type = "sniff".toList then parseSniff lib fs type sIn saved
  else if type = "tx-sniff".toList then setOnly lib fs .txPortSniff
  else if type = "block-kernel".toList then setOnly lib fs .blockKernel
  else if type = "block-kernel-unicast".toList then setOnly lib fs .blockKernelUnicast
  else if type = "block-kernel-multicast".toList then setOnly lib fs .blockKernelMulticast
  else return .bad fs

/-- `filter_parse`; `saMcast` tells whether the last pointer is not null. -/
def filterParse (lib : FilterLib) (sIn : Text) (saMcast : Bool) : Outcome Parsed :=
  match strtok [':'] sIn with
  | (none, _) => return .bad (.init .none)
  | (some type, saved) => parseType lib type saved sIn saMcast

end Efvi
