import DceSub.Base.Numeral
import DceSub.Base.Outcome
import DceSub.Client.Exanic

/-!
# How the ExaNIC client starts

`main` of `dce-sub-exanic.c` before its loop.  The argument is meant to be the
name of a card and the number of a port, with a colon between them.  `main` looks
for a colon and then takes two tokens, but a colon does not make two tokens: for
an argument such as `exanic0:` it follows a null pointer.  `exanicMain_tokens` says
for every argument what happens, and `exanic_crash_iff` when it goes wrong.

The number is read by `atoi` and kept in a byte.  So every number is accepted,
and numbers that agree modulo 256 are the same port (`exanic_port_cut`).
-/

namespace Client

open Base

/-- The calls of the ExaNIC library in front of the loop.  The text of an error is
what `exanic_get_last_error` returns after it. -/
structure ExanicLib (Nic Rx : Type) where
  /-- `exanic_acquire_handle`. -/
  acquireHandle : Text → Except Text Nic
  /-- `exanic_acquire_rx_buffer`, with the port and the buffer. -/
  acquireRxBuffer : Nic → BitVec 8 → Int → Except Text Rx

/-- Where `main` gets: into the loop, or back with `-1`. -/
inductive Next (Rx : Type) where
  | loop (rx : Rx)
  | exit (err : Text)
deriving DecidableEq

/-- What `main` has printed on `stdout` before its loop, and where it gets. -/
structure Start (Rx : Type) where
  out : Text
  next : Next Rx
deriving DecidableEq

variable {Nic Rx : Type}

/-- The usage, on `stderr`. -/
def exanicUsage (argv0 : Text) : Start Rx where
  out := []
  next := .exit ("Usage: ".toList ++ argv0 ++ " exanic[0-N]:[0,1]\n".toList)

/-- From the name and the port on. -/
def ExanicLib.start (lib : ExanicLib Nic Rx) (nicName : Text) (nicPort : BitVec 8) :
    Start Rx where
  out := "nic_name:".toList ++ nicName ++ ", nic_port:".toList ++ numeral nicPort.toNat ++
    " \n".toList
  next :=
    match lib.acquireHandle nicName with
    | .error err => .exit ("exanic_acquire_handle: ".toList ++ err ++ "\n".toList)
    | .ok nic =>
        match lib.acquireRxBuffer nic nicPort 0 with
        | .error err => .exit ("exanic_acquire_rx_buffer: ".toList ++ err ++ "\n".toList)
        | .ok rx => .loop rx

/-- `main` up to its loop, called as `argv0` with the arguments `args`. -/
def exanicMain (lib : ExanicLib Nic Rx) (argv0 : Text) (args : List Text) : Outcome (Start Rx) :=
  match args with
  | [argv1] =>
      match strchr ':' argv1 with
      | some _ =>
          match strtok [':'] argv1 with
          | (nicName, saved) =>
              match (strtok [':'] saved).1, nicName with
              -- `atoi(NULL)`
              | none, _ => .crash
              -- `printf("...%s...", NULL, ...)`
              | some _, none => .crash
              | some port, some nicName =>
                  .done (lib.start nicName (BitVec.ofInt 8 (atoi port)))
      | none => .done (exanicUsage argv0)
  | _ => .done (exanicUsage argv0)

/-! ## Arguments -/

/-- What `main` does with its argument, in terms of the tokens. -/
theorem exanicMain_tokens (lib : ExanicLib Nic Rx) (argv0 argv1 : Text) :
    exanicMain lib argv0 [argv1] =
      if ':' ∈ argv1 then
        match tokens [':'] argv1 with
        | nicName :: port :: _ => .done (lib.start nicName (BitVec.ofInt 8 (atoi port)))
        | _ => .crash
      else .done (exanicUsage argv0) := by
  rw [exanicMain]
  split
  next s hs =>
    have hmem : ':' ∈ argv1 := by
      by_contra hnot
      rw [strchr_eq_none_iff.mpr hnot] at hs
      cases hs
    obtain ⟨hfirst, hrest⟩ := strtok_tokens [':'] argv1
    obtain ⟨hsecond, -⟩ := strtok_tokens [':'] (strtok [':'] argv1).2
    rw [hrest] at hsecond
    rw [if_pos hmem]
    simp only [hfirst, hsecond]
    -- as many tokens as there are
    cases tokens [':'] argv1 with
    | nil => rfl
    | cons nicName rest =>
        cases rest with
        | nil => rfl
        | cons port rest => rfl
  next hs => rw [if_neg (strchr_eq_none_iff.mp hs)]

/-- `main` follows a null pointer exactly if the argument has a colon, but less
than two tokens. -/
theorem exanic_crash_iff (lib : ExanicLib Nic Rx) (argv0 : Text) (args : List Text) :
    exanicMain lib argv0 args = .crash ↔
      ∃ argv1, args = [argv1] ∧ ':' ∈ argv1 ∧ (tokens [':'] argv1).length < 2 := by
  obtain _ | ⟨argv1, _ | ⟨argv2, rest⟩⟩ := args
  · simp [exanicMain]
  · rw [exanicMain_tokens]
    by_cases hmem : ':' ∈ argv1
    · rw [if_pos hmem]
      cases htok : tokens [':'] argv1 with
      | nil => simp [hmem, htok]
      | cons nicName rest => cases rest <;> simp [hmem, htok]
    · simp [hmem]
  · simp [exanicMain]

/-- A machine with one card that has two ports. -/
def oneCard : ExanicLib Unit (BitVec 8) where
  acquireHandle nicName :=
    if nicName = "exanic0".toList then .ok () else .error "no such card".toList
  acquireRxBuffer _ port _ := if port < 2 then .ok port else .error "no such port".toList

example : exanicMain oneCard "dce-sub".toList ["exanic0:".toList] = .crash := by decide

theorem colon_not_mem_numeral (z : Int) : ':' ∉ numeral z := by
  intro h
  rcases mem_numeral h with h | h
  · exact absurd h (by decide)
  · exact absurd h (by decide)

theorem ofInt_atoi {z : Int} (hlo : -2 ^ 63 ≤ z) (hhi : z < 2 ^ 63) :
    BitVec.ofInt 8 (atoi (numeral z)) = BitVec.ofInt 8 z := by
  have hread := strtol_numeral z (ends_nil 10)
  rw [List.append_nil, clampLong_of_range hlo hhi] at hread
  rw [atoi, hread, toInt32]
  apply BitVec.eq_of_toInt_eq
  rw [BitVec.toInt_ofInt, BitVec.toInt_ofInt, BitVec.toInt_ofInt]
  exact Int.bmod_bmod_of_dvd (by decide)

/-- A name and a number are taken for what they are, except that only the number
modulo 256 matters. -/
theorem exanic_port_cut (lib : ExanicLib Nic Rx) (argv0 nicName : Text)
    (hname : Word [':'] nicName) (port : Int) (hlo : -2 ^ 63 ≤ port) (hhi : port < 2 ^ 63) :
    exanicMain lib argv0 [nicName ++ ':' :: numeral port] =
      .done (lib.start nicName (BitVec.ofInt 8 port)) := by
  have hport : Word [':'] (numeral port) :=
    ⟨numeral_ne_nil port, fun c hc hmem =>
      colon_not_mem_numeral port (List.mem_singleton.mp hmem ▸ hc)⟩
  have htok : tokens [':'] (nicName ++ ':' :: numeral port) = [nicName, numeral port] := by
    rw [tokens_cons hname (List.mem_singleton_self _), tokens_last hport]
  rw [exanicMain_tokens, if_pos (by simp), htok]
  simp only [ofInt_atoi hlo hhi]

/-- Port 257 is port 1. -/
theorem exanic_port_cut_257 :
    exanicMain oneCard "dce-sub".toList ["exanic0:257".toList] =
      .done ⟨"nic_name:exanic0, nic_port:1 \n".toList, .loop 1⟩ :=
  exanic_port_cut oneCard "dce-sub".toList "exanic0".toList
    ⟨by decide, forall_mem_of_all (by decide)⟩ 257 (by decide) (by decide)

end Client
