/-
# The STUN and TURN servers

`PJStunTurn::set_stun_turn` writes the servers and the account it is given into a configuration, tries
this configuration, and takes the former one again if the trial fails
(`plugins/pjsip/pj-stun-turn.cpp`).  But the configuration only refers to texts, which are held by
other members of the object, and those are overwritten before the trial: a former configuration that
is taken again refers to texts that have changed, or that are not there any more.

`all_right_iff` says of which calls, in any order, the configuration is the right one afterwards.
A call that fails must have given no text where there was one, except for one that begins with it and
is written to the same place; a call that succeeds must have given a TURN server, or no account.
-/

import LibSwitcher.Lib.Machine
import LibSwitcher.Utils.SerializeString
import LibSwitcher.Utils.StringUtils

namespace LibSwitcher
namespace Pjsip

open Stringutils

/-- The members that hold the texts of the configuration. -/
inductive Member
  | stunSrv
  | turnSrv
  | turnUser
  | turnPass
  deriving DecidableEq

/-- A `std::string`, and the buffer that it has its text in. -/
structure StdString where
  text : String
  buffer : ℕ
  deriving DecidableEq

namespace StdString

/-- What is in the buffer of a string, `c_str()`. -/
def cStr (s : StdString) : List Char := s.text.toList ++ ['\x00']

/-- An assignment writes to the buffer, or moves the string to another one. -/
def assign (s : StdString) (inPlace : Bool) (text : String) : StdString :=
  ⟨text, if inPlace then s.buffer else s.buffer + 1⟩

end StdString

/-- A `pj_str_t`: the buffer that it points to, and its length. -/
structure PjStr where
  ptr : Option ℕ
  slen : ℕ
  deriving DecidableEq

namespace PjStr

/-- The text that is referred to, if the buffer is still the one of the string. -/
def read (r : PjStr) (s : StdString) : Option String :=
  match r.ptr with
  | none => some ""
  | some buffer =>
      if buffer = s.buffer ∧ r.slen ≤ s.cStr.length then some (String.ofList (s.cStr.take r.slen))
      else none

end PjStr

/-- `pj_stun_auth_cred_type`. -/
inductive AuthCredType
  | static
  | dynamic
  deriving DecidableEq

/-- `pj_stun_passwd_type`. -/
inductive PasswdType
  | plain
  | hashed
  deriving DecidableEq

/-- `pj_turn_tp_type`. -/
inductive TurnTpType
  | udp
  | tcp
  | tls
  deriving DecidableEq

/-- What `set_stun_turn` sets in the configuration that is no text. -/
structure IceOptions where
  stunPort : ℕ
  stunKaInterval : ℕ
  turnPort : ℕ
  authCredType : AuthCredType
  dataType : PasswdType
  connType : TurnTpType
  turnKaInterval : ℕ
  deriving DecidableEq

/-- `PJStunTurn`. -/
structure PJStunTurn where
  lowerCaseTurnAccount : Bool
  strings : Member → StdString
  refs : Member → PjStr
  opts : IceOptions
  stunTurnValid : Bool

/-- The arguments of `set_stun_turn`. -/
structure StunTurnArgs where
  stun : String
  turn : String
  turnUser : String
  turnPass : String

/-- `PJ_STUN_PORT`. -/
def stunPort : ℕ := 3478

/-- `atoi`, of numbers that are cut off at the limits of a `long`. -/
def atoi (cs : List Char) : ℤ :=
  let cs := cs.dropWhile [' ', '\t', '\n', '\x0b', '\x0c', '\r'].contains
  if cs.head? = some '-' then max (-2 ^ 63) (-(Serialize.readDecimal cs.tail : ℤ))
  else if cs.head? = some '+' then min (2 ^ 63 - 1) (Serialize.readDecimal cs.tail : ℤ)
  else min (2 ^ 63 - 1) (Serialize.readDecimal cs : ℤ)

/-- The server and the port in an address, with a port or not. -/
def serverAndPort (address : String) : String × ℕ :=
  match find [':'] address.toList with
  | some pos => (String.ofList (address.toList.take pos),
      (atoi (address.toList.drop (pos + 1)) % 2 ^ 16).toNat)
  | none => (address, stunPort)

namespace PJStunTurn

/-- A text is assigned to a member, and referred to by the configuration. -/
def assign (s : PJStunTurn) (m : Member) (inPlace : Member → Bool) (text : String) : PJStunTurn :=
  let str := (s.strings m).assign (inPlace m) text
  { s with
    strings := Function.update s.strings m str
    refs := Function.update s.refs m ⟨some str.buffer, text.toList.length⟩ }

/-- The configuration of the STUN server. -/
def configureStun (s : PJStunTurn) (stun : String) (inPlace : Member → Bool) : PJStunTurn :=
  if stun = "" then s
  else
    let s := s.assign .stunSrv inPlace (serverAndPort stun).1
    { s with opts := { s.opts with stunPort := (serverAndPort stun).2, stunKaInterval := 300 } }

/-- The configuration of the TURN server, and of the account there. -/
def configureTurn (s : PJStunTurn) (turn turnUser turnPass : String) (inPlace : Member → Bool) :
    PJStunTurn :=
  if turn = "" then s
  else
    let s := s.assign .turnSrv inPlace (serverAndPort turn).1
    let s :=
      if turnUser = "" then s
      else s.assign .turnUser inPlace
        (if s.lowerCaseTurnAccount then tolower turnUser else turnUser)
    let s := if turnPass = "" then s else s.assign .turnPass inPlace turnPass
    { s with
      opts := { s.opts with
        turnPort := (serverAndPort turn).2
        authCredType := .static
        dataType := .plain
        connType := .udp
        turnKaInterval := 300 } }

/-- The configuration that is tried. -/
def configure (s : PJStunTurn) (a : StunTurnArgs) (inPlace : Member → Bool) : PJStunTurn :=
  (s.configureStun a.stun inPlace).configureTurn a.turn a.turnUser a.turnPass inPlace

/-- `set_stun_turn`.  Which assignments write in place, and whether the configuration works, is not
told by the source. -/
def setStunTurn (s : PJStunTurn) (a : StunTurnArgs) (inPlace : Member → Bool) (works : Bool) :
    PJStunTurn × Bool :=
  let oldRefs := s.refs
  let oldOpts := s.opts
  let s := s.configure a inPlace
  if works then ({ s with stunTurnValid := true }, true)
  else ({ s with refs := oldRefs, opts := oldOpts }, false)

end PJStunTurn

/-- What can happen to the configuration: calls, and changes of `lower-case-turn-account`. -/
inductive StunTurnOp
  | setStunTurn (a : StunTurnArgs) (inPlace : Member → Bool) (works : Bool)
  | setLowerCase (val : Bool)

namespace PJStunTurn

/-- The step of an operation. -/
def step (s : PJStunTurn) : StunTurnOp → Option (PJStunTurn × Bool)
  | .setStunTurn a inPlace works => some (s.setStunTurn a inPlace works)
  | .setLowerCase val => some ({ s with lowerCaseTurnAccount := val }, true)

/-- A new object, with what the default configuration says. -/
def start (strings : Member → StdString) (opts : IceOptions) : PJStunTurn :=
  ⟨true, strings, fun _ => ⟨none, 0⟩, opts, false⟩

/-! ### What the call should do -/

/-- The configuration in force: the texts that it refers to, and the rest. -/
@[ext] structure Effective where
  text : Member → Option String
  opts : IceOptions

/-- The text of the configuration for a member. -/
def text (s : PJStunTurn) (m : Member) : Option String := (s.refs m).read (s.strings m)

/-- What the configuration says. -/
def effective (s : PJStunTurn) : Effective := ⟨s.text, s.opts⟩

/-- The text that the arguments give for a member, if any. -/
def given (lowerCase : Bool) (a : StunTurnArgs) : Member → Option String
  | .stunSrv => if a.stun = "" then none else some (serverAndPort a.stun).1
  | .turnSrv => if a.turn = "" then none else some (serverAndPort a.turn).1
  | .turnUser =>
      if a.turnUser = "" then none
      else some (if lowerCase then tolower a.turnUser else a.turnUser)
  | .turnPass => if a.turnPass = "" then none else some a.turnPass

/-- The options that the arguments give. -/
def describedOpts (opts : IceOptions) (a : StunTurnArgs) : IceOptions where
  stunPort := if a.stun = "" then opts.stunPort else (serverAndPort a.stun).2
  stunKaInterval := if a.stun = "" then opts.stunKaInterval else 300
  turnPort := if a.turn = "" then opts.turnPort else (serverAndPort a.turn).2
  authCredType := if a.turn = "" then opts.authCredType else .static
  dataType := if a.turn = "" then opts.dataType else .plain
  connType := if a.turn = "" then opts.connType else .udp
  turnKaInterval := if a.turn = "" then opts.turnKaInterval else 300

/-- The configuration that the arguments describe: what they give, and else what is in force. -/
def described (s : PJStunTurn) (a : StunTurnArgs) : Effective where
  text m := (given s.lowerCaseTurnAccount a m).or (s.text m)
  opts := describedOpts s.opts a

/-- A call that fails changes nothing, and one that succeeds leaves the configuration that its
arguments describe. -/
def Right (s : PJStunTurn) (op : StunTurnOp) (r : PJStunTurn × Bool) : Prop :=
  match op with
  | .setStunTurn a _ _ => r.1.effective = if r.2 then s.described a else s.effective
  | .setLowerCase _ => r.1.effective = s.effective

/-- The text in force for a member is still read when another one is assigned and the reference to it
is taken again: there is no reference, or what is written in its place begins with the text. -/
def Survives (s : PJStunTurn) (m : Member) (inPlace : Member → Bool) (t : String) : Prop :=
  (s.refs m).ptr = none ∨
    inPlace m = true ∧ ∀ old, s.text m = some old → old.toList <+: t.toList ++ ['\x00']

/-- The texts that the call assigns: those of the account only with a TURN server. -/
def assigned (lowerCase : Bool) (a : StunTurnArgs) (m : Member) : Option String :=
  if a.turn = "" ∧ (m = .turnUser ∨ m = .turnPass) then none else given lowerCase a m

/-- A call that fails assigns no text that does not leave the one in force to be read, and a call that
succeeds assigns all that is given and not in force. -/
def CallOk (s : PJStunTurn) : StunTurnOp → Prop
  | .setStunTurn a inPlace false =>
      ∀ m t, assigned s.lowerCaseTurnAccount a m = some t → s.Survives m inPlace t
  | .setStunTurn a _ true => a.turn = "" → ∀ m, m = .turnUser ∨ m = .turnPass →
      ∀ t, given s.lowerCaseTurnAccount a m = some t → s.text m = some t
  | .setLowerCase _ => True

/-! ### What a call does -/

variable {s : PJStunTurn} {a : StunTurnArgs} {inPlace : Member → Bool} {m : Member} {t : String}

@[simp] theorem assign_strings_self :
    (s.assign m inPlace t).strings m = (s.strings m).assign (inPlace m) t :=
  Function.update_self m _ _

@[simp] theorem assign_strings_ne {m' : Member} (h : m' ≠ m) :
    (s.assign m inPlace t).strings m' = s.strings m' := Function.update_of_ne h _ _

@[simp] theorem assign_refs_self : (s.assign m inPlace t).refs m =
    ⟨some ((s.strings m).assign (inPlace m) t).buffer, t.toList.length⟩ :=
  Function.update_self m _ _

@[simp] theorem assign_refs_ne {m' : Member} (h : m' ≠ m) :
    (s.assign m inPlace t).refs m' = s.refs m' := Function.update_of_ne h _ _

@[simp] theorem assign_opts : (s.assign m inPlace t).opts = s.opts := rfl

@[simp] theorem assign_lowerCaseTurnAccount :
    (s.assign m inPlace t).lowerCaseTurnAccount = s.lowerCaseTurnAccount := rfl

@[simp] theorem configureStun_lowerCaseTurnAccount (stun : String) :
    (s.configureStun stun inPlace).lowerCaseTurnAccount = s.lowerCaseTurnAccount := by
  rw [configureStun]
  split_ifs <;> rfl

/-- The trial is made with the options that the arguments describe. -/
theorem configure_opts : (s.configure a inPlace).opts = describedOpts s.opts a := by
  rw [configure, configureTurn, configureStun, describedOpts]
  split_ifs <;> rfl

/-- The strings that the trial is made with. -/
theorem configure_strings : (s.configure a inPlace).strings m =
    match assigned s.lowerCaseTurnAccount a m with
    | some t => (s.strings m).assign (inPlace m) t
    | none => s.strings m := by
  rw [configure, configureTurn, configureStun, assigned, given.eq_def]
  cases m with
  | stunSrv => split_ifs <;> simp_all
  | turnSrv => split_ifs <;> simp_all
  | turnUser => split_ifs <;> simp_all
  | turnPass => split_ifs <;> simp_all

/-- The references that the trial is made with. -/
theorem configure_refs : (s.configure a inPlace).refs m =
    match assigned s.lowerCaseTurnAccount a m with
    | some t => ⟨some ((s.strings m).assign (inPlace m) t).buffer, t.toList.length⟩
    | none => s.refs m := by
  rw [configure, configureTurn, configureStun, assigned, given.eq_def]
  cases m with
  | stunSrv => split_ifs <;> simp_all
  | turnSrv => split_ifs <;> simp_all
  | turnUser => split_ifs <;> simp_all
  | turnPass => split_ifs <;> simp_all

/-- A text is read where it has just been assigned. -/
theorem read_assign (str : StdString) (b : Bool) (t : String) :
    PjStr.read ⟨some (str.assign b t).buffer, t.toList.length⟩ (str.assign b t) = some t := by
  have hlength : t.toList.length ≤ (str.assign b t).cStr.length := by
    rw [StdString.cStr, List.length_append]
    exact Nat.le_add_right _ _
  have htake : (str.assign b t).cStr.take t.toList.length = t.toList := List.take_left
  rw [PjStr.read]
  dsimp only
  rw [if_pos ⟨rfl, hlength⟩, htake, String.ofList_toList]

/-- A reference that is read is null, or has the length of the text that it reads in the buffer. -/
theorem read_eq_some_iff {r : PjStr} {str : StdString} :
    r.read str = some t ↔ (r.ptr = none ∧ t = "") ∨
      (r.ptr = some str.buffer ∧ r.slen = t.toList.length ∧ t.toList <+: str.cStr) := by
  rw [PjStr.read]
  cases hptr : r.ptr with
  | none => simp [eq_comm]
  | some buffer =>
      rw [List.prefix_iff_eq_take, ← String.toList_inj]
      constructor
      · intro h
        dsimp only at h
        split_ifs at h with hread
        obtain ⟨hbuffer, hslen⟩ := hread
        rw [← Option.some.inj h, String.toList_ofList, List.length_take_of_le hslen]
        exact Or.inr ⟨congrArg some hbuffer, rfl, rfl⟩
      · rintro (⟨h, -⟩ | ⟨hbuffer, hslen, htake⟩)
        · cases h
        · have hle : r.slen ≤ str.cStr.length := by
            have := congrArg List.length htake
            rw [List.length_take] at this
            omega
          dsimp only
          rw [if_pos ⟨Option.some.inj hbuffer, hle⟩, hslen, ← htake, String.ofList_toList]

/-- When another text has been assigned, a reference reads the text in force exactly if this has
survived. -/
theorem read_assign_iff {old : String} (h : s.text m = some old) :
    (s.refs m).read ((s.strings m).assign (inPlace m) t) = some old ↔ s.Survives m inPlace t := by
  rw [Survives, h, read_eq_some_iff]
  have hbefore := read_eq_some_iff.1 h
  constructor
  · rintro (⟨hptr, -⟩ | ⟨hptr, -, hpre⟩)
    · exact Or.inl hptr
    · obtain ⟨hnull, -⟩ | ⟨hptr', -, -⟩ := hbefore
      · exact Or.inl hnull
      · refine Or.inr ⟨?_, fun old' hold' => Option.some.inj hold' ▸ hpre⟩
        have hbuffer : (s.strings m).buffer = ((s.strings m).assign (inPlace m) t).buffer :=
          Option.some.inj (hptr'.symm.trans hptr)
        cases hplace : inPlace m with
        | true => rfl
        | false =>
            rw [StdString.assign, hplace] at hbuffer
            exact absurd hbuffer (Nat.ne_of_lt (Nat.lt_succ_self _))
  · rintro (hnull | ⟨hinPlace, hpre⟩)
    · obtain hold | ⟨hptr, -⟩ := hbefore
      · exact Or.inl hold
      · rw [hnull] at hptr
        cases hptr
    · obtain hold | ⟨hptr, hslen, -⟩ := hbefore
      · exact Or.inl hold
      · refine Or.inr ⟨?_, hslen, hpre old rfl⟩
        rw [StdString.assign, hinPlace]
        exact hptr

/-! ### Calls that are right -/

/-- All texts of the configuration can be read. -/
def Readable (s : PJStunTurn) : Prop := ∀ m, ∃ t, s.text m = some t

/-- The configuration that is left by a call that succeeds. -/
theorem text_configure : (s.configure a inPlace).text m =
    (assigned s.lowerCaseTurnAccount a m).or (s.text m) := by
  rw [text, configure_refs, configure_strings]
  cases assigned s.lowerCaseTurnAccount a m with
  | none => rfl
  | some t => exact read_assign _ _ _

theorem or_eq_right_iff {α : Type*} {o o' : Option α} :
    o' = o.or o' ↔ ∀ t, o = some t → o' = some t := by
  cases o with
  | none => exact iff_of_true rfl fun t h => by cases h
  | some t =>
      rw [Option.some_or]
      exact ⟨fun h t' ht' => h.trans ht', fun h => h t rfl⟩

/-- A call that succeeds is right exactly if the account that is given without a server is in force. -/
theorem right_works_iff :
    s.Right (.setStunTurn a inPlace true) (s.setStunTurn a inPlace true) ↔
      s.CallOk (.setStunTurn a inPlace true) := by
  have heffective : (s.setStunTurn a inPlace true).1.effective =
      ⟨fun m => (assigned s.lowerCaseTurnAccount a m).or (s.text m), describedOpts s.opts a⟩ :=
    Effective.ext (funext fun m => text_configure) configure_opts
  have hreturned : (s.setStunTurn a inPlace true).2 = true := rfl
  rw [Right, CallOk, heffective, if_pos hreturned, described, Effective.mk.injEq,
    and_iff_left rfl, funext_iff]
  constructor
  · intro h hturn m hm
    have hm' := h m
    rw [assigned, if_pos ⟨hturn, hm⟩, Option.none_or] at hm'
    exact or_eq_right_iff.1 hm'
  · intro h m
    by_cases hm : a.turn = "" ∧ (m = .turnUser ∨ m = .turnPass)
    · rw [assigned, if_pos hm, Option.none_or]
      exact or_eq_right_iff.2 (h hm.1 m hm.2)
    · rw [assigned, if_neg hm]

/-- A call that fails is right exactly if the texts in force survive what it assigns. -/
theorem right_fails_iff (hread : s.Readable) :
    s.Right (.setStunTurn a inPlace false) (s.setStunTurn a inPlace false) ↔
      s.CallOk (.setStunTurn a inPlace false) := by
  have htext : ∀ m, (s.setStunTurn a inPlace false).1.text m =
      (s.refs m).read ((s.configure a inPlace).strings m) := fun m => rfl
  have heffective : (s.setStunTurn a inPlace false).1.effective = s.effective ↔
      ∀ m, (s.setStunTurn a inPlace false).1.text m = s.text m := by
    rw [effective, effective, Effective.mk.injEq, funext_iff]
    exact and_iff_left rfl
  have hreturned : (s.setStunTurn a inPlace false).2 ≠ true := Bool.false_ne_true
  rw [Right, CallOk, if_neg hreturned, heffective]
  refine forall_congr' fun m => ?_
  obtain ⟨old, hold⟩ := hread m
  rw [htext, configure_strings, hold]
  cases assigned s.lowerCaseTurnAccount a m with
  | none => exact iff_of_true hold fun t h => by cases h
  | some t =>
      dsimp only
      rw [read_assign_iff hold]
      exact ⟨fun h t' ht' => Option.some.inj ht' ▸ h, fun h => h t rfl⟩

/-- What an operation leaves if it is right can be read. -/
theorem readable_of_right {op : StunTurnOp} {r : PJStunTurn × Bool} (hread : s.Readable)
    (h : s.Right op r) : r.1.Readable := by
  have hsame : r.1.effective = s.effective → r.1.Readable := fun heq m => by
    obtain ⟨t, ht⟩ := hread m
    exact ⟨t, (congrFun (congrArg Effective.text heq) m).trans ht⟩
  cases op with
  | setLowerCase val => exact hsame h
  | setStunTurn a inPlace works =>
      rw [Right] at h
      split_ifs at h
      · intro m
        obtain ⟨t, ht⟩ := hread m
        refine ⟨(given s.lowerCaseTurnAccount a m).getD t, ?_⟩
        refine (congrFun (congrArg Effective.text h) m).trans ?_
        change (given s.lowerCaseTurnAccount a m).or (s.text m) = _
        rw [ht]
        cases given s.lowerCaseTurnAccount a m <;> rfl
      · exact hsame h

/-- An operation is right exactly if it meets the condition. -/
theorem right_iff {op : StunTurnOp} {r : PJStunTurn × Bool} (hread : s.Readable)
    (hr : s.step op = some r) : s.Right op r ↔ s.CallOk op := by
  cases op with
  | setLowerCase val =>
      rw [← Option.some.inj hr]
      exact iff_of_true rfl trivial
  | setStunTurn a inPlace works =>
      rw [← Option.some.inj hr]
      cases works with
      | false => exact right_fails_iff hread
      | true => exact right_works_iff

/-- **Every call is right**, whatever was called before, exactly if the calls that fail leave the texts
in force to be read, and those that succeed are given no account without a server. -/
theorem all_right_iff (strings : Member → StdString) (opts : IceOptions)
    (ops : List StunTurnOp) :
    Machine.Meets step Right (start strings opts) ops ↔
      Machine.Admits step CallOk (start strings opts) ops := by
  refine Machine.meets_iff_admits (I := Readable) (fun s op hread hok => ?_)
    (fun s op r hread hr => (right_iff hread hr).1) (fun m => ⟨"", rfl⟩) ops
  obtain ⟨r, hr⟩ : ∃ r, s.step op = some r := by
    cases op <;> exact ⟨_, rfl⟩
  have hright := (right_iff hread hr).2 hok
  exact ⟨r, hr, hright, readable_of_right hread hright⟩

/-- A server that is taken, and another one that is not. -/
def twoServers (inPlace : Bool) : List StunTurnOp :=
  [.setStunTurn ⟨"one.org", "", "", ""⟩ (fun _ => inPlace) true,
    .setStunTurn ⟨"two.org", "", "", ""⟩ (fun _ => inPlace) false]

/-- The options that a test starts with. -/
def noOptions : IceOptions := ⟨3478, 15, 3478, .static, .plain, .udp, 15⟩

/-- A call that fails changes the server in force, or leaves a reference to no text. -/
theorem not_meets_twoServers :
    ¬Machine.Meets step Right (start (fun _ => ⟨"", 0⟩) noOptions) (twoServers true) ∧
      ¬Machine.Meets step Right (start (fun _ => ⟨"", 0⟩) noOptions) (twoServers false) := by
  have hwrong : ∀ inPlace, ¬Machine.Meets step Right (start (fun _ => ⟨"", 0⟩) noOptions)
      (twoServers inPlace) := by
    rintro inPlace ⟨r, hr, -, r', hr', hright, -⟩
    rw [← Option.some.inj hr] at hr' hright
    rw [← Option.some.inj hr'] at hright
    have htext := congrFun (congrArg Effective.text hright) .stunSrv
    cases inPlace with
    | false => exact absurd htext (by decide)
    | true => exact absurd htext (by decide)
  exact ⟨hwrong true, hwrong false⟩

end PJStunTurn
end Pjsip
end LibSwitcher
