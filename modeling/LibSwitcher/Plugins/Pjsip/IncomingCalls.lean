/-
# Incoming calls

`plugins/pjsip/pj-call.cpp`: `PJCall::process_incoming_call`, `call_on_state_changed` and
`release_incoming_call`.  A call is an element of `incoming_call_` with its address, the invite
session it is attached to and the address of the peer; a session has module data that point to
the call.  A session is destroyed by the library once it is disconnected.

An INVITE comes with what decides of it: the flags and lists that other parts of the plugin keep
(`canCreateCalls`, `authorized`, `buddy`), its offer, and the success of each step of the library.
A step of the machine is undefined where a null pointer is read, an element that does not exist is
accessed, or an iterator is used that an erasure has invalidated.

The calls are consistent after a step if and only if it meets `CallOk` (`calls_consistent_iff`): the
element is entered before the steps that may still fail, and none of them takes it out again.
-/

import LibSwitcher.Lib.Machine
import LibSwitcher.Plugins.Pjsip.IncomingMedia
import LibSwitcher.Plugins.Pjsip.MediaLabel
import LibSwitcher.Utils.IdMap
import Mathlib.Data.List.Nodup

namespace LibSwitcher
namespace PJCall

open Stringutils

/-- A call that comes in: where it is, its invite session, and its peer. -/
structure Call where
  address : ℕ
  inv : Option ℕ
  peerUri : String
  deriving DecidableEq

/-- The incoming calls. -/
structure IncomingCalls where
  /-- `incoming_call_`. -/
  calls : List Call
  /-- The invite sessions that live, with their module data. -/
  sessions : IdMap (Option ℕ)
  /-- The labels of the writers that the claw has for the media that are received. -/
  writers : List (List UInt8)
  /-- The next address, and the next session. -/
  next : ℕ

/-- An INVITE, and what is decided about it. -/
structure Invite where
  /-- `can_create_calls_`. -/
  canCreateCalls : Bool
  /-- The address of the caller, without its scheme. -/
  peerUri : String
  /-- `is_authorized` of the address, as it is or in lower case. -/
  authorized : Bool
  /-- The entry of `buddy_id_` for the address. -/
  buddy : Option ℕ
  /-- The offer, if the request has a body and it could be parsed. -/
  offer : Option (List GstSDPMedia)
  /-- The success of `pjsip_inv_verify_request`. -/
  verified : Bool
  /-- The success of `pjsip_dlg_create_uas_and_inc_lock`. -/
  dialog : Bool
  /-- The number of components that the ICE transport describes, if there is a transport. -/
  components : Option ℕ
  /-- The success of `pjsip_inv_create_uas`. -/
  createUas : Bool
  /-- The success of `pjsip_inv_initial_answer`. -/
  initialAnswer : Bool
  /-- The success of `pjsip_inv_send_msg`. -/
  sendMsg : Bool

/-- What happens to the calls.  A state change comes with the buddy that is found for the peer of the
call. -/
inductive CallEvent where
  | invite (i : Invite)
  | stateChanged (inv : ℕ) (disconnected : Bool) (buddy : Option ℕ)

namespace IncomingCalls

/-- `release_incoming_call`: the first element with the session of the call is erased. -/
def releaseIncomingCall (s : IncomingCalls) (call : Call) : Option (IncomingCalls × Bool) :=
  match s.calls.find? fun c => c.inv = call.inv with
  | none => some (s, false)
  | some it => it.inv.map fun inv =>
      ({ s with
          sessions := s.sessions.insert inv none
          calls := s.calls.eraseP fun c => c.inv = call.inv }, true)

/-- The loop that releases the earlier calls of a peer: an erasure invalidates the iterator it is
at. -/
def releaseEarlier (peerUri : String) (buddy : Option ℕ) (s : IncomingCalls) :
    List Call → Option IncomingCalls
  | [] => some s
  | call :: rest =>
      if call.peerUri = peerUri ∧ buddy.isSome then
        (s.releaseIncomingCall call).bind fun r =>
          if r.2 then none else releaseEarlier peerUri buddy r.1 rest
      else releaseEarlier peerUri buddy s rest

/-- A call is attached to a new session. -/
def attach (s : IncomingCalls) (call : Call) : IncomingCalls :=
  { s with
    calls := s.calls.map fun c => if c.address = call.address then { c with inv := some s.next } else c
    sessions := s.sessions.insert s.next (some call.address)
    next := s.next + 1 }

/-- `process_incoming_call` once the dialog is created: the state, and whether the call is
answered. -/
def acceptCall (s : IncomingCalls) (i : Invite) : Option (IncomingCalls × Bool) :=
  let call : Call := ⟨s.next, none, i.peerUri⟩
  let s := { s with calls := s.calls ++ [call], next := s.next + 1 }
  i.offer.bind fun offer =>
    i.components.bind fun components =>
      let media := mediaToReceive offer
      let s := { s with writers := s.writers ++ media.map fun m => getMediaLabel m.2.attributes }
      if components < media.length then none
      else if i.createUas = false then some (s, false)
      else some (s.attach call, i.initialAnswer && i.sendMsg)

/-- `process_incoming_call`. -/
def processIncomingCall (s : IncomingCalls) (i : Invite) : Option (IncomingCalls × Bool) :=
  if i.canCreateCalls = false then some (s, false)
  else if i.authorized = false then some (s, false)
  else
    (s.releaseEarlier i.peerUri i.buddy s.calls).bind fun s =>
      if i.verified = false then some (s, false)
      else if i.dialog = false then some (s, false)
      else s.acceptCall i

/-- `call_on_state_changed` for the session of an incoming call: the call is the one that the module
data point to. -/
def callOnStateChanged (s : IncomingCalls) (inv : ℕ) (disconnected : Bool) (buddy : Option ℕ) :
    Option IncomingCalls :=
  match s.sessions[inv]? with
  | none | some none => some s
  | some (some address) =>
      (s.calls.find? fun c => c.address = address).bind fun call =>
        if disconnected && buddy.isSome then (s.releaseIncomingCall call).map Prod.fst else some s

/-- Perform an event.  The result of an INVITE is whether the call is answered; a session that is
disconnected is destroyed afterwards. -/
def step (s : IncomingCalls) : CallEvent → Option (IncomingCalls × Bool)
  | .invite i => s.processIncomingCall i
  | .stateChanged inv disconnected buddy =>
      (s.callOnStateChanged inv disconnected buddy).map fun s =>
        (if disconnected then { s with sessions := s.sessions.erase inv } else s, true)

/-- No call. -/
def initial : IncomingCalls := ⟨[], ∅, [], 0⟩

end IncomingCalls

/-- Two addresses are those of one peer whatever their case. -/
def SamePeer (a b : String) : Prop := tolower a = tolower b

/-- Each call has a session whose module data point back to it, and no peer has two calls. -/
structure ConsistentCalls (s : IncomingCalls) : Prop where
  attached : ∀ call ∈ s.calls, ∃ inv, call.inv = some inv ∧ s.sessions[inv]? = some (some call.address)
  peers : s.calls.Pairwise fun a b => ¬SamePeer a.peerUri b.peerUri

/-- What an event should do: the calls are consistent, and an INVITE that is refused leaves the
writers as they are, and the calls but for earlier ones of the peer. -/
def KeepsCalls (s : IncomingCalls) (e : CallEvent) (r : IncomingCalls × Bool) : Prop :=
  ConsistentCalls r.1 ∧ match e with
    | .invite i => r.2 = false → r.1.writers = s.writers ∧ r.1.calls.Sublist s.calls ∧
        ∀ call ∈ s.calls, ¬SamePeer call.peerUri i.peerUri → call ∈ r.1.calls
    | .stateChanged _ _ _ => True

/-- What an event needs. -/
def CallOk (s : IncomingCalls) : CallEvent → Prop
  | .invite i =>
      i.canCreateCalls = false ∨ i.authorized = false ∨
        ((∀ call ∈ s.calls, call.peerUri = i.peerUri → i.buddy = none) ∧
          (i.verified = false ∨ i.dialog = false ∨
            (∀ call ∈ s.calls, ¬SamePeer call.peerUri i.peerUri) ∧
              (∃ offer, i.offer = some offer ∧ ∃ components, i.components = some components ∧
                (mediaToReceive offer).length ≤ components) ∧
              i.createUas = true ∧ i.initialAnswer = true ∧ i.sendMsg = true))
  | .stateChanged inv disconnected buddy =>
      disconnected = true → s.sessions[inv]?.join.isSome → buddy.isSome

namespace IncomingCalls

/-- What the events keep. -/
structure Inv (s : IncomingCalls) : Prop where
  consistent : ConsistentCalls s
  pointed : ∀ inv address, s.sessions[inv]? = some (some address) →
    ∃ call ∈ s.calls, call.address = address ∧ call.inv = some inv
  addresses : (s.calls.map Call.address).Nodup
  fresh : ∀ call ∈ s.calls, call.address < s.next
  freshSessions : ∀ inv ∈ s.sessions, inv < s.next

/-- What is erased where at most one element meets the condition. -/
theorem eraseP_eq_filter {α : Type} {p : α → Bool} {l : List α}
    (h : l.Pairwise fun a b => p a = true → p b = false) : l.eraseP p = l.filter fun a => !p a := by
  induction l with
  | nil => rfl
  | cons a l ih =>
      rw [List.pairwise_cons] at h
      by_cases ha : p a = true
      · rw [List.eraseP_cons_of_pos ha, List.filter_cons_of_neg (by simp [ha])]
        exact (List.filter_eq_self.2 fun b hb => by simp [h.1 b hb ha]).symm
      · rw [List.eraseP_cons_of_neg ha, List.filter_cons_of_pos (by simp [ha]), ih h.2]

/-- What is found where one element meets the condition. -/
theorem find?_eq_some_of_unique {α : Type} {p : α → Bool} {l : List α} {a : α} (ha : a ∈ l)
    (hp : p a = true) (h : ∀ b ∈ l, p b = true → b = a) : l.find? p = some a := by
  cases hfind : l.find? p with
  | none => exact absurd hp (List.find?_eq_none.1 hfind a ha)
  | some b => rw [h b (List.mem_of_find?_eq_some hfind) (List.find?_some hfind)]

section invariant

variable {s : IncomingCalls}

/-- The calls are told by their addresses. -/
theorem Inv.eq_of_address (h : s.Inv) {a b : Call} (ha : a ∈ s.calls) (hb : b ∈ s.calls)
    (hab : a.address = b.address) : a = b :=
  List.inj_on_of_nodup_map h.addresses ha hb hab

/-- And by their sessions. -/
theorem Inv.eq_of_inv (h : s.Inv) {a b : Call} (ha : a ∈ s.calls) (hb : b ∈ s.calls)
    (hab : a.inv = b.inv) : a = b := by
  obtain ⟨inv, hinv, hdata⟩ := h.consistent.attached a ha
  obtain ⟨inv', hinv', hdata'⟩ := h.consistent.attached b hb
  obtain rfl : inv = inv' := Option.some.inj (hinv.symm.trans (hab.trans hinv'))
  exact h.eq_of_address ha hb (Option.some.inj (Option.some.inj (hdata.symm.trans hdata')))

/-- A call is released with its session. -/
theorem Inv.releaseIncomingCall_of_mem (h : s.Inv) {call : Call} (hcall : call ∈ s.calls) {inv : ℕ}
    (hinv : call.inv = some inv) :
    s.releaseIncomingCall call =
      some ({ s with
        sessions := s.sessions.insert inv none
        calls := s.calls.filter fun c => !decide (c = call) }, true) := by
  have hsame : ∀ c ∈ s.calls, c.inv = call.inv → c = call := fun c hc => h.eq_of_inv hc hcall
  have hfind : s.calls.find? (fun c => c.inv = call.inv) = some call :=
    find?_eq_some_of_unique hcall (decide_eq_true rfl) fun c hc hp => hsame c hc (of_decide_eq_true hp)
  have herase : s.calls.eraseP (fun c => c.inv = call.inv) =
      s.calls.filter fun c => !decide (c = call) := by
    have hpair : s.calls.Pairwise fun a b =>
        decide (a.inv = call.inv) = true → decide (b.inv = call.inv) = false := by
      refine (List.Nodup.of_map Call.address h.addresses).imp_of_mem fun ha hb hne hp => ?_
      rw [decide_eq_false_iff_not]
      intro hb'
      exact hne ((hsame _ ha (of_decide_eq_true hp)).trans (hsame _ hb hb').symm)
    rw [eraseP_eq_filter hpair]
    refine List.filter_congr fun c hc => ?_
    rw [decide_eq_decide.2 ⟨hsame c hc, fun heq => heq ▸ rfl⟩]
  rw [releaseIncomingCall, hfind, herase]
  dsimp only
  rw [hinv]
  rfl

/-- The loop ends if it releases nothing, and otherwise uses an iterator that is not valid. -/
theorem Inv.releaseEarlier_iff (h : s.Inv) (peerUri : String) (buddy : Option ℕ) {calls : List Call}
    (hsub : ∀ call ∈ calls, call ∈ s.calls) :
    (s.releaseEarlier peerUri buddy calls = some s ∧
      ∀ call ∈ calls, call.peerUri = peerUri → buddy = none) ∨
    (s.releaseEarlier peerUri buddy calls = none ∧
      ¬∀ call ∈ calls, call.peerUri = peerUri → buddy = none) := by
  induction calls with
  | nil => exact Or.inl ⟨rfl, fun call hcall => absurd hcall List.not_mem_nil⟩
  | cons call rest ih =>
      rw [releaseEarlier, List.forall_mem_cons]
      by_cases hrelease : call.peerUri = peerUri ∧ buddy.isSome
      · have hmem := hsub call List.mem_cons_self
        obtain ⟨inv, hinv, -⟩ := h.consistent.attached call hmem
        right
        rw [if_pos hrelease, h.releaseIncomingCall_of_mem hmem hinv]
        refine ⟨rfl, fun hall => ?_⟩
        rw [hall.1 hrelease.1] at hrelease
        exact absurd hrelease.2 (by simp)
      · have hnone : call.peerUri = peerUri → buddy = none := fun heq => by
          cases hbuddy : buddy with
          | none => rfl
          | some id => exact absurd ⟨heq, by rw [hbuddy]; rfl⟩ hrelease
        rw [if_neg hrelease]
        rcases ih fun c hc => hsub c (List.mem_cons_of_mem _ hc) with ⟨hrest, hall⟩ | ⟨hrest, hall⟩
        · exact Or.inl ⟨hrest, hnone, hall⟩
        · exact Or.inr ⟨hrest, fun hboth => hall hboth.2⟩

/-- The state after a call is entered and attached to its session. -/
def accepted (s : IncomingCalls) (peerUri : String) (media : List (ℕ × GstSDPMedia)) : IncomingCalls where
  calls := s.calls ++ [⟨s.next, some (s.next + 1), peerUri⟩]
  sessions := s.sessions.insert (s.next + 1) (some s.next)
  writers := s.writers ++ media.map fun m => getMediaLabel m.2.attributes
  next := s.next + 2

/-- A call that is entered and whose session is made, whatever comes after. -/
theorem Inv.acceptCall_of_createUas (h : s.Inv) {i : Invite} {offer : List GstSDPMedia}
    {components : ℕ} (hoffer : i.offer = some offer) (hcomponents : i.components = some components)
    (hlength : (mediaToReceive offer).length ≤ components) (huas : i.createUas = true) :
    s.acceptCall i =
      some (s.accepted i.peerUri (mediaToReceive offer), i.initialAnswer && i.sendMsg) := by
  have hmap : s.calls.map (fun c => if c.address = s.next then { c with inv := some (s.next + 1) } else c)
      = s.calls := by
    refine (List.map_congr_left fun c hc => if_neg (Nat.ne_of_lt (h.fresh c hc))).trans ?_
    exact List.map_id _
  rw [acceptCall, hoffer, hcomponents, Option.bind_some, Option.bind_some]
  dsimp only
  rw [if_neg (Nat.not_lt.2 hlength), if_neg (by simp [huas]), attach]
  dsimp only
  rw [List.map_append, hmap, List.map_singleton, if_pos rfl]
  rfl

/-- What the answer needs, and what is left where the session could not be made. -/
theorem acceptCall_cases {i : Invite} {r : IncomingCalls × Bool} (hr : s.acceptCall i = some r) :
    ∃ offer components, i.offer = some offer ∧ i.components = some components ∧
      (mediaToReceive offer).length ≤ components ∧
      (i.createUas = true ∨ r.1.calls = s.calls ++ [⟨s.next, none, i.peerUri⟩]) := by
  rw [acceptCall] at hr
  obtain ⟨offer, hoffer, hr⟩ := Option.bind_eq_some_iff.1 hr
  obtain ⟨components, hcomponents, hr⟩ := Option.bind_eq_some_iff.1 hr
  refine ⟨offer, components, hoffer, hcomponents, ?_⟩
  dsimp only at hr
  split_ifs at hr with hlength huas
  · obtain rfl := Option.some.inj hr
    exact ⟨Nat.not_lt.1 hlength, Or.inr rfl⟩
  · exact ⟨Nat.not_lt.1 hlength, Or.inl (by simpa using huas)⟩

/-- A call of a new peer that is answered keeps the calls consistent. -/
theorem Inv.accepted (h : s.Inv) {peerUri : String} (media : List (ℕ × GstSDPMedia))
    (hpeer : ∀ call ∈ s.calls, ¬SamePeer call.peerUri peerUri) : (s.accepted peerUri media).Inv := by
  have hsession (inv : ℕ) (hinv : inv ∈ s.sessions) : inv ≠ s.next + 1 :=
    fun heq => by have := h.freshSessions inv hinv; omega
  refine ⟨⟨fun call hcall => ?_, ?_⟩, fun inv address hinv => ?_, ?_, fun call hcall => ?_,
    fun inv hinv => ?_⟩
  · change ∃ inv, call.inv = some inv ∧
      (s.sessions.insert (s.next + 1) (some s.next))[inv]? = some (some call.address)
    rcases List.mem_append.1 hcall with hcall | hcall
    · obtain ⟨inv, hinv, hdata⟩ := h.consistent.attached call hcall
      have hmem : inv ∈ s.sessions := by
        rw [Std.ExtTreeMap.mem_iff_isSome_getElem?, hdata]
        rfl
      exact ⟨inv, hinv, by rw [IdMap.getElem?_insert, if_neg (hsession inv hmem), hdata]⟩
    · obtain rfl := List.mem_singleton.1 hcall
      exact ⟨s.next + 1, rfl, by rw [IdMap.getElem?_insert, if_pos rfl]⟩
  · refine List.pairwise_append.2 ⟨h.consistent.peers, List.pairwise_singleton _ _, ?_⟩
    intro call hcall new hnew
    obtain rfl := List.mem_singleton.1 hnew
    exact hpeer call hcall
  · change (s.sessions.insert (s.next + 1) (some s.next))[inv]? = some (some address) at hinv
    change ∃ call ∈ s.calls ++ _, call.address = address ∧ call.inv = some inv
    rw [IdMap.getElem?_insert] at hinv
    split_ifs at hinv with heq
    · obtain rfl := Option.some.inj (Option.some.inj hinv)
      exact ⟨_, List.mem_append_right _ (List.mem_singleton_self _), rfl, by rw [heq]⟩
    · obtain ⟨call, hcall, haddress, hcallInv⟩ := h.pointed inv address hinv
      exact ⟨call, List.mem_append_left _ hcall, haddress, hcallInv⟩
  · change (List.map Call.address (s.calls ++ _)).Nodup
    rw [List.map_append, List.nodup_append]
    refine ⟨h.addresses, List.nodup_singleton _, fun address haddress new hnew => ?_⟩
    obtain ⟨call, hcall, rfl⟩ := List.mem_map.1 haddress
    obtain rfl := List.mem_singleton.1 hnew
    exact Nat.ne_of_lt (h.fresh call hcall)
  · change call.address < s.next + 2
    rcases List.mem_append.1 hcall with hcall | hcall
    · have := h.fresh call hcall
      omega
    · obtain rfl := List.mem_singleton.1 hcall
      change s.next < s.next + 2
      omega
  · change inv < s.next + 2
    rcases IdMap.mem_insert.1 hinv with rfl | hinv
    · omega
    · have := h.freshSessions inv hinv
      omega

/-- A call is released, and its session destroyed. -/
theorem Inv.released (h : s.Inv) {call : Call} (hcall : call ∈ s.calls) {inv : ℕ}
    (hinv : call.inv = some inv) :
    Inv { s with
      sessions := (s.sessions.insert inv none).erase inv
      calls := s.calls.filter fun c => !decide (c = call) } := by
  have hsub : (s.calls.filter fun c => !decide (c = call)).Sublist s.calls := List.filter_sublist
  have hlookup (inv' : ℕ) : ((s.sessions.insert inv none).erase inv)[inv']? =
      if inv' = inv then none else s.sessions[inv']? := by
    rw [IdMap.getElem?_erase, IdMap.getElem?_insert]
    split_ifs <;> rfl
  refine ⟨⟨fun c hc => ?_, h.consistent.peers.sublist hsub⟩, fun inv' address hdata => ?_,
    h.addresses.sublist (hsub.map _), fun c hc => h.fresh c (hsub.subset hc), fun inv' hinv' => ?_⟩
  · obtain ⟨hin, hne⟩ := List.mem_filter.1 hc
    obtain ⟨inv', hinv', hdata⟩ := h.consistent.attached c hin
    refine ⟨inv', hinv', ?_⟩
    change ((s.sessions.insert inv none).erase inv)[inv']? = some (some c.address)
    rw [hlookup, if_neg, hdata]
    rintro rfl
    exact absurd (h.eq_of_inv hin hcall (hinv'.trans hinv.symm)) (by simpa using hne)
  · change ((s.sessions.insert inv none).erase inv)[inv']? = some (some address) at hdata
    change ∃ c ∈ s.calls.filter _, c.address = address ∧ c.inv = some inv'
    rw [hlookup] at hdata
    split_ifs at hdata with heq
    obtain ⟨c, hc, haddress, hcInv⟩ := h.pointed inv' address hdata
    refine ⟨c, List.mem_filter.2 ⟨hc, ?_⟩, haddress, hcInv⟩
    rw [Bool.not_eq_true', decide_eq_false_iff_not]
    rintro rfl
    exact heq (Option.some.inj (hcInv.symm.trans hinv))
  · change inv' ∈ (s.sessions.insert inv none).erase inv at hinv'
    obtain ⟨hne, hin⟩ := IdMap.mem_erase.1 hinv'
    exact h.freshSessions inv' ((IdMap.mem_insert.1 hin).resolve_left hne)

/-- A session that no call is attached to is destroyed. -/
theorem Inv.eraseSession (h : s.Inv) {inv : ℕ} (hinv : s.sessions[inv]?.join = none) :
    Inv { s with sessions := s.sessions.erase inv } := by
  have hkeep {inv' address : ℕ} (hdata : s.sessions[inv']? = some (some address)) : inv' ≠ inv := by
    rintro rfl
    rw [hdata] at hinv
    cases hinv
  refine ⟨⟨fun call hcall => ?_, h.consistent.peers⟩, fun inv' address hdata => ?_, h.addresses,
    h.fresh, fun inv' hinv' => h.freshSessions inv' (IdMap.mem_erase.1 hinv').2⟩
  · obtain ⟨inv', hcallInv, hdata⟩ := h.consistent.attached call hcall
    refine ⟨inv', hcallInv, ?_⟩
    change (s.sessions.erase inv)[inv']? = some (some call.address)
    rw [IdMap.getElem?_erase_ne (hkeep hdata), hdata]
  · change (s.sessions.erase inv)[inv']? = some (some address) at hdata
    rw [IdMap.getElem?_erase] at hdata
    split_ifs at hdata
    exact h.pointed inv' address hdata

/-- An INVITE that is refused before a call is entered changes nothing. -/
theorem Inv.keeps_refused (h : s.Inv) (i : Invite) : KeepsCalls s (.invite i) (s, false) :=
  ⟨h.consistent, fun _ => ⟨rfl, List.Sublist.refl _, fun _ hcall _ => hcall⟩⟩

/-- **An INVITE** that meets the condition is refused, or its call is entered as it should. -/
theorem Inv.invite (h : s.Inv) {i : Invite} (hok : CallOk s (.invite i)) :
    ∃ r, s.step (.invite i) = some r ∧ KeepsCalls s (.invite i) r ∧ r.1.Inv := by
  rw [step, processIncomingCall]
  by_cases hcan : i.canCreateCalls = false
  · exact ⟨(s, false), if_pos hcan, h.keeps_refused i, h⟩
  by_cases hauth : i.authorized = false
  · exact ⟨(s, false), by rw [if_neg hcan, if_pos hauth], h.keeps_refused i, h⟩
  rw [if_neg hcan, if_neg hauth]
  obtain ⟨hearlier, hok⟩ := (hok.resolve_left hcan).resolve_left hauth
  obtain ⟨hloop, -⟩ := (h.releaseEarlier_iff i.peerUri i.buddy
    fun call hcall => hcall).resolve_right fun hbad => hbad.2 hearlier
  rw [hloop, Option.bind_some]
  by_cases hverified : i.verified = false
  · exact ⟨(s, false), if_pos hverified, h.keeps_refused i, h⟩
  by_cases hdialog : i.dialog = false
  · exact ⟨(s, false), by rw [if_neg hverified, if_pos hdialog], h.keeps_refused i, h⟩
  obtain ⟨hpeer, ⟨offer, hoffer, components, hcomponents, hlength⟩, huas, hinitial, hsend⟩ :=
    (hok.resolve_left hverified).resolve_left hdialog
  have hinv := h.accepted (mediaToReceive offer) hpeer
  refine ⟨(s.accepted i.peerUri (mediaToReceive offer), true), ?_,
    ⟨hinv.consistent, fun hrefused => ?_⟩, hinv⟩
  · rw [if_neg hverified, if_neg hdialog,
      h.acceptCall_of_createUas hoffer hcomponents hlength huas, hinitial, hsend]
    rfl
  · exact absurd hrefused (Bool.noConfusion : ¬true = false)

/-- An INVITE that does as it should meets the condition. -/
theorem Inv.callOk_invite (h : s.Inv) {i : Invite} {r : IncomingCalls × Bool}
    (hr : s.step (.invite i) = some r) (hkeeps : KeepsCalls s (.invite i) r) :
    CallOk s (.invite i) := by
  rw [step, processIncomingCall] at hr
  by_cases hcan : i.canCreateCalls = false
  · exact Or.inl hcan
  by_cases hauth : i.authorized = false
  · exact Or.inr (Or.inl hauth)
  rw [if_neg hcan, if_neg hauth] at hr
  rcases h.releaseEarlier_iff i.peerUri i.buddy fun call hcall => hcall with
    ⟨hloop, hearlier⟩ | ⟨hloop, -⟩
  · refine Or.inr (Or.inr ⟨hearlier, ?_⟩)
    rw [hloop, Option.bind_some] at hr
    by_cases hverified : i.verified = false
    · exact Or.inl hverified
    by_cases hdialog : i.dialog = false
    · exact Or.inr (Or.inl hdialog)
    rw [if_neg hverified, if_neg hdialog] at hr
    obtain ⟨offer, components, hoffer, hcomponents, hlength, huas | hleft⟩ := acceptCall_cases hr
    · rw [h.acceptCall_of_createUas hoffer hcomponents hlength huas] at hr
      obtain rfl := Option.some.inj hr
      have hanswered : (i.initialAnswer && i.sendMsg) = true := by
        by_contra hno
        have hlen := (hkeeps.2 (by simpa using hno)).2.1.length_le
        simp only [IncomingCalls.accepted, List.length_append, List.length_singleton] at hlen
        exact Nat.not_succ_le_self _ hlen
      rw [Bool.and_eq_true] at hanswered
      refine Or.inr (Or.inr ⟨fun call hcall => ?_, ⟨offer, hoffer, components, hcomponents, hlength⟩,
        huas, hanswered⟩)
      exact (List.pairwise_append.1 hkeeps.1.peers).2.2 call hcall _ (List.mem_singleton_self _)
    · have hmem : (⟨s.next, none, i.peerUri⟩ : Call) ∈ r.1.calls := by
        rw [hleft]
        exact List.mem_append_right _ (List.mem_singleton_self _)
      obtain ⟨inv, hinv, -⟩ := hkeeps.1.attached _ hmem
      cases hinv
  · rw [hloop] at hr
    cases hr

/-- The state of a session that no call is attached to. -/
theorem callOnStateChanged_of_none {inv : ℕ} (hdata : s.sessions[inv]?.join = none)
    (disconnected : Bool) (buddy : Option ℕ) :
    s.callOnStateChanged inv disconnected buddy = some s := by
  rw [callOnStateChanged]
  split
  · rfl
  · rfl
  · rename_i address hsession
    rw [hsession] at hdata
    cases hdata

/-- The state of a session with a call. -/
theorem Inv.callOnStateChanged_of_some (h : s.Inv) {inv address : ℕ}
    (hdata : s.sessions[inv]?.join = some address) : ∃ call ∈ s.calls, call.inv = some inv ∧
      ∀ (disconnected : Bool) (buddy : Option ℕ), s.callOnStateChanged inv disconnected buddy =
        if disconnected && buddy.isSome then (s.releaseIncomingCall call).map Prod.fst else some s := by
  have hsession := Option.join_eq_some_iff.1 hdata
  obtain ⟨call, hcall, haddress, hinv⟩ := h.pointed inv address hsession
  have hfind : s.calls.find? (fun c => c.address = address) = some call :=
    find?_eq_some_of_unique hcall (decide_eq_true haddress) fun c hc hp =>
      h.eq_of_address hc hcall ((of_decide_eq_true hp).trans haddress.symm)
  refine ⟨call, hcall, hinv, fun disconnected buddy => ?_⟩
  rw [callOnStateChanged, hsession]
  dsimp only
  rw [hfind, Option.bind_some]

/-- **A session changes its state.** -/
theorem Inv.stateChanged (h : s.Inv) {inv : ℕ} {disconnected : Bool} {buddy : Option ℕ}
    (hok : CallOk s (.stateChanged inv disconnected buddy)) :
    ∃ r, s.step (.stateChanged inv disconnected buddy) = some r ∧
      KeepsCalls s (.stateChanged inv disconnected buddy) r ∧ r.1.Inv := by
  rw [step]
  cases hdata : s.sessions[inv]?.join with
  | none =>
      rw [callOnStateChanged_of_none hdata]
      refine ⟨_, rfl, ?_⟩
      cases disconnected with
      | false => exact ⟨⟨h.consistent, trivial⟩, h⟩
      | true => exact ⟨⟨(h.eraseSession hdata).consistent, trivial⟩, h.eraseSession hdata⟩
  | some address =>
      obtain ⟨call, hcall, hinv, hcallback⟩ := h.callOnStateChanged_of_some hdata
      rw [hcallback]
      cases disconnected with
      | false => exact ⟨_, rfl, ⟨h.consistent, trivial⟩, h⟩
      | true =>
          have hbuddy := hok rfl (by rw [hdata]; rfl)
          rw [hbuddy, h.releaseIncomingCall_of_mem hcall hinv]
          exact ⟨_, rfl, ⟨(h.released hcall hinv).consistent, trivial⟩, h.released hcall hinv⟩

/-- A call whose buddy is not found when it is disconnected points to a session that is gone. -/
theorem Inv.callOk_stateChanged (h : s.Inv) {inv : ℕ} {disconnected : Bool} {buddy : Option ℕ}
    {r : IncomingCalls × Bool} (hr : s.step (.stateChanged inv disconnected buddy) = some r)
    (hkeeps : KeepsCalls s (.stateChanged inv disconnected buddy) r) :
    CallOk s (.stateChanged inv disconnected buddy) := by
  rintro rfl hdata
  obtain ⟨address, hdata⟩ := Option.isSome_iff_exists.1 hdata
  cases buddy with
  | some id => rfl
  | none =>
      obtain ⟨call, hcall, hinv, hcallback⟩ := h.callOnStateChanged_of_some hdata
      rw [step, hcallback] at hr
      obtain rfl := Option.some.inj hr
      obtain ⟨inv', hinv', hgone⟩ := hkeeps.1.attached call hcall
      obtain rfl := Option.some.inj (hinv.symm.trans hinv')
      change (s.sessions.erase inv)[inv]? = _ at hgone
      rw [IdMap.getElem?_erase, if_pos rfl] at hgone
      cases hgone

theorem inv_initial : initial.Inv := by
  refine ⟨⟨fun call hcall => absurd hcall List.not_mem_nil, List.Pairwise.nil⟩,
    fun inv address hdata => ?_, List.nodup_nil, fun call hcall => absurd hcall List.not_mem_nil,
    fun inv hinv => ?_⟩
  · exact absurd hdata (by simp [initial])
  · exact absurd hinv (by simp [initial])

end invariant

end IncomingCalls

/-- **The incoming calls are consistent** along a run if and only if each of its events meets the
condition. -/
theorem calls_consistent_iff (events : List CallEvent) :
    Machine.Meets IncomingCalls.step KeepsCalls IncomingCalls.initial events ↔
      Machine.Admits IncomingCalls.step CallOk IncomingCalls.initial events := by
  refine Machine.meets_iff_admits (I := IncomingCalls.Inv) (fun s e hs hok => ?_)
    (fun s e r hs hr hkeeps => ?_) IncomingCalls.inv_initial events
  · cases e with
    | invite i => exact hs.invite hok
    | stateChanged inv disconnected buddy => exact hs.stateChanged hok
  · cases e with
    | invite i => exact hs.callOk_invite hr hkeeps
    | stateChanged inv disconnected buddy => exact hs.callOk_stateChanged hr hkeeps

/-- A request without a body is read as if it had one. -/
theorem not_calls_consistent_bodyless : ¬∀ events : List CallEvent,
    Machine.Meets IncomingCalls.step KeepsCalls IncomingCalls.initial events := by
  intro h
  obtain ⟨r, hr, -⟩ := h [.invite {
    canCreateCalls := true, peerUri := "bob@host", authorized := true, buddy := some 1, offer := none,
    verified := true, dialog := true, components := some 0, createUas := true, initialAnswer := true,
    sendMsg := true }]
  cases hr

end PJCall
end LibSwitcher
