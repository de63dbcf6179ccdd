/-
# The buddy of a call

`PJCall::call_on_state_changed` looks for the buddy of a call by what precedes the `@` in the address
of the peer, and enters the state of the call in the branch of this buddy
(`plugins/pjsip/pj-call.cpp`, and `get_id_from_buddy_name` in `pj-presence.cpp`).

The text that the key of a buddy should start with is not what it should be: of an address that
starts with `sip:` it has four characters too many, since the position of the `@` is used for a number of
characters, and without the domain it is the same for all users of this name (`toList_wanted`).
`reaches_iff` says of which addresses the buddy is found in spite of that.
-/

import LibSwitcher.Plugins.Pjsip.Authorizations

namespace LibSwitcher
namespace Pjsip
namespace CallStatus

open Stringutils

/-- `SendRecvStatus`. -/
inductive SendRecvStatus
  | disconnected
  | connecting
  | calling
  | receiving
  deriving DecidableEq

/-- The states of an invite session. -/
inductive InvState
  | null
  | calling
  | incoming
  | early
  | connecting
  | confirmed
  | disconnected

/-- The leaves `send_status` and `recv_status` of a branch `.buddies.<id>`. -/
structure BuddyStatus where
  sendStatus : Option SendRecvStatus
  recvStatus : Option SendRecvStatus
  deriving DecidableEq

/-- A call, with its invite session. -/
structure Call where
  inv : ℕ
  peerUri : String

/-- The sessions of the calls, and the statuses of the buddies. -/
structure SipCalls where
  outgoingCall : List ℕ
  incomingCall : List ℕ
  status : IdMap BuddyStatus

/-! ### Finding the buddy -/

/-- `get_id_from_buddy_name`. -/
def getIdFromBuddyName (buddyId : NameMap ℕ) (name : String) : Option ℕ :=
  (buddyId.toList.find? fun e => startsWith e.1 (name ++ "@")).map Prod.snd

/-- The address starts with `sip:`. -/
def StartsWithSip (peerUri : String) : Prop := "sip:".toList <+: peerUri.toList

instance decidableStartsWithSip (peerUri : String) : Decidable (StartsWithSip peerUri) :=
  inferInstanceAs (Decidable (_ <+: _))

/-- The name that `call_on_state_changed` looks for, `std::string(peer_uri, beginpos, endpos)`. -/
def buddyName (peerUri : String) : String :=
  let endpos := find ['@'] peerUri.toList
  let beginpos := if find "sip:".toList peerUri.toList = some 0 then 4 else 0
  String.ofList (match endpos with
    | some n => (peerUri.toList.drop beginpos).take n
    | none => peerUri.toList.drop beginpos)

/-! ### The status of the buddy -/

namespace SipCalls

/-- A change of the branch of a buddy, if it has one. -/
def update (s : SipCalls) (id : ℕ) (f : BuddyStatus → BuddyStatus) : SipCalls :=
  match s.status[id]? with
  | none => s
  | some b => { s with status := s.status.insert id (f b) }

/-- `release_outgoing_call`. -/
def releaseOutgoingCall (s : SipCalls) (call : Call) (id : ℕ) : SipCalls × Bool :=
  if call.inv ∈ s.outgoingCall then
    let s := s.update id fun b => { b with sendStatus := some .disconnected }
    ({ s with outgoingCall := s.outgoingCall.erase call.inv }, true)
  else (s, false)

/-- `release_incoming_call`. -/
def releaseIncomingCall (s : SipCalls) (call : Call) (id : ℕ) : SipCalls × Bool :=
  if call.inv ∈ s.incomingCall then
    let s := s.update id fun b => { b with recvStatus := some .disconnected }
    ({ s with incomingCall := s.incomingCall.erase call.inv }, true)
  else (s, false)

/-- `on_inv_state_disconnected`. -/
def onInvStateDisconnected (s : SipCalls) (call : Call) (id : ℕ) : SipCalls :=
  let r := s.releaseOutgoingCall call id
  if r.2 then r.1 else (r.1.releaseIncomingCall call id).1

/-- `on_inv_state_confirmed`. -/
def onInvStateConfirmed (s : SipCalls) (call : Call) (id : ℕ) : SipCalls :=
  s.update id fun b =>
    if call.inv ∈ s.outgoingCall then { b with sendStatus := some .calling }
    else { b with recvStatus := some .receiving }

/-- `on_inv_state_connecting`. -/
def onInvStateConnecting (s : SipCalls) (call : Call) (id : ℕ) : SipCalls :=
  s.update id fun b =>
    if call.inv ∈ s.outgoingCall then { b with sendStatus := some .connecting }
    else { b with recvStatus := some .connecting }

/-- `on_inv_state_early`. -/
def onInvStateEarly (s : SipCalls) (call : Call) (id : ℕ) : SipCalls := s.onInvStateConnecting call id

/-- `call_on_state_changed`. -/
def callOnStateChanged (buddyId : NameMap ℕ) (s : SipCalls) (call : Call) (state : InvState) :
    SipCalls :=
  match getIdFromBuddyName buddyId (buddyName call.peerUri) with
  | none => s
  | some id =>
      match state with
      | .disconnected => s.onInvStateDisconnected call id
      | .confirmed => s.onInvStateConfirmed call id
      | .early => s.onInvStateEarly call id
      | .connecting => s.onInvStateConnecting call id
      | .null | .calling | .incoming => s

end SipCalls

/-! ### What the callback should do -/

/-- The address without `sip:` in front. -/
def address (peerUri : String) : String :=
  if StartsWithSip peerUri then String.ofList (peerUri.toList.drop 4) else peerUri

/-- The buddies are told by their identifiers, their keys have no port, and each has a branch. -/
structure Registered (buddyId : NameMap ℕ) (s : SipCalls) : Prop where
  injective : ∀ (key key' : String) (id : ℕ), buddyId[key]? = some id → buddyId[key']? = some id →
    key = key'
  colon_not_mem : ∀ key ∈ buddyId, ':' ∉ key.toList
  status : ∀ (key : String) (id : ℕ), buddyId[key]? = some id → id ∈ s.status

/-- The callbacks of the calls with a peer reach its buddy, and no other one; for a peer that is no
buddy they change no status. -/
def Reaches (buddyId : NameMap ℕ) (s : SipCalls) (peerUri : String) : Prop :=
  match buddyId[address peerUri]? with
  | some id => getIdFromBuddyName buddyId (buddyName peerUri) = some id ∧
      ∀ inv state, ∀ id' ≠ id,
        (s.callOnStateChanged buddyId ⟨inv, peerUri⟩ state).status[id']? = s.status[id']?
  | none => ∀ inv state, (s.callOnStateChanged buddyId ⟨inv, peerUri⟩ state).status = s.status

/-- What the key of the buddy has to start with, ignoring the case: the user and the `@`, and in an
address with `sip:` also three more characters and an `@`. -/
def wanted (peerUri : String) : String :=
  let a := (address peerUri).toList
  String.ofList (a.takeWhile (· ≠ '@') ++
    (if StartsWithSip peerUri then (a.dropWhile (· ≠ '@')).take 4 else []) ++ ['@'])

/-- A key starts with what is wanted. -/
def Fits (key peerUri : String) : Prop := (tolower (wanted peerUri)).toList <+: (tolower key).toList

instance decidableFits (key peerUri : String) : Decidable (Fits key peerUri) :=
  inferInstanceAs (Decidable (_ <+: _))

/-- An address that its own key fits: it has an `@`, and if it starts with `sip:`, another one
three characters behind the first. -/
def HasAt (peerUri : String) : Prop :=
  '@' ∈ (address peerUri).toList ∧ (StartsWithSip peerUri →
    ((address peerUri).toList.dropWhile (· ≠ '@'))[4]? = some '@')

/-- The buddy is the first one that fits, in the order of the keys; or no key fits. -/
def Reached (buddyId : NameMap ℕ) (peerUri : String) : Prop :=
  if address peerUri ∈ buddyId then
    HasAt peerUri ∧ ∀ key ∈ buddyId, compare key (address peerUri) = .lt → ¬Fits key peerUri
  else ∀ key ∈ buddyId, ¬Fits key peerUri

/-! ### The text that is looked for -/

variable {peerUri : String} {cs : List Char}

theorem find_singleton (cs : List Char) :
    find ['@'] cs = if '@' ∈ cs then some (cs.takeWhile (· ≠ '@')).length else none := by
  induction cs with
  | nil => rfl
  | cons c cs ih =>
      rw [find, ih]
      by_cases hc : c = '@'
      · subst hc
        simp
      · have hpre : ['@'].isPrefixOf (c :: cs) = false := by
          simp [List.isPrefixOf, Ne.symm hc]
        rw [hpre, if_neg Bool.false_ne_true, List.takeWhile_cons_of_pos (by simpa using hc)]
        by_cases hmem : '@' ∈ cs
        · rw [if_pos hmem, if_pos (List.mem_cons_of_mem _ hmem)]
          rfl
        · rw [if_neg hmem, if_neg fun h => (List.mem_cons.1 h).elim (fun h => hc h.symm) hmem]
          rfl

theorem find_eq_zero_iff {pat : List Char} (hne : pat ≠ []) :
    find pat cs = some 0 ↔ pat <+: cs := by
  cases cs with
  | nil => simp [find, hne]
  | cons c cs =>
      rw [find]
      by_cases hpre : pat <+: c :: cs
      · rw [if_pos (List.isPrefixOf_iff_prefix.2 hpre)]
        exact iff_of_true rfl hpre
      · rw [if_neg fun h => hpre (List.isPrefixOf_iff_prefix.1 h)]
        refine iff_of_false (fun h => ?_) hpre
        obtain ⟨n, -, hn⟩ := Option.map_eq_some_iff.1 h
        exact absurd hn (Nat.succ_ne_zero n)

/-- The text of a peer, in front of the address. -/
theorem toList_peerUri (peerUri : String) : peerUri.toList =
    (if StartsWithSip peerUri then "sip:".toList else []) ++ (address peerUri).toList := by
  rw [address]
  split_ifs with hsip
  · obtain ⟨r, hr⟩ := hsip
    have hdrop : (String.ofList (peerUri.toList.drop 4)).toList = r := by
      rw [String.toList_ofList, ← hr]
      rfl
    rw [hdrop, hr]
  · rfl

theorem toList_wanted (peerUri : String) : (wanted peerUri).toList =
    (address peerUri).toList.takeWhile (· ≠ '@') ++
      (if StartsWithSip peerUri then ((address peerUri).toList.dropWhile (· ≠ '@')).take 4 else []) ++
      ['@'] := String.toList_ofList

/-- The name and the `@` behind it are what is wanted. -/
theorem buddyName_append (peerUri : String) : buddyName peerUri ++ "@" = wanted peerUri := by
  have hsplit := toList_peerUri peerUri
  have hsip : ∀ c ∈ "sip:".toList, decide (c ≠ '@') = true :=
    List.forall_iff_forall_mem.1 (by decide)
  rw [← String.toList_inj, String.toList_append, toList_wanted]
  refine congrArg (· ++ ['@']) ?_
  rw [buddyName, find_singleton, if_congr (find_eq_zero_iff (by decide)) rfl rfl, String.toList_ofList]
  generalize (address peerUri).toList = a at hsplit
  have hsep : a.takeWhile (· ≠ '@') ++ a.dropWhile (· ≠ '@') = a := List.takeWhile_append_dropWhile
  by_cases h : StartsWithSip peerUri
  · have hpre : "sip:".toList <+: peerUri.toList := h
    rw [if_pos h] at hsplit ⊢
    have hmem : '@' ∈ peerUri.toList ↔ '@' ∈ a := by
      rw [hsplit, List.mem_append]
      exact or_iff_right (by decide)
    have hdrop : peerUri.toList.drop 4 = a := by
      rw [hsplit]
      rfl
    rw [if_pos hpre, hdrop]
    by_cases hat : '@' ∈ a
    · rw [if_pos (hmem.2 hat)]
      have hlength : (peerUri.toList.takeWhile (· ≠ '@')).length =
          (a.takeWhile (· ≠ '@')).length + 4 := by
        rw [hsplit, List.takeWhile_append_of_pos hsip, List.length_append, Nat.add_comm]
        rfl
      dsimp only
      rw [hlength]
      nth_rewrite 2 [← hsep]
      exact List.take_length_add_append 4
    · rw [if_neg (mt hmem.1 hat)]
      have hall : ∀ c ∈ a, decide (c ≠ '@') = true := fun c hc =>
        decide_eq_true fun heq => hat (heq ▸ hc)
      rw [List.dropWhile_eq_nil_iff.2 hall, List.takeWhile_eq_self_iff.2 hall]
      exact (List.append_nil a).symm
  · have hpre : ¬"sip:".toList <+: peerUri.toList := h
    rw [if_neg h, List.nil_append] at hsplit
    rw [if_neg hpre, if_neg h, List.drop_zero, List.append_nil, hsplit]
    by_cases hat : '@' ∈ a
    · rw [if_pos hat]
      dsimp only
      nth_rewrite 2 [← hsep]
      exact List.take_left
    · have hall : ∀ c ∈ a, decide (c ≠ '@') = true := fun c hc =>
        decide_eq_true fun heq => hat (heq ▸ hc)
      rw [if_neg hat, List.takeWhile_eq_self_iff.2 hall]

/-- A part of a text and an `@` are what the text starts with if the `@` is there. -/
theorem map_take_append_at_prefix_iff (n : ℕ) :
    (cs.take n ++ ['@']).map Char.toLower <+: cs.map Char.toLower ↔ cs[n]? = some '@' := by
  induction cs generalizing n with
  | nil => simp
  | cons c cs ih =>
      cases n with
      | zero =>
          rw [List.take_zero, List.nil_append, List.map_cons, List.map_cons, List.cons_prefix_cons,
            List.map_nil, and_iff_left List.nil_prefix, List.getElem?_cons_zero, Option.some_inj, eq_comm]
          exact toLower_eq_iff (by decide) c
      | succ n =>
          rw [List.take_succ_cons, List.cons_append, List.map_cons, List.map_cons,
            List.cons_prefix_cons, and_iff_right rfl, ih, List.getElem?_cons_succ]

/-- An address fits what is wanted for it if the characters that follow the user in it are there. -/
theorem fits_address_iff (peerUri : String) : Fits (address peerUri) peerUri ↔ HasAt peerUri := by
  rw [Fits, toList_tolower, toList_tolower, toList_wanted, HasAt]
  generalize (address peerUri).toList = a
  have hsep : a.takeWhile (· ≠ '@') ++ a.dropWhile (· ≠ '@') = a := List.takeWhile_append_dropWhile
  have hcut : (a.takeWhile (· ≠ '@') ++
      (if StartsWithSip peerUri then (a.dropWhile (· ≠ '@')).take 4 else []) ++ ['@']).map
        Char.toLower <+: a.map Char.toLower ↔
      ((if StartsWithSip peerUri then (a.dropWhile (· ≠ '@')).take 4 else []) ++ ['@']).map
        Char.toLower <+: (a.dropWhile (· ≠ '@')).map Char.toLower := by
    nth_rewrite 3 [← hsep]
    rw [List.append_assoc, List.map_append, List.map_append, List.map_append,
      List.prefix_append_right_inj]
  rw [hcut]
  by_cases hat : '@' ∈ a
  · obtain ⟨u, d, rfl, hu⟩ := List.eq_append_cons_of_mem hat
    have hd : (u ++ '@' :: d).dropWhile (· ≠ '@') = '@' :: d := by
      have hall : ∀ c ∈ u, decide (c ≠ '@') = true := fun c hc =>
        decide_eq_true fun heq => hu (heq ▸ hc)
      rw [List.dropWhile_append_of_pos hall, List.dropWhile_cons_of_neg (by decide)]
    rw [hd, and_iff_right hat]
    by_cases hsip : StartsWithSip peerUri
    · rw [if_pos hsip, map_take_append_at_prefix_iff]
      exact (imp_iff_right hsip).symm
    · rw [if_neg hsip]
      exact iff_of_true ⟨d.map Char.toLower, rfl⟩ fun h => absurd h hsip
  · have hall : ∀ c ∈ a, decide (c ≠ '@') = true := fun c hc =>
      decide_eq_true fun heq => hat (heq ▸ hc)
    rw [List.dropWhile_eq_nil_iff.2 hall]
    refine iff_of_false (fun h => ?_) fun h => hat h.1
    simpa using List.prefix_nil.1 h

/-! ### The buddy that is found -/

variable {buddyId : NameMap ℕ} {s : SipCalls} {id : ℕ} {key : String}

theorem startsWith_iff_fits (key peerUri : String) :
    startsWith key (buddyName peerUri ++ "@") = true ↔ Fits key peerUri := by
  rw [startsWith_iff, buddyName_append, Fits]

theorem getIdFromBuddyName_eq_none_iff :
    getIdFromBuddyName buddyId (buddyName peerUri) = none ↔ ∀ key ∈ buddyId, ¬Fits key peerUri := by
  rw [getIdFromBuddyName, Option.map_eq_none_iff]
  refine (NameMap.find?_toList_eq_none_iff
    (q := fun key => startsWith key (buddyName peerUri ++ "@"))).trans ?_
  exact forall₂_congr fun key _ => by rw [← startsWith_iff_fits, Bool.not_eq_true]

/-- The first key that fits. -/
theorem find?_buddyName_eq_some_iff :
    buddyId.toList.find? (fun e => startsWith e.1 (buddyName peerUri ++ "@")) = some (key, id) ↔
      buddyId[key]? = some id ∧ Fits key peerUri ∧
        ∀ key' ∈ buddyId, compare key' key = .lt → ¬Fits key' peerUri := by
  refine (NameMap.find?_toList_eq_some_iff
    (q := fun key => startsWith key (buddyName peerUri ++ "@"))).trans ?_
  rw [startsWith_iff_fits]
  refine and_congr_right fun _ => and_congr_right fun _ => forall₃_congr fun key' _ _ => ?_
  rw [← startsWith_iff_fits, Bool.not_eq_true]

/-- The buddy of a key is found if it is the first one that fits. -/
theorem getIdFromBuddyName_eq_some_iff (h : Registered buddyId s) (hkey : buddyId[key]? = some id) :
    getIdFromBuddyName buddyId (buddyName peerUri) = some id ↔
      Fits key peerUri ∧ ∀ key' ∈ buddyId, compare key' key = .lt → ¬Fits key' peerUri := by
  rw [getIdFromBuddyName, Option.map_eq_some_iff]
  constructor
  · rintro ⟨⟨key', id'⟩, hfound, rfl⟩
    obtain ⟨hkey', hfirst⟩ := find?_buddyName_eq_some_iff.1 hfound
    obtain rfl := h.injective key key' id' hkey hkey'
    exact hfirst
  · exact fun hfirst => ⟨(key, id), find?_buddyName_eq_some_iff.2 ⟨hkey, hfirst⟩, rfl⟩

/-! ### The statuses that are changed -/

/-- A change of a branch leaves the others. -/
theorem update_status_ne (f : BuddyStatus → BuddyStatus) {id' : ℕ} (hne : id' ≠ id) :
    (s.update id f).status[id']? = s.status[id']? := by
  rw [SipCalls.update]
  split
  · rfl
  · exact IdMap.getElem?_insert_ne hne

theorem releaseOutgoingCall_status_ne (call : Call) {id' : ℕ} (hne : id' ≠ id) :
    (s.releaseOutgoingCall call id).1.status[id']? = s.status[id']? := by
  rw [SipCalls.releaseOutgoingCall]
  split_ifs
  · exact update_status_ne _ hne
  · rfl

theorem releaseIncomingCall_status_ne (call : Call) {id' : ℕ} (hne : id' ≠ id) :
    (s.releaseIncomingCall call id).1.status[id']? = s.status[id']? := by
  rw [SipCalls.releaseIncomingCall]
  split_ifs
  · exact update_status_ne _ hne
  · rfl

/-- The callback changes the branch of the buddy it has found, if any. -/
theorem callOnStateChanged_status_ne (call : Call) {state : InvState}
    (hfound : getIdFromBuddyName buddyId (buddyName call.peerUri) = some id) {id' : ℕ}
    (hne : id' ≠ id) :
    (s.callOnStateChanged buddyId call state).status[id']? = s.status[id']? := by
  rw [SipCalls.callOnStateChanged, hfound]
  cases state with
  | disconnected =>
      dsimp only [SipCalls.onInvStateDisconnected]
      split_ifs
      · exact releaseOutgoingCall_status_ne call hne
      · exact (releaseIncomingCall_status_ne call hne).trans
          (releaseOutgoingCall_status_ne call hne)
  | confirmed => exact update_status_ne _ hne
  | early => exact update_status_ne _ hne
  | connecting => exact update_status_ne _ hne
  | null | calling | incoming => rfl

/-- A buddy that is found has its branch changed by a call that is connecting or confirmed. -/
theorem exists_status_ne (call : Call)
    (hfound : getIdFromBuddyName buddyId (buddyName call.peerUri) = some id) (hid : id ∈ s.status) :
    ∃ state, (s.callOnStateChanged buddyId call state).status ≠ s.status := by
  obtain ⟨b, hb⟩ := Option.isSome_iff_exists.1 (Std.ExtTreeMap.mem_iff_isSome_getElem?.1 hid)
  by_contra hnone
  have hall : ∀ state, (s.callOnStateChanged buddyId call state).status[id]? = some b := fun state =>
    (congrArg (fun m : IdMap BuddyStatus => m[id]?)
      (not_not.1 (not_exists.1 hnone state))).trans hb
  have hconfirmed := hall .confirmed
  have hconnecting := hall .connecting
  simp only [SipCalls.callOnStateChanged, hfound, SipCalls.onInvStateConfirmed,
    SipCalls.onInvStateConnecting, SipCalls.update, hb, IdMap.getElem?_insert, if_pos,
    Option.some_inj] at hconfirmed hconnecting
  split_ifs at hconfirmed hconnecting
  · have := congrArg BuddyStatus.sendStatus (hconfirmed.trans hconnecting.symm)
    cases this
  · have := congrArg BuddyStatus.recvStatus (hconfirmed.trans hconnecting.symm)
    cases this

/-- **The status of a call reaches its buddy** exactly if the key of the buddy is the first one that
starts with what is wanted, and a peer that is no buddy changes no status exactly if no key does. -/
theorem reaches_iff (h : Registered buddyId s) (peerUri : String) :
    Reaches buddyId s peerUri ↔ Reached buddyId peerUri := by
  rw [Reaches, Reached]
  cases hkey : buddyId[address peerUri]? with
  | some id =>
      have hmem : address peerUri ∈ buddyId := by
        rw [Std.ExtTreeMap.mem_iff_isSome_getElem?, hkey]
        rfl
      rw [if_pos hmem, ← fits_address_iff, ← getIdFromBuddyName_eq_some_iff h hkey]
      exact and_iff_left_of_imp fun hfound inv state id' hne =>
        callOnStateChanged_status_ne ⟨inv, peerUri⟩ hfound hne
  | none =>
      have hmem : address peerUri ∉ buddyId := by
        rw [Std.ExtTreeMap.mem_iff_isSome_getElem?, hkey]
        exact Bool.false_ne_true
      rw [if_neg hmem, ← getIdFromBuddyName_eq_none_iff]
      constructor
      · intro hsame
        cases hfound : getIdFromBuddyName buddyId (buddyName peerUri) with
        | none => rfl
        | some id =>
            obtain ⟨⟨key, id⟩, hfirst, rfl⟩ := Option.map_eq_some_iff.1 hfound
            have hstatus := h.status key id (find?_buddyName_eq_some_iff.1 hfirst).1
            obtain ⟨state, hne⟩ := exists_status_ne ⟨0, peerUri⟩ hfound hstatus
            exact absurd (hsame 0 state) hne
      · intro hfound inv state
        rw [SipCalls.callOnStateChanged]
        dsimp only
        rw [hfound]

/-- The buddies of any run of the operations on them are registered, as far as their branches have
statuses. -/
theorem registered_of_inv {lowerCase : Bool} {r : Recorded} (h : r.Inv lowerCase)
    (hstatus : ∀ id ∈ r.presence.buddies, id ∈ s.status) : Registered r.presence.buddyId s where
  injective _ _ _ hkey hkey' := h.coherent.injective hkey hkey'
  colon_not_mem key hkey := by
    obtain ⟨user, -, rfl⟩ := h.given key hkey
    exact colon_not_mem_buddyKey
  status key id hkey := by
    obtain ⟨branch, hbranch, -⟩ := h.coherent.uri key id hkey
    refine hstatus id ?_
    rw [Std.ExtTreeMap.mem_iff_isSome_getElem?, hbranch]
    rfl

/-- Two buddies of the same name, with a status each. -/
def twoBobs : NameMap ℕ := ((∅ : NameMap ℕ).insert "bob@a.org" 0).insert "bob@b.org" 1

/-- Their statuses. -/
def noStatus : SipCalls :=
  ⟨[], [], ((∅ : IdMap BuddyStatus).insert 0 ⟨none, none⟩).insert 1 ⟨none, none⟩⟩

theorem twoBobs_eq_some_iff : twoBobs[key]? = some id ↔
    key = "bob@a.org" ∧ id = 0 ∨ key = "bob@b.org" ∧ id = 1 := by
  rw [twoBobs, NameMap.getElem?_insert, NameMap.getElem?_insert]
  split_ifs with hb ha
  · simp [hb, eq_comm]
  · simp [ha, eq_comm]
  · simp [hb, ha]

theorem mem_twoBobs_iff : key ∈ twoBobs ↔ key = "bob@a.org" ∨ key = "bob@b.org" := by
  rw [twoBobs, NameMap.mem_insert, NameMap.mem_insert]
  simp [or_comm]

theorem registered_twoBobs : Registered twoBobs noStatus where
  injective key key' id h h' := by
    rcases twoBobs_eq_some_iff.1 h with ⟨hkey, hid⟩ | ⟨hkey, hid⟩ <;>
      rcases twoBobs_eq_some_iff.1 h' with ⟨hkey', hid'⟩ | ⟨hkey', hid'⟩
    · rw [hkey, hkey']
    · omega
    · omega
    · rw [hkey, hkey']
  colon_not_mem key h := by
    obtain rfl | rfl := mem_twoBobs_iff.1 h <;> decide
  status key id h := by
    obtain ⟨-, rfl⟩ | ⟨-, rfl⟩ := twoBobs_eq_some_iff.1 h <;> decide +kernel

/-- The first of them is reached. -/
theorem reaches_firstBob : Reaches twoBobs noStatus "bob@a.org" := by
  refine (reaches_iff registered_twoBobs "bob@a.org").2 ?_
  rw [Reached, if_pos (mem_twoBobs_iff.2 (Or.inl (by decide)))]
  refine ⟨⟨by decide, fun h => absurd h (by decide)⟩, fun key hkey hlt => ?_⟩
  obtain rfl | rfl := mem_twoBobs_iff.1 hkey
  · exact absurd hlt (by decide)
  · exact absurd hlt (by decide)

/-- A call with the second of them gives the first one its status, and with `sip:` in front of the
address none is found. -/
theorem not_reaches_secondBob :
    ¬Reaches twoBobs noStatus "bob@b.org" ∧ ¬Reaches twoBobs noStatus "sip:bob@b.org" := by
  have hkey : twoBobs["bob@b.org"]? = some 1 := twoBobs_eq_some_iff.2 (Or.inr ⟨rfl, rfl⟩)
  have haddress : address "bob@b.org" = "bob@b.org" ∧ address "sip:bob@b.org" = "bob@b.org" := by
    decide
  rw [Reaches, haddress.1, Reaches, haddress.2, hkey]
  exact ⟨fun h => absurd h.1 (by decide +kernel), fun h => absurd h.1 (by decide +kernel)⟩

end CallStatus
end Pjsip
end LibSwitcher
