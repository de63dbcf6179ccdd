/-
# The authorizations follow the buddies

A machine performs the operations on the buddies (`Presence`), and records which text each buddy
was added with.  `Coherent` says that the three maps have the same keys, and that the branch of
a buddy has its key and its callback.  The operations keep it (`step_coherent`), but for the
removal of the account: it deletes the buddies and leaves the access list as it is.

A text is found again by `del_buddy` if it has no port, because `add_buddy` alone cuts it there,
and by `authorize` if what is in front of the port has no upper case letter that
`add_buddy` lowers.  `authorizations_follow_iff` is the exact condition for a run.
-/

import LibSwitcher.Lib.Machine
import LibSwitcher.Plugins.Pjsip.PJPresence
import Mathlib.Algebra.Order.BigOperators.Group.List
import Mathlib.Algebra.Order.Group.Nat
import Mathlib.Algebra.Ring.Nat

namespace LibSwitcher
namespace Pjsip

open Stringutils

/-- An operation on the account or its buddies, with what pjsua answers. -/
inductive BuddyOp where
  | register (added : Bool)
  | addBuddy (user : String) (added : Bool)
  | delBuddy (user : String) (deleted : Bool)
  | nameBuddy (name user : String)
  | authorize (sipUrl : String) (authorize : Bool)
  | unregister (accountDeleted : Bool) (deleted : ℕ → Bool)

/-- The buddies, and the texts that they were added with. -/
structure Recorded where
  presence : Presence
  given : NameMap String

namespace Recorded

/-- No buddy yet. -/
def initial : Recorded := ⟨Presence.initial, ∅⟩

variable (lowerCase : Bool) (verifyUrl : String → Bool) (newId : List ℕ → ℕ)

/-- Perform an operation.  The result is that of `authorize`, and true for the others. -/
def step (s : Recorded) : BuddyOp → Option (Recorded × Bool)
  | .register added => some ({ s with presence := s.presence.registerAccount added }, true)
  | .addBuddy user added =>
      let p := s.presence.addBuddy lowerCase verifyUrl newId user added
      let key := buddyKey lowerCase user
      some (⟨p, if key ∉ s.presence.buddyId ∧ key ∈ p.buddyId then s.given.insert key user
        else s.given⟩, true)
  | .delBuddy user deleted =>
      some ({ s with presence := s.presence.delBuddy lowerCase verifyUrl user deleted }, true)
  | .nameBuddy name user =>
      some ({ s with presence := s.presence.nameBuddy lowerCase verifyUrl name user }, true)
  | .authorize sipUrl authorize =>
      (s.presence.authorizeBuddy sipUrl authorize).map fun r => ({ s with presence := r.1 }, r.2)
  | .unregister accountDeleted deleted =>
      some ({ s with presence := s.presence.unregisterAccount accountDeleted deleted }, true)

end Recorded

/-- The three maps have the same keys, and each buddy has its key in its branch and its callback
there. -/
structure Coherent (s : Presence) : Prop where
  authorizations : ∀ key, key ∈ s.authorizations ↔ key ∈ s.buddyId
  onAuthCbs : ∀ key, key ∈ s.onAuthCbs ↔ key ∈ s.buddyId
  uri : ∀ (key : String) (id : ℕ), s.buddyId[key]? = some id →
    ∃ branch : BuddyBranch, s.buddies[id]? = some branch ∧ branch.uri = some key
  callback : ∀ (key : String) (id : ℕ), s.buddyId[key]? = some id → s.onAuthCbs[key]? = some id

/-- What an operation should do.  Where the text of a buddy is given, it is the buddy of that text
that is deleted or authorized, and a buddy that is added starts with the default. -/
def Acts (s : Recorded) (op : BuddyOp) (r : Recorded × Bool) : Prop :=
  Coherent r.1.presence ∧ match op with
    | .addBuddy _ _ => ∀ (key : String) (id : ℕ), s.presence.buddyId[key]? = none →
        r.1.presence.buddyId[key]? = some id →
        r.1.presence.authorizations[key]? = some defaultAuthorization ∧
          r.1.presence.onAuthCbs[key]? = some id
    | .delBuddy user deleted => deleted = true → ∀ (key : String) (id : ℕ),
        s.given[key]? = some user → s.presence.buddyId[key]? = some id →
        r.1.presence.buddyId[key]? = none ∧ r.1.presence.buddies[id]? = none
    | .authorize sipUrl authorize => ∀ (key : String) (id : ℕ),
        s.given[key]? = some sipUrl → s.presence.buddyId[key]? = some id →
        r.2 = true ∧ r.1.presence.authorizations[key]? = some authorize ∧
          ∃ branch : BuddyBranch, r.1.presence.buddies[id]? = some branch ∧
            branch.whitelisted = some authorize
    | _ => True

section condition

variable (lowerCase : Bool) (verifyUrl : String → Bool)

/-- The text is that of a buddy: `add_buddy` made it, and it is there still. -/
def IsGiven (s : Recorded) (user : String) : Prop :=
  s.given[buddyKey lowerCase user]? = some user ∧ buddyKey lowerCase user ∈ s.presence.buddyId

instance (s : Recorded) (user : String) : Decidable (IsGiven lowerCase s user) :=
  inferInstanceAs (Decidable (_ ∧ _))

/-- The text of a buddy that is deleted has no port, and is valid as it is given; that of a buddy that
is authorized has nothing that is lowered in front of its port; and no buddy is deleted
with the account. -/
def OpOk (s : Recorded) : BuddyOp → Prop
  | .delBuddy user deleted => deleted = true → IsGiven lowerCase s user →
      ':' ∉ user.toList ∧ verifyUrl ("sip:" ++ user) = true
  | .authorize sipUrl _ => IsGiven lowerCase s sipUrl → lowerCase = true →
      tolower (cutPort sipUrl) = cutPort sipUrl
  | .unregister accountDeleted deleted =>
      (s.presence.account && s.presence.accountValid && accountDeleted) = true →
        ∀ entry, s.presence.buddyId.toList.head? = some entry → deleted entry.2 = false
  | _ => True

end condition

theorem cutPort_of_not_mem {uri : String} (h : ':' ∉ uri.toList) : cutPort uri = uri := by
  have htake : uri.toList.takeWhile (· ≠ ':') = uri.toList :=
    List.takeWhile_eq_self_iff.2 fun c hc => decide_eq_true fun heq => h (heq ▸ hc)
  rw [cutPort, htake, String.ofList_toList]

theorem colon_not_mem_cutPort (uri : String) : ':' ∉ (cutPort uri).toList := by
  intro h
  rw [cutPort, String.toList_ofList] at h
  simpa using List.mem_takeWhile_imp h

/-- It does not matter whether a text is lowered or cut first. -/
theorem cutPort_tolower (uri : String) : cutPort (tolower uri) = tolower (cutPort uri) := by
  have hcolon : (fun c : Char => decide (c.toLower ≠ ':')) = fun c => decide (c ≠ ':') :=
    funext fun c => decide_eq_decide.2 (not_congr (toLower_eq_iff (by decide) c))
  rw [cutPort, toList_tolower, List.takeWhile_map, tolower, cutPort, String.toList_ofList]
  exact congrArg (fun p => String.ofList ((uri.toList.takeWhile p).map Char.toLower)) hcolon

/-- What is no capital letter is kept. -/
theorem toLower_of_not_upper {c : Char} (h : ¬(c.val ≥ 'A'.val ∧ c.val ≤ 'Z'.val)) :
    c.toLower = c := by
  unfold Char.toLower
  rw [dif_neg h]

theorem toLower_toLower (c : Char) : c.toLower.toLower = c.toLower := by
  by_cases h : c.val ≥ 'A'.val ∧ c.val ≤ 'Z'.val
  · have hval : c.toLower.val = c.val + ('a'.val - 'A'.val) := by
      unfold Char.toLower
      rw [dif_pos h]
    refine toLower_of_not_upper ?_
    rintro ⟨-, hle⟩
    rw [hval] at hle
    simp only [ge_iff_le, UInt32.le_iff_toNat_le, UInt32.toNat_add] at h hle
    simp at h hle
    omega
  · rw [toLower_of_not_upper h, toLower_of_not_upper h]

theorem tolower_tolower (s : String) : tolower (tolower s) = tolower s := by
  rw [tolower, toList_tolower, List.map_map, tolower]
  refine congrArg String.ofList (List.map_congr_left fun c _ => ?_)
  rw [Function.comp_apply, toLower_toLower]

section keys

variable {lowerCase : Bool} {user : String}

theorem colon_not_mem_buddyKey : ':' ∉ (buddyKey lowerCase user).toList :=
  colon_not_mem_cutPort _

/-- A key is what `authorize` reads if nothing in front of the port is lowered. -/
theorem cutPort_eq_buddyKey_iff :
    cutPort user = buddyKey lowerCase user ↔
      (lowerCase = true → tolower (cutPort user) = cutPort user) := by
  cases lowerCase with
  | false => simp [buddyKey, lowerAccount]
  | true => simp [buddyKey, lowerAccount, cutPort_tolower, eq_comm]

/-- A key is in lower case, where the accounts are. -/
theorem tolower_buddyKey : tolower (buddyKey true user) = buddyKey true user := by
  rw [buddyKey, lowerAccount, if_pos rfl, cutPort_tolower, tolower_tolower]

theorem colon_mem_lowerAccount : ':' ∈ (lowerAccount lowerCase user).toList ↔ ':' ∈ user.toList := by
  cases lowerCase with
  | false => exact Iff.rfl
  | true => exact mem_tolower_iff (by decide) user

/-- A key is what `del_buddy` reads if the text has no port. -/
theorem lowerAccount_eq_buddyKey (h : ':' ∉ user.toList) :
    lowerAccount lowerCase user = buddyKey lowerCase user :=
  (cutPort_of_not_mem (mt colon_mem_lowerAccount.1 h)).symm

end keys

namespace Presence

section fields

variable (s : Presence) (id : ℕ) (leaf : BuddyBranch → BuddyBranch)

@[simp] theorem graftLeaf_buddyId : (s.graftLeaf id leaf).buddyId = s.buddyId := rfl

@[simp] theorem graftLeaf_authorizations :
    (s.graftLeaf id leaf).authorizations = s.authorizations := rfl

@[simp] theorem graftLeaf_onAuthCbs : (s.graftLeaf id leaf).onAuthCbs = s.onAuthCbs := rfl

theorem graftLeaf_buddies (id' : ℕ) : (s.graftLeaf id leaf).buddies[id']? =
    if id' = id then some (leaf (s.buddies[id]?.getD ⟨none, none, none⟩)) else s.buddies[id']? :=
  IdMap.getElem?_insert

theorem onAuthorization_buddies (authorized : Bool) : ∃ branch : BuddyBranch,
    (s.onAuthorization id authorized).buddies[id]? = some branch ∧
      branch.whitelisted = some authorized := by
  rw [onAuthorization, graftLeaf_buddies, if_pos rfl]
  exact ⟨_, rfl, rfl⟩

end fields

end Presence

section coherence

variable {s : Presence}

/-- A buddy is told by its branch. -/
theorem Coherent.injective (h : Coherent s) {key key' : String} {id : ℕ}
    (hkey : s.buddyId[key]? = some id) (hkey' : s.buddyId[key']? = some id) : key = key' := by
  obtain ⟨branch, hbranch, huri⟩ := h.uri key id hkey
  obtain ⟨branch', hbranch', huri'⟩ := h.uri key' id hkey'
  obtain rfl := Option.some.inj (hbranch.symm.trans hbranch')
  exact Option.some.inj (huri.symm.trans huri')

/-- A leaf other than the key may be grafted to any branch. -/
theorem Coherent.graftLeaf (h : Coherent s) (id : ℕ) {leaf : BuddyBranch → BuddyBranch}
    (hleaf : ∀ branch, (leaf branch).uri = branch.uri) : Coherent (s.graftLeaf id leaf) := by
  refine ⟨h.authorizations, h.onAuthCbs, fun key id' hkey => ?_, h.callback⟩
  obtain ⟨branch, hbranch, huri⟩ := h.uri key id' hkey
  rw [Presence.graftLeaf_buddies]
  split_ifs with heq
  · subst heq
    exact ⟨_, rfl, by rw [hleaf, hbranch, Option.getD_some, huri]⟩
  · exact ⟨branch, hbranch, huri⟩

/-- The state after a buddy is entered. -/
def Presence.enterBuddy (s : Presence) (key : String) (id : ℕ) : Presence :=
  ({ s with buddyId := s.buddyId.insert key id }.graftLeaf id
    fun branch => { branch with uri := some key }).whiteListAdd key id

theorem addBuddy_cases (lowerCase : Bool) (verifyUrl : String → Bool) (newId : List ℕ → ℕ)
    (user : String) (added : Bool) :
    s.addBuddy lowerCase verifyUrl newId user added = s ∨
      buddyKey lowerCase user ∉ s.buddyId ∧
        s.addBuddy lowerCase verifyUrl newId user added =
          s.enterBuddy (buddyKey lowerCase user) (newId (s.buddyId.toList.map Prod.snd)) := by
  rw [Presence.addBuddy]
  dsimp only
  split_ifs with haccount hurl hkey hadded
  · exact Or.inl rfl
  · exact Or.inl rfl
  · exact Or.inl rfl
  · exact Or.inl rfl
  · exact Or.inr ⟨hkey, rfl⟩

/-- What is entered for a buddy, where its key has no authorization yet. -/
theorem enterBuddy_eq {key : String} (id : ℕ) (h : key ∉ s.authorizations) :
    s.enterBuddy key id =
      { s with
        buddyId := s.buddyId.insert key id
        authorizations := s.authorizations.insert key defaultAuthorization
        onAuthCbs := s.onAuthCbs.insert key id
        buddies := ((s.graftLeaf id fun branch => { branch with uri := some key }).onAuthorization id
          defaultAuthorization).buddies } := by
  rw [Presence.enterBuddy, Presence.whiteListAdd]
  exact if_neg h

/-- A new buddy has its own branch. -/
theorem Coherent.enterBuddy {key : String} {id : ℕ} (h : Coherent s) (hkey : key ∉ s.buddyId)
    (hid : ∀ key' : String, s.buddyId[key']? ≠ some id) : Coherent (s.enterBuddy key id) := by
  rw [enterBuddy_eq id (mt (h.authorizations key).1 hkey)]
  refine ⟨fun key' => ?_, fun key' => ?_, fun key' id' hkey' => ?_, fun key' id' hkey' => ?_⟩
  · rw [NameMap.mem_insert, NameMap.mem_insert, h.authorizations]
  · rw [NameMap.mem_insert, NameMap.mem_insert, h.onAuthCbs]
  · dsimp only at hkey' ⊢
    rw [NameMap.getElem?_insert] at hkey'
    rw [Presence.onAuthorization, Presence.graftLeaf_buddies, Presence.graftLeaf_buddies,
      Presence.graftLeaf_buddies, if_pos rfl, Option.getD_some]
    split_ifs at hkey' with heq
    · obtain rfl := Option.some.inj hkey'
      exact ⟨_, if_pos rfl, by rw [heq]⟩
    · have hne : id' ≠ id := by
        rintro rfl
        exact hid key' hkey'
      rw [if_neg hne, if_neg hne]
      exact h.uri key' id' hkey'
  · dsimp only at hkey' ⊢
    rw [NameMap.getElem?_insert] at hkey' ⊢
    split_ifs at hkey' ⊢ with heq
    · exact hkey'
    · exact h.callback key' id' hkey'

/-- What the access list has left. -/
theorem Coherent.whiteListRemove_eq (h : Coherent s) (key : String) :
    s.whiteListRemove key =
      { s with
        authorizations := s.authorizations.erase key
        onAuthCbs := s.onAuthCbs.erase key } := by
  rw [Presence.whiteListRemove]
  split_ifs with hkey
  · rfl
  · have hcb : key ∉ s.onAuthCbs := fun hin => hkey ((h.authorizations key).2 ((h.onAuthCbs key).1 hin))
    rw [NameMap.erase_of_not_mem hkey, NameMap.erase_of_not_mem hcb]

/-- The state without a buddy. -/
def Presence.withoutBuddy (s : Presence) (key : String) (id : ℕ) : Presence :=
  { s with
    authorizations := s.authorizations.erase key
    onAuthCbs := s.onAuthCbs.erase key
    buddies := s.buddies.erase id
    buddyId := s.buddyId.erase key }

/-- The maps and the tree have nothing left of a buddy, and the others stay. -/
theorem Coherent.withoutBuddy {key : String} {id : ℕ} (h : Coherent s)
    (hkey : s.buddyId[key]? = some id) : Coherent (s.withoutBuddy key id) := by
  refine ⟨fun key' => ?_, fun key' => ?_, fun key' id' hkey' => ?_, fun key' id' hkey' => ?_⟩
  · change key' ∈ s.authorizations.erase key ↔ key' ∈ s.buddyId.erase key
    rw [NameMap.mem_erase, NameMap.mem_erase, h.authorizations]
  · change key' ∈ s.onAuthCbs.erase key ↔ key' ∈ s.buddyId.erase key
    rw [NameMap.mem_erase, NameMap.mem_erase, h.onAuthCbs]
  · change (s.buddyId.erase key)[key']? = some id' at hkey'
    rw [NameMap.getElem?_erase] at hkey'
    split_ifs at hkey' with heq
    have hne : id' ≠ id := by
      rintro rfl
      exact heq (h.injective hkey' hkey)
    change ∃ branch : BuddyBranch, (s.buddies.erase id)[id']? = some branch ∧ branch.uri = some key'
    rw [IdMap.getElem?_erase_ne hne]
    exact h.uri key' id' hkey'
  · change (s.buddyId.erase key)[key']? = some id' at hkey'
    change (s.onAuthCbs.erase key)[key']? = some id'
    rw [NameMap.getElem?_erase] at hkey' ⊢
    split_ifs at hkey' ⊢ with heq
    exact h.callback key' id' hkey'

/-- `del_buddy` of the text of a buddy, as it reads the text. -/
theorem Coherent.delBuddy_of_mem {lowerCase : Bool} {verifyUrl : String → Bool} {user : String}
    {id : ℕ} (h : Coherent s) (hurl : verifyUrl ("sip:" ++ user) = true)
    (hid : s.buddyId[lowerAccount lowerCase user]? = some id) :
    s.delBuddy lowerCase verifyUrl user true = s.withoutBuddy (lowerAccount lowerCase user) id := by
  rw [Presence.delBuddy, if_neg (by simp [hurl]), hid]
  dsimp only
  rw [if_neg (Bool.noConfusion : ¬true = false), h.whiteListRemove_eq]
  rfl

/-- `del_buddy` changes nothing, or takes out a buddy. -/
theorem Coherent.delBuddy_cases (h : Coherent s) (lowerCase : Bool) (verifyUrl : String → Bool)
    (user : String) (deleted : Bool) :
    s.delBuddy lowerCase verifyUrl user deleted = s ∨
      verifyUrl ("sip:" ++ user) = true ∧ ∃ id : ℕ,
        s.buddyId[lowerAccount lowerCase user]? = some id ∧
        s.delBuddy lowerCase verifyUrl user deleted =
          s.withoutBuddy (lowerAccount lowerCase user) id := by
  cases hurl : verifyUrl ("sip:" ++ user) with
  | false => exact Or.inl (by rw [Presence.delBuddy, if_pos hurl])
  | true =>
      cases hid : s.buddyId[lowerAccount lowerCase user]? with
      | none => exact Or.inl (by rw [Presence.delBuddy, if_neg (by simp [hurl]), hid])
      | some id =>
          cases deleted with
          | false => exact Or.inl (by rw [Presence.delBuddy, if_neg (by simp [hurl]), hid]; rfl)
          | true => exact Or.inr ⟨rfl, id, rfl, h.delBuddy_of_mem hurl hid⟩

/-- `authorize` of a contact whose authorization is found. -/
theorem Coherent.authorizeBuddy_of_mem (h : Coherent s) {sipUrl : String} {id : ℕ} (auth : Bool)
    (hid : s.buddyId[cutPort sipUrl]? = some id) :
    s.authorizeBuddy sipUrl auth =
      some ({ s with authorizations := s.authorizations.insert (cutPort sipUrl) auth }.onAuthorization
        id auth, true) := by
  have hmem : cutPort sipUrl ∈ s.authorizations := by
    rw [h.authorizations, Std.ExtTreeMap.mem_iff_isSome_getElem?, hid]
    rfl
  rw [Presence.authorizeBuddy, if_pos hmem, h.callback _ _ hid]
  rfl

theorem Coherent.authorizeBuddy_of_not_mem (h : Coherent s) {sipUrl : String} (auth : Bool)
    (hid : s.buddyId[cutPort sipUrl]? = none) : s.authorizeBuddy sipUrl auth = some (s, false) := by
  have hmem : cutPort sipUrl ∉ s.authorizations := by
    rw [h.authorizations, Std.ExtTreeMap.mem_iff_isSome_getElem?, hid]
    exact Bool.false_ne_true
  exact if_neg hmem

/-- An authorization that is there may be changed. -/
theorem Coherent.authorized (h : Coherent s) {key : String} {id : ℕ} (auth : Bool)
    (hid : s.buddyId[key]? = some id) :
    Coherent ({ s with authorizations := s.authorizations.insert key auth }.onAuthorization id auth) := by
  have hset : Coherent { s with authorizations := s.authorizations.insert key auth } := by
    refine ⟨fun key' => ?_, h.onAuthCbs, h.uri, h.callback⟩
    change key' ∈ s.authorizations.insert key auth ↔ key' ∈ s.buddyId
    rw [NameMap.mem_insert, h.authorizations]
    refine or_iff_right_of_imp ?_
    rintro rfl
    rw [Std.ExtTreeMap.mem_iff_isSome_getElem?, hid]
    rfl
  exact hset.graftLeaf id fun branch => rfl

end coherence

section unregistration

variable (deleted : ℕ → Bool)

theorem deleteBuddies_authorizations (s : Presence) (entries : List (String × ℕ)) :
    (Presence.deleteBuddies deleted s entries).1.authorizations = s.authorizations := by
  induction entries generalizing s with
  | nil => rfl
  | cons entry entries ih =>
      rw [Presence.deleteBuddies]
      split_ifs
      · rfl
      · rw [ih]

/-- The buddies that are left were there. -/
theorem mem_of_mem_deleteBuddies {s : Presence} {entries : List (String × ℕ)} {key : String}
    (h : key ∈ (Presence.deleteBuddies deleted s entries).1.buddyId) : key ∈ s.buddyId := by
  induction entries generalizing s with
  | nil => exact h
  | cons entry entries ih =>
      rw [Presence.deleteBuddies] at h
      split_ifs at h with hdeleted
      · exact h
      · exact (NameMap.mem_erase.1 (ih h)).2

/-- Nothing is deleted if the first buddy is not. -/
theorem deleteBuddies_of_head {s : Presence} {entries : List (String × ℕ)}
    (h : ∀ entry, entries.head? = some entry → deleted entry.2 = false) :
    (Presence.deleteBuddies deleted s entries).1 = s := by
  cases entries with
  | nil => rfl
  | cons entry entries => rw [Presence.deleteBuddies, if_pos (h entry rfl)]

/-- The first buddy is deleted if it can be. -/
theorem not_mem_deleteBuddies {s : Presence} {entry : String × ℕ} {entries : List (String × ℕ)}
    (h : deleted entry.2 = true) :
    entry.1 ∉ (Presence.deleteBuddies deleted s (entry :: entries)).1.buddyId := by
  rw [Presence.deleteBuddies, if_neg (by simp [h])]
  exact fun hin => (NameMap.mem_erase.1 (mem_of_mem_deleteBuddies deleted hin)).1 rfl

end unregistration

section runs

variable {lowerCase : Bool} {verifyUrl : String → Bool} {newId : List ℕ → ℕ}

/-- What the operations keep: each buddy has the key of the text it was added with. -/
structure Recorded.Inv (lowerCase : Bool) (s : Recorded) : Prop where
  coherent : Coherent s.presence
  given : ∀ key ∈ s.presence.buddyId, ∃ user, s.given[key]? = some user ∧
    buddyKey lowerCase user = key

/-- The buddy of a text. -/
theorem Recorded.Inv.isGiven {s : Recorded} (h : s.Inv lowerCase) {user key : String} {id : ℕ}
    (hgiven : s.given[key]? = some user) (hkey : s.presence.buddyId[key]? = some id) :
    key = buddyKey lowerCase user ∧ IsGiven lowerCase s user := by
  have hmem : key ∈ s.presence.buddyId := by
    rw [Std.ExtTreeMap.mem_iff_isSome_getElem?, hkey]
    rfl
  obtain ⟨user', hgiven', hkey'⟩ := h.given key hmem
  obtain rfl := Option.some.inj (hgiven.symm.trans hgiven')
  subst hkey'
  exact ⟨rfl, hgiven, hmem⟩

/-- The invariant of a state with some of the buddies. -/
theorem Recorded.Inv.of_subset {s : Recorded} (h : s.Inv lowerCase) {p : Presence}
    (hp : Coherent p) (hsub : ∀ key ∈ p.buddyId, key ∈ s.presence.buddyId) :
    Recorded.Inv lowerCase { s with presence := p } :=
  ⟨hp, fun key hkey => h.given key (hsub key hkey)⟩

/-- **A buddy is added.** -/
theorem Recorded.Inv.addBuddy {s : Recorded} (h : s.Inv lowerCase)
    (hnew : ∀ used, newId used ∉ used) (user : String) (added : Bool) :
    ∃ r, s.step lowerCase verifyUrl newId (.addBuddy user added) = some r ∧
      Acts s (.addBuddy user added) r ∧ r.1.Inv lowerCase := by
  refine ⟨_, rfl, ?_⟩
  rcases addBuddy_cases (s := s.presence) lowerCase verifyUrl newId user added with
    hsame | ⟨hkey, hadd⟩
  · have hgiven : ¬(buddyKey lowerCase user ∉ s.presence.buddyId ∧
        buddyKey lowerCase user ∈ s.presence.buddyId) := fun hin => hin.1 hin.2
    rw [hsame, if_neg hgiven]
    refine ⟨⟨h.coherent, fun key id hnone hsome => ?_⟩, h⟩
    rw [hnone] at hsome
    exact absurd hsome.symm (Option.some_ne_none id)
  · rw [hadd]
    have hid : ∀ key' : String, s.presence.buddyId[key']? ≠
        some (newId (s.presence.buddyId.toList.map Prod.snd)) := by
      intro key' hkey'
      exact hnew (s.presence.buddyId.toList.map Prod.snd) (List.mem_map.2
        ⟨_, Std.ExtTreeMap.mem_toList_iff_getElem?_eq_some.2 hkey', rfl⟩)
    have hcoherent := h.coherent.enterBuddy hkey hid
    have hauth := mt (h.coherent.authorizations _).1 hkey
    rw [enterBuddy_eq _ hauth] at hcoherent ⊢
    refine ⟨⟨hcoherent, fun key id hnone hsome => ?_⟩, hcoherent, fun key hin => ?_⟩
    · dsimp only at hsome ⊢
      rw [NameMap.getElem?_insert] at hsome
      split_ifs at hsome with heq
      · rw [NameMap.getElem?_insert, NameMap.getElem?_insert, if_pos heq, if_pos heq]
        exact ⟨rfl, hsome⟩
      · rw [hnone] at hsome
        exact absurd hsome.symm (Option.some_ne_none id)
    · dsimp only at hin ⊢
      rw [if_pos ⟨hkey, NameMap.mem_insert.2 (Or.inl rfl)⟩, NameMap.getElem?_insert]
      split_ifs with heq
      · exact ⟨user, rfl, heq.symm⟩
      · exact h.given key ((NameMap.mem_insert.1 hin).resolve_left heq)

/-- **A buddy is deleted by its text**, if the text has no port and is valid. -/
theorem Recorded.Inv.delBuddy {s : Recorded} (h : s.Inv lowerCase) {user : String} {deleted : Bool}
    (hok : OpOk lowerCase verifyUrl s (.delBuddy user deleted)) :
    ∃ r, s.step lowerCase verifyUrl newId (.delBuddy user deleted) = some r ∧
      Acts s (.delBuddy user deleted) r ∧ r.1.Inv lowerCase := by
  refine ⟨_, rfl, ?_⟩
  have hcoherent : Coherent (s.presence.delBuddy lowerCase verifyUrl user deleted) ∧
      ∀ key ∈ (s.presence.delBuddy lowerCase verifyUrl user deleted).buddyId,
        key ∈ s.presence.buddyId := by
    rcases h.coherent.delBuddy_cases lowerCase verifyUrl user deleted with hsame | ⟨-, id, hid, hdel⟩
    · rw [hsame]
      exact ⟨h.coherent, fun key hkey => hkey⟩
    · rw [hdel]
      exact ⟨h.coherent.withoutBuddy hid, fun key hkey => (NameMap.mem_erase.1 hkey).2⟩
  refine ⟨⟨hcoherent.1, ?_⟩, h.of_subset hcoherent.1 hcoherent.2⟩
  rintro rfl key id hgiven hkey
  obtain ⟨rfl, hisGiven⟩ := h.isGiven hgiven hkey
  obtain ⟨hport, hurl⟩ := hok rfl hisGiven
  rw [← lowerAccount_eq_buddyKey hport] at hkey ⊢
  rw [h.coherent.delBuddy_of_mem hurl hkey]
  dsimp only [Presence.withoutBuddy]
  rw [NameMap.getElem?_erase, if_pos rfl, IdMap.getElem?_erase, if_pos rfl]
  exact ⟨rfl, rfl⟩

/-- A text with a port, or one that is not valid, is not found. -/
theorem Recorded.Inv.opOk_delBuddy {s : Recorded} (h : s.Inv lowerCase) {user : String}
    {deleted : Bool} {r : Recorded × Bool}
    (hr : s.step lowerCase verifyUrl newId (.delBuddy user deleted) = some r)
    (hacts : Acts s (.delBuddy user deleted) r) :
    OpOk lowerCase verifyUrl s (.delBuddy user deleted) := by
  rintro rfl ⟨hgiven, hmem⟩
  obtain ⟨id, hid⟩ := Option.isSome_iff_exists.1 (Std.ExtTreeMap.mem_iff_isSome_getElem?.1 hmem)
  have hgone := (hacts.2 rfl _ id hgiven hid).1
  obtain rfl := Option.some.inj hr
  rcases h.coherent.delBuddy_cases lowerCase verifyUrl user true with hsame | ⟨hurl, id', hid', -⟩
  · rw [hsame, hid] at hgone
    exact absurd hgone (Option.some_ne_none id)
  · refine ⟨fun hport => ?_, hurl⟩
    have hin : lowerAccount lowerCase user ∈ s.presence.buddyId := by
      rw [Std.ExtTreeMap.mem_iff_isSome_getElem?, hid']
      rfl
    obtain ⟨user', -, hkey⟩ := h.given _ hin
    exact colon_not_mem_buddyKey (hkey ▸ colon_mem_lowerAccount.2 hport)

/-- **A buddy is authorized by its text**, if nothing in front of the port is lowered. -/
theorem Recorded.Inv.authorize {s : Recorded} (h : s.Inv lowerCase) {sipUrl : String} {auth : Bool}
    (hok : OpOk lowerCase verifyUrl s (.authorize sipUrl auth)) :
    ∃ r, s.step lowerCase verifyUrl newId (.authorize sipUrl auth) = some r ∧
      Acts s (.authorize sipUrl auth) r ∧ r.1.Inv lowerCase := by
  cases hid : s.presence.buddyId[cutPort sipUrl]? with
  | none =>
      refine ⟨(s, false), ?_, ⟨h.coherent, fun key id hgiven hkey => ?_⟩, h⟩
      · rw [Recorded.step, h.coherent.authorizeBuddy_of_not_mem auth hid]
        rfl
      · obtain ⟨rfl, hisGiven⟩ := h.isGiven hgiven hkey
        rw [← cutPort_eq_buddyKey_iff.2 (hok hisGiven), hid] at hkey
        exact absurd hkey.symm (Option.some_ne_none id)
  | some id =>
      have hcoherent := h.coherent.authorized auth hid
      refine ⟨({ s with presence := _ }, true), ?_, ⟨hcoherent, fun key id' hgiven hkey => ?_⟩,
        h.of_subset hcoherent fun _ hk => hk⟩
      · rw [Recorded.step, h.coherent.authorizeBuddy_of_mem auth hid]
        rfl
      · obtain ⟨rfl, hisGiven⟩ := h.isGiven hgiven hkey
        rw [← cutPort_eq_buddyKey_iff.2 (hok hisGiven)] at hkey ⊢
        obtain rfl := Option.some.inj (hid.symm.trans hkey)
        refine ⟨rfl, ?_, ?_⟩
        · change (s.presence.authorizations.insert (cutPort sipUrl) auth)[cutPort sipUrl]? = some auth
          rw [NameMap.getElem?_insert, if_pos rfl]
        · exact Presence.onAuthorization_buddies _ id auth

/-- A text with a letter that is lowered is not found. -/
theorem Recorded.Inv.opOk_authorize {s : Recorded} (h : s.Inv lowerCase) {sipUrl : String}
    {auth : Bool} {r : Recorded × Bool}
    (hr : s.step lowerCase verifyUrl newId (.authorize sipUrl auth) = some r)
    (hacts : Acts s (.authorize sipUrl auth) r) :
    OpOk lowerCase verifyUrl s (.authorize sipUrl auth) := by
  rintro ⟨hgiven, hmem⟩ rfl
  obtain ⟨id, hid⟩ := Option.isSome_iff_exists.1 (Std.ExtTreeMap.mem_iff_isSome_getElem?.1 hmem)
  have hfound := (hacts.2 _ id hgiven hid).1
  cases hcontact : s.presence.buddyId[cutPort sipUrl]? with
  | none =>
      rw [Recorded.step, h.coherent.authorizeBuddy_of_not_mem auth hcontact] at hr
      obtain rfl := Option.some.inj hr
      exact absurd hfound Bool.false_ne_true
  | some id' =>
      have hin : cutPort sipUrl ∈ s.presence.buddyId := by
        rw [Std.ExtTreeMap.mem_iff_isSome_getElem?, hcontact]
        rfl
      obtain ⟨user, -, hkey⟩ := h.given _ hin
      rw [← hkey, tolower_buddyKey]

/-- **The account is removed**, with no buddy. -/
theorem Recorded.Inv.unregister {s : Recorded} (h : s.Inv lowerCase) {accountDeleted : Bool}
    {deleted : ℕ → Bool} (hok : OpOk lowerCase verifyUrl s (.unregister accountDeleted deleted)) :
    ∃ r, s.step lowerCase verifyUrl newId (.unregister accountDeleted deleted) = some r ∧
      Acts s (.unregister accountDeleted deleted) r ∧ r.1.Inv lowerCase := by
  refine ⟨_, rfl, ?_⟩
  have hmaps : ∃ account valid, s.presence.unregisterAccount accountDeleted deleted =
      { s.presence with account := account, accountValid := valid } := by
    rw [Presence.unregisterAccount]
    dsimp only
    split_ifs with haccount hdeleted hend
    · exact ⟨_, _, rfl⟩
    · exact ⟨_, _, rfl⟩
    all_goals
      rw [deleteBuddies_of_head deleted (hok (by simp_all))]
      exact ⟨_, _, rfl⟩
  obtain ⟨account, valid, heq⟩ := hmaps
  rw [heq]
  have hcoherent : Coherent { s.presence with account := account, accountValid := valid } :=
    ⟨h.coherent.authorizations, h.coherent.onAuthCbs, h.coherent.uri, h.coherent.callback⟩
  exact ⟨⟨hcoherent, trivial⟩, h.of_subset hcoherent fun _ hk => hk⟩

/-- A buddy that is deleted with the account leaves its authorization. -/
theorem Recorded.Inv.opOk_unregister {s : Recorded} (h : s.Inv lowerCase) {accountDeleted : Bool}
    {deleted : ℕ → Bool} {r : Recorded × Bool}
    (hr : s.step lowerCase verifyUrl newId (.unregister accountDeleted deleted) = some r)
    (hacts : Acts s (.unregister accountDeleted deleted) r) :
    OpOk lowerCase verifyUrl s (.unregister accountDeleted deleted) := by
  intro haccount entry hentry
  by_contra hdeleted
  rw [Bool.not_eq_false] at hdeleted
  obtain rfl := Option.some.inj hr
  rw [Bool.and_eq_true] at haccount
  obtain ⟨rest, hlist⟩ : ∃ rest, s.presence.buddyId.toList = entry :: rest := by
    cases hl : s.presence.buddyId.toList with
    | nil => rw [hl] at hentry; cases hentry
    | cons first rest => rw [hl] at hentry; obtain rfl := Option.some.inj hentry; exact ⟨rest, rfl⟩
  have hin : entry.1 ∈ s.presence.authorizations := by
    rw [h.coherent.authorizations, Std.ExtTreeMap.mem_iff_isSome_getElem?,
      Std.ExtTreeMap.mem_toList_iff_getElem?_eq_some.1 (hlist ▸ List.mem_cons_self)]
    rfl
  have hloop : ∃ account, s.presence.unregisterAccount accountDeleted deleted =
      { (Presence.deleteBuddies deleted { s.presence with accountValid := false }
          (entry :: rest)).1 with account := account } := by
    rw [Presence.unregisterAccount, if_neg (by simp [haccount.1]), if_neg (by simp [haccount.2]), hlist]
    dsimp only
    split_ifs
    · exact ⟨_, rfl⟩
    · exact ⟨_, rfl⟩
  obtain ⟨account, heq⟩ := hloop
  have hauth := (hacts.1.authorizations entry.1).1
  dsimp only at hauth
  rw [heq] at hauth
  refine not_mem_deleteBuddies deleted hdeleted (hauth ?_)
  dsimp only
  rwa [deleteBuddies_authorizations]

/-- An operation that meets the condition acts as it should, and keeps the invariant. -/
theorem Recorded.Inv.step {s : Recorded} (h : s.Inv lowerCase) (hnew : ∀ used, newId used ∉ used)
    {op : BuddyOp} (hok : OpOk lowerCase verifyUrl s op) :
    ∃ r, s.step lowerCase verifyUrl newId op = some r ∧ Acts s op r ∧ r.1.Inv lowerCase := by
  cases op with
  | register added =>
      have hcoherent : Coherent (s.presence.registerAccount added) :=
        ⟨h.coherent.authorizations, h.coherent.onAuthCbs, h.coherent.uri, h.coherent.callback⟩
      exact ⟨_, rfl, ⟨hcoherent, trivial⟩, h.of_subset hcoherent fun _ hk => hk⟩
  | addBuddy user added => exact h.addBuddy hnew user added
  | delBuddy user deleted => exact h.delBuddy hok
  | nameBuddy name user =>
      have hcoherent : Coherent (s.presence.nameBuddy lowerCase verifyUrl name user) ∧
          (s.presence.nameBuddy lowerCase verifyUrl name user).buddyId = s.presence.buddyId := by
        rw [Presence.nameBuddy]
        split_ifs
        · exact ⟨h.coherent, rfl⟩
        · split
          · exact ⟨h.coherent, rfl⟩
          · exact ⟨h.coherent.graftLeaf _ fun branch => rfl, rfl⟩
      exact ⟨_, rfl, ⟨hcoherent.1, trivial⟩, h.of_subset hcoherent.1 fun _ hk => hcoherent.2 ▸ hk⟩
  | authorize sipUrl auth => exact h.authorize hok
  | unregister accountDeleted deleted => exact h.unregister hok

/-- An operation that acts as it should meets the condition. -/
theorem Recorded.Inv.opOk {s : Recorded} (h : s.Inv lowerCase) {op : BuddyOp} {r : Recorded × Bool}
    (hr : s.step lowerCase verifyUrl newId op = some r) (hacts : Acts s op r) :
    OpOk lowerCase verifyUrl s op := by
  cases op with
  | register added => exact trivial
  | addBuddy user added => exact trivial
  | delBuddy user deleted => exact h.opOk_delBuddy hr hacts
  | nameBuddy name user => exact trivial
  | authorize sipUrl auth => exact h.opOk_authorize hr hacts
  | unregister accountDeleted deleted => exact h.opOk_unregister hr hacts

theorem Recorded.inv_initial : Recorded.initial.Inv lowerCase := by
  refine ⟨⟨fun key => Iff.rfl, fun key => Iff.rfl, fun key id hkey => ?_, fun key id hkey => ?_⟩,
    fun key hkey => ?_⟩
  · exact absurd hkey (by simp [Recorded.initial, Presence.initial])
  · exact absurd hkey (by simp [Recorded.initial, Presence.initial])
  · exact absurd hkey (by simp [Recorded.initial, Presence.initial])

end runs

/-- **The authorizations follow the buddies** in a run if and only if each of its operations meets
the condition. -/
theorem authorizations_follow_iff (lowerCase : Bool) (verifyUrl : String → Bool)
    (newId : List ℕ → ℕ) (hnew : ∀ used, newId used ∉ used) (ops : List BuddyOp) :
    Machine.Meets (Recorded.step lowerCase verifyUrl newId) Acts Recorded.initial ops ↔
      Machine.Admits (Recorded.step lowerCase verifyUrl newId) (OpOk lowerCase verifyUrl)
        Recorded.initial ops :=
  Machine.meets_iff_admits (fun _ _ hs hok => hs.step hnew hok)
    (fun _ _ _ hs hr hacts => hs.opOk hr hacts) Recorded.inv_initial ops

/-- An identifier that is greater than those in use. -/
theorem sum_succ_not_mem (used : List ℕ) : used.sum + 1 ∉ used :=
  fun h => absurd (List.le_sum_of_mem h) (Nat.not_succ_le_self _)

/-- A buddy that is authorized, deleted and added again. -/
theorem authorizations_follow_bob :
    Machine.Meets (Recorded.step true (fun _ => true) fun used => used.sum + 1) Acts Recorded.initial
        [.register true, .addBuddy "bob@host:5060" true, .authorize "bob@host:5060" false,
          .addBuddy "Eve@host" true, .delBuddy "Eve@host" true, .addBuddy "Eve@host" true] ↔
      Machine.Admits (Recorded.step true (fun _ => true) fun used => used.sum + 1)
        (OpOk true fun _ => true) Recorded.initial
        [.register true, .addBuddy "bob@host:5060" true, .authorize "bob@host:5060" false,
          .addBuddy "Eve@host" true, .delBuddy "Eve@host" true, .addBuddy "Eve@host" true] :=
  authorizations_follow_iff true (fun _ => true) (fun used => used.sum + 1) sum_succ_not_mem _

/-- A buddy that is added with a port is not deleted by the same text. -/
theorem not_authorizations_follow_port : ¬∀ ops : List BuddyOp,
    Machine.Meets (Recorded.step true (fun _ => true) fun used => used.sum + 1) Acts
      Recorded.initial ops := by
  intro h
  obtain ⟨r, hr, -, r', hr', -, r'', hr'', hacts, -⟩ :=
    h [.register true, .addBuddy "bob@host:5060" true, .delBuddy "bob@host:5060" true]
  obtain rfl := Option.some.inj hr
  obtain rfl := Option.some.inj hr'
  obtain rfl := Option.some.inj hr''
  have hgone := (hacts.2 rfl "bob@host" 1 (by decide +kernel) (by decide +kernel)).1
  exact absurd hgone (by decide +kernel)

end Pjsip
end LibSwitcher
