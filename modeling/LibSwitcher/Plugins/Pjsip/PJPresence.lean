/-
# Buddies and the access list

`plugins/pjsip/pj-presence.cpp` and `plugins/pjsip/pj-whitelist.cpp`.  A buddy has an entry in
`buddy_id_`, a branch `.buddies.<id>` in the tree of the quiddity, and an authorization and
a callback in the access list; the callback writes `whitelisted` in the branch whose path it
was made with, so that it is told by the identifier of that branch.

What belongs to pjsua are parameters: which addresses are valid (`verifyUrl`), which identifier
a new buddy gets among those in use (`newId`), and for each call whether it succeeds.  Every
operation reads the string of the user in its own way: `add_buddy` lowers it and cuts it
at the port (`buddyKey`), `del_buddy` and `name_buddy` lower it only, `authorize` cuts it only.
-/

import LibSwitcher.Utils.IdMap
import LibSwitcher.Utils.NameMap
import LibSwitcher.Utils.StringUtils

namespace LibSwitcher
namespace Pjsip

open Stringutils

/-- A branch `.buddies.<id>`: the leaves that the operations graft with values of their own. -/
structure BuddyBranch where
  uri : Option String
  name : Option String
  whitelisted : Option Bool
  deriving DecidableEq

/-- The buddies and the access list. -/
structure Presence where
  /-- `account_id_` is not -1. -/
  account : Bool
  /-- `pjsua_acc_is_valid` of the account. -/
  accountValid : Bool
  /-- `PJPresence::buddy_id_`. -/
  buddyId : NameMap ℕ
  /-- `PJWhiteList::authorizations_`. -/
  authorizations : NameMap Bool
  /-- `PJWhiteList::on_auth_cbs_`, with the buddy whose branch a callback writes to. -/
  onAuthCbs : NameMap ℕ
  /-- The branch `.buddies` of the tree. -/
  buddies : IdMap BuddyBranch

/-- The text in front of the first colon. -/
def cutPort (uri : String) : String := String.ofList (uri.toList.takeWhile (· ≠ ':'))

/-- The text of a user, in lower case if the accounts are. -/
def lowerAccount (lowerCase : Bool) (user : String) : String :=
  if lowerCase then tolower user else user

/-- The key of the buddy that `add_buddy` makes for a text. -/
def buddyKey (lowerCase : Bool) (user : String) : String := cutPort (lowerAccount lowerCase user)

/-- `default_authorization_`. -/
def defaultAuthorization : Bool := true

namespace Presence

/-- `graft_tree` of a leaf of a branch `.buddies.<id>`, which is made if it is not there. -/
def graftLeaf (s : Presence) (id : ℕ) (leaf : BuddyBranch → BuddyBranch) : Presence :=
  { s with buddies := s.buddies.insert id (leaf (s.buddies[id]?.getD ⟨none, none, none⟩)) }

/-- The callback of a buddy. -/
def onAuthorization (s : Presence) (id : ℕ) (authorized : Bool) : Presence :=
  s.graftLeaf id fun branch => { branch with whitelisted := some authorized }

/-- `PJWhiteList::add`. -/
def whiteListAdd (s : Presence) (sipUrl : String) (id : ℕ) : Presence :=
  if sipUrl ∈ s.authorizations then s
  else
    { s with
      authorizations := s.authorizations.insert sipUrl defaultAuthorization
      onAuthCbs := s.onAuthCbs.insert sipUrl id }.onAuthorization id defaultAuthorization

/-- `PJWhiteList::remove`. -/
def whiteListRemove (s : Presence) (sipUrl : String) : Presence :=
  if sipUrl ∈ s.authorizations then
    { s with
      authorizations := s.authorizations.erase sipUrl
      onAuthCbs := s.onAuthCbs.erase sipUrl }
  else s

/-- `PJWhiteList::authorize_buddy`: undefined where there is no callback to call. -/
def authorizeBuddy (s : Presence) (sipUrl : String) (authorize : Bool) : Option (Presence × Bool) :=
  let contact := cutPort sipUrl
  if contact ∈ s.authorizations then
    s.onAuthCbs[contact]?.map fun id =>
      ({ s with authorizations := s.authorizations.insert contact authorize }.onAuthorization id
        authorize, true)
  else some (s, false)

variable (lowerCase : Bool) (verifyUrl : String → Bool) (newId : List ℕ → ℕ)

/-- `PJPresence::add_buddy`; `added` is the success of `pjsua_buddy_add`. -/
def addBuddy (s : Presence) (user : String) (added : Bool) : Presence :=
  if s.account = false then s
  else
    let sipUser := lowerAccount lowerCase user
    if verifyUrl ("sip:" ++ sipUser) = false then s
    else if cutPort sipUser ∈ s.buddyId then s
    else if added = false then s
    else
      let id := newId (s.buddyId.toList.map Prod.snd)
      ({ s with buddyId := s.buddyId.insert (cutPort sipUser) id }.graftLeaf id
        fun branch => { branch with uri := some (cutPort sipUser) }).whiteListAdd (cutPort sipUser) id

/-- `PJPresence::del_buddy`; `deleted` is the success of `pjsua_buddy_del`. -/
def delBuddy (s : Presence) (user : String) (deleted : Bool) : Presence :=
  if verifyUrl ("sip:" ++ user) = false then s
  else
    match s.buddyId[lowerAccount lowerCase user]? with
    | none => s
    | some id =>
        if deleted = false then s
        else
          let s := s.whiteListRemove (lowerAccount lowerCase user)
          { s with
            buddies := s.buddies.erase id
            buddyId := s.buddyId.erase (lowerAccount lowerCase user) }

/-- `PJPresence::name_buddy`. -/
def nameBuddy (s : Presence) (name user : String) : Presence :=
  let sipUser := lowerAccount lowerCase user
  if verifyUrl ("sip:" ++ sipUser) = false then s
  else
    match s.buddyId[sipUser]? with
    | none => s
    | some id => s.graftLeaf id fun branch => { branch with name := some name }

/-- The loop of `unregister_account` over the buddies, and whether it ended. -/
def deleteBuddies (deleted : ℕ → Bool) : Presence → List (String × ℕ) → Presence × Bool
  | s, [] => (s, true)
  | s, (key, id) :: rest =>
      if deleted id = false then (s, false)
      else deleteBuddies deleted
        { s with buddies := s.buddies.erase id, buddyId := s.buddyId.erase key } rest

/-- `PJPresence::unregister_account`; `accountDeleted` is the success of `pjsua_acc_del`, and
`deleted` that of `pjsua_buddy_del` for each buddy. -/
def unregisterAccount (s : Presence) (accountDeleted : Bool) (deleted : ℕ → Bool) : Presence :=
  if (s.account && s.accountValid) = false then s
  else if accountDeleted = false then s
  else
    let r := deleteBuddies deleted { s with accountValid := false } s.buddyId.toList
    if r.2 then { r.1 with account := false } else r.1

/-- `PJPresence::register_account`, with the success of `pjsua_acc_add`. -/
def registerAccount (s : Presence) (added : Bool) : Presence :=
  { s with account := added, accountValid := added }

/-- No account, and no buddy. -/
def initial : Presence := ⟨false, false, ∅, ∅, ∅, ∅⟩

end Presence
end Pjsip
end LibSwitcher
