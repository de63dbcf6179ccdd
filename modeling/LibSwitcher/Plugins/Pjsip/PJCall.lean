/-
# Shmdata attached to contacts

`plugins/pjsip/pj-call.cpp`, `PJCall::make_attach_shmdata_to_contact`.  The shmdata that are sent
to a contact are listed in the array `connections` of its buddy, in the information tree of the
plugin; the readers of the shmdata are shared by the contacts, and counted.

A path is grafted as a path of the tree, so that its dots make nodes.  The list of a
contact is read as the values of the leaves (`copy_leaf_values`).  The SIP library is known by the
buddies it finds.  A count is never above the number of contacts, whose identifiers have fewer
bits, and is a natural number here.
-/

import LibSwitcher.InfoTree.InformationTree
import LibSwitcher.Lib.Machine
import LibSwitcher.Lib.TreeLeaves
import LibSwitcher.Utils.NameMap

namespace LibSwitcher

namespace InfoTree

/-- `copy_leaf_values`, before the values are printed. -/
def copyLeafValues (path : String) (t : InfoTree) : List Any :=
  match branch path t with
  | none => []
  | some n => if n.isLeaf then [] else n.leaves.map fun l => l.2.data

end InfoTree

namespace Pjsip

open InfoTree

/-- The address of the user, and what `pjsua_buddy_find` finds for the address of a contact. -/
structure Accounts where
  sipLocalUser : String
  buddyFind : String → Option ℕ

/-- The readers of a `PJCall`, how often they are counted, and the tree of the plugin. -/
structure PJCall where
  readers : NameMap Unit
  readerRefCount : NameMap ℕ
  tree : InfoTree

/-- A request. -/
structure Request where
  shmpath : String
  contactUri : String
  attach : Bool
  deriving DecidableEq

variable (acc : Accounts)

namespace Accounts

/-- The address of the user without its port. -/
def localUri : String :=
  let rest := acc.sipLocalUser.toList.reverse.dropWhile (· ≠ ':')
  if rest = [] then acc.sipLocalUser else String.ofList rest.tail.reverse

/-- The buddy that a request is about, which is not the user. -/
def buddyOf (contactUri : String) : Option ℕ :=
  if "sip:" ++ contactUri = acc.localUri then none else acc.buddyFind ("sip:" ++ contactUri)

end Accounts

namespace PJCall

/-- The path of the list of a buddy. -/
def connectionsPath (id : ℕ) : String := ".buddies." ++ toString id ++ ".connections"

/-- A reader is made for a path that has none, and counted. -/
def addReader (shmpath : String) (s : PJCall) : PJCall :=
  if shmpath ∈ s.readers then
    { s with readerRefCount :=
        s.readerRefCount.insert shmpath (s.readerRefCount[shmpath]?.getD 0 + 1) }
  else
    { s with
        readers := s.readers.insert shmpath ()
        readerRefCount := s.readerRefCount.insert shmpath 1 }

/-- A reader is counted out, and goes with its count. -/
def removeReader (shmpath : String) (s : PJCall) : PJCall :=
  let remaining := s.readerRefCount[shmpath]?.getD 0 - 1
  if remaining = 0 then
    { s with readers := s.readers.erase shmpath, readerRefCount := s.readerRefCount.erase shmpath }
  else { s with readerRefCount := s.readerRefCount.insert shmpath remaining }

/-- The list of a buddy with a path. -/
def attachPath (shmpath : String) (tree : InfoTree) : InfoTree :=
  tagAsArray "." true (graft shmpath (makeValue (.str shmpath)) tree)

/-- `make_attach_shmdata_to_contact`.  A list that is not there is dereferenced to take a path
out. -/
def makeAttachShmdataToContact (r : Request) (s : PJCall) : Option PJCall :=
  match acc.buddyOf r.contactUri with
  | none => some s
  | some id =>
      let path := connectionsPath id
      if r.attach then
        let list := (pruned path s.tree).getD make
        some { s.addReader r.shmpath with
          tree := graft path (attachPath r.shmpath list) (prune path s.tree) }
      else if r.shmpath ∉ s.readers then some s
      else
        (pruned path s.tree).map fun list =>
          { s.removeReader r.shmpath with
            tree := graft path (prune r.shmpath list) (prune path s.tree) }

/-- The machine of the requests. -/
def step (s : PJCall) (r : Request) : Option (PJCall × Unit) :=
  (s.makeAttachShmdataToContact acc r).map fun s => (s, ())

/-! ### What the lists say -/

/-- The buddies. -/
def buddies (t : InfoTree) : List (String × InfoTree) :=
  ((t.child "buddies").map KeyTree.children).getD []

/-- The list of a buddy. -/
def connections (buddy : InfoTree) : List Any := copyLeafValues "connections" buddy

/-- The number of contacts that a path is attached to. -/
def contacts (s : PJCall) (shmpath : String) : ℕ :=
  (buddies s.tree).countP fun e => .str shmpath ∈ connections e.2

/-- Readers are counted exactly. -/
structure Counted (s : PJCall) : Prop where
  count : ∀ shmpath, s.readerRefCount[shmpath]?.getD 0 = s.contacts shmpath
  reader : ∀ shmpath, shmpath ∈ s.readers ↔ 0 < s.contacts shmpath
  once : ∀ e ∈ buddies s.tree, ∀ shmpath, (connections e.2).count (.str shmpath) ≤ 1

/-- The list of the buddy with an identifier. -/
def connectionsOf (s : PJCall) (id : ℕ) : List Any :=
  (((buddies s.tree).lookup (toString id)).map connections).getD []

/-- A request that matches the list of its contact: a path is attached beside those that are there,
and detached where it is there. -/
def Matches (s : PJCall) (r : Request) : Prop :=
  ∀ id ∈ acc.buddyOf r.contactUri,
    if r.attach then components r.shmpath ≠ [] ∧ ∀ shmpath, .str shmpath ∈ s.connectionsOf id →
      KeyTree.Parted (components shmpath) (components r.shmpath)
    else r.shmpath ∈ s.readers → .str r.shmpath ∈ s.connectionsOf id

/-- A call without attached shmdata: no buddy has a list, and no reader is counted. -/
structure Fresh (s : PJCall) : Prop where
  keys : s.tree.WellKeyed
  lists : ∀ e ∈ buddies s.tree, e.2.child "connections" = none
  readers : ∀ shmpath, shmpath ∉ s.readers
  counts : ∀ shmpath, shmpath ∉ s.readerRefCount

end PJCall
end Pjsip
end LibSwitcher
