/-
# What a bundle exposes

`switcher/quiddity/bundle/bundle.cpp`, the constructor, after the quiddities of the pipeline have
been made.  A bundle shows the writers of the quiddities that are exposed, and the followers of
the one that reads, as its own.  It grafts their entries, without identifiers and with the label
`nickname/label`, on a tree, makes its connection specification of the text of this tree,
and then looks the labels up again to bind the path of each inner writer to an identifier.

An entry is grafted at the nickname of its quiddity, so that of the writers of one quiddity only
the last one stays.
-/

import LibSwitcher.InfoTree.Copy
import LibSwitcher.InfoTree.JsonBuilder
import LibSwitcher.Quiddity.Claw.ClawCompatibility
import LibSwitcher.Quiddity.Claw.Labels

namespace LibSwitcher
namespace Bundle

open Claw InfoTree

/-- A quiddity of the internal manager: its nickname, its claw, and the path that is forced or
generated for each of its writers. -/
structure Inner (τ : Type) where
  nickname : String
  claw : Claw τ
  path : ℕ → String

variable {τ : Type} (x : Externals τ) (glib : JsonGlib)

namespace Inner

/-- `connection_spec_tree_`. -/
def connectionSpecTree (quid : Inner τ) : InfoTree := quid.claw.connectionSpec.tree

/-- The followers or the writers that its tree shows. -/
def points (role : Role) (quid : Inner τ) : List InfoTree :=
  elements role.name quid.connectionSpecTree

end Inner

/-! ### The constructor -/

/-- The label of an entry. -/
def labelIn (tree : InfoTree) : String := (branchGetValue "label" tree).asString

/-- The copy of an entry, without its identifiers. -/
def withoutIds (role : Role) (tree : InfoTree) : InfoTree :=
  prune role.fromKey (prune role.idKey (copy tree))

/-- What the loops over the points of a quiddity do with each of them. -/
def exposePoint (role : Role) (quidNick : String) (conTree tree : InfoTree) : InfoTree :=
  vgraft (role.name ++ "." ++ quidNick ++ ".label") (.str (quidNick ++ "/" ++ labelIn tree))
    (graft (role.name ++ "." ++ quidNick) (withoutIds role tree) conTree)

/-- The loop over the points of a quiddity. -/
def exposeQuid (role : Role) (conTree : InfoTree) (quid : Inner τ) : InfoTree :=
  (quid.points role).foldl (exposePoint role quid.nickname) conTree

/-- `con_tree`, for the quiddities whose writers are exposed and for the reader, if there is
one. -/
def conTree (exposed : List (Inner τ)) (reader : Option (Inner τ)) : InfoTree :=
  let con := exposed.foldl (exposeQuid writerRole) make
  let con := if exposed.isEmpty then con else tagAsArray "writer" true con
  match reader with
  | none => con
  | some quid => tagAsArray "follower" true (exposeQuid followerRole con quid)

/-- The connection specification of the bundle. -/
def connectionSpec (exposed : List (Inner τ)) (reader : Option (Inner τ)) :
    Option (ConnectionSpec τ) :=
  ConnectionSpec.ofDocument x (glib.parse (serialize glib false (conTree exposed reader)))

/-- The points of some quiddities. -/
def pointsOf (role : Role) (quids : List (Inner τ)) : List (Inner τ × InfoTree) :=
  quids.flatMap fun quid => (quid.points role).map fun tree => (quid, tree)

/-- The label that a point has in the bundle. -/
def exposedLabel (point : Inner τ × InfoTree) : String :=
  point.1.nickname ++ "/" ++ labelIn point.2

/-- The entry of a point in the tree of the bundle. -/
def entryOf (role : Role) (point : Inner τ × InfoTree) : InfoTree :=
  vgraft "label" (.str (exposedLabel point)) (withoutIds role point.2)

/-- The inner quiddities are as a manager makes them: they have different nicknames, which are
single keys, and their entries can be written in a document. -/
structure Regular (exposed : List (Inner τ)) (reader : Option (Inner τ)) : Prop where
  nicknames : (exposed.map Inner.nickname).Nodup
  plain : ∀ quid ∈ exposed ++ reader.toList, Components.Plain '.' quid.nickname
  writer : ∀ point ∈ pointsOf writerRole exposed, Writable (entryOf writerRole point)
  follower : ∀ point ∈ pointsOf followerRole reader.toList, Writable (entryOf followerRole point)

end Bundle
end LibSwitcher
