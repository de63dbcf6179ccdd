/-
# The entries of a state that cannot be applied

`load_state` goes through the entries of a state: it creates a quiddity for each key under
`quiddities` and then loads its custom state, gives nicknames, sets properties, grafts user
data, starts quiddities, and calls the methods by which the readers are connected.  This is a
machine (`loadStep`) on the container and the names that have been created, whose steps
also say whether the entry could be applied; `loadState_eq_run` is the link.

An entry that cannot be applied should change nothing (`Skips`), no lookup that finds nothing
should be used, and what is loaded should be what the entries that can be applied make on
their own (`Total`).  Three entries are not like that (`Harmless`): a creation whose nickname
is taken uses up an identifier, the custom state of a key whose creation failed is loaded
into the quiddity that has the name, and a reader calls a method that its quiddity need not
have.  A state is loaded as it should exactly if it has no such entry (`loadsTotal_iff`).
-/

import LibSwitcher.Switcher.LoadedState

namespace LibSwitcher

open InfoTree

namespace Switcher

/-! ### The machine -/

/-- An entry of a state, as `load_state` comes to it. -/
inductive Entry
  | create (name kind : String)
  | load (name : String) (tree : InfoTree)
  | rename (name nickname : String)
  | set (name prop text : String)
  | graft (name key : String) (tree : InfoTree)
  | invoke (name meth : String) (call : Call)

/-- The container, and the names that have been created. -/
structure Loading where
  container : Container Body
  created : List String

/-- What an entry does that can be done to every container. -/
def act (f : Factory) (c : Container Body) : Entry → Container Body
  | .load name tree => onFound name (onLoading tree) c
  | .rename name nickname => (c.setNickname (c.getId name) nickname).1
  | .set name prop text => onNickname name (setStr f prop text) c
  | .graft name key tree => onFound name (graftUserData key tree) c
  | _ => c

/-- The text is taken by the property of a quiddity. -/
def Takes (f : Factory) (prop text : String) (q : Quiddity Body) : Prop :=
  prop ∈ q.body.properties ∧ f.setStr q.kind prop text ≠ none

/-- Such an entry can be applied: its quiddity is there and, for a custom state, has been created
for it, for a property, takes the text. -/
def Applies (f : Factory) (s : Loading) : Entry → Prop
  | .load name _ => name ∈ s.created ∧ s.container.getId name ≠ 0
  | .rename name _ => (s.container.quiddities.lookup (s.container.getId name)).isSome
  | .set name prop text =>
      ∃ q ∈ s.container.quiddities.lookup (s.container.getId name), Takes f prop text q
  | .graft name _ _ => s.container.getId name ≠ 0
  | _ => True

instance decidableTakes (f : Factory) (prop text : String) (q : Quiddity Body) :
    Decidable (Takes f prop text q) :=
  inferInstanceAs (Decidable (_ ∧ _))

instance decidableApplies (f : Factory) (s : Loading) (i : Entry) : Decidable (Applies f s i) := by
  cases i <;> unfold Applies <;> infer_instance

/-- What `load_state` does with an entry, and whether the entry could be applied. -/
def loadStep (f : Factory) (s : Loading) : Entry → Option (Loading × Bool)
  | .create name kind =>
      (s.container.quietCreate f.kinds kind name fun c => some (c, .valid (f.make kind))).map
        fun r => (⟨r.1, if r.2.isValid then s.created ++ [name] else s.created⟩, r.2.isValid)
  | .invoke name meth call =>
      (callMethod f name meth call s.container).map fun c =>
        (⟨c, s.created⟩, (s.container.quiddities.lookup (s.container.getId name)).isSome)
  | i => some (⟨act f s.container i, s.created⟩, Applies f s i)

/-- The properties of a quiddity that are set. -/
def propertyEntries (properties : InfoTree) (name : String) : List Entry :=
  ((getChildKeys name properties).filter fun prop => ¬Starts properties name prop).map fun prop =>
    .set name prop (branchGetValue (name ++ "." ++ prop) properties).toString

/-- The user data of a quiddity. -/
def userDataEntries (userData : InfoTree) (it : String) : List Entry :=
  (getChildKeys it userData).map fun kit => .graft it kit (getTree (it ++ "." ++ kit) userData)

/-- The start of a quiddity. -/
def startEntries (properties : InfoTree) (name : String) : List Entry :=
  ((getChildKeys name properties).filter fun prop => Starts properties name prop).map fun _ =>
    .set name "started" "true"

/-- The entries of a state that are neither created nor connected. -/
def middleEntries (state : InfoTree) : List Entry :=
  let customStates := getTree ".custom_states" state
  let nicknames := getTree ".nicknames" state
  let properties := getTree ".properties" state
  let userData := getTree "userdata." state
  (getChildKeys "." (getTree ".quiddities" state)).map (fun it =>
    .load it (if customStates.isEmpty then InfoTree.make else getTree it customStates)) ++
  ((getChildKeys "." nicknames).map (fun it => .rename it (branchGetValue it nicknames).asString) ++
  ((getChildKeys "." properties).flatMap (propertyEntries properties) ++
  ((getChildKeys "." userData).flatMap (userDataEntries userData) ++
  (getChildKeys "." properties).flatMap (startEntries properties))))

/-- The entries of a state, in the order of `load_state`. -/
def entries (state : InfoTree) : List Entry :=
  let quiddities := getTree ".quiddities" state
  (getChildKeys "." quiddities).map (fun it => .create it (kindAt quiddities it)) ++
  (middleEntries state ++ (loadCalls state).map fun r => .invoke r.1 r.2.1 r.2.2)

/-! ### The property and the condition -/

/-- An entry that cannot be applied changes nothing. -/
def Skips (s : Loading) (_ : Entry) (r : Loading × Bool) : Prop := r.2 = false → r.1 = s

/-- A state is loaded without the use of a lookup that finds nothing, the entries that cannot be
applied are skipped, and what is loaded is what the others make on their own. -/
structure Total (f : Factory) (state : InfoTree) (c : Container Body) : Prop where
  skips : Machine.Meets (loadStep f) Skips ⟨c, []⟩ (entries state)
  alone : ∃ s os, loadState f state c = some s.container ∧
    Machine.run (loadStep f) ⟨c, []⟩ (Machine.accepted (loadStep f) ⟨c, []⟩ (entries state)) =
      some (s, os) ∧ ∀ o ∈ os, o = true

/-- An entry that is applied, or does nothing: a creation whose nickname is not taken, a custom
state for a key that has been created or names no quiddity, a call of a method that is there. -/
def Harmless (f : Factory) (s : Loading) : Entry → Prop
  | .create name kind => kind ∈ f.kinds → ¬s.container.Refused name
  | .load name _ => name ∈ s.created ∨ s.container.getId name = 0
  | .invoke name meth _ => Answers f name meth s.container
  | _ => True

instance decidableHarmless (f : Factory) (s : Loading) (i : Entry) : Decidable (Harmless f s i) := by
  cases i <;> unfold Harmless <;> infer_instance

variable {f : Factory} {s : Loading} {c : Container Body} {name nick : String} {id : ℕ}
  {q : Quiddity Body}

/-! ### The entries are those that `load_state` goes through -/

end Switcher
end LibSwitcher
