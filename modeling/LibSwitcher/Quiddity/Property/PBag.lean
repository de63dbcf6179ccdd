/-
# Property bags

`switcher/quiddity/property/pbag.cpp`: a bag registers properties under identifiers
and names, and shows their specifications under `property` in the tree of its quiddity.

Bags share properties.  The tree of a quiddity holds the very trees that the properties
own, and a bag can mirror a property of another one: its entry in `props_` is then the
address of the other bag's owning pointer.  So the bags live together in a state with
the property objects they refer to (`PBags`): `props` holds addresses of owning pointers,
a bag and an identifier, `actualProps` holds these pointers, and the children of `property`
refer to the object whose specification they are.

The names are single keys of the tree.  The tree signals are not part of the state.
-/

import LibSwitcher.Quiddity.Property.Property
import LibSwitcher.Utils.NameMap
import LibSwitcher.Utils.StringUtils
import Mathlib.Logic.Function.Basic

namespace LibSwitcher

/-- The name of a property, a single key of the tree. -/
structure Strid where
  str : String
  plain : Components.Plain '.' str

/-- A `PBag`.  Identifiers are not bounded here. -/
structure PBag where
  counter : ℕ
  props : IdMap (ℕ × ℕ)
  actualProps : IdMap (Option ℕ)
  ids : NameMap ℕ
  strids : IdMap String
  tree : List (String × ℕ)
  suborders : NameMap ℕ

/-- A bag without properties. -/
def PBag.empty : PBag := ⟨0, ∅, ∅, ∅, ∅, [], ∅⟩

/-- `get_id`, which accepts an identifier written as a text. -/
def PBag.getId (strid : String) (b : PBag) : Option ℕ :=
  match b.ids[strid]? with
  | some id => some id
  | none => (Stringutils.idFromString strid).map fun id => if id ∈ b.props then id else 0

/-- `get_name`. -/
def PBag.getName (id : ℕ) (b : PBag) : String := b.strids[id]?.getD ""

/-- `CounterMap::get_count`. -/
def getCount (key : String) (counters : NameMap ℕ) : NameMap ℕ × ℕ :=
  match counters[key]? with
  | some count => (counters.insert key (count + 1), count + 1)
  | none => (counters.insert key 0, 0)

/-- The bags, and the property objects in the order they are made. -/
structure PBags where
  heap : List Property
  bag : ℕ → PBag

namespace PBags

/-- No property. -/
def empty : PBags := ⟨[], fun _ => PBag.empty⟩

/-- What an owning pointer points to, if there is one that is not null. -/
def owned (w : PBags) (slot : ℕ × ℕ) : Option ℕ := (w.bag slot.1).actualProps[slot.2]?.join

/-- `props_.find(id)->second->get()`: the object of an identifier. -/
def object (w : PBags) (n id : ℕ) : Option ℕ := (w.bag n).props[id]?.bind w.owned

/-- Write a bag. -/
def setBag (n : ℕ) (b : PBag) (w : PBags) : PBags := { w with bag := Function.update w.bag n b }

/-- Write a property through a pointer to it. -/
def modifyObject (ref : ℕ) (f : Property → Property) (w : PBags) : PBags :=
  { w with heap := w.heap.modify ref f }

/-- `init_newly_installed_property`, for the identifier the counter is at. -/
def initNewlyInstalledProperty (n : ℕ) (strid : Strid) (parent : String) (pos : ℕ) (w : PBags) :
    Option PBags :=
  let b := w.bag n
  (w.object n b.counter).map fun ref =>
    (w.setBag n { b with
        ids := b.ids.insert strid.str b.counter
        strids := b.strids.insert b.counter strid.str
        tree := KeyTree.setKey strid.str ref b.tree }).modifyObject ref fun p =>
      { p with
        id := b.counter
        spec := Property.specialize (.str strid.str) (.id b.counter) (.id pos) (.str parent)
          (.bool true) p.spec }

/-- `push_parented`. -/
def pushParented (n : ℕ) (strid : Strid) (parent : String) (prop : Option Property) (w : PBags) :
    Option (PBags × ℕ) :=
  let b := w.bag n
  if strid.str ∈ b.ids then some (w, 0)
  else if parent ≠ "" ∧ parent ∉ b.ids then some (w, 0)
  else
    match prop with
    | none => some (w, 0)
    | some p =>
        let id := b.counter + 1
        let r := getCount parent b.suborders
        let w' : PBags := ⟨w.heap ++ [p], Function.update w.bag n { b with
          counter := id
          actualProps := b.actualProps.insert id (some w.heap.length)
          props := b.props.insert id (n, id)
          suborders := r.1 }⟩
        (w'.initNewlyInstalledProperty n strid parent (20 * (r.2 + 1))).map fun w => (w, id)

/-- `push`. -/
def push (n : ℕ) (strid : Strid) (prop : Option Property) (w : PBags) : Option (PBags × ℕ) :=
  w.pushParented n strid "" prop

/-- `remove`. -/
def remove (n id : ℕ) (w : PBags) : PBags × Bool :=
  let b := w.bag n
  match b.strids[id]? with
  | none => (w, false)
  | some strid =>
      (w.setBag n { b with
        tree := KeyTree.eraseKey strid b.tree
        ids := b.ids.erase strid
        strids := b.strids.erase id
        props := b.props.erase id
        actualProps := b.actualProps.erase id }, true)

/-- `replace_impl`.  The iterator of an identifier that is not registered is dereferenced
before it is compared with the end. -/
def replace (n id : ℕ) (prop : Property) (w : PBags) : Option (PBags × Bool) :=
  let b := w.bag n
  b.strids[id]?.bind fun strid => (w.object n id).bind fun ref => w.heap[ref]?.map fun old =>
    (⟨w.heap ++ [(Property.replacing id old prop).1], Function.update w.bag n { b with
      actualProps := b.actualProps.insert id (some w.heap.length)
      props := b.props.insert id (n, id)
      tree := KeyTree.setKey strid w.heap.length b.tree }⟩, true)

/-- The grafts of `enable` and `disable` into the specification of a property. -/
def graftEnabled (enabled : Bool) (why : String) (spec : InfoTree) : InfoTree :=
  (spec.vgraft "enabled" (.bool enabled)).vgraft "why_disabled" (.str why)

/-- What `enable` and `disable` do to the property of the name of an identifier, which
they find in the tree. -/
def setEnabled (n id : ℕ) (enabled : Bool) (why : String) (w : PBags) : Option (PBags × Bool) :=
  match (w.bag n).strids[id]? with
  | none => some (w, false)
  | some strid => ((w.bag n).tree.lookup strid).map fun ref =>
      (w.modifyObject ref fun p => { p with spec := graftEnabled enabled why p.spec }, true)

/-- `enable`. -/
def enable (n id : ℕ) (w : PBags) : Option (PBags × Bool) := w.setEnabled n id true ""

/-- `disable`. -/
def disable (n id : ℕ) (why : String) (w : PBags) : Option (PBags × Bool) :=
  w.setEnabled n id false why

/-- The parent of a mirrored property: that of the property below the given one. -/
def mirroredParent (origParent parent : String) : String :=
  if origParent = "" then parent else if parent = "" then origParent else parent ++ "/" ++ origParent

/-- `mirror_property_from`.  A missing entry of the map of owning pointers is made, null,
and dereferenced. -/
def mirrorPropertyFrom (n : ℕ) (strid : Strid) (parent : String) (pc id : ℕ) (w : PBags) :
    Option (PBags × ℕ) :=
  let b := w.bag n
  if strid.str ∈ b.ids then some (w, 0)
  else (w.owned (pc, id)).bind fun ref => w.heap[ref]?.bind fun p =>
    let newParent := mirroredParent (p.spec.branchGetValue ".parent").asString parent
    if newParent ≠ "" ∧ newParent ∉ b.ids then some (w, 0)
    else
      let id' := b.counter + 1
      let w' := w.setBag n { b with counter := id', props := b.props.insert id' (pc, id) }
      (w'.initNewlyInstalledProperty n strid newParent (p.spec.branchGetValue ".order").asId).map
        fun w => (w, id')

/-- A call of a function that changes which properties a bag has, or what it shows of them. -/
inductive Op
  | push (strid : Strid) (prop : Option Property)
  | pushParented (strid : Strid) (parent : String) (prop : Option Property)
  | remove (id : ℕ)
  | replace (id : ℕ) (prop : Property)
  | enable (id : ℕ)
  | disable (id : ℕ) (why : String)
  | mirrorPropertyFrom (strid : Strid) (parent : String) (pc id : ℕ)

/-- What these functions return. -/
inductive Result
  | id (id : ℕ)
  | bool (b : Bool)
  deriving DecidableEq

/-- One call on one of the bags. -/
def step (w : PBags) (i : ℕ × Op) : Option (PBags × Result) :=
  match i.2 with
  | .push strid prop => (w.push i.1 strid prop).map (Prod.map id .id)
  | .pushParented strid parent prop =>
      (w.pushParented i.1 strid parent prop).map (Prod.map id .id)
  | .remove id => some ((w.remove i.1 id).1, .bool (w.remove i.1 id).2)
  | .replace id' prop => (w.replace i.1 id' prop).map (Prod.map id .bool)
  | .enable id' => (w.enable i.1 id').map (Prod.map id .bool)
  | .disable id' why => (w.disable i.1 id' why).map (Prod.map id .bool)
  | .mirrorPropertyFrom strid parent pc id' =>
      (w.mirrorPropertyFrom i.1 strid parent pc id').map (Prod.map id .id)

end PBags
end LibSwitcher
