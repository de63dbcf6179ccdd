/-
# Method bags

`switcher/quiddity/method/mbag.hpp` and `mbag.cpp`: a bag registers the methods of a
quiddity under identifiers and names, and documents them under `method` in the tree of
the quiddity.

A method should be found by its name and by its identifier until it is removed, and
removing, enabling and disabling it should act on it alone (`MethodKept`).  But `enable`,
`disable`, `remove` and `get_name` look in `strids_`, the map from the identifiers to the
names, where `make_method` puts nothing.  So this is the case of no method: it holds
along a run exactly when no method is made in it (`always_kept_iff`).

A method is known by a number, and its type by the names of the types it returns and takes.
The tree signals and the callbacks of the bag are not part of the state.
-/

import LibSwitcher.InfoTree.InformationTree
import LibSwitcher.Lib.Machine
import LibSwitcher.Utils.IdMap
import LibSwitcher.Utils.NameMap
import LibSwitcher.Utils.StringUtils

namespace LibSwitcher

open InfoTree

/-- The type of a method: the names that the registry of type names has for what it returns
and takes, empty where it has none. -/
structure MethodTrait where
  returnName : String
  argNames : List String

/-- `arity`. -/
def MethodTrait.arity (trait : MethodTrait) : ℕ := trait.argNames.length

/-- An `MBag`, with the tree of its quiddity.  Identifiers are not bounded here. -/
structure MBag where
  counter : ℕ
  meths : IdMap ℕ
  ids : NameMap ℕ
  strids : IdMap String
  tree : InfoTree

namespace MBag

/-- The constructor. -/
def make (tree : InfoTree) : MBag :=
  ⟨0, ∅, ∅, ∅, tagAsArray ".method" true (graft ".method" InfoTree.make tree)⟩

/-- What is missing in the documentation of an argument, in `validate_method_documentation`. -/
def validateArgument (tree : InfoTree) (i : ℕ) : Except String Unit :=
  if !branchHasData ("arguments." ++ toString i ++ ".long name.") tree then
    .error ("long name is missing for argument " ++ toString i)
  else if !branchHasData ("arguments." ++ toString i ++ ".description") tree then
    .error ("description is missing for argument " ++ toString i)
  else .ok ()

/-- `validate_method_documentation`. -/
def validateMethodDocumentation (trait : MethodTrait) : Option InfoTree → Except String Unit
  | none => .error "null information tree"
  | some tree =>
      if tree.isEmpty then .error "information tree is empty"
      else if !branchHasData "name" tree then .error "name is missing"
      else if !branchHasData "description" tree then .error "description is missing"
      else if 0 < trait.arity ∧ !branchIsArray "arguments" tree then
        .error "arguments is not an array"
      else (List.range trait.arity).forM (validateArgument tree)

/-- The grafts of `make_method`: the documentation, and what the bag adds to it. -/
def graftMethod (strid : String) (id : ℕ) (trait : MethodTrait) (doc tree : InfoTree) : InfoTree :=
  let key := "method." ++ strid
  let tree := graft key doc tree
  let tree := graft (key ++ ".id") (makeValue (.str strid)) tree
  let tree := graft (key ++ ".meth_id") (makeValue (.id id)) tree
  let tree := graft (key ++ ".parent") (makeValue (.str "")) tree
  let tree := graft (key ++ ".enabled") (makeValue (.bool true)) tree
  let tree := graft (key ++ ".order") (makeValue (.id (id * 20))) tree
  let tree := graft (key ++ ".return type")
    (if trait.returnName = "" then InfoTree.make else makeValue (.str trait.returnName)) tree
  trait.argNames.zipIdx.foldl (fun tree arg =>
    graft (key ++ ".arguments." ++ toString arg.2 ++ ".type") (makeValue (.str arg.1)) tree) tree

/-- `make_method`; a name that is there keeps its identifier in `ids_`. -/
def makeMethod (strid : String) (trait : MethodTrait) (doc : Option InfoTree) (meth : ℕ)
    (b : MBag) : MBag × ℕ :=
  match validateMethodDocumentation trait doc, doc with
  | .ok (), some doc =>
      let id := b.counter + 1
      ({ b with
          counter := id
          meths := b.meths.insert id meth
          ids := if strid ∈ b.ids then b.ids else b.ids.insert strid id
          tree := graftMethod strid id trait doc b.tree }, id)
  | _, _ => (b, 0)

/-- `remove`.  The name is read again, for a callback, from the entry that is erased. -/
def remove (id : ℕ) (b : MBag) : Option (MBag × Bool) :=
  match b.strids[id]? with
  | none => some (b, false)
  | some strid =>
      let strids := b.strids.erase id
      strids[id]?.map fun _ => ({ b with
        tree := prune ("method." ++ strid) b.tree
        ids := b.ids.erase strid
        strids := strids
        meths := b.meths.erase id }, true)

/-- What `enable` and `disable` do. -/
def setEnabled (id : ℕ) (enabled : Bool) (why : String) (b : MBag) : MBag × Bool :=
  match b.strids[id]? with
  | none => (b, false)
  | some strid =>
      let tree := graft ("method." ++ strid ++ ".enabled") (makeValue (.bool enabled)) b.tree
      let tree := graft ("method." ++ strid ++ ".why_disabled") (makeValue (.str why)) tree
      ({ b with tree := tree }, true)

/-- `enable`. -/
def enable (id : ℕ) (b : MBag) : MBag × Bool := b.setEnabled id true ""

/-- `disable`. -/
def disable (id : ℕ) (why : String) (b : MBag) : MBag × Bool := b.setEnabled id false why

/-- `get_id`, which accepts an identifier written as a text. -/
def getId (strid : String) (b : MBag) : Option ℕ :=
  match b.ids[strid]? with
  | some id => some id
  | none => (Stringutils.idFromString strid).map fun id => if id ∈ b.meths then id else 0

/-- `get_name`. -/
def getName (id : ℕ) (b : MBag) : String := b.strids[id]?.getD ""

/-! ### Methods that are kept -/

/-- The tree of a method. -/
def methodTree (strid : String) (b : MBag) : Option InfoTree := branch ("method." ++ strid) b.tree

/-- Two bags have the same of all methods except for one. -/
def SameOthers (b b' : MBag) (id : ℕ) (strid : String) : Prop :=
  (∀ id' : ℕ, id' ≠ id → b'.meths[id']? = b.meths[id']? ∧ b'.strids[id']? = b.strids[id']?) ∧
    ∀ strid' : String, strid' ≠ strid →
      b'.ids[strid']? = b.ids[strid']? ∧ b'.methodTree strid' = b.methodTree strid'

/-- A call of `enable` or of `disable` does what it should. -/
def Switched (b : MBag) (id : ℕ) (strid : String) (enabled : Bool) (r : MBag × Bool) : Prop :=
  r.2 = true ∧ branchGetValue ("method." ++ strid ++ ".enabled") r.1.tree = .bool enabled ∧
    SameOthers b r.1 id strid

/-- The bag has a method under an identifier and a name, and acts on it alone. -/
structure MethodKept (b : MBag) (id : ℕ) (strid : String) : Prop where
  getId : b.getId strid = some id
  getName : b.getName id = strid
  enable : Switched b id strid true (b.enable id)
  disable : ∀ why, Switched b id strid false (b.disable id why)
  remove : ∃ b', b.remove id = some (b', true) ∧ id ∉ b'.meths ∧ strid ∉ b'.ids ∧
    id ∉ b'.strids ∧ b'.methodTree strid = none ∧ SameOthers b b' id strid

/-! ### Runs -/

/-- A call of a function that changes the methods. -/
inductive Op
  | makeMethod (strid : String) (trait : MethodTrait) (doc : Option InfoTree) (meth : ℕ)
  | remove (id : ℕ)
  | enable (id : ℕ)
  | disable (id : ℕ) (why : String)

/-- What these functions return. -/
inductive Result
  | id (id : ℕ)
  | bool (b : Bool)

/-- A bag with the methods that have been made and not been removed since. -/
structure Session where
  bag : MBag
  live : List (ℕ × String)

/-- A bag just made. -/
def start (tree : InfoTree) : Session := ⟨make tree, []⟩

/-- One call. -/
def step (s : Session) : Op → Option (Session × Result)
  | .makeMethod strid trait doc meth =>
      let r := s.bag.makeMethod strid trait doc meth
      some (⟨r.1, if r.2 = 0 then s.live else (r.2, strid) :: s.live⟩, .id r.2)
  | .remove id => (s.bag.remove id).map fun r =>
      (⟨r.1, s.live.filter fun m => m.1 ≠ id⟩, .bool r.2)
  | .enable id => some (⟨(s.bag.enable id).1, s.live⟩, .bool (s.bag.enable id).2)
  | .disable id why => some (⟨(s.bag.disable id why).1, s.live⟩, .bool (s.bag.disable id why).2)

/-- The bag keeps all its methods. -/
def Kept (s : Session) : Prop := ∀ m ∈ s.live, MethodKept s.bag m.1 m.2

/-- The call makes no method: its documentation is not valid. -/
def MakesNone : Op → Prop
  | .makeMethod _ trait doc _ => validateMethodDocumentation trait doc ≠ .ok ()
  | _ => True

variable {s : Session} {b : MBag}

/-- A method is made if its documentation is valid. -/
theorem makeMethod_snd (strid : String) (trait : MethodTrait) (doc : Option InfoTree) (meth : ℕ) :
    (b.makeMethod strid trait doc meth).2 = 0 ↔ validateMethodDocumentation trait doc ≠ .ok () := by
  cases doc with
  | none => exact ⟨fun _ h => (by cases h), fun _ => rfl⟩
  | some doc =>
      unfold makeMethod
      cases hvalid : validateMethodDocumentation trait (some doc) with
      | ok u => exact iff_of_false (Nat.succ_ne_zero _) (not_not.2 rfl)
      | error msg => exact ⟨fun _ h => (by cases h), fun _ => rfl⟩

theorem strids_makeMethod (strid : String) (trait : MethodTrait) (doc : Option InfoTree)
    (meth : ℕ) : (b.makeMethod strid trait doc meth).1.strids = b.strids := by
  unfold makeMethod
  split <;> rfl

/-- Without names, nothing is removed. -/
theorem remove_of_strids (h : b.strids = ∅) (id : ℕ) : b.remove id = some (b, false) := by
  rw [remove, h]
  rfl

/-- Without names, nothing is switched. -/
theorem setEnabled_of_strids (h : b.strids = ∅) (id : ℕ) (enabled : Bool) (why : String) :
    b.setEnabled id enabled why = (b, false) := by
  rw [setEnabled, h]
  rfl

/-- A call is defined and leaves the bag without names. -/
theorem strids_step (h : s.bag.strids = ∅) (op : Op) :
    ∃ r, step s op = some r ∧ r.1.bag.strids = ∅ := by
  cases op with
  | makeMethod strid trait doc meth => exact ⟨_, rfl, (strids_makeMethod ..).trans h⟩
  | remove id =>
      refine ⟨(⟨s.bag, s.live.filter fun m => m.1 ≠ id⟩, .bool false), ?_, h⟩
      rw [step, remove_of_strids h]
      rfl
  | enable id =>
      refine ⟨_, rfl, ?_⟩
      rw [enable, setEnabled_of_strids h]
      exact h
  | disable id why =>
      refine ⟨_, rfl, ?_⟩
      rw [disable, setEnabled_of_strids h]
      exact h

/-- A bag without names keeps no method. -/
theorem kept_iff_live (h : s.bag.strids = ∅) : Kept s ↔ s.live = [] := by
  constructor
  · intro hkept
    refine List.eq_nil_iff_forall_not_mem.2 fun m hm => ?_
    obtain ⟨b', hb', -⟩ := (hkept m hm).remove
    rw [remove_of_strids h] at hb'
    cases hb'
  · intro hlive m hm
    rw [hlive] at hm
    exact absurd hm List.not_mem_nil

/-- A call leaves no method to keep exactly when it makes none. -/
theorem live_step_iff (h : s.live = []) (op : Op) :
    MakesNone op ↔ ∀ r, step s op = some r → r.1.live = [] := by
  cases op with
  | makeMethod strid trait doc meth =>
      rw [MakesNone, ← makeMethod_snd (b := s.bag) strid trait doc meth]
      constructor
      · rintro hzero r hr
        obtain rfl := Option.some.inj hr
        exact (if_pos hzero).trans h
      · intro hlive
        by_contra hzero
        have hnil := hlive _ rfl
        rw [if_neg hzero] at hnil
        cases hnil
  | remove id =>
      refine iff_of_true trivial fun r hr => ?_
      obtain ⟨r', -, rfl⟩ := Option.map_eq_some_iff.1 hr
      rw [h]
      rfl
  | enable id => exact iff_of_true trivial fun r hr => Option.some.inj hr ▸ h
  | disable id why => exact iff_of_true trivial fun r hr => Option.some.inj hr ▸ h

/-- The bag keeps its methods in every state of a run exactly when the run makes none. -/
theorem always_kept_iff (tree : InfoTree) (ops : List Op) :
    Machine.Always step Kept (start tree) ops ↔ ∀ op ∈ ops, MakesNone op := by
  have hinv : ∀ s op r, s.bag.strids = ∅ → step s op = some r → r.1.bag.strids = ∅ := by
    intro s op r h hr
    obtain ⟨r', hr', hstrids⟩ := strids_step h op
    obtain rfl := Option.some.inj (hr.symm.trans hr')
    exact hstrids
  have hstart : (start tree).bag.strids = ∅ := rfl
  rw [Machine.always_congr hinv (fun s => kept_iff_live) hstart,
    Machine.always_iff_admits fun s op h => live_step_iff h op, and_iff_right (by rfl),
    Machine.admits_iff_forall (I := fun s => s.bag.strids = ∅) (fun s op h => strids_step h op)
      hstart]

/-- The documentation of a method without arguments. -/
def pingDoc : InfoTree :=
  .node emptyNode [("name", makeValue (.str "ping")), ("description", makeValue (.str "answer"))]

/-- A method that has just been made has no name. -/
theorem not_always_kept_ping :
    ¬ Machine.Always step Kept (start InfoTree.make)
      [.makeMethod "ping" ⟨"bool", []⟩ (some pingDoc) 7] := by
  rintro ⟨-, h⟩
  have hkept := h _ rfl _ List.mem_cons_self
  exact absurd hkept.getName (by decide +kernel)

end MBag
end LibSwitcher
