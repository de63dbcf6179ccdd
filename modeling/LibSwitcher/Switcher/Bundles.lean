/-
# Bundles of a switcher

`switcher/switcher.cpp`, `load_bundle_from_config`, `register_bundle`, `unregister_bundle` and
`register_bundle_from_configuration`.  A bundle is an entry of the configuration, at
`bundle` and its name; loading also makes the bundles of the configuration kinds that can be
created, and documents them.

Loading adds the bundles of a text one by one, to a copy of the configuration that is then
merged with it.  Registering a bundle grafts the tree of the caller at `bundle`, where it takes
the place of all the bundles that were there, and unregistering prunes the entry of the first
name of the tree.
-/

import LibSwitcher.InfoTree.JsonBuilder
import LibSwitcher.InfoTree.SelfMerge
import LibSwitcher.Quiddity.Bundle.DescriptionParser

namespace LibSwitcher
namespace Bundles

open InfoTree (branchGetCopy branchGetValue getChildKeys getTree graft merge prune pruned vgraft)

/-- What is read and written of a switcher: the tree of `conf_`, the kinds of `qfactory_` and the
names in the documentation registry. -/
structure Switcher where
  conf : InfoTree
  made : conf.Reachable
  kinds : List String
  docs : List String

/-- A tree that a caller gives. -/
structure BundleTree where
  tree : InfoTree
  made : tree.Reachable

/-- What the operations are given from outside: json-glib, the tree that `deserialize` returns for
a text with a member name that cannot be grafted, of which nothing is known, and the runtime
directory, if the environment has one. -/
structure Environment where
  glib : JsonGlib
  lost : String → BundleTree
  runtimeDir : Option String

/-- `infotree::json::deserialize` of a text. -/
def Environment.deserialize (env : Environment) (serialized : String) : BundleTree :=
  match h : InfoTree.deserialize false (env.glib.parse serialized) with
  | none => env.lost serialized
  | some tree => ⟨tree, InfoTree.reachable_deserialize h⟩

/-! ### The configuration -/

/-- `Configuration::set_defaults`, where the environment has a runtime directory or not. -/
def setDefaults (runtimeDir : Option String) (conf : InfoTree) : InfoTree :=
  let conf := if (branchGetValue ".shm.directory" conf).asString = "" then
    vgraft ".shm.directory" (.str (runtimeDir.getD "/tmp")) conf else conf
  if (branchGetValue ".shm.prefix" conf).asString = "" then
    vgraft ".shm.prefix" (.str "switcher_") conf else conf

/-- `Configuration::from_tree`: the new `configuration_`. -/
def fromTree (runtimeDir : Option String) (conf tree : InfoTree) : InfoTree :=
  setDefaults runtimeDir (merge conf tree)

/-! ### Kinds -/

/-- The bundle can be made a kind: its name has no underscore, and it is documented and has
a correct pipeline. -/
def isCorrect (configuration : InfoTree) (quidKinds : List String) (it : String) : Bool :=
  let pipeline := (branchGetValue ("bundle." ++ it ++ ".pipeline") configuration).asString
  '_' ∉ it.toList &&
    (branchGetValue ("bundle." ++ it ++ ".doc.long_name") configuration).asString ≠ "" &&
    (branchGetValue ("bundle." ++ it ++ ".doc.description") configuration).asString ≠ "" &&
    pipeline ≠ "" && (Bundle.DescriptionParser.parse pipeline quidKinds).isOk

/-- The loop of `register_bundle_from_configuration`, with `quid_kinds`, the kinds and the
documented names. -/
def registerKinds (configuration : InfoTree) :
    List String → List String → List String → List String → List String × List String
  | [], _, kinds, docs => (kinds, docs)
  | it :: its, quidKinds, kinds, docs =>
      if isCorrect configuration quidKinds it && it ∉ docs then
        registerKinds configuration its (quidKinds ++ [it]) (kinds.insert it) (docs ++ [it])
      else registerKinds configuration its quidKinds kinds docs

/-- `register_bundle_from_configuration`. -/
def registerBundleFromConfiguration (s : Switcher) : Switcher :=
  let registered := registerKinds s.conf (getChildKeys "bundle" s.conf) s.kinds s.kinds s.docs
  { s with kinds := registered.1, docs := registered.2 }

/-! ### The operations -/

/-- The loop of `load_bundle_from_config` over the names of the new bundles, and whether some
were added. -/
def addBundles (bundles : InfoTree) : List String → InfoTree → InfoTree × Bool
  | [], newConfiguration => (newConfiguration, false)
  | name :: names, newConfiguration =>
      if (branchGetCopy (".bundle." ++ name) newConfiguration).isSome then
        addBundles bundles names newConfiguration
      else
        ((addBundles bundles names (match branchGetCopy ("bundle." ++ name) bundles with
          | none => newConfiguration
          | some bundle => graft (".bundle." ++ name ++ ".") bundle newConfiguration)).1, true)

theorem reachable_addBundles (bundles : InfoTree) (names : List String) {new : InfoTree}
    (h : new.Reachable) : (addBundles bundles names new).1.Reachable := by
  induction names generalizing new with
  | nil => exact h
  | cons name names ih =>
      rw [addBundles]
      split_ifs
      · exact ih h
      · refine ih ?_
        cases hbundle : branchGetCopy ("bundle." ++ name) bundles with
        | none => exact h
        | some bundle =>
            obtain ⟨n, -, rfl⟩ := Option.map_eq_some_iff.1 hbundle
            exact (InfoTree.reachable_copy n).graft _ h

theorem reachable_setDefaults (runtimeDir : Option String) {conf : InfoTree}
    (h : conf.Reachable) : (setDefaults runtimeDir conf).Reachable := by
  have hgraft : ∀ (b : Prop) [Decidable b] (path v : String) {t : InfoTree}, t.Reachable →
      (if b then vgraft path (.str v) t else t).Reachable := by
    intro b _ path v t ht
    split_ifs
    · exact InfoTree.Reachable.graft path (.makeValue _) ht
    · exact ht
  exact hgraft _ _ _ (hgraft _ _ _ h)

theorem reachable_fromTree (runtimeDir : Option String) (conf tree : InfoTree) :
    (fromTree runtimeDir conf tree).Reachable :=
  reachable_setDefaults runtimeDir (InfoTree.reachable_merge conf tree)

/-- `load_bundle_from_config`, for the tree of its text.  `from_tree` calls
`register_bundle_from_configuration`, which is then called again. -/
def loadBundleFromConfig (runtimeDir : Option String) (bundles : InfoTree) (s : Switcher) :
    Switcher × Bool :=
  let added := addBundles bundles (getChildKeys "bundle" bundles) (InfoTree.copy s.conf)
  if added.2 then
    let s := { s with
      conf := fromTree runtimeDir s.conf added.1
      made := reachable_fromTree runtimeDir s.conf added.1 }
    (registerBundleFromConfiguration (registerBundleFromConfiguration s), true)
  else (s, true)

/-- `register_bundle`: the front of an empty list of keys is undefined. -/
def registerBundle (bundleTree : BundleTree) (s : Switcher) : Option (Switcher × Bool) :=
  match getChildKeys "." bundleTree.tree with
  | [] => none
  | _ :: _ =>
      some ({ s with
        conf := graft "bundle" bundleTree.tree s.conf
        made := bundleTree.made.graft "bundle" s.made }, InfoTree.canGraft "bundle")

/-- `unregister_bundle`. -/
def unregisterBundle (bundleTree : BundleTree) (s : Switcher) : Option (Switcher × Bool) :=
  match getChildKeys "." bundleTree.tree with
  | [] => none
  | name :: _ =>
      some ({ s with
        conf := prune ("bundle." ++ name) s.conf
        made := s.made.prune ("bundle." ++ name) }, (pruned ("bundle." ++ name) s.conf).isSome)

/-- What a caller can ask for. -/
inductive Op
  | load (bundleDescription : String)
  | register (bundleTree : BundleTree)
  | unregister (bundleTree : BundleTree)

/-- One operation; `none` where its behaviour is undefined. -/
def step (env : Environment) (s : Switcher) : Op → Option (Switcher × Bool)
  | .load text => some (loadBundleFromConfig env.runtimeDir (env.deserialize text).tree s)
  | .register bundleTree => registerBundle bundleTree s
  | .unregister bundleTree => unregisterBundle bundleTree s

/-! ### Registering bundles is local -/

/-- The configuration entry of a bundle. -/
def entry (b : String) (conf : InfoTree) : Option InfoTree := conf.get ["bundle", b]

/-- The names of the bundles that an operation names. -/
def Op.names (env : Environment) : Op → List String
  | .load text => getChildKeys "bundle" (env.deserialize text).tree
  | .register bundleTree => getChildKeys "." bundleTree.tree
  | .unregister bundleTree => getChildKeys "." bundleTree.tree

/-- The configuration that `Container::quiet_create` gives to a quiddity of a kind. -/
def configFor (quiddityKind : String) (conf : InfoTree) : InfoTree :=
  let tree := getTree quiddityKind conf
  if tree.isEmpty then getTree ("bundle." ++ quiddityKind) conf else tree

/-- A quiddity of the kind can be created: the factory has the kind, and its constructor
accepts the configuration it is given. -/
def Switcher.Creatable (accepts : String → InfoTree → Bool) (s : Switcher) (b : String) : Prop :=
  b ∈ s.kinds ∧ accepts b (configFor b s.conf) = true

/-- An operation is correct: it leaves the entries of the bundles it does not name, no kind is
lost and those that could be created still can, the bundles it is said to have loaded or
registered are in the configuration, and registering a new bundle can be undone. -/
structure Correct (accepts : String → InfoTree → Bool) (env : Environment) (s : Switcher) (op : Op)
    (s' : Switcher) (res : Bool) : Prop where
  entries : ∀ b ∉ op.names env, entry b s'.conf = entry b s.conf
  kinds : ∀ b ∈ s.kinds, b ∈ s'.kinds
  creatable : ∀ b ∉ op.names env, s.Creatable accepts b → s'.Creatable accepts b
  present : (∀ bundleTree, op ≠ .unregister bundleTree) → res = true →
    ∀ b ∈ op.names env, entry b s'.conf ≠ none
  undone : ∀ bundleTree, op = .register bundleTree →
    ∀ name ∈ (op.names env).head?, entry name s.conf = none →
      (step env s' (.unregister bundleTree)).map (fun r => r.1.conf) = some s.conf

/-- What the operation does is correct. -/
def StepCorrect (accepts : String → InfoTree → Bool) (env : Environment) (s : Switcher) (op : Op) :
    Prop :=
  ∃ r, step env s op = some r ∧ Correct accepts env s op r.1 r.2

/-! ### When it is -/

/-- The configuration of the kind is not the one where the bundles are. -/
def OwnConfig (b : String) : Prop := Components.Plain '.' b ∧ b ≠ "bundle"

instance decidableOwnConfig (b : String) : Decidable (OwnConfig b) :=
  inferInstanceAs (Decidable (_ ∧ _))

/-- What loading the tree of a text needs: there is nothing to add, or what is added has a value
and the merge loses nothing of the bundles and of the configurations of kinds. -/
def LoadOk (bundles : InfoTree) (s : Switcher) : Prop :=
  (∀ b ∈ getChildKeys "bundle" bundles, entry b s.conf ≠ none) ∨
    (∀ b ∈ getChildKeys "bundle" bundles, entry b s.conf = none →
      ∀ n ∈ entry b bundles, InfoTree.hasValue n = true) ∧
    (∀ n ∈ s.conf.child "bundle", InfoTree.kept n = true) ∧
    ∀ b ∈ s.kinds, b ∉ getChildKeys "bundle" bundles →
      OwnConfig b ∧ b ≠ "shm" ∧ ∀ n ∈ s.conf.child b, InfoTree.kept n = true

/-- What registering the tree needs: it names all the bundles that are configured and, if the
first one is new, the others are as they are configured. -/
def RegisterOk (tree : InfoTree) (s : Switcher) : Prop :=
  getChildKeys "." tree ≠ [] ∧
    (∀ b ∈ getChildKeys "bundle" s.conf, b ∈ getChildKeys "." tree) ∧
    (∀ b ∈ s.kinds, b ∉ getChildKeys "." tree → OwnConfig b) ∧
    ∀ name ∈ (getChildKeys "." tree).head?, entry name s.conf = none →
      s.conf.child "bundle" = some (tree.setChildren tree.children.tail)

/-- What unregistering the tree needs. -/
def UnregisterOk (tree : InfoTree) (s : Switcher) : Prop :=
  getChildKeys "." tree ≠ [] ∧ ∀ b ∈ s.kinds, b ∉ getChildKeys "." tree → OwnConfig b

/-- The condition under which an operation is correct. -/
def StepOk (env : Environment) (s : Switcher) : Op → Prop
  | .load text => LoadOk (env.deserialize text).tree s
  | .register bundleTree => RegisterOk bundleTree.tree s
  | .unregister bundleTree => UnregisterOk bundleTree.tree s

end Bundles
end LibSwitcher
