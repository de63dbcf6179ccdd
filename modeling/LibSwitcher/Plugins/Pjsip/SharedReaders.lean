/-
# When the shared readers are counted exactly

A request changes the list of one buddy (`buddies_regraft`), and the count of one path.  They
agree in every state of a run exactly when each path is attached to a contact that it is not
attached to, beside paths that its own one neither continues nor is continued by, and is
detached from a contact that it is attached to (`counted_iff`): the count goes up with a
repeated attachment too, and down for a contact whose list has no such path, which fails for a
contact without a list.
-/

import LibSwitcher.Plugins.Pjsip.PJCall

namespace LibSwitcher
namespace Pjsip

open InfoTree

variable {acc : Accounts} {list t : InfoTree} {p q : String} {id : ℕ}

/-! ### The list of a contact -/

/-- The values of a list. -/
def valuesOf (list : InfoTree) : List Any :=
  if list.isLeaf then [] else list.leaves.map fun l => l.2.data

/-- A list as requests make it: a value is that of a leaf, and is the path it stands at. -/
structure Filed (list : InfoTree) : Prop where
  keys : list.WellKeyed
  values : ∀ ks n, list.get ks = some n → data n = .null ∨
    n.children = [] ∧ ks ≠ [] ∧ ∃ v, data n = .str v ∧ components v = ks

theorem filed_make : Filed make where
  keys := wellKeyed_makeValue _
  values ks n h := by
    cases ks with
    | nil =>
        obtain rfl := Option.some.inj h
        exact Or.inl rfl
    | cons k ks => cases h

/-- A value of a list is one of its leaves. -/
theorem mem_valuesOf (hkeys : list.WellKeyed) {a : Any} : a ∈ valuesOf list ↔
    ∃ ks n, ks ≠ [] ∧ list.get ks = some n ∧ n.children = [] ∧ data n = a := by
  have hmem : a ∈ list.leaves.map (fun l => l.2.data) ↔
      ∃ ks n, list.get ks = some n ∧ n.children = [] ∧ data n = a := by
    rw [List.mem_map]
    constructor
    · rintro ⟨⟨ks, d⟩, hl, rfl⟩
      obtain ⟨n, hget, hleaf, rfl⟩ := (KeyTree.mem_leaves_iff hkeys).1 hl
      exact ⟨ks, n, hget, hleaf, rfl⟩
    · rintro ⟨ks, n, hget, hleaf, rfl⟩
      exact ⟨(ks, n.label), (KeyTree.mem_leaves_iff hkeys).2 ⟨n, hget, hleaf, rfl⟩, rfl⟩
  unfold valuesOf
  by_cases hleaf : list.isLeaf = true
  · rw [if_pos hleaf]
    have hnil : list.children = [] := List.isEmpty_iff.1 hleaf
    refine iff_of_false List.not_mem_nil ?_
    rintro ⟨ks, n, hne, hget, -, -⟩
    obtain ⟨k, ks, rfl⟩ := List.exists_cons_of_ne_nil hne
    rw [KeyTree.get_cons, KeyTree.child, hnil] at hget
    cases hget
  · rw [if_neg hleaf, hmem]
    refine exists_congr fun ks => exists_congr fun n => ⟨fun h => ⟨?_, h⟩, And.right⟩
    rintro rfl
    obtain rfl := Option.some.inj h.1
    exact hleaf (List.isEmpty_iff.2 h.2.1)

/-- A path is in a list where it stands at itself. -/
theorem mem_filed_iff (h : Filed list) : .str p ∈ valuesOf list ↔
    ∃ n, list.get (components p) = some n ∧ data n = .str p := by
  rw [mem_valuesOf h.keys]
  constructor
  · rintro ⟨ks, n, -, hget, -, hdata⟩
    rcases h.values ks n hget with hnull | ⟨-, -, v, hv, hks⟩
    · rw [hdata] at hnull
      cases hnull
    · obtain rfl := Any.str.inj (hdata.symm.trans hv)
      exact ⟨n, hks ▸ hget, hdata⟩
  · rintro ⟨n, hget, hdata⟩
    rcases h.values _ n hget with hnull | ⟨hleaf, hne, -⟩
    · rw [hdata] at hnull
      cases hnull
    · exact ⟨_, n, hne, hget, hleaf, hdata⟩

/-- A path is in a list once at most. -/
theorem count_filed_le_one (h : Filed list) (p : String) : (valuesOf list).count (.str p) ≤ 1 := by
  unfold valuesOf
  split_ifs
  · exact Nat.zero_le _
  · have hpath : ∀ l ∈ list.leaves, (l.2.data == .str p) = true → l.1 = components p := by
      rintro ⟨ks, d⟩ hl hd
      obtain ⟨n, hget, -, rfl⟩ := (KeyTree.mem_leaves_iff h.keys).1 hl
      have hdata : n.label.data = .str p := by simpa using hd
      rcases h.values ks n hget with hnull | ⟨-, -, v, hv, hks⟩
      · cases hdata.symm.trans hnull
      · obtain rfl := Any.str.inj (hdata.symm.trans hv)
        exact hks.symm
    have hcount := KeyTree.countP_leaves_le_one (f := fun d => d.data == .str p) h.keys hpath
    rwa [List.count_eq_countP, List.countP_map]

/-- No path of a list continues another one: it would stand below a leaf. -/
theorem not_isPrefix_of_mem (h : Filed list) (hp : .str p ∈ valuesOf list)
    (hq : .str q ∈ valuesOf list) (hne : q ≠ p) : ¬components q <+: components p := by
  rintro ⟨r, hr⟩
  obtain ⟨n, hn, hdata⟩ := (mem_filed_iff h).1 hp
  obtain ⟨m, hm, hdata'⟩ := (mem_filed_iff h).1 hq
  rw [← hr, KeyTree.get_append, hm, Option.bind_some] at hn
  cases r with
  | nil =>
      obtain rfl := Option.some.inj hn
      exact hne (Any.str.inj (hdata'.symm.trans hdata))
  | cons k r =>
      rcases h.values _ m hm with hnull | ⟨hleaf, -⟩
      · cases hdata'.symm.trans hnull
      · rw [KeyTree.get_cons, KeyTree.child, hleaf] at hn
        cases hn

/-- Different paths of a list part. -/
theorem parted_of_mem (h : Filed list) (hp : .str p ∈ valuesOf list)
    (hq : .str q ∈ valuesOf list) (hne : q ≠ p) :
    KeyTree.Parted (components q) (components p) := by
  rcases KeyTree.parted_or_prefix (components q) (components p) with hpart | hpre | hpre
  · exact hpart
  · exact absurd hpre (not_isPrefix_of_mem h hp hq hne)
  · exact absurd hpre (not_isPrefix_of_mem h hq hp hne.symm)

/-! ### Attaching a path -/

theorem tagAsArray_root (t : InfoTree) : tagAsArray "." true t = makeArray true t := by
  rw [tagAsArray, pathIsRoot]
  rfl

/-- The tag of the root does not change the leaves. -/
theorem valuesOf_makeArray (t : InfoTree) : valuesOf (makeArray true t) = valuesOf t := by
  obtain ⟨d, cs⟩ := t
  cases cs with
  | nil => rfl
  | cons e cs =>
      unfold valuesOf
      have hleaf : ∀ d : NodeData, isLeaf (.node d (e :: cs)) = false := fun _ => rfl
      rw [makeArray, KeyTree.setLabel, KeyTree.children_node, hleaf, hleaf, KeyTree.leaves,
        KeyTree.leaves]

theorem get_makeArray {ks : List String} (hks : ks ≠ []) (t : InfoTree) :
    (makeArray true t).get ks = t.get ks := by
  obtain ⟨k, ks, rfl⟩ := List.exists_cons_of_ne_nil hks
  rfl

/-- A path without component is not attached. -/
theorem valuesOf_attachPath_of_nil (hp : components p = []) :
    valuesOf (PJCall.attachPath p list) = valuesOf list := by
  rw [PJCall.attachPath, tagAsArray_root, valuesOf_makeArray, graft, if_pos hp]

/-- What stands in a list to which a path was attached. -/
theorem get_attachPath (hp : components p ≠ []) {ks : List String} (hks : ks ≠ []) :
    (PJCall.attachPath p list).get ks =
      (KeyTree.graft emptyNode (components p) list (makeValue (.str p))).get ks := by
  rw [PJCall.attachPath, tagAsArray_root, get_makeArray hks, graft, if_neg hp]

theorem wellKeyed_attachPath (h : list.WellKeyed) : (PJCall.attachPath p list).WellKeyed := by
  rw [PJCall.attachPath, tagAsArray_root]
  exact KeyTree.WellKeyed.setLabel (wellKeyed_graft h (wellKeyed_makeValue _)) _

/-- The paths of a list to which a path was attached: this one, and those that its own path parts
from. -/
theorem mem_attachPath (h : Filed list) (hp : components p ≠ []) :
    .str q ∈ valuesOf (PJCall.attachPath p list) ↔ q = p ∨
      .str q ∈ valuesOf list ∧ KeyTree.Parted (components q) (components p) := by
  rw [mem_valuesOf (wellKeyed_attachPath h.keys)]
  constructor
  · rintro ⟨ks, n, hks, hget, hleaf, hdata⟩
    rw [get_attachPath hp hks] at hget
    rcases KeyTree.parted_or_prefix ks (components p) with hparted | ⟨r, hr⟩ | ⟨r, rfl⟩
    · -- the node was there before
      rw [KeyTree.get_graft_of_parted hparted] at hget
      rcases h.values ks n hget with hnull | ⟨-, -, v, hv, hcomps⟩
      · cases hdata.symm.trans hnull
      · obtain rfl := Any.str.inj (hdata.symm.trans hv)
        exact Or.inr ⟨(mem_valuesOf h.keys).2 ⟨ks, n, hks, hget, hleaf, hdata⟩, hcomps ▸ hparted⟩
    · -- the node is above the new one, or is the new one
      rw [← hr, KeyTree.get_graft_append] at hget
      cases r with
      | nil =>
          obtain rfl := Option.some.inj hget
          exact Or.inl (Any.str.inj hdata).symm
      | cons k r =>
          obtain rfl := Option.some.inj hget
          have hchild : (KeyTree.graft emptyNode (k :: r)
              ((list.get ks).getD (.node emptyNode [])) (makeValue (.str p))).child k = some _ :=
            KeyTree.child_graft_self
          rw [KeyTree.child, hleaf] at hchild
          cases hchild
    · -- nothing is below the new one
      rw [KeyTree.get_append, KeyTree.get_graft_self, Option.bind_some] at hget
      cases r with
      | nil =>
          obtain rfl := Option.some.inj hget
          exact Or.inl (Any.str.inj hdata).symm
      | cons k r => cases hget
  · rintro (rfl | ⟨hmem, hparted⟩)
    · refine ⟨components q, makeValue (.str q), hp, ?_, rfl, rfl⟩
      rw [get_attachPath hp hp, KeyTree.get_graft_self]
    · obtain ⟨n, hget, hdata⟩ := (mem_filed_iff h).1 hmem
      rcases h.values _ n hget with hnull | ⟨hleaf, hne, -⟩
      · cases hdata.symm.trans hnull
      · refine ⟨components q, n, hne, ?_, hleaf, hdata⟩
        rw [get_attachPath hp hne, KeyTree.get_graft_of_parted hparted, hget]

/-- A list stays filed when a path is attached beside the others. -/
theorem Filed.attachPath (h : Filed list) (hp : components p ≠ [])
    (hparted : ∀ q, .str q ∈ valuesOf list → KeyTree.Parted (components q) (components p)) :
    Filed (PJCall.attachPath p list) where
  keys := wellKeyed_attachPath h.keys
  values ks n hget := by
    -- a node that a graft passes has the value it had
    have hpass : ∀ k r (t : InfoTree),
        data (KeyTree.graft emptyNode (k :: r) t (makeValue (.str p))) = data t :=
      fun _ _ _ => rfl
    by_cases hks : ks = []
    · subst hks
      obtain rfl := Option.some.inj hget
      obtain ⟨k, r, hkr⟩ := List.exists_cons_of_ne_nil hp
      have hdata : data (PJCall.attachPath p list) = data list := by
        rw [PJCall.attachPath, tagAsArray_root, graft, if_neg hp, hkr]
        exact hpass k r list
      rcases h.values [] list rfl with hnull | ⟨-, hne, -⟩
      · exact Or.inl (hdata.trans hnull)
      · exact absurd rfl hne
    · rw [get_attachPath hp hks] at hget
      rcases KeyTree.parted_or_prefix ks (components p) with hpart | ⟨r, hr⟩ | ⟨r, rfl⟩
      · rw [KeyTree.get_graft_of_parted hpart] at hget
        exact h.values ks n hget
      · rw [← hr, KeyTree.get_graft_append] at hget
        cases r with
        | nil =>
            obtain rfl := Option.some.inj hget
            exact Or.inr ⟨rfl, hks, p, rfl, by rw [← hr, List.append_nil]⟩
        | cons k r =>
            obtain rfl := Option.some.inj hget
            refine Or.inl ((hpass k r _).trans ?_)
            cases hm : list.get ks with
            | none => rfl
            | some m =>
                rcases h.values ks m hm with hnull | ⟨-, -, v, hv, hcomps⟩
                · exact hnull
                · -- a path that is continued by the new one is not in the list
                  have hmem : .str v ∈ valuesOf list :=
                    (mem_filed_iff h).2 ⟨m, hcomps ▸ hm, hv⟩
                  exact absurd ⟨k :: r, hcomps ▸ hr⟩ (hparted v hmem).not_isPrefix
      · rw [KeyTree.get_append, KeyTree.get_graft_self, Option.bind_some] at hget
        cases r with
        | nil =>
            obtain rfl := Option.some.inj hget
            exact Or.inr ⟨rfl, hks, p, rfl, (List.append_nil _).symm⟩
        | cons k r => cases hget

/-! ### Detaching a path -/

/-- Pruning leaves the values above, and those that part from the path. -/
theorem get_prune_filed (h : Filed list) (hp : .str p ∈ valuesOf list) (ks : List String) :
    ∀ n, (prune p list).get ks = some n → ∃ m, list.get ks = some m ∧ data m = data n ∧
      (m.children = [] → n.children = []) ∧ ks ≠ components p := by
  intro n hget
  obtain ⟨m, hm, hdata⟩ := (mem_filed_iff h).1 hp
  have hne : components p ≠ [] := by
    rcases h.values _ m hm with hnull | ⟨-, hne, -⟩
    · cases hdata.symm.trans hnull
    · exact hne
  rw [prune] at hget
  rcases KeyTree.parted_or_prefix ks (components p) with hpart | ⟨r, hr⟩ | ⟨r, rfl⟩
  · rw [KeyTree.get_prune_of_parted hpart] at hget
    exact ⟨n, hget, rfl, id, fun heq => hpart.not_isPrefix (heq ▸ List.prefix_refl _)⟩
  · cases r with
    | nil =>
        rw [List.append_nil] at hr
        rw [hr, KeyTree.get_prune_self h.keys hne] at hget
        cases hget
    | cons k r =>
        rw [← hr, KeyTree.get_prune_append (by simp)] at hget
        obtain ⟨m', hm', rfl⟩ := Option.map_eq_some_iff.1 hget
        refine ⟨m', hm', congrArg NodeData.data (KeyTree.label_prune _ m').symm, fun hnil => ?_, ?_⟩
        · have hchild : m'.child k = none := by rw [KeyTree.child, hnil]; rfl
          rw [KeyTree.prune_of_child_eq_none hchild, hnil]
        · intro heq
          rw [← hr] at heq
          simp at heq
  · rw [KeyTree.get_append, KeyTree.get_prune_self h.keys hne] at hget
    cases hget

/-- A list stays filed when one of its paths is detached. -/
theorem Filed.prune (h : Filed list) (hp : .str p ∈ valuesOf list) : Filed (prune p list) where
  keys := wellKeyed_prune h.keys
  values ks n hget := by
    obtain ⟨m, hm, hdata, hleaf, -⟩ := get_prune_filed h hp ks n hget
    rcases h.values ks m hm with hnull | ⟨hnil, hne, v, hv, hcomps⟩
    · exact Or.inl (hdata ▸ hnull)
    · exact Or.inr ⟨hleaf hnil, hne, v, hdata ▸ hv, hcomps⟩

/-- The paths of a list that one was detached from: the others. -/
theorem mem_prune (h : Filed list) (hp : .str p ∈ valuesOf list) :
    .str q ∈ valuesOf (InfoTree.prune p list) ↔ q ≠ p ∧ .str q ∈ valuesOf list := by
  rw [mem_filed_iff (h.prune hp), mem_filed_iff h]
  constructor
  · rintro ⟨n, hget, hdata⟩
    obtain ⟨m, hm, hsame, -, hne⟩ := get_prune_filed h hp _ n hget
    exact ⟨fun heq => hne (congrArg components heq), m, hm, hsame.trans hdata⟩
  · rintro ⟨hne, m, hm, hdata⟩
    have hpart := parted_of_mem h hp ((mem_filed_iff h).2 ⟨m, hm, hdata⟩) hne
    exact ⟨m, by rw [InfoTree.prune, KeyTree.get_prune_of_parted hpart, hm], hdata⟩

/-! ### The tree of the plugin -/

theorem components_connectionsPath (id : ℕ) :
    components (PJCall.connectionsPath id) = ["buddies", toString id, "connections"] := by
  have hid : Components.Plain '.' (toString id) := Components.plain_toString (by decide) id
  have hbuddies : components (".buddies" ++ "." ++ toString id) = ["buddies", toString id] := by
    rw [components, Components.components_append_sep _ rfl, Components.components_of_plain hid]
    have hfirst : Components.components '.' ".buddies" = ["buddies"] := by decide
    rw [hfirst]
    rfl
  have hpath : PJCall.connectionsPath id =
      ".buddies" ++ "." ++ toString id ++ "." ++ "connections" := by
    have h₁ : (".buddies." : String) = ".buddies" ++ "." := by decide
    have h₂ : (".connections" : String) = "." ++ "connections" := by decide
    rw [PJCall.connectionsPath, h₁, h₂, ← String.append_assoc]
  have hlast : Components.components '.' "connections" = ["connections"] := by decide
  rw [components] at hbuddies
  rw [hpath, components, Components.components_append_sep _ rfl, hbuddies, hlast]
  rfl

/-- The buddy of an identifier. -/
theorem pruned_connectionsPath (id : ℕ) (t : InfoTree) :
    pruned (PJCall.connectionsPath id) t =
      ((PJCall.buddies t).lookup (toString id)).bind fun b => b.child "connections" := by
  rw [pruned, getNode, components_connectionsPath, if_neg (by simp), KeyTree.get_cons,
    PJCall.buddies]
  cases t.child "buddies" with
  | none => rfl
  | some b =>
      rw [Option.bind_some, KeyTree.get_cons, KeyTree.child, Option.map_some, Option.getD_some]
      cases b.children.lookup (toString id) with
      | none => rfl
      | some c => rw [Option.bind_some, Option.bind_some, KeyTree.get_singleton]

/-- What is taken out two levels down and put back changes one child. -/
theorem children_regraft (k k' : String) (t leaf : InfoTree) : ∃ n,
    (KeyTree.graft emptyNode [k, k'] (KeyTree.prune [k, k'] t) leaf).children =
      KeyTree.setKey k n t.children ∧ n.child k' = some leaf := by
  refine ⟨KeyTree.graft emptyNode [k'] (((KeyTree.prune [k, k'] t).child k).getD make) leaf, ?_, ?_⟩
  · rw [KeyTree.graft, KeyTree.children_setChildren]
    cases hk : t.child k with
    | none =>
        rw [KeyTree.prune_of_child_eq_none hk]
        rfl
    | some c =>
        rw [KeyTree.prune_cons_of_child hk (by simp), KeyTree.children_setChildren,
          KeyTree.setKey_setKey]
        rfl
  · have h : (KeyTree.graft emptyNode [k'] (((KeyTree.prune [k, k'] t).child k).getD make)
        leaf).get [k'] = some leaf := KeyTree.get_graft_self _ _ _
    rwa [KeyTree.get_singleton] at h

/-- A list that is taken out and put back changes its buddy only. -/
theorem buddies_regraft (id : ℕ) (t list : InfoTree) : ∃ buddy,
    PJCall.buddies (graft (PJCall.connectionsPath id) list (prune (PJCall.connectionsPath id) t)) =
      KeyTree.setKey (toString id) buddy (PJCall.buddies t) ∧
      buddy.child "connections" = some list := by
  have hcomps := components_connectionsPath id
  have hpruned : ((KeyTree.prune ["buddies", toString id, "connections"] t).child "buddies").getD
      make = KeyTree.prune [toString id, "connections"] ((t.child "buddies").getD make) := by
    cases hb : t.child "buddies" with
    | none =>
        rw [KeyTree.prune_of_child_eq_none hb, hb]
        exact (KeyTree.prune_of_child_eq_none rfl).symm
    | some b =>
        rw [KeyTree.prune_cons_of_child hb (by simp), KeyTree.child_setKey_self]
        rfl
  have hbuddies : PJCall.buddies t = ((t.child "buddies").getD make).children := by
    rw [PJCall.buddies]
    cases t.child "buddies" <;> rfl
  obtain ⟨buddy, hchildren, hlist⟩ :=
    children_regraft (toString id) "connections" ((t.child "buddies").getD make) list
  refine ⟨buddy, ?_, hlist⟩
  rw [graft, hcomps, if_neg (by simp), prune, hcomps, PJCall.buddies, KeyTree.child_graft_self,
    Option.map_some, Option.getD_some, hbuddies, ← hchildren, ← hpruned]
  rfl

/-! ### The counts -/

/-- The list of a buddy. -/
theorem connections_eq {buddy : InfoTree} (h : buddy.child "connections" = some list) :
    PJCall.connections buddy = valuesOf list := by
  rw [PJCall.connections, copyLeafValues, branch_of_plain (by decide), h]
  rfl

theorem connections_eq_nil {buddy : InfoTree} (h : buddy.child "connections" = none) :
    PJCall.connections buddy = [] := by
  rw [PJCall.connections, copyLeafValues, branch_of_plain (by decide), h]

variable {s s' : PJCall}

/-- The list of a contact, if there is one. -/
theorem connectionsOf_eq (s : PJCall) (id : ℕ) :
    s.connectionsOf id = valuesOf ((pruned (PJCall.connectionsPath id) s.tree).getD make) := by
  rw [PJCall.connectionsOf, pruned_connectionsPath]
  cases (PJCall.buddies s.tree).lookup (toString id) with
  | none => rfl
  | some b =>
      rw [Option.map_some, Option.getD_some, Option.bind_some]
      cases hb : b.child "connections" with
      | none => exact connections_eq_nil hb
      | some list => exact connections_eq hb

/-- How the number of contacts of a path changes with one list. -/
theorem contacts_regraft (hs : s'.tree = graft (PJCall.connectionsPath id) list
    (prune (PJCall.connectionsPath id) s.tree)) (q : String) :
    s'.contacts q + (decide (.str q ∈ s.connectionsOf id)).toNat =
      s.contacts q + (decide (.str q ∈ valuesOf list)).toNat := by
  obtain ⟨buddy, hbuddies, hlist⟩ := buddies_regraft id s.tree list
  have hcount := KeyTree.countP_setKey (fun b => decide (.str q ∈ PJCall.connections b))
    (toString id) buddy (PJCall.buddies s.tree)
  rw [← hbuddies, ← hs, connections_eq hlist] at hcount
  have hold : (((PJCall.buddies s.tree).lookup (toString id)).map
      fun b => decide (.str q ∈ PJCall.connections b)).getD false =
        decide (.str q ∈ s.connectionsOf id) := by
    rw [PJCall.connectionsOf]
    cases (PJCall.buddies s.tree).lookup (toString id) with
    | none => rfl
    | some b => rfl
  rw [hold] at hcount
  exact hcount

/-- The count of a path. -/
def refCount (s : PJCall) (p : String) : ℕ := s.readerRefCount[p]?.getD 0

/-- There is a reader for each path that is counted. -/
def Shared (s : PJCall) : Prop := ∀ p, p ∈ s.readers ↔ 0 < refCount s p

theorem refCount_addReader (h : Shared s) (p q : String) :
    refCount (s.addReader p) q = refCount s q + (decide (q = p)).toNat := by
  unfold PJCall.addReader refCount
  by_cases hp : p ∈ s.readers
  · rw [if_pos hp, NameMap.getElem?_insert]
    by_cases hq : q = p
    · subst hq
      simp
    · simp [hq]
  · have hzero : s.readerRefCount[p]?.getD 0 = 0 := by
      have hnot := (h p).not.1 hp
      rw [refCount] at hnot
      omega
    rw [if_neg hp, NameMap.getElem?_insert]
    by_cases hq : q = p
    · subst hq
      simp [hzero]
    · simp [hq]

theorem Shared.addReader (h : Shared s) (p : String) : Shared (s.addReader p) := by
  intro q
  rw [refCount_addReader h]
  have hmem : q ∈ (s.addReader p).readers ↔ q = p ∨ q ∈ s.readers := by
    unfold PJCall.addReader
    split_ifs with hp
    · exact ⟨Or.inr, fun hq => hq.elim (fun heq => heq ▸ hp) id⟩
    · exact NameMap.mem_insert
  rw [hmem, h q]
  by_cases hq : q = p <;> simp [hq]

theorem refCount_removeReader (h : Shared s) (hp : p ∈ s.readers) (q : String) :
    refCount (s.removeReader p) q + (decide (q = p)).toNat = refCount s q := by
  have hpos := (h p).1 hp
  unfold PJCall.removeReader refCount
  unfold refCount at hpos
  dsimp only
  split_ifs with hzero
  · rw [NameMap.getElem?_erase]
    by_cases hq : q = p
    · subst hq
      simp
      omega
    · simp [hq]
  · rw [NameMap.getElem?_insert]
    by_cases hq : q = p
    · subst hq
      simp
      omega
    · simp [hq]

theorem Shared.removeReader (h : Shared s) (hp : p ∈ s.readers) : Shared (s.removeReader p) := by
  intro q
  have hcount := refCount_removeReader h hp q
  have hmem : q ∈ (s.removeReader p).readers ↔
      q ∈ s.readers ∧ (q = p → refCount s p ≠ 1) := by
    have hpos := (h p).1 hp
    unfold PJCall.removeReader
    dsimp only
    unfold refCount at hpos ⊢
    split_ifs with hzero
    · rw [NameMap.mem_erase]
      constructor
      · rintro ⟨hne, hq⟩
        exact ⟨hq, fun heq => absurd heq hne⟩
      · rintro ⟨hq, hne⟩
        exact ⟨fun heq => hne heq (by omega), hq⟩
    · exact ⟨fun hq => ⟨hq, fun _ => by omega⟩, And.left⟩
  rw [hmem, h q]
  by_cases hq : q = p
  · subst hq
    simp only [decide_true, Bool.toNat_true] at hcount
    constructor
    · rintro ⟨hpos, hne⟩
      have := hne rfl
      omega
    · intro hpos
      exact ⟨by omega, fun _ => by omega⟩
  · simp only [hq, decide_false, Bool.toNat_false, Nat.add_zero] at hcount
    rw [hcount]
    exact and_iff_left fun heq => absurd heq hq

/-! ### The requests -/

/-- What matching requests keep. -/
structure Inv (s : PJCall) : Prop where
  keys : s.tree.WellKeyed
  lists : ∀ e ∈ PJCall.buddies s.tree, ∀ list, e.2.child "connections" = some list → Filed list
  shared : Shared s
  count : ∀ p, refCount s p = s.contacts p

theorem Inv.counted (h : Inv s) : s.Counted where
  count := h.count
  reader p := by rw [h.shared p, h.count p]
  once e he p := by
    cases hlist : e.2.child "connections" with
    | none => rw [connections_eq_nil hlist]; exact Nat.zero_le _
    | some list =>
        rw [connections_eq hlist]
        exact count_filed_le_one (h.lists e he list hlist) p

/-- The list of a contact is filed. -/
theorem Inv.filed (h : Inv s) (id : ℕ) :
    Filed ((pruned (PJCall.connectionsPath id) s.tree).getD make) := by
  rw [pruned_connectionsPath]
  cases hb : (PJCall.buddies s.tree).lookup (toString id) with
  | none => exact filed_make
  | some b =>
      rw [Option.bind_some]
      cases hlist : b.child "connections" with
      | none => exact filed_make
      | some list => exact h.lists _ (KeyTree.mem_of_lookup hb) list hlist

/-- A list that is put back keeps the trees well. -/
theorem Inv.of_regraft (h : Inv s) (hlist : Filed list)
    (hs : s'.tree = graft (PJCall.connectionsPath id) list
      (prune (PJCall.connectionsPath id) s.tree))
    (hshared : Shared s') (hcount : ∀ p, refCount s' p = s'.contacts p) : Inv s' where
  keys := by
    rw [hs]
    exact wellKeyed_graft (wellKeyed_prune h.keys) hlist.keys
  lists := by
    obtain ⟨buddy, hbuddies, hbuddy⟩ := buddies_regraft id s.tree list
    rw [hs, hbuddies]
    intro e he list' hlist'
    rcases KeyTree.mem_setKey he with rfl | he
    · rw [hbuddy] at hlist'
      exact Option.some.inj hlist' ▸ hlist
    · exact h.lists e he list' hlist'
  shared := hshared
  count := hcount

/-- The state after a path was attached to a contact. -/
def attached (id : ℕ) (p : String) (s : PJCall) : PJCall :=
  { s.addReader p with
    tree := graft (PJCall.connectionsPath id)
      (PJCall.attachPath p ((pruned (PJCall.connectionsPath id) s.tree).getD make))
      (prune (PJCall.connectionsPath id) s.tree) }

/-- The state after a path was detached from a contact with a list. -/
def detached (id : ℕ) (p : String) (list : InfoTree) (s : PJCall) : PJCall :=
  { s.removeReader p with
    tree := graft (PJCall.connectionsPath id) (prune p list)
      (prune (PJCall.connectionsPath id) s.tree) }

theorem tree_attached (id : ℕ) (p : String) (s : PJCall) : (attached id p s).tree =
    graft (PJCall.connectionsPath id)
      (PJCall.attachPath p ((pruned (PJCall.connectionsPath id) s.tree).getD make))
      (prune (PJCall.connectionsPath id) s.tree) := by
  unfold attached
  rfl

theorem refCount_attached (h : Shared s) (id : ℕ) (p q : String) :
    refCount (attached id p s) q = refCount s q + (decide (q = p)).toNat := by
  rw [← refCount_addReader h]
  unfold refCount attached
  rfl

theorem Shared.attached (h : Shared s) (id : ℕ) (p : String) : Shared (attached id p s) := by
  intro q
  rw [refCount_attached h, ← refCount_addReader h]
  unfold Pjsip.attached
  exact h.addReader p q

theorem tree_detached (id : ℕ) (p : String) (list : InfoTree) (s : PJCall) :
    (detached id p list s).tree = graft (PJCall.connectionsPath id) (prune p list)
      (prune (PJCall.connectionsPath id) s.tree) := by
  unfold detached
  rfl

theorem refCount_detached (h : Shared s) (hp : p ∈ s.readers) (id : ℕ) (list : InfoTree)
    (q : String) : refCount (detached id p list s) q + (decide (q = p)).toNat = refCount s q := by
  rw [← refCount_removeReader h hp]
  unfold refCount detached
  rfl

theorem Shared.detached (h : Shared s) (hp : p ∈ s.readers) (id : ℕ) (list : InfoTree) :
    Shared (detached id p list s) := by
  intro q
  have hkeep := h.removeReader hp q
  unfold Pjsip.detached
  unfold refCount at hkeep ⊢
  exact hkeep

theorem toNat_decide_inj {a b : Prop} [Decidable a] [Decidable b]
    (h : (decide a).toNat = (decide b).toNat) : a ↔ b := by
  by_cases ha : a <;> by_cases hb : b <;> simp [ha, hb] at h ⊢

/-- Attaching keeps the counts exactly when the path is beside the others of the contact. -/
theorem Inv.attached_iff (h : Inv s) (id : ℕ) (p : String) :
    (components p ≠ [] ∧ ∀ q, .str q ∈ s.connectionsOf id →
      KeyTree.Parted (components q) (components p)) ↔
      ∀ q, refCount (attached id p s) q = (attached id p s).contacts q := by
  have hfiled := h.filed id
  rw [connectionsOf_eq]
  have hcontacts : ∀ q, (attached id p s).contacts q + (decide (.str q ∈ valuesOf
      ((pruned (PJCall.connectionsPath id) s.tree).getD make))).toNat =
        s.contacts q + (decide (.str q ∈ valuesOf (PJCall.attachPath p
          ((pruned (PJCall.connectionsPath id) s.tree).getD make)))).toNat := fun q => by
    rw [← connectionsOf_eq]
    exact contacts_regraft (tree_attached id p s) q
  have hrefs : ∀ q, refCount (attached id p s) q = s.contacts q + (decide (q = p)).toNat :=
    fun q => by rw [refCount_attached h.shared, h.count q]
  generalize (pruned (PJCall.connectionsPath id) s.tree).getD make = list at hfiled hcontacts ⊢
  constructor
  · rintro ⟨hp, hparted⟩ q
    have hnew : (decide (.str q ∈ valuesOf (PJCall.attachPath p list))).toNat =
        (decide (q = p)).toNat + (decide (.str q ∈ valuesOf list)).toNat := by
      have hmem := mem_attachPath hfiled hp (q := q)
      by_cases hq : q = p
      · subst hq
        have hnot : .str q ∉ valuesOf list := fun hold =>
          (hparted q hold).not_isPrefix (List.prefix_refl _)
        simp [hmem, hnot]
      · by_cases hold : .str q ∈ valuesOf list
        · simp [hmem, hq, hold, hparted q hold]
        · simp [hmem, hq, hold]
    have hq := hcontacts q
    rw [hnew] at hq
    rw [hrefs q]
    omega
  · intro hcount
    have hnew : ∀ q, (decide (q = p)).toNat + (decide (.str q ∈ valuesOf list)).toNat =
        (decide (.str q ∈ valuesOf (PJCall.attachPath p list))).toNat := fun q => by
      have hq := hcontacts q
      rw [← hcount q, hrefs q] at hq
      omega
    -- the count of the path has gone up, so that it is new in the list
    have hself := hnew p
    have hp : components p ≠ [] := by
      intro hnil
      rw [valuesOf_attachPath_of_nil hnil] at hself
      simp at hself
    refine ⟨hp, fun q hold => ?_⟩
    have hq := hnew q
    by_cases heq : q = p
    · subst heq
      rw [decide_eq_true hold] at hq
      cases hb : decide (.str q ∈ valuesOf (PJCall.attachPath q list)) <;> simp [hb] at hq
    · rw [decide_eq_false heq, Bool.toNat_false, Nat.zero_add] at hq
      have hstill := (toNat_decide_inj hq).1 hold
      exact (((mem_attachPath hfiled hp).1 hstill).resolve_left heq).2

/-- Detaching a path that has a reader keeps the counts exactly when the path is in the list. -/
theorem Inv.detached_iff (h : Inv s) {id : ℕ} (hp : p ∈ s.readers) {list : InfoTree}
    (hlist : pruned (PJCall.connectionsPath id) s.tree = some list) :
    .str p ∈ s.connectionsOf id ↔
      ∀ q, refCount (detached id p list s) q = (detached id p list s).contacts q := by
  have hfiled := h.filed id
  rw [hlist, Option.getD_some] at hfiled
  have hof : s.connectionsOf id = valuesOf list := by rw [connectionsOf_eq, hlist, Option.getD_some]
  have hcontacts : ∀ q, (detached id p list s).contacts q +
      (decide (.str q ∈ valuesOf list)).toNat =
        s.contacts q + (decide (.str q ∈ valuesOf (prune p list))).toNat := fun q => by
    rw [← hof]
    exact contacts_regraft (tree_detached id p list s) q
  have hrefs : ∀ q, refCount (detached id p list s) q + (decide (q = p)).toNat = s.contacts q :=
    fun q => by rw [refCount_detached h.shared hp, h.count q]
  rw [hof]
  constructor
  · intro hold q
    have hnew : (decide (.str q ∈ valuesOf (prune p list))).toNat + (decide (q = p)).toNat =
        (decide (.str q ∈ valuesOf list)).toNat := by
      have hmem := mem_prune hfiled hold (q := q)
      by_cases hq : q = p
      · subst hq
        simp [hmem, hold]
      · simp [hmem, hq]
    have hq := hcontacts q
    have hq' := hrefs q
    omega
  · intro hcount
    have hself := hcontacts p
    have hself' := hrefs p
    rw [← hcount p] at hself
    by_contra hold
    rw [decide_eq_false hold] at hself
    simp at hself hself'
    omega

variable {r : Request}

/-- What a request does: nothing, or one of the two, or it is undefined. -/
theorem makeAttach_eq (r : Request) (hid : acc.buddyOf r.contactUri = some id) :
    s.makeAttachShmdataToContact acc r =
      if r.attach then some (attached id r.shmpath s)
      else if r.shmpath ∉ s.readers then some s
      else (pruned (PJCall.connectionsPath id) s.tree).map fun list =>
        detached id r.shmpath list s := by
  rw [PJCall.makeAttachShmdataToContact, hid]
  rfl

/-- A matching request is defined and keeps the counts. -/
theorem Inv.step_of_matches (h : Inv s) (hok : s.Matches acc r) :
    ∃ q, s.step acc r = some q ∧ Inv q.1 := by
  rw [PJCall.step]
  cases hid : acc.buddyOf r.contactUri with
  | none => exact ⟨(s, ()), by rw [PJCall.makeAttachShmdataToContact, hid]; rfl, h⟩
  | some id =>
      have hmatch := hok id hid
      rw [makeAttach_eq r hid]
      by_cases hattach : r.attach = true
      · rw [if_pos hattach] at hmatch ⊢
        refine ⟨(attached id r.shmpath s, ()), rfl, h.of_regraft ?_ (tree_attached id r.shmpath s)
          (h.shared.attached id r.shmpath) ((h.attached_iff id r.shmpath).1 hmatch)⟩
        exact (h.filed id).attachPath hmatch.1 (connectionsOf_eq s id ▸ hmatch.2)
      · rw [if_neg hattach] at hmatch ⊢
        by_cases hreader : r.shmpath ∈ s.readers
        · have hold := hmatch hreader
          rw [if_neg (not_not.2 hreader)]
          cases hlist : pruned (PJCall.connectionsPath id) s.tree with
          | none =>
              rw [connectionsOf_eq, hlist] at hold
              cases hold
          | some list =>
              have hfiled := h.filed id
              have hmem := hold
              rw [connectionsOf_eq] at hmem
              rw [hlist, Option.getD_some] at hfiled hmem
              exact ⟨(detached id r.shmpath list s, ()), rfl, h.of_regraft (hfiled.prune hmem)
                (tree_detached id r.shmpath list s) (h.shared.detached hreader id list)
                ((h.detached_iff hreader hlist).1 hold)⟩
        · rw [if_pos hreader]
          exact ⟨(s, ()), rfl, h⟩

/-- A request after which the counts are exact matches. -/
theorem Inv.matches_of_counted {q : PJCall × Unit} (h : Inv s) (hstep : s.step acc r = some q)
    (hq : q.1.Counted) : s.Matches acc r := by
  intro id hid
  obtain ⟨s', hs', rfl⟩ := Option.map_eq_some_iff.1 hstep
  rw [makeAttach_eq r hid] at hs'
  split_ifs at hs' ⊢ with hattach hreader
  · obtain rfl := Option.some.inj hs'
    exact (h.attached_iff id r.shmpath).2 hq.count
  · intro _
    obtain ⟨list, hlist, rfl⟩ := Option.map_eq_some_iff.1 hs'
    exact (h.detached_iff hreader hlist).2 hq.count
  · exact fun hmem => absurd hmem hreader

/-- Nothing is attached at the start. -/
theorem inv_of_fresh (h : s.Fresh) : Inv s := by
  have hcount : ∀ p, refCount s p = 0 := fun p => by
    rw [refCount, Std.ExtTreeMap.getElem?_eq_none (h.counts p), Option.getD_none]
  refine ⟨h.keys, fun e he list hlist => ?_, fun p => ?_, fun p => ?_⟩
  · rw [h.lists e he] at hlist
    cases hlist
  · rw [hcount p]
    exact iff_of_false (h.readers p) (Nat.lt_irrefl 0)
  · rw [hcount p, PJCall.contacts, eq_comm, List.countP_eq_zero]
    intro e he
    rw [connections_eq_nil (h.lists e he)]
    simp

/-- Two buddies without a list. -/
def twoBuddies : PJCall where
  readers := ∅
  readerRefCount := ∅
  tree := graft ".buddies.1" make (graft ".buddies.0" make make)

/-- The contacts of `twoBuddies`. -/
def annAndBob : Accounts where
  sipLocalUser := "sip:me:5060"
  buddyFind uri := if uri = "sip:ann" then some 0 else if uri = "sip:bob" then some 1 else none

theorem fresh_twoBuddies : twoBuddies.Fresh where
  keys := by
    have hmake : make.WellKeyed := wellKeyed_makeValue _
    change (graft ".buddies.1" make (graft ".buddies.0" make make)).WellKeyed
    exact wellKeyed_graft (wellKeyed_graft hmake hmake) hmake
  lists := by decide +kernel
  readers _ := Std.ExtTreeMap.not_mem_empty
  counts _ := Std.ExtTreeMap.not_mem_empty

theorem buddyOf_ann : annAndBob.buddyOf "ann" = some 0 := by decide +kernel

theorem buddyOf_bob : annAndBob.buddyOf "bob" = some 1 := by decide +kernel

theorem step_attach {s : PJCall} {id : ℕ} {uri : String} (p : String)
    (hid : annAndBob.buddyOf uri = some id) :
    s.step annAndBob ⟨p, uri, true⟩ = some (attached id p s, ()) := by
  rw [PJCall.step, makeAttach_eq ⟨p, uri, true⟩ hid]
  rfl

/-- **Readers are counted exactly throughout a run** exactly when every request matches the list of
its contact. -/
theorem counted_iff (h : s.Fresh) (rs : List Request) :
    Machine.Keeps (PJCall.step acc) PJCall.Counted s rs ↔
      Machine.Admits (PJCall.step acc) (PJCall.Matches acc) s rs :=
  Machine.keeps_iff_admits (I := Inv) (fun _ hs => hs.counted)
    (fun _ _ hs hok => hs.step_of_matches hok)
    (fun _ _ _ hs hstep hq => hs.matches_of_counted hstep hq) (inv_of_fresh h) rs

/-- The condition is met by two contacts that share a path, until one of them leaves it. -/
theorem counted_annAndBob : Machine.Keeps (PJCall.step annAndBob) PJCall.Counted twoBuddies
    [⟨"/tmp/a", "ann", true⟩, ⟨"/tmp/a", "bob", true⟩, ⟨"/tmp/a", "ann", false⟩] := by
  refine (counted_iff fresh_twoBuddies _).2
    ⟨?_, fun r₁ h₁ => ⟨?_, fun r₂ h₂ => ⟨?_, fun _ _ => trivial⟩⟩⟩
  · intro id hid
    obtain rfl := Option.some.inj (buddyOf_ann.symm.trans hid)
    rw [if_pos rfl]
    have hnil : twoBuddies.connectionsOf 0 = [] := by decide +kernel
    rw [hnil]
    exact ⟨by decide +kernel, fun _ hmem => nomatch hmem⟩
  · intro id hid
    obtain rfl := Option.some.inj (buddyOf_bob.symm.trans hid)
    obtain rfl := Option.some.inj ((step_attach "/tmp/a" buddyOf_ann).symm.trans h₁)
    rw [if_pos rfl]
    have hnil : (attached 0 "/tmp/a" twoBuddies).connectionsOf 1 = [] := by decide +kernel
    rw [hnil]
    exact ⟨by decide +kernel, fun _ hmem => nomatch hmem⟩
  · intro id hid
    obtain rfl := Option.some.inj (buddyOf_ann.symm.trans hid)
    obtain rfl := Option.some.inj ((step_attach "/tmp/a" buddyOf_ann).symm.trans h₁)
    obtain rfl := Option.some.inj ((step_attach "/tmp/a" buddyOf_bob).symm.trans h₂)
    rw [if_neg Bool.false_ne_true]
    intro _
    decide +kernel

/-- A contact to which a path is attached twice is counted twice. -/
theorem not_counted_annTwice : ¬Machine.Keeps (PJCall.step annAndBob) PJCall.Counted twoBuddies
    [⟨"/tmp/a", "ann", true⟩, ⟨"/tmp/a", "ann", true⟩] := by
  rintro ⟨-, r₁, h₁, -, r₂, h₂, hcounted⟩
  obtain rfl := Option.some.inj ((step_attach "/tmp/a" buddyOf_ann).symm.trans h₁)
  obtain rfl := Option.some.inj ((step_attach "/tmp/a" buddyOf_ann).symm.trans h₂)
  have hcount := hcounted.count "/tmp/a"
  have hshared := (inv_of_fresh fresh_twoBuddies).shared
  have hcontacts :
      (attached 0 "/tmp/a" (attached 0 "/tmp/a" twoBuddies)).contacts "/tmp/a" = 1 := by
    decide +kernel
  have htwice : refCount (attached 0 "/tmp/a" (attached 0 "/tmp/a" twoBuddies)) "/tmp/a" = 2 := by
    rw [refCount_attached (hshared.attached 0 "/tmp/a"), refCount_attached hshared]
    rfl
  rw [hcontacts] at hcount
  exact absurd (htwice.symm.trans hcount) (by decide)

end Pjsip
end LibSwitcher
