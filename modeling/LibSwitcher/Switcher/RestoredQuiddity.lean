/-
# What loading makes of a saved quiddity

When the nicknames have one key each and no two the same, the quiddity that is created
with the key of a saved one is of its kind, has loaded its custom state and takes its
nickname.  If this is the key itself, the rest of the state finds it: its properties take
the saved values, and its user data the saved children.  If the nickname has dots besides
its key, the rest of the state finds no quiddity.  A saved reader without writer is
looked for at a place where nothing is saved (`OneKey.get_reader`), so that `connect` is
called with the text of a missing value.
-/

import LibSwitcher.Switcher.LoadedState

namespace LibSwitcher

open InfoTree

namespace Switcher

/-- Set a property, in a tree. -/
def setTree (f : Factory) (kind prop text : String) (t : InfoTree) : InfoTree :=
  if prop ∈ getChildKeys "property" t then
    match f.setStr kind prop text with
    | none => t
    | some v => vgraft ("property." ++ prop ++ ".value") v t
  else t

/-- Another tree. -/
def withTree (t : InfoTree) (q : Quiddity Body) : Quiddity Body :=
  { q with body := { q.body with tree := t } }

/-- Other user data. -/
def withUserData (t : InfoTree) (q : Quiddity Body) : Quiddity Body :=
  { q with body := { q.body with userData := t } }

/-- Further calls. -/
def withCalls (calls : List Call) (q : Quiddity Body) : Quiddity Body :=
  { q with body := { q.body with calls := q.body.calls ++ calls } }

/-- The value of a property, in a tree. -/
def valueIn (prop : String) (t : InfoTree) : Any :=
  branchGetValue ("property." ++ prop ++ ".value") t

variable {f : Factory} {q : Quiddity Body} {k kind prop text : String} {t : InfoTree} {v : Any}

/-! ### Properties -/

theorem setStr_eq (f : Factory) (prop text : String) (q : Quiddity Body) :
    setStr f prop text q = withTree (setTree f q.kind prop text q.body.tree) q := by
  rw [setStr, setTree, Body.properties]
  split_ifs
  · cases f.setStr q.kind prop text <;> rfl
  · rfl

theorem foldl_setStr {α : Type} (f : Factory) (prop text : α → String) (l : List α)
    (q : Quiddity Body) : l.foldl (fun q x => setStr f (prop x) (text x) q) q =
      withTree (l.foldl (fun t x => setTree f q.kind (prop x) (text x) t) q.body.tree) q := by
  induction l generalizing q with
  | nil => rfl
  | cons x l ih =>
      rw [List.foldl_cons, ih, setStr_eq]
      rfl

/-- The keys of the path of a value. -/
theorem components_value (hprop : Components.Plain '.' prop) :
    components ("property." ++ prop ++ ".value") = ["property", prop, "value"] := by
  have hkeys : components (("property" ++ "." ++ prop) ++ "." ++ "value") = _ :=
    Components.components_append_sep ("property" ++ "." ++ prop) rfl "value"
  rw [Components.components_append_sep "property" rfl, Components.components_of_plain hprop,
    Components.components_of_plain (s := "property") (by decide),
    Components.components_of_plain (s := "value") (by decide)] at hkeys
  exact (congrArg components (by simp only [String.append_assoc]; rfl)).trans hkeys

theorem valueIn_eq (hprop : Components.Plain '.' prop) (t : InfoTree) :
    valueIn prop t = valueAt ["property", prop, "value"] t := by
  rw [valueIn, branchGetValue_eq_valueAt (by rw [components_value hprop]; simp),
    components_value hprop]

/-- A property is listed if there is a node for it. -/
theorem mem_properties_iff :
    prop ∈ getChildKeys "property" t ↔ (t.get ["property", prop]).isSome := by
  rw [getChildKeys, branch_of_plain (by decide), KeyTree.get_cons]
  cases hchild : t.child "property" with
  | none => simp
  | some n =>
      rw [Option.bind_some, KeyTree.get_singleton, Option.map_some, Option.getD_some,
        Option.isSome_iff_ne_none, Ne, KeyTree.child_eq_none_iff, not_not]

/-- A property that is set has the value. -/
theorem valueIn_setTree_self (hprop : Components.Plain '.' prop)
    (hmem : prop ∈ getChildKeys "property" t) (hset : f.setStr kind prop text = some v) :
    valueIn prop (setTree f kind prop text t) = v := by
  rw [setTree, if_pos hmem, hset, valueIn_eq hprop, valueAt]
  dsimp only
  rw [vgraft, graft, components_value hprop, if_neg (by simp), KeyTree.get_graft_self]
  rfl

/-- Setting a property leaves the others. -/
theorem get_setTree_of_parted {p : List String} (hprop : Components.Plain '.' prop)
    (h : KeyTree.Parted p ["property", prop, "value"]) (kind text : String) (t : InfoTree) :
    (setTree f kind prop text t).get p = t.get p := by
  rw [setTree]
  split_ifs
  · cases f.setStr kind prop text with
    | none => rfl
    | some v =>
        dsimp only
        rw [vgraft, graft, components_value hprop, if_neg (by simp), KeyTree.get_graft_of_parted h]
  · rfl

theorem valueIn_setTree_ne {prop' : String} (hprop : Components.Plain '.' prop)
    (hprop' : Components.Plain '.' prop') (hne : prop' ≠ prop) (kind text : String) (t : InfoTree) :
    valueIn prop' (setTree f kind prop text t) = valueIn prop' t := by
  have hparted : KeyTree.Parted ["property", prop', "value"] ["property", prop, "value"] :=
    Or.inr (Or.inl hne)
  rw [valueIn_eq hprop', valueIn_eq hprop', valueAt, valueAt, get_setTree_of_parted hprop hparted]

/-- Setting a property keeps the properties. -/
theorem mem_properties_setTree {prop' : String} (hprop : Components.Plain '.' prop)
    (h : prop' ∈ getChildKeys "property" t) (kind text : String) :
    prop' ∈ getChildKeys "property" (setTree f kind prop text t) := by
  by_cases hne : prop' = prop
  · subst hne
    rw [setTree, if_pos h]
    cases f.setStr kind prop' text with
    | none => exact h
    | some v =>
        rw [mem_properties_iff]
        dsimp only
        rw [vgraft, graft, components_value hprop, if_neg (by simp)]
        change ((KeyTree.graft emptyNode (["property", prop'] ++ ["value"]) t (makeValue v)).get
          ["property", prop']).isSome = true
        rw [KeyTree.get_graft_append]
        rfl
  · have hparted : KeyTree.Parted ["property", prop'] ["property", prop, "value"] :=
      Or.inr (Or.inl hne)
    rw [mem_properties_iff, get_setTree_of_parted hprop hparted]
    exact mem_properties_iff.1 h

/-- The values after properties have been set, each to the value that its text stands for. -/
theorem valueIn_foldl {value : String → Any} {text : String → String} (props : List String)
    (hprops : ∀ prop ∈ props, Components.Plain '.' prop ∧ prop ∈ getChildKeys "property" t ∧
      f.setStr kind prop (text prop) = some (value prop)) (hprop : Components.Plain '.' prop) :
    valueIn prop (props.foldl (fun t prop => setTree f kind prop (text prop) t) t) =
      if prop ∈ props then value prop else valueIn prop t := by
  induction props generalizing t with
  | nil => rfl
  | cons prop' props ih =>
      obtain ⟨hplain, hmem, hset⟩ := hprops prop' List.mem_cons_self
      have hrest : ∀ prop ∈ props, Components.Plain '.' prop ∧
          prop ∈ getChildKeys "property" (setTree f kind prop' (text prop') t) ∧
          f.setStr kind prop (text prop) = some (value prop) := fun prop hmem =>
        have h := hprops prop (List.mem_cons_of_mem _ hmem)
        ⟨h.1, mem_properties_setTree hplain h.2.1 kind _, h.2.2⟩
      rw [List.foldl_cons, ih hrest]
      by_cases hin : prop ∈ props
      · rw [if_pos hin, if_pos (List.mem_cons_of_mem _ hin)]
      · rw [if_neg hin]
        by_cases heq : prop = prop'
        · subst heq
          rw [if_pos List.mem_cons_self, valueIn_setTree_self hplain hmem hset]
        · rw [if_neg (by simp [heq, hin]), valueIn_setTree_ne hplain hprop heq]

/-! ### User data and calls -/

theorem foldl_graftUserData {α : Type} (key : α → String) (tree : α → InfoTree) (l : List α)
    (q : Quiddity Body) : l.foldl (fun q x => graftUserData (key x) (tree x) q) q =
      withUserData (l.foldl (fun t x => graft (key x) (tree x) t) q.body.userData) q := by
  induction l generalizing q with
  | nil => rfl
  | cons x l ih =>
      rw [List.foldl_cons, ih]
      rfl

theorem foldl_invoke {α : Type} (f : Factory) (meth : String) (call : α → Call) (l : List α)
    (q : Quiddity Body) : l.foldl (fun q x => invoke f meth (call x) q) q =
      withCalls (if meth ∈ f.methods q.kind then l.map call else []) q := by
  induction l generalizing q with
  | nil =>
      rw [List.foldl_nil, List.map_nil, ite_self, withCalls, List.append_nil]
  | cons x l ih =>
      rw [List.foldl_cons, ih, invoke]
      by_cases hmeth : meth ∈ f.methods q.kind
      · rw [if_pos hmeth, if_pos hmeth, if_pos hmeth]
        simp [withCalls]
      · rw [if_neg hmeth, if_neg hmeth, if_neg hmeth]

/-- New children, grafted one after the other. -/
theorem foldl_graft (d : NodeData) (cs l : List (String × InfoTree))
    (hplain : ∀ e ∈ l, Components.Plain '.' e.1) (hnodup : ((cs ++ l).map Prod.fst).Nodup) :
    l.foldl (fun u e => graft e.1 e.2 u) (.node d cs) = .node d (cs ++ l) := by
  induction l generalizing cs with
  | nil => rw [List.foldl_nil, List.append_nil]
  | cons e l ih =>
      have hnew : e.1 ∉ cs.map Prod.fst := by
        rw [List.map_append, List.map_cons] at hnodup
        intro hmem
        exact (List.nodup_append.1 hnodup).2.2 _ hmem _ List.mem_cons_self rfl
      have hgraft : graft e.1 e.2 (.node d cs) = .node d (cs ++ [e]) :=
        graft_new (hplain e List.mem_cons_self) hnew
      rw [List.append_cons] at hnodup ⊢
      rw [List.foldl_cons, hgraft,
        ih _ (fun e' he' => hplain e' (List.mem_cons_of_mem _ he')) hnodup]

/-- The children of a node, grafted into a new one. -/
theorem foldl_graft_children (ht : t.WellKeyed) :
    (t.children.map Prod.fst).foldl (fun u kit => graft kit (getTree kit t) u) InfoTree.make =
      .node emptyNode t.children := by
  have htree : ∀ e ∈ t.children, getTree e.1 t = e.2 := fun e he => by
    have hchild : t.child e.1 = some e.2 := KeyTree.lookup_of_mem ht.nodup he
    rw [getTree, branch_of_plain (ht.keys e he), hchild, Option.getD_some]
  rw [List.foldl_map, List.foldl_ext _ _ _ fun u e he => by rw [htree e he]]
  exact foldl_graft emptyNode [] t.children ht.keys ht.nodup

/-! ### The sections, as they are read -/

/-- The keys listed at a path. -/
theorem getChildKeys_eq {path : String} (h : components path ≠ []) (t : InfoTree) :
    getChildKeys path t =
      ((t.get (components path)).map fun n => n.children.map Prod.fst).getD [] := by
  rw [getChildKeys, branch_eq_get h]

/-- The keys of a path below a key. -/
theorem components_below (part : String) (hk : Components.Plain '.' k)
    (hpart : Components.Plain '.' part) (s : String) :
    components (k ++ "." ++ part ++ "." ++ s) = k :: part :: components s := by
  rw [components, Components.components_append_sep _ rfl, Components.components_append_sep _ rfl,
    Components.components_of_plain hk, Components.components_of_plain hpart]
  rfl

variable {qs : List (Quiddity Body)}

theorem plain_of_nickKeys (hk : nickKeys q = [k]) : Components.Plain '.' k :=
  plain_of_mem_components (show k ∈ nickKeys q by rw [hk]; exact List.mem_singleton_self k)

/-- The properties of a quiddity that are listed. -/
theorem OneKey.savedProperties_eq (h : OneKey qs) (hq : q ∈ qs) (hk : nickKeys q = [k])
    (hnodup : (savedProperties q).Nodup) :
    getChildKeys k (getTree ".properties" (stateOf f qs)) = savedProperties q := by
  have hplain := plain_of_nickKeys hk
  have hsec : components ".properties" = ["properties"] :=
    components_dot (k := "properties") (by decide)
  have hcomps := components_of_plain hplain
  rw [getChildKeys_eq (by rw [hcomps]; simp), hcomps, get_getTree hsec _ (by simp),
    h.get_properties hq hk hnodup]
  split_ifs with hnil
  · exact hnil.symm
  · rw [Option.map_some, Option.getD_some, KeyTree.children_node, map_fst_propertyLeaves]

/-- Their values. -/
theorem OneKey.savedValue_eq (h : OneKey qs) (hq : q ∈ qs) (hk : nickKeys q = [k])
    (hnodup : (savedProperties q).Nodup) (hprop : prop ∈ savedProperties q)
    (hplain' : Components.Plain '.' prop) :
    branchGetValue (k ++ "." ++ prop) (getTree ".properties" (stateOf f qs)) =
      q.body.value prop := by
  have hplain := plain_of_nickKeys hk
  have hsec : components ".properties" = ["properties"] :=
    components_dot (k := "properties") (by decide)
  have hcomps := components_pair hplain hplain'
  have hchild : (KeyTree.node emptyNode (propertyLeaves q)).child prop =
      some (makeValue (q.body.value prop)) := by
    refine KeyTree.lookup_of_mem ?_ (List.mem_map.2 ⟨prop, hprop, rfl⟩)
    rw [KeyTree.children_node, map_fst_propertyLeaves]
    exact hnodup
  have hpath : ["properties", k, prop] = ["properties", k] ++ [prop] := rfl
  rw [branchGetValue_eq_valueAt (by rw [hcomps]; simp), hcomps, valueAt,
    get_getTree hsec _ (by simp), hpath, KeyTree.get_append, h.get_properties hq hk hnodup,
    if_neg (List.ne_nil_of_mem hprop), Option.bind_some, KeyTree.get_singleton, hchild]
  rfl

theorem components_userData : components "userdata." = ["userdata"] := by
  have hdot : components ("userdata" ++ ".") = components "userdata" :=
    Components.components_append_sep_empty "userdata" rfl
  exact hdot.trans (components_of_plain (by decide))

/-- The user data of a quiddity that are listed. -/
theorem OneKey.savedUserData_eq (h : OneKey qs) (hq : q ∈ qs) (hk : nickKeys q = [k]) :
    getChildKeys k (getTree "userdata." (stateOf f qs)) =
      q.body.userData.children.map Prod.fst := by
  have hplain := plain_of_nickKeys hk
  have hcomps := components_of_plain hplain
  rw [getChildKeys_eq (by rw [hcomps]; simp), hcomps,
    get_getTree components_userData _ (by simp), h.get_userData hq hk]
  split_ifs with hempty
  · rw [isEmpty, Bool.and_eq_true, List.isEmpty_iff] at hempty
    rw [hempty.1]
    rfl
  · rfl

/-- Their trees. -/
theorem OneKey.savedUserTree_eq (h : OneKey qs) (hq : q ∈ qs) (hk : nickKeys q = [k]) {kit : String}
    (hkit : kit ∈ q.body.userData.children.map Prod.fst) (hplain' : Components.Plain '.' kit) :
    getTree (k ++ "." ++ kit) (getTree "userdata." (stateOf f qs)) =
      getTree kit q.body.userData := by
  have hplain := plain_of_nickKeys hk
  have hcomps := components_pair hplain hplain'
  have hempty : ¬q.body.userData.isEmpty = true := by
    intro hempty
    rw [isEmpty, Bool.and_eq_true, List.isEmpty_iff] at hempty
    rw [hempty.1] at hkit
    cases hkit
  have hpath : ["userdata", k, kit] = ["userdata", k] ++ [kit] := rfl
  rw [getTree, branch_eq_get (by rw [hcomps]; simp), hcomps,
    get_getTree components_userData _ (by simp), hpath, KeyTree.get_append, h.get_userData hq hk,
    if_neg hempty, Option.bind_some, KeyTree.get_singleton, getTree, branch_of_plain hplain']

/-- The readers of a part that are listed. -/
theorem OneKey.savedReaders_eq (h : OneKey qs) (hq : q ∈ qs) (hk : nickKeys q = [k]) {name : String}
    {leaf : String × Option InfoTree → Option InfoTree}
    (hleaf : ∀ r, KeyTree.Edit.below ["readers", k, name] (readerEdit [k] r) =
      (leaf r.1).map fun t => .graft [readerKey r.2] t)
    (hname : name = "shm_from_quid" ∨ name = "raw_shm") :
    getChildKeys (k ++ ("." ++ name)) (getTree ".readers" (stateOf f qs)) =
      (partReaders leaf f q).map Prod.fst := by
  have hplain := plain_of_nickKeys hk
  have hplain' : Components.Plain '.' name := by
    rcases hname with rfl | rfl <;> decide
  have hsec : components ".readers" = ["readers"] := components_dot (k := "readers") (by decide)
  have hcomps : components (k ++ ("." ++ name)) = [k, name] := by
    rw [← String.append_assoc]
    exact components_pair hplain hplain'
  rw [getChildKeys_eq (by rw [hcomps]; simp), hcomps, get_getTree hsec _ (by simp),
    h.get_readers hq hk hleaf hname]
  split_ifs with hnil
  · rw [hnil]
    rfl
  · rfl

/-- The call that is saved with the description of a writer. -/
def connectCall (info : InfoTree) : Call :=
  .connectQuid (branchGetValue "name" info).toString (branchGetValue "suffix" info).toString

/-- The call by which a saved reader that has a writer is connected. -/
theorem OneKey.fromQuidCall_eq (h : OneKey qs) (hq : q ∈ qs) (hk : nickKeys q = [k])
    {e : String × InfoTree} (he : e ∈ partReaders fromQuidLeaf f q) :
    fromQuidCall (getTree ".readers" (stateOf f qs)) k e.1 = connectCall e.2 := by
  have hplain := plain_of_nickKeys hk
  have hsec : components ".readers" = ["readers"] := components_dot (k := "readers") (by decide)
  have hreader : Components.Plain '.' e.1 := by
    obtain ⟨r, -, hr⟩ := List.mem_filterMap.1 he
    obtain ⟨t, -, rfl⟩ := Option.map_eq_some_iff.1 hr
    exact plain_readerKey r.2
  have hchild : (KeyTree.node (⟨.null, true⟩ : NodeData) (partReaders fromQuidLeaf f q)).child e.1 =
      some e.2 := KeyTree.lookup_of_mem (nodup_partReaders fromQuidLeaf f q) he
  have hfield : ∀ field, Components.Plain '.' field →
      branchGetValue (k ++ ".shm_from_quid." ++ e.1 ++ ("." ++ field))
        (getTree ".readers" (stateOf f qs)) = branchGetValue field e.2 := by
    intro field hfield
    have hcomps : components (k ++ ".shm_from_quid." ++ e.1 ++ ("." ++ field)) =
        [k, "shm_from_quid", e.1, field] := by
      have hpath := components_below "shm_from_quid" hplain (by decide)
        (e.1 ++ "." ++ field)
      rw [components_pair hreader hfield] at hpath
      exact (congrArg components (by simp only [String.append_assoc]; rfl)).trans hpath
    rw [branchGetValue_eq_valueAt (by rw [hcomps]; simp), hcomps, valueAt,
      get_getTree hsec _ (by simp), show ["readers", k, "shm_from_quid", e.1, field] =
        ["readers", k, "shm_from_quid"] ++ [e.1, field] from rfl, KeyTree.get_append,
      h.get_readers hq hk (below_readerEdit_fromQuid k) (Or.inl rfl),
      if_neg (List.ne_nil_of_mem he), Option.bind_some, KeyTree.get_cons, hchild, Option.bind_some,
      KeyTree.get_singleton, branchGetValue, branch_of_plain hfield]
  exact congrArg₂ (fun a b => Call.connectQuid (Any.toString a) (Any.toString b))
    (hfield "name" (by decide)) (hfield "suffix" (by decide))

/-- The call by which another saved reader is connected. -/
theorem OneKey.rawCall_eq (h : OneKey qs) (hq : q ∈ qs) (hk : nickKeys q = [k])
    {e : String × InfoTree} (he : e ∈ partReaders rawLeaf f q) :
    rawCall (getTree ".readers" (stateOf f qs)) k e.1 = .connect "null" := by
  have hsec : components ".readers" = ["readers"] := components_dot (k := "readers") (by decide)
  obtain ⟨r, -, hr⟩ := List.mem_filterMap.1 he
  obtain ⟨t, -, rfl⟩ := Option.map_eq_some_iff.1 hr
  have hcomps := components_pair (plain_of_nickKeys hk) (plain_readerKey r.2)
  rw [rawCall, branchGetValue_eq_valueAt (by rw [hcomps]; simp), hcomps, valueAt,
    get_getTree hsec _ (by simp), h.get_reader hq hk]
  rfl

/-- The numbers of the readers do not count. -/
theorem map_partReaders {β : Type} (leaf : String × Option InfoTree → Option InfoTree)
    (F : InfoTree → β) : (partReaders leaf f q).map (fun e => F e.2) =
      (savedReaders f q).filterMap fun r => (leaf r).map F := by
  rw [partReaders, List.map_filterMap]
  have hfst : (savedReaders f q).filterMap (fun r => (leaf r).map F) =
      ((savedReaders f q).zipIdx 1).filterMap fun r => (leaf r.1).map F := by
    conv_lhs => rw [← List.zipIdx_map_fst 1 (savedReaders f q)]
    rw [List.filterMap_map]
    rfl
  rw [hfst]
  exact List.filterMap_congr fun r _ => by rw [Option.map_map]; rfl

/-! ### The quiddity that is made -/

/-- A quiddity that has been created, has loaded a custom state and has taken its nickname. -/
def renamed (f : Factory) (q : Quiddity Body) (customState : InfoTree) : Quiddity Body :=
  ⟨q.nickname, q.kind, { f.make q.kind with loaded := [customState] }⟩

/-- The custom state that is loaded: a new tree where none has been saved. -/
def loadedCustomState (state : InfoTree) (k : String) : InfoTree :=
  if (getTree ".custom_states" state).isEmpty then InfoTree.make
  else getTree k (getTree ".custom_states" state)

/-- A key of a section is listed. -/
theorem mem_getChildKeys_root {t : InfoTree} : k ∈ getChildKeys "." t ↔ (t.get [k]).isSome := by
  rw [getChildKeys_root, KeyTree.get_singleton, Option.isSome_iff_ne_none, Ne,
    KeyTree.child_eq_none_iff, not_not]

/-- The keys of the nicknames are those under which the kinds are saved. -/
theorem OneKey.mem_quids (h : OneKey qs) (hq : q ∈ qs) (hk : nickKeys q = [k]) :
    k ∈ getChildKeys "." (getTree ".quiddities" (stateOf f qs)) := by
  have hsec : components ".quiddities" = ["quiddities"] :=
    components_dot (k := "quiddities") (by decide)
  rw [mem_getChildKeys_root, get_getTree hsec _ (by simp), h.get_quiddities hq hk]
  rfl

/-- The kind that is read is the one that has been saved. -/
theorem OneKey.kindAt_eq (h : OneKey qs) (hq : q ∈ qs) (hk : nickKeys q = [k]) :
    kindAt (getTree ".quiddities" (stateOf f qs)) k = q.kind := by
  have hsec : components ".quiddities" = ["quiddities"] :=
    components_dot (k := "quiddities") (by decide)
  have hcomps := components_of_plain (plain_of_nickKeys hk)
  rw [kindAt, branchGetValue_eq_valueAt (by rw [hcomps]; simp), hcomps, valueAt,
    get_getTree hsec _ (by simp), h.get_quiddities hq hk]
  rfl

/-- What is made with the key of a nickname: the rest of the state acts on a quiddity of the
saved kind and nickname. -/
theorem OneKey.loaded_eq (h : OneKey qs) (hmade : ∀ q ∈ qs, Made q) (hq : q ∈ qs)
    (hk : nickKeys q = [k]) :
    loaded f (stateOf f qs) k = performAt k (restActions f (stateOf f qs))
      (renamed f q (loadedCustomState (stateOf f qs) k)) := by
  have hkeyed := (reachable_stateOf (f := f) hmade).wellKeyed
  have hcomps := components_of_plain (plain_of_nickKeys hk)
  have hnicks : components ".nicknames" = ["nicknames"] :=
    components_dot (k := "nicknames") (by decide)
  have hnick : branchGetValue k (getTree ".nicknames" (stateOf f qs)) = .str q.nickname := by
    rw [branchGetValue_eq_valueAt (by rw [hcomps]; simp), hcomps, valueAt,
      get_getTree hnicks _ (by simp), h.get_nicknames hq hk]
    rfl
  have hcustom : performAt k (customActions (getTree ".custom_states" (stateOf f qs))
      (getChildKeys "." (getTree ".quiddities" (stateOf f qs))))
      (created f (getTree ".quiddities" (stateOf f qs)) k) =
        onLoading (loadedCustomState (stateOf f qs) k)
          (created f (getTree ".quiddities" (stateOf f qs)) k) := by
    exact performAt_each _ (nodup_getChildKeys (wellKeyed_getTree _ hkeyed)) (h.mem_quids hq hk) rfl
  have hrename : ∀ q', q'.nickname = k →
      performAt k (nicknameActions (getTree ".nicknames" (stateOf f qs))) q' =
        { q' with nickname := q.nickname } := by
    intro q' hq'
    refine (performAt_each _ (nodup_getChildKeys (wellKeyed_getTree _ hkeyed)) ?_ hq').trans ?_
    · rw [mem_getChildKeys_root, get_getTree hnicks _ (by simp), h.get_nicknames hq hk]
      rfl
    · rw [hnick]
      rfl
  rw [loaded, loadActions, performAt_append, performAt_append, hcustom, hrename _ rfl, created,
    h.kindAt_eq hq hk]
  rfl

/-- The custom state that is loaded is the one that has been saved. -/
theorem OneKey.loadedCustomState_eq (h : OneKey qs) (hq : q ∈ qs) (hk : nickKeys q = [k])
    (ht : savedCustomState q = some t) : loadedCustomState (stateOf f qs) k = t := by
  have hplain := plain_of_nickKeys hk
  have hsec : components ".custom_states" = ["custom_states"] :=
    components_dot (k := "custom_states") (by decide)
  have hchild : (getTree ".custom_states" (stateOf f qs)).child k = some t := by
    rw [← KeyTree.get_singleton, get_getTree hsec _ (by simp), h.get_customStates hq hk, ht]
  have hempty : ¬(getTree ".custom_states" (stateOf f qs)).isEmpty = true := by
    rw [isEmpty, Bool.and_eq_true, List.isEmpty_iff]
    rintro ⟨hnil, -⟩
    have hmem := KeyTree.mem_of_lookup hchild
    rw [hnil] at hmem
    cases hmem
  rw [loadedCustomState, if_neg hempty, getTree, branch_of_plain hplain, hchild, Option.getD_some]

/-- The trees in which the saved properties are set. -/
def restoredTree (f : Factory) (q : Quiddity Body) : InfoTree :=
  let starts := fun prop => prop = "started" ∧ (q.body.value prop).asBool = true
  let t := ((savedProperties q).filter fun prop => ¬starts prop).foldl
    (fun t prop => setTree f q.kind prop (q.body.value prop).toString t) (f.tree q.kind)
  ((savedProperties q).filter fun prop => starts prop).foldl
    (fun t _ => setTree f q.kind "started" "true" t) t

/-- The calls that connect a quiddity when it is loaded. -/
def loadedCalls (f : Factory) (q : Quiddity Body) : List Call :=
  (savedReaders f q).filterMap (fun r => r.2.map connectCall) ++
  if "connect" ∈ f.methods q.kind then
    (savedReaders f q).filterMap fun r => if r.2 = none then some (.connect "null") else none
  else []

/-- Nothing is listed below a key that is not there. -/
theorem getChildKeys_of_not_mem {path : String} {p : List String} (h : components path = k :: p)
    (hk : k ∉ getChildKeys "." t) : getChildKeys path t = [] := by
  rw [mem_getChildKeys_root, Option.not_isSome_iff_eq_none, KeyTree.get_singleton] at hk
  rw [getChildKeys_eq (by rw [h]; simp), h, KeyTree.get_cons, hk]
  rfl

/-- The saved properties of a quiddity start it when their values say so. -/
theorem OneKey.starts_iff (h : OneKey qs) (hq : q ∈ qs) (hk : nickKeys q = [k]) (hmade : Made q)
    (hprop : prop ∈ savedProperties q) :
    Starts (getTree ".properties" (stateOf f qs)) k prop ↔
      prop = "started" ∧ (q.body.value prop).asBool = true := by
  refine and_congr_right fun hstarted => ?_
  subst hstarted
  have hpath : k ++ ".started" = k ++ "." ++ "started" := by
    rw [String.append_assoc]
    rfl
  rw [hpath, h.savedValue_eq hq hk hmade.nodup_savedProperties hprop (by decide)]

/-- The properties are set that do not start the quiddity. -/
theorem OneKey.performAt_properties (h : OneKey qs) (hmade : ∀ q ∈ qs, Made q) (hq : q ∈ qs)
    (hk : nickKeys q = [k]) {q' : Quiddity Body} (hq' : q'.nickname = k) :
    performAt k ((getChildKeys "." (getTree ".properties" (stateOf f qs))).flatMap
      (propertyActions f (getTree ".properties" (stateOf f qs)))) q' =
        withTree (((savedProperties q).filter fun prop =>
          ¬(prop = "started" ∧ (q.body.value prop).asBool = true)).foldl
            (fun t prop => setTree f q'.kind prop (q.body.value prop).toString t)
              q'.body.tree) q' := by
  have hkeyed := wellKeyed_getTree ".properties" (reachable_stateOf (f := f) hmade).wellKeyed
  have hcomps := components_of_plain (plain_of_nickKeys hk)
  have hnodup := (hmade q hq).nodup_savedProperties
  rw [performAt_flatMap_of_nil (name_propertyActions f _) (nodup_getChildKeys hkeyed) fun hnot => by
      rw [propertyActions, getChildKeys_of_not_mem hcomps hnot]; rfl,
    propertyActions, performAt_map _ _ (fun prop => keepsNickname_setStr _ _ _) hq', foldl_setStr,
    h.savedProperties_eq hq hk hnodup]
  refine congrArg (withTree · q') ?_
  rw [List.filter_congr fun prop hprop =>
    decide_eq_decide.2 (not_congr (h.starts_iff hq hk (hmade q hq) hprop))]
  refine List.foldl_ext _ _ _ fun t prop hprop => ?_
  have hmem := List.mem_of_mem_filter hprop
  rw [h.savedValue_eq hq hk hnodup hmem ((hmade q hq).plain_savedProperties prop hmem)]

/-- The quiddity is started when a property says so. -/
theorem OneKey.performAt_start (h : OneKey qs) (hmade : ∀ q ∈ qs, Made q) (hq : q ∈ qs)
    (hk : nickKeys q = [k]) {q' : Quiddity Body} (hq' : q'.nickname = k) :
    performAt k ((getChildKeys "." (getTree ".properties" (stateOf f qs))).flatMap
      (startActions f (getTree ".properties" (stateOf f qs)))) q' =
        withTree (((savedProperties q).filter fun prop =>
          prop = "started" ∧ (q.body.value prop).asBool = true).foldl
            (fun t _ => setTree f q'.kind "started" "true" t) q'.body.tree) q' := by
  have hkeyed := wellKeyed_getTree ".properties" (reachable_stateOf (f := f) hmade).wellKeyed
  have hcomps := components_of_plain (plain_of_nickKeys hk)
  have hnodup := (hmade q hq).nodup_savedProperties
  rw [performAt_flatMap_of_nil (name_startActions f _) (nodup_getChildKeys hkeyed) fun hnot => by
      rw [startActions, getChildKeys_of_not_mem hcomps hnot]; rfl,
    startActions, performAt_map _ _ (fun _ => keepsNickname_setStr _ _ _) hq',
    foldl_setStr f (fun _ => "started") (fun _ => "true"), h.savedProperties_eq hq hk hnodup]
  refine congrArg (withTree · q') ?_
  rw [List.filter_congr fun prop hprop =>
    decide_eq_decide.2 (h.starts_iff hq hk (hmade q hq) hprop)]

/-- The user data are grafted. -/
theorem OneKey.performAt_userData (h : OneKey qs) (hmade : ∀ q ∈ qs, Made q) (hq : q ∈ qs)
    (hk : nickKeys q = [k]) {q' : Quiddity Body} (hq' : q'.nickname = k)
    (hdata : q'.body.userData = InfoTree.make) :
    performAt k ((getChildKeys "." (getTree "userdata." (stateOf f qs))).flatMap
      (userDataActions (getTree "userdata." (stateOf f qs)))) q' =
        withUserData (.node emptyNode q.body.userData.children) q' := by
  have hkeyed := wellKeyed_getTree "userdata." (reachable_stateOf (f := f) hmade).wellKeyed
  have hcomps := components_of_plain (plain_of_nickKeys hk)
  have hdataKeyed := (hmade q hq).userData.wellKeyed
  rw [performAt_flatMap_of_nil (name_userDataActions _) (nodup_getChildKeys hkeyed) fun hnot => by
      rw [userDataActions, getChildKeys_of_not_mem hcomps hnot]; rfl,
    userDataActions, performAt_map (fun kit => graftUserData kit _) _ (fun kit q => rfl) hq',
    foldl_graftUserData, h.savedUserData_eq hq hk, hdata]
  refine congrArg (withUserData · q') ?_
  rw [← foldl_graft_children hdataKeyed]
  refine List.foldl_ext _ _ _ fun t kit hkit => ?_
  obtain ⟨e, he, rfl⟩ := List.mem_map.1 hkit
  rw [h.savedUserTree_eq hq hk hkit (hdataKeyed.keys e he)]

/-- The keys of the path of a part of the readers. -/
theorem components_readerPart (part : String) (hk : Components.Plain '.' k)
    (hpart : Components.Plain '.' part) : components (k ++ ("." ++ part)) = [k, part] := by
  rw [← String.append_assoc]
  exact components_pair hk hpart

/-- The calls that are made for the readers that have a writer. -/
theorem OneKey.fromQuidCalls_eq (h : OneKey qs) (hq : q ∈ qs) (hk : nickKeys q = [k]) :
    (getChildKeys (k ++ ".shm_from_quid") (getTree ".readers" (stateOf f qs))).map
      (fromQuidCall (getTree ".readers" (stateOf f qs)) k) =
        (savedReaders f q).filterMap fun r => r.2.map connectCall := by
  have hkeys := h.savedReaders_eq (f := f) hq hk (below_readerEdit_fromQuid k) (Or.inl rfl)
  have hcalls := map_partReaders (f := f) (q := q) fromQuidLeaf connectCall
  refine (congrArg _ hkeys).trans (Eq.trans ?_ hcalls)
  rw [List.map_map]
  exact List.map_congr_left fun e he => h.fromQuidCall_eq hq hk he

/-- The calls that are made for the others. -/
theorem OneKey.rawCalls_eq (h : OneKey qs) (hq : q ∈ qs) (hk : nickKeys q = [k]) :
    (getChildKeys (k ++ ".raw_shm") (getTree ".readers" (stateOf f qs))).map
      (rawCall (getTree ".readers" (stateOf f qs)) k) = (savedReaders f q).filterMap fun r =>
        if r.2 = none then some (.connect "null") else none := by
  have hkeys := h.savedReaders_eq (f := f) hq hk (below_readerEdit_raw k) (Or.inr rfl)
  have hcalls := map_partReaders (f := f) (q := q) rawLeaf fun _ => Call.connect "null"
  have hleaf :
      (savedReaders f q).filterMap (fun r => (rawLeaf r).map fun _ => Call.connect "null") =
        (savedReaders f q).filterMap fun r => if r.2 = none then some (.connect "null") else none :=
    List.filterMap_congr fun r _ => by
      rw [rawLeaf]
      split_ifs <;> rfl
  refine (congrArg _ hkeys).trans (Eq.trans ?_ (hcalls.trans hleaf))
  rw [List.map_map]
  exact List.map_congr_left fun e he => h.rawCall_eq hq hk he

/-- The readers are connected. -/
theorem OneKey.performAt_readers (h : OneKey qs) (hmade : ∀ q ∈ qs, Made q) (hq : q ∈ qs)
    (hk : nickKeys q = [k]) {q' : Quiddity Body} (hq' : q'.nickname = k)
    (hkind : q'.kind = q.kind) :
    performAt k ((getChildKeys "." (getTree ".readers" (stateOf f qs))).flatMap
      (readerActions f (getTree ".readers" (stateOf f qs)))) q' =
        withCalls (loadedCalls f q) q' := by
  have hkeyed := wellKeyed_getTree ".readers" (reachable_stateOf (f := f) hmade).wellKeyed
  have hplain := plain_of_nickKeys hk
  have hfrom : components (k ++ ".shm_from_quid") = [k, "shm_from_quid"] :=
    components_readerPart "shm_from_quid" hplain (by decide)
  have hraw : components (k ++ ".raw_shm") = [k, "raw_shm"] :=
    components_readerPart "raw_shm" hplain (by decide)
  have hmeth : (if "connect-quid" ∈ f.methods q.kind then
      (savedReaders f q).filterMap (fun r => r.2.map connectCall) else []) =
        (savedReaders f q).filterMap fun r => r.2.map connectCall := by
    split_ifs with hmeth
    · rfl
    · rw [savedReaders, if_neg hmeth]
      rfl
  rw [performAt_flatMap_of_nil (name_readerActions f _) (nodup_getChildKeys hkeyed) fun hnot => by
      rw [readerActions, getChildKeys_of_not_mem hfrom hnot, getChildKeys_of_not_mem hraw hnot]; rfl,
    readerActions, performAt_append,
    performAt_map _ _ (fun _ => keepsNickname_invoke _ _ _) hq', foldl_invoke,
    performAt_map _ _ (fun _ => keepsNickname_invoke _ _ _)
      (show (withCalls _ q').nickname = k from hq'), foldl_invoke, hkind,
    h.fromQuidCalls_eq hq hk, hmeth]
  change withCalls (if "connect" ∈ f.methods q'.kind then _ else []) _ = _
  rw [hkind, h.rawCalls_eq hq hk]
  simp only [withCalls, loadedCalls, List.append_assoc]

/-- What loading makes of a quiddity whose nickname is a key. -/
theorem OneKey.loaded_of_plain (h : OneKey qs) (hmade : ∀ q ∈ qs, Made q) (hq : q ∈ qs)
    (hk : nickKeys q = [q.nickname]) :
    loaded f (stateOf f qs) q.nickname = ⟨q.nickname, q.kind, { f.make q.kind with
      tree := restoredTree f q
      userData := .node emptyNode q.body.userData.children
      loaded := [loadedCustomState (stateOf f qs) q.nickname]
      calls := loadedCalls f q }⟩ := by
  rw [h.loaded_eq hmade hq hk, restActions]
  dsimp only
  rw [performAt_append, performAt_append, performAt_append, h.performAt_properties hmade hq hk,
    h.performAt_userData hmade hq hk, h.performAt_start hmade hq hk,
    h.performAt_readers hmade hq hk]
  all_goals rfl

end Switcher
end LibSwitcher
