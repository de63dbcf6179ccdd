/-
# Reading documents into information trees

`switcher/infotree/json-serializer.cpp`, `add_json_node` and `deserialize`.  The
document is what the parser of json-glib has read (`Json`); the member names of an
object are then different.  A member name is grafted as a path, so that dots in it
are read as separators, and a name without component cannot be grafted: the loop
over the members breaks there and leaves the reader inside the member, after which
nothing is said of the tree (`none`).

On a document whose member names are single components (`Json.PlainNames`) the tree
is the document itself, node for node (`addJsonNode_of_plainNames`).
-/

import LibSwitcher.InfoTree.InformationTree

namespace LibSwitcher

/-- A parsed document. -/
inductive Json
  | null
  | bool (b : Bool)
  | int (i : ℤ)
  | double (text : String)
  | str (s : String)
  | arr (elements : List Json)
  | obj (members : List (String × Json))

namespace InfoTree

mutual

/-- `add_json_node` on a new node: the node it makes of a document. -/
def addJsonNode : Json → Option InfoTree
  | .null => some make
  | .bool b => some (makeValue (.bool b))
  | .int i => some (makeValue (.int i))
  | .double text => some (makeValue (.double text))
  | .str s => some (makeValue (.str s))
  | .arr js => (addElements 0 js make).map (makeArray true)
  | .obj ms => addMembers ms make

/-- The loop over the elements of an array, from the index `i`. -/
def addElements : ℕ → List Json → InfoTree → Option InfoTree
  | _, [], t => some t
  | i, j :: js, t => (addJsonNode j).bind fun n => addElements (i + 1) js (graft (toString i) n t)

/-- The loop over the members of an object. -/
def addMembers : List (String × Json) → InfoTree → Option InfoTree
  | [], t => some t
  | (name, j) :: ms, t =>
      if canGraft name then (addJsonNode j).bind fun n => addMembers ms (graft name n t) else none

end

/-- `infotree::json::deserialize`, given what the parser makes of the text: an error
message, or a document, or no root node. -/
def deserialize (includeParsingError : Bool) : Except String (Option Json) → Option InfoTree
  | .error msg => some (if includeParsingError then vgraft "parsing_error" (.str msg) make else make)
  | .ok none => some make
  | .ok (some j) => addJsonNode j

/-! ### What is read is made by grafts -/

mutual

theorem reachable_addJsonNode : (j : Json) → ∀ t, addJsonNode j = some t → Reachable t
  | .null, _, h => Option.some.inj h ▸ .make
  | .bool b, _, h => Option.some.inj h ▸ .makeValue _
  | .int i, _, h => Option.some.inj h ▸ .makeValue _
  | .double text, _, h => Option.some.inj h ▸ .makeValue _
  | .str s, _, h => Option.some.inj h ▸ .makeValue _
  | .arr js, _, h => by
      obtain ⟨t, ht, rfl⟩ := Option.map_eq_some_iff.1 h
      exact (reachable_addElements js 0 .make t ht).makeArray true
  | .obj ms, t, h => reachable_addMembers ms .make t h

theorem reachable_addElements : (js : List Json) → ∀ i {t}, Reachable t → ∀ t',
    addElements i js t = some t' → Reachable t'
  | [], _, _, ht, _, h => Option.some.inj h ▸ ht
  | j :: js, i, _, ht, t', h => by
      obtain ⟨n, hn, h⟩ := Option.bind_eq_some_iff.1 h
      exact reachable_addElements js (i + 1)
        ((reachable_addJsonNode j n hn).graft (toString i) ht) t' h

theorem reachable_addMembers : (ms : List (String × Json)) → ∀ {t}, Reachable t → ∀ t',
    addMembers ms t = some t' → Reachable t'
  | [], _, ht, _, h => Option.some.inj h ▸ ht
  | (name, j) :: ms, _, ht, t', h => by
      rw [addMembers] at h
      split_ifs at h
      obtain ⟨n, hn, h⟩ := Option.bind_eq_some_iff.1 h
      exact reachable_addMembers ms ((reachable_addJsonNode j n hn).graft name ht) t' h

end

/-- A tree that is read is made by grafts. -/
theorem reachable_deserialize {includeParsingError : Bool} {parsed : Except String (Option Json)}
    {t : InfoTree} (h : deserialize includeParsingError parsed = some t) : Reachable t := by
  cases parsed with
  | error msg =>
      obtain rfl := Option.some.inj h
      split_ifs
      · exact Reachable.graft _ (.makeValue _) .make
      · exact .make
  | ok o =>
      cases o with
      | none => exact Option.some.inj h ▸ .make
      | some j => exact reachable_addJsonNode j t h

end InfoTree

/-! ### Documents with plain member names -/

namespace Json

mutual

/-- Every member name is a single component, and those of an object are different. -/
def PlainNames : Json → Prop
  | .arr js => PlainElements js
  | .obj ms => (ms.map Prod.fst).Nodup ∧ PlainMembers ms
  | _ => True

/-- The elements of an array have plain member names. -/
def PlainElements : List Json → Prop
  | [] => True
  | j :: js => PlainNames j ∧ PlainElements js

/-- The members of an object have plain names, and their values too. -/
def PlainMembers : List (String × Json) → Prop
  | [] => True
  | (name, j) :: ms => Components.Plain '.' name ∧ PlainNames j ∧ PlainMembers ms

end

mutual

/-- The document as a tree, node for node; the elements of an array are keyed by
their positions. -/
def toTree : Json → InfoTree
  | .null => InfoTree.make
  | .bool b => InfoTree.makeValue (.bool b)
  | .int i => InfoTree.makeValue (.int i)
  | .double text => InfoTree.makeValue (.double text)
  | .str s => InfoTree.makeValue (.str s)
  | .arr js => .node ⟨.null, true⟩ (elementTrees 0 js)
  | .obj ms => .node ⟨.null, false⟩ (memberTrees ms)

/-- The elements of an array from the position `i`. -/
def elementTrees : ℕ → List Json → List (String × InfoTree)
  | _, [] => []
  | i, j :: js => (toString i, toTree j) :: elementTrees (i + 1) js

/-- The members of an object. -/
def memberTrees : List (String × Json) → List (String × InfoTree)
  | [] => []
  | (name, j) :: ms => (name, toTree j) :: memberTrees ms

end

/-- The keys of the elements from the position `i`. -/
theorem map_fst_elementTrees (i : ℕ) (js : List Json) :
    (elementTrees i js).map Prod.fst = (List.range' i js.length).map toString := by
  induction js generalizing i with
  | nil => rfl
  | cons j js ih => rw [elementTrees, List.map_cons, ih, List.length_cons, List.range'_succ,
      List.map_cons]

theorem map_snd_elementTrees (i : ℕ) (js : List Json) :
    (elementTrees i js).map Prod.snd = js.map toTree := by
  induction js generalizing i with
  | nil => rfl
  | cons j js ih => rw [elementTrees, List.map_cons, ih, List.map_cons]

theorem memberTrees_eq_map (ms : List (String × Json)) :
    memberTrees ms = ms.map fun m => (m.1, toTree m.2) := by
  induction ms with
  | nil => rfl
  | cons m ms ih => rw [memberTrees, ih, List.map_cons]

end Json

namespace InfoTree

mutual

/-- A document with plain member names is read as it is. -/
theorem addJsonNode_of_plainNames : (j : Json) → j.PlainNames → addJsonNode j = some j.toTree
  | .null, _ => rfl
  | .bool _, _ => rfl
  | .int _, _ => rfl
  | .double _, _ => rfl
  | .str _, _ => rfl
  | .arr js, h => by
      rw [addJsonNode, addElements_of_plainNames js h 0 make (by simp [make])]
      rfl
  | .obj ms, h => by
      rw [addJsonNode, addMembers_of_plainNames ms h.2 make (by simpa [make] using h.1)]
      rfl

/-- Elements are added at the end, keyed by their positions. -/
theorem addElements_of_plainNames : (js : List Json) → Json.PlainElements js → (i : ℕ) →
    (t : InfoTree) → (t.children.map Prod.fst = (List.range i).map toString) →
    addElements i js t = some (t.setChildren (t.children ++ Json.elementTrees i js))
  | [], _, i, t, _ => by simp [addElements, Json.elementTrees]
  | j :: js, h, i, t, hkeys => by
      have hnew : toString i ∉ t.children.map Prod.fst := by
        rw [hkeys, List.mem_map]
        rintro ⟨i', hi', heq⟩
        exact absurd (Components.toString_inj.1 heq) (Nat.ne_of_lt (List.mem_range.1 hi'))
      rw [addElements, addJsonNode_of_plainNames j h.1, Option.bind_some,
        graft_new (Components.plain_toString (by decide) i) hnew,
        addElements_of_plainNames js h.2 (i + 1) _ (by
          rw [KeyTree.children_setChildren, List.map_append, hkeys, List.range_succ, List.map_append]
          rfl)]
      simp [Json.elementTrees]

/-- Members are added at the end, under their names. -/
theorem addMembers_of_plainNames : (ms : List (String × Json)) → Json.PlainMembers ms →
    (t : InfoTree) → (t.children.map Prod.fst ++ ms.map Prod.fst).Nodup →
    addMembers ms t = some (t.setChildren (t.children ++ Json.memberTrees ms))
  | [], _, t, _ => by simp [addMembers, Json.memberTrees]
  | (name, j) :: ms, h, t, hnodup => by
      have hnew : name ∉ t.children.map Prod.fst := fun hmem =>
        (List.nodup_append.1 hnodup).2.2 name hmem name (by simp) rfl
      have hcan : canGraft name = true := by
        rw [canGraft, components_of_plain h.1]
        rfl
      rw [addMembers, if_pos hcan, addJsonNode_of_plainNames j h.2.1, Option.bind_some,
        graft_new h.1 hnew, addMembers_of_plainNames ms h.2.2 _ (by simpa using hnodup)]
      simp [Json.memberTrees]

end

end InfoTree
end LibSwitcher
