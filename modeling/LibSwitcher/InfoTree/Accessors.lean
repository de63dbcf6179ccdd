/-
# Reading and writing at a path

The functions that take a path should do what the function without a path does at the node
that the path denotes, which its components lead to: the root if there are none
(`AccessorsAgree`).

They do so at the paths with components, with one exception: `tag_as_array` returns true
where there is no node.  The root is another matter.  Only `.` and `..` are understood as
the root, not the other paths without components; `branch_read_data` does not even
understand these, `branch_is_array` answers whether the root has no child, and
`branch_set_value` returns the value it sets, as a boolean.
-/

import LibSwitcher.InfoTree.PathMap

namespace LibSwitcher
namespace InfoTree

/-- `has_data`. -/
def hasData (t : InfoTree) : Bool := t.data ≠ .null

/-- The keys of the root. -/
def childKeys (t : InfoTree) : List String := t.children.map Prod.fst

/-- `branch_is_leaf`. -/
def branchIsLeaf (path : String) (t : InfoTree) : Bool := ((branch path t).map isLeaf).getD false

/-- `branch_set_value`: the tree after it, and what it returns, which for the root is the
value itself. -/
def branchSetValue (path : String) (v : Any) (t : InfoTree) : InfoTree × Bool :=
  if pathIsRoot path then (setValue v t, v.asBool)
  else
    match getNode path t with
    | some _ => (KeyTree.modify (setValue v) (components path) t, true)
    | none => (t, false)

/-- `branch_read_data<T>`, given what `copy_as<T>` makes of a value, if it is defined, and the
default value of the type. -/
def branchReadData {T : Type} (copyAs : Any → Option T) (dflt : T) (path : String) (t : InfoTree) :
    Option T :=
  match getNode path t with
  | some n => copyAs n.data
  | none => some dflt

/-- What `tag_as_array` returns: `get_tree` gives a tree, be it a new one. -/
def tagAsArrayReturns (_path : String) (_t : InfoTree) : Bool := true

/-- `serialize_json`, given what the serializer makes of a tree. -/
def serializeJson (json : InfoTree → String) (path : String) (t : InfoTree) : String :=
  ((branch path t).map json).getD "null"

/-- The node that a path denotes: its components lead to it. -/
def denoted (path : String) (t : InfoTree) : Option InfoTree := t.get (components path)

/-- The functions that read or set a value at a path do so at the node that it denotes.  Where
there is none, they give a null value, false, a default value, no key, a new tree or the
text of null, and change nothing. -/
structure ValuesAgree (json : InfoTree → String) (path : String) (t : InfoTree) : Prop where
  getValue : branchGetValue path t = ((denoted path t).map data).getD .null
  setValue : ∀ v, branchSetValue path v t =
    if (denoted path t).isSome then (KeyTree.modify (setValue v) (components path) t, true)
    else (t, false)
  hasData : branchHasData path t = ((denoted path t).map hasData).getD false
  isLeaf : branchIsLeaf path t = ((denoted path t).map isLeaf).getD false
  isArray : branchIsArray path t = ((denoted path t).map isArray).getD false
  readData : ∀ (T : Type) (copyAs : Any → Option T) (dflt : T), branchReadData copyAs dflt path t =
    ((denoted path t).map fun n => copyAs n.data).getD (some dflt)
  childKeys : getChildKeys path t = ((denoted path t).map childKeys).getD []
  getTree : getTree path t = (denoted path t).getD make
  serializeJson : serializeJson json path t = ((denoted path t).map json).getD "null"

/-- All functions that take a path agree with what it denotes.  Tagging should fail where
there is no node. -/
structure AccessorsAgree (json : InfoTree → String) (path : String) (t : InfoTree) : Prop
    extends ValuesAgree json path t where
  tagAsArray : ∀ b, (tagAsArray path b t, tagAsArrayReturns path t) =
    if (denoted path t).isSome then (KeyTree.modify (makeArray b) (components path) t, true)
    else (t, false)

variable {json : InfoTree → String} {path : String} {t : InfoTree}

theorem getNode_of_named (h : Named path) : getNode path t = denoted path t := if_neg h

theorem branch_of_named (h : Named path) : branch path t = denoted path t := branch_eq_get h

/-- At the paths with components the values agree, whether there is a node or not. -/
theorem valuesAgree_of_named (h : Named path) : ValuesAgree json path t where
  getValue := by rw [branchGetValue, branch_of_named h]
  setValue := fun v => by
    rw [branchSetValue, pathIsRoot_of_components h, getNode_of_named h, if_neg (by simp)]
    cases denoted path t <;> rfl
  hasData := by
    rw [branchHasData, branchGetValue, branch_of_named h]
    cases denoted path t <;> rfl
  isLeaf := by rw [branchIsLeaf, branch_of_named h]
  isArray := by
    rw [branchIsArray, pathIsRoot_of_components h, getNode_of_named h, if_neg (by simp)]
  readData := fun T copyAs dflt => by
    rw [branchReadData, getNode_of_named h]
    cases denoted path t <;> rfl
  childKeys := by
    rw [getChildKeys, branch_of_named h]
    rfl
  getTree := by rw [InfoTree.getTree, branch_of_named h]
  serializeJson := by rw [InfoTree.serializeJson, branch_of_named h]

/-- At the root, in whatever way it is written, a value that is set is not answered by true. -/
theorem not_valuesAgree_of_not_named (h : ¬Named path) : ¬ValuesAgree json path t := by
  intro hagree
  have hcomps : components path = [] := not_not.1 h
  have hset := hagree.setValue (.bool false)
  rw [denoted, hcomps, KeyTree.get_nil, Option.isSome_some, if_pos rfl, branchSetValue] at hset
  split_ifs at hset
  · exact Bool.false_ne_true (congrArg Prod.snd hset)
  · rw [getNode, if_pos hcomps] at hset
    exact Bool.false_ne_true (congrArg Prod.snd hset)

/-- The functions that take a path agree with what it denotes exactly when it has components
that lead to a node. -/
theorem accessorsAgree_iff (json : InfoTree → String) (path : String) (t : InfoTree) :
    AccessorsAgree json path t ↔ Named path ∧ (t.get (components path)).isSome := by
  constructor
  · intro h
    have hnamed : Named path := by
      by_contra hnot
      exact not_valuesAgree_of_not_named hnot h.toValuesAgree
    refine ⟨hnamed, ?_⟩
    by_contra hnone
    have htag := h.tagAsArray true
    rw [denoted, if_neg hnone] at htag
    exact Bool.false_ne_true (congrArg Prod.snd htag).symm
  · rintro ⟨hnamed, hnode⟩
    refine ⟨valuesAgree_of_named hnamed, fun b => ?_⟩
    rw [denoted, if_pos hnode, tagAsArray, pathIsRoot_of_components hnamed, if_neg (by simp),
      if_neg hnamed]
    rfl

/-- The root of an array that is not empty is not an array. -/
theorem not_accessorsAgree_root : ¬AccessorsAgree (fun _ => "[\n  true\n]") "."
    (makeArray true (graft "0" (makeValue (.bool true)) make)) :=
  fun h => absurd h.isArray (by decide +kernel)

end InfoTree
end LibSwitcher
