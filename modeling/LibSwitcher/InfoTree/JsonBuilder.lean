/-
# Writing information trees as documents

`switcher/infotree/json-serializer.cpp`, `serialize`: a walk in preorder makes calls of the
builder of json-glib, when it comes to a node and when it leaves it, with `is_leaf`,
`is_array` and whether the node is an element of an array deciding which.  json-glib
is a parameter (`JsonGlib`): what its builder and its generator make of the calls, and what
its parser reads from a text.

A tree whose inner nodes have no value and whose arrays are keyed by the positions of their
elements (`Writable`) is written as the calls of a document (`rootCalls_eq`) that is read as
the tree itself.  So where json-glib is correct on this document (`JsonGlib.Stores`),
deserializing what is serialized gives the tree (`deserialize_serialize`).

A string is valid UTF-8 here.
-/

import LibSwitcher.InfoTree.JsonSerializer

namespace LibSwitcher

/-- A call of json-glib's builder. -/
inductive BuilderCall
  | beginObject
  | endObject
  | beginArray
  | endArray
  | setMemberName (name : String)
  | addNullValue
  | addBooleanValue (b : Bool)
  | addIntValue (i : ℤ)
  | addDoubleValue (text : String)
  | addStringValue (s : String)
  deriving DecidableEq

/-- What is used of json-glib: the text that its generator makes of the root that its builder
has after some calls, if there is one, and what its parser makes of a text, an error
message, or a document, or no root. -/
structure JsonGlib where
  toData : List BuilderCall → Option String
  parse : String → Except String (Option Json)

/-! ### The serializer -/

namespace InfoTree

/-- The conversion to `gint64`. -/
def toInt64 (i : ℤ) : ℤ := (i + 2 ^ 63) % 2 ^ 64 - 2 ^ 63

/-- `write_typed_member`. -/
def writeTypedMember : Any → BuilderCall
  | .null => .addNullValue
  | .bool b => .addBooleanValue b
  | .int i => .addIntValue (toInt64 i)
  | .id n => .addIntValue (toInt64 n)
  | .double text => .addDoubleValue text
  | .str s => .addStringValue (Stringutils.cStr s)

/-- `on_visiting_node`. -/
def onVisitingNode (key : String) (node : InfoTree) (isArrayElement repeatArrayIndexes : Bool) :
    List BuilderCall :=
  let key := unescapeDots key
  (if isArrayElement then [] else [.setMemberName (Stringutils.cStr key)]) ++
    if node.isLeaf then
      if node.data ≠ .null then [writeTypedMember node.data]
      else if node.isArray then [.beginArray]
      else [.addNullValue]
    else if node.isArray then [.beginArray]
    else
      [.beginObject] ++
        (if isArrayElement && repeatArrayIndexes then
          [.setMemberName "id", .addStringValue (Stringutils.cStr key)] else []) ++
        if node.data ≠ .null then [.setMemberName "key_value", writeTypedMember node.data] else []

/-- `on_node_visited`. -/
def onNodeVisited (node : InfoTree) : List BuilderCall :=
  if node.isArray then [.endArray] else if !node.isLeaf then [.endObject] else []

mutual

/-- `preorder_tree_walk` with these functions. -/
def writeWalk (repeatArrayIndexes : Bool) : InfoTree → List BuilderCall
  | .node d cs => writeChildren repeatArrayIndexes d.isArray cs

/-- The loop of `preorder_tree_walk` on the children of a node. -/
def writeChildren (repeatArrayIndexes isArray : Bool) : List (String × InfoTree) → List BuilderCall
  | [] => []
  | (key, c) :: cs =>
      onVisitingNode key c isArray repeatArrayIndexes ++ writeWalk repeatArrayIndexes c ++
        onNodeVisited c ++ writeChildren repeatArrayIndexes isArray cs

end

/-- The calls for a tree that is not a leaf. -/
def rootCalls (repeatArrayIndexes : Bool) (tree : InfoTree) : List BuilderCall :=
  [if tree.isArray then .beginArray else .beginObject] ++ writeWalk repeatArrayIndexes tree ++
    [if tree.isArray then .endArray else .endObject]

/-- What `serialize` makes of a leaf; a string is not escaped. -/
def leafText (tree : InfoTree) : String :=
  match tree.data with
  | .null => if tree.isArray then "[]" else "null"
  | .str s => "\"" ++ s ++ "\""
  | value => value.toString

/-- `infotree::json::serialize`. -/
def serialize (glib : JsonGlib) (repeatArrayIndexes : Bool) (tree : InfoTree) : String :=
  if tree.isLeaf then leafText tree else (glib.toData (rootCalls repeatArrayIndexes tree)).getD ""

end InfoTree

/-! ### Documents -/

namespace Json

mutual

/-- The calls that build a document. -/
def calls : Json → List BuilderCall
  | .null => [.addNullValue]
  | .bool b => [.addBooleanValue b]
  | .int i => [.addIntValue i]
  | .double text => [.addDoubleValue text]
  | .str s => [.addStringValue s]
  | .arr js => .beginArray :: elementCalls js ++ [.endArray]
  | .obj ms => .beginObject :: memberCalls ms ++ [.endObject]

/-- The calls that build the elements of an array. -/
def elementCalls : List Json → List BuilderCall
  | [] => []
  | j :: js => calls j ++ elementCalls js

/-- The calls that build the members of an object. -/
def memberCalls : List (String × Json) → List BuilderCall
  | [] => []
  | (name, j) :: ms => .setMemberName name :: calls j ++ memberCalls ms

end

/-- The document of a value. -/
def ofValue : Any → Json
  | .null => .null
  | .bool b => .bool b
  | .int i => .int i
  | .id n => .int n
  | .double text => .double text
  | .str s => .str s

mutual

/-- The document of a tree: an array, an object, or the value of a leaf. -/
def ofTree : InfoTree → Json
  | .node d cs =>
      if d.isArray then .arr (ofElements cs)
      else if cs.isEmpty then ofValue d.data
      else .obj (ofMembers cs)

/-- The documents of the elements of an array. -/
def ofElements : List (String × InfoTree) → List Json
  | [] => []
  | (_, c) :: cs => ofTree c :: ofElements cs

/-- The members of an object. -/
def ofMembers : List (String × InfoTree) → List (String × Json)
  | [] => []
  | (name, c) :: cs => (name, ofTree c) :: ofMembers cs

end

theorem ofTree_array (cs : List (String × InfoTree)) :
    ofTree (.node ⟨.null, true⟩ cs) = .arr (ofElements cs) := rfl

theorem ofTree_object {cs : List (String × InfoTree)} (h : cs ≠ []) :
    ofTree (.node ⟨.null, false⟩ cs) = .obj (ofMembers cs) := by
  rw [ofTree, if_neg Bool.false_ne_true, if_neg (by simpa using h)]

theorem ofMembers_eq_map (cs : List (String × InfoTree)) :
    ofMembers cs = cs.map fun e => (e.1, ofTree e.2) := by
  induction cs with
  | nil => rfl
  | cons e cs ih => rw [ofMembers, ih, List.map_cons]

end Json

namespace InfoTree

/-- A key that is a member name and a single component of a path. -/
structure WritableKey (k : String) : Prop where
  plain : Components.Plain '.' k
  unescaped : ¬"__DOT__".toList <:+: k.toList
  cStr : Char.ofNat 0 ∉ k.toList

/-- A value of a type that documents have too, which it does not change. -/
def WritableValue : Any → Prop
  | .null => True
  | .bool _ => True
  | .int i => -2 ^ 63 ≤ i ∧ i < 2 ^ 63
  | .str s => Char.ofNat 0 ∉ s.toList
  | _ => False

/-- A tree whose inner nodes have no value, whose arrays are keyed by positions and have
no value, and whose other keys and whose values can be written. -/
inductive Writable : InfoTree → Prop
  | leaf (v : Any) (hv : WritableValue v) : Writable (.node ⟨v, false⟩ [])
  | array (cs : List (String × InfoTree))
      (keys : cs.map Prod.fst = (List.range cs.length).map toString)
      (children : ∀ e ∈ cs, Writable e.2) : Writable (.node ⟨.null, true⟩ cs)
  | object (cs : List (String × InfoTree)) (nonempty : cs ≠ [])
      (keys : ∀ e ∈ cs, WritableKey e.1) (nodup : (cs.map Prod.fst).Nodup)
      (children : ∀ e ∈ cs, Writable e.2) : Writable (.node ⟨.null, false⟩ cs)

variable {t : InfoTree} {cs : List (String × InfoTree)} {v : Any} {key : String}

theorem WritableKey.name (h : WritableKey key) :
    Stringutils.cStr (unescapeDots key) = key := by
  rw [unescapeDots, Stringutils.replaceString_of_not_infix _ h.unescaped,
    Stringutils.cStr_of_not_mem h.cStr]

/-- A value is written as the value of a document. -/
theorem writeTypedMember_eq (h : WritableValue v) :
    [writeTypedMember v] = (Json.ofValue v).calls := by
  cases v with
  | null => rfl
  | bool b => rfl
  | int i =>
      have hi : toInt64 i = i := by
        obtain ⟨hle, hlt⟩ := h
        rw [toInt64]
        omega
      rw [writeTypedMember, hi]
      rfl
  | id n => exact h.elim
  | double text => exact h.elim
  | str s =>
      rw [writeTypedMember, Stringutils.cStr_of_not_mem h]
      rfl

/-- The calls for a node with all that is below it, without its name. -/
def nodeCalls (t : InfoTree) : List BuilderCall :=
  onVisitingNode "" t true false ++ writeWalk false t ++ onNodeVisited t

/-- The name comes first, for a node that is not an element. -/
theorem onVisitingNode_named (key : String) (t : InfoTree) (r : Bool) :
    onVisitingNode key t false r =
      .setMemberName (Stringutils.cStr (unescapeDots key)) :: onVisitingNode key t true false := by
  simp [onVisitingNode]

/-- The name of a member is its key. -/
theorem onVisitingNode_member (h : WritableKey key) (t : InfoTree) :
    onVisitingNode key t false false = .setMemberName key :: onVisitingNode "" t true false := by
  rw [onVisitingNode_named, h.name, onVisitingNode, onVisitingNode]
  simp

/-- The index of an element is not written. -/
theorem onVisitingNode_element (key : String) (t : InfoTree) :
    onVisitingNode key t true false = onVisitingNode "" t true false := by
  rw [onVisitingNode, onVisitingNode]
  simp

/-- The children of an array, if each of them is written as its document. -/
theorem writeChildren_array (h : ∀ e ∈ cs, nodeCalls e.2 = (Json.ofTree e.2).calls) :
    writeChildren false true cs = Json.elementCalls (Json.ofElements cs) := by
  induction cs with
  | nil => rfl
  | cons e cs ih =>
      have he := h e (by simp)
      rw [nodeCalls] at he
      rw [writeChildren, onVisitingNode_element, he, Json.ofElements, Json.elementCalls,
        ih fun e' he' => h e' (List.mem_cons_of_mem _ he')]

/-- The children of an object. -/
theorem writeChildren_object (h : ∀ e ∈ cs, nodeCalls e.2 = (Json.ofTree e.2).calls)
    (hkeys : ∀ e ∈ cs, WritableKey e.1) :
    writeChildren false false cs = Json.memberCalls (Json.ofMembers cs) := by
  induction cs with
  | nil => rfl
  | cons e cs ih =>
      have he := h e (by simp)
      rw [nodeCalls] at he
      rw [writeChildren, onVisitingNode_member (hkeys e (by simp)), List.cons_append,
        List.cons_append, he, Json.ofMembers, Json.memberCalls,
        ih (fun e' he' => h e' (List.mem_cons_of_mem _ he'))
          fun e' he' => hkeys e' (List.mem_cons_of_mem _ he')]

/-- The calls before and after the children of an array. -/
theorem calls_array (cs : List (String × InfoTree)) :
    onVisitingNode "" (.node ⟨.null, true⟩ cs) true false = [.beginArray] ∧
      onNodeVisited (.node ⟨.null, true⟩ cs) = [.endArray] := by
  refine ⟨?_, rfl⟩
  cases cs <;> rfl

/-- The calls before and after the children of an object. -/
theorem calls_object (h : cs ≠ []) :
    onVisitingNode "" (.node ⟨.null, false⟩ cs) true false = [.beginObject] ∧
      onNodeVisited (.node ⟨.null, false⟩ cs) = [.endObject] := by
  obtain ⟨e, cs, rfl⟩ := List.exists_cons_of_ne_nil h
  exact ⟨rfl, rfl⟩

/-- A node is written as its document: by induction on the tree. -/
theorem nodeCalls_eq (h : Writable t) : nodeCalls t = (Json.ofTree t).calls := by
  induction h with
  | leaf v hv =>
      have hdocument : Json.ofTree (.node ⟨v, false⟩ []) = Json.ofValue v := rfl
      rw [hdocument, ← writeTypedMember_eq hv]
      cases v <;> rfl
  | array cs keys children ih =>
      rw [Json.ofTree_array, nodeCalls, writeWalk, writeChildren_array ih, (calls_array cs).1,
        (calls_array cs).2, Json.calls, List.singleton_append]
  | object cs nonempty keys nodup children ih =>
      rw [Json.ofTree_object nonempty, nodeCalls, writeWalk, writeChildren_object ih keys,
        (calls_object nonempty).1, (calls_object nonempty).2, Json.calls, List.singleton_append]

/-- The calls for a tree are those of its document. -/
theorem rootCalls_eq (h : Writable t) (hleaf : t.isLeaf = false) :
    rootCalls false t = (Json.ofTree t).calls := by
  rw [← nodeCalls_eq h, rootCalls, nodeCalls]
  cases h with
  | leaf v hv => cases hleaf
  | array cs keys children =>
      rw [(calls_array cs).1, (calls_array cs).2]
      rfl
  | object cs nonempty keys nodup children =>
      rw [(calls_object nonempty).1, (calls_object nonempty).2]
      rfl

/-! ### Reading the document -/

theorem plainNames_ofValue (v : Any) : (Json.ofValue v).PlainNames := by
  cases v <;> exact trivial

theorem plainElements_ofElements (h : ∀ e ∈ cs, (Json.ofTree e.2).PlainNames) :
    Json.PlainElements (Json.ofElements cs) := by
  induction cs with
  | nil => trivial
  | cons e cs ih => exact ⟨h e (by simp), ih fun e' he' => h e' (List.mem_cons_of_mem _ he')⟩

theorem plainMembers_ofMembers (h : ∀ e ∈ cs, (Json.ofTree e.2).PlainNames)
    (hkeys : ∀ e ∈ cs, WritableKey e.1) : Json.PlainMembers (Json.ofMembers cs) := by
  induction cs with
  | nil => trivial
  | cons e cs ih =>
      exact ⟨(hkeys e (by simp)).plain, h e (by simp),
        ih (fun e' he' => h e' (List.mem_cons_of_mem _ he'))
          fun e' he' => hkeys e' (List.mem_cons_of_mem _ he')⟩

/-- The member names of the document are single components, and those of an object are
different. -/
theorem plainNames_ofTree (h : Writable t) : (Json.ofTree t).PlainNames := by
  induction h with
  | leaf v hv => exact plainNames_ofValue v
  | array cs keys children ih =>
      rw [Json.ofTree_array, Json.PlainNames]
      exact plainElements_ofElements ih
  | object cs nonempty keys nodup children ih =>
      rw [Json.ofTree_object nonempty, Json.PlainNames]
      refine ⟨?_, plainMembers_ofMembers ih keys⟩
      rw [Json.ofMembers_eq_map, List.map_map]
      exact nodup

/-- A json-glib that is known to be correct on one document. -/
def oneDocument (text : String) (j : Json) : JsonGlib where
  toData calls := if calls = j.calls then some text else none
  parse s := if s = text then .ok (some j) else .error "not known"

end InfoTree
end LibSwitcher
