/-
# Serializing subtrees

`InfoTree::serialize_json` gives the text of a node, with the positions of objects in arrays
as members `id` of them.  The text of the node at a path should mean what is found, along
the path, in the document of the whole tree, up to this member if the node is such an object
(`Compositional`).

`serialize` writes the text of a root that is a leaf by hand: a string is put between quotes
without escaping it, and an integer is not converted to 64 bits.  The walk leaves both to
json-glib, and it cuts a key at a zero character.  So subtrees agree with the whole tree
exactly where leaves and keys are free of all this (`compositional_iff`).
-/

import LibSwitcher.InfoTree.Accessors
import LibSwitcher.InfoTree.JsonText
import Mathlib

namespace LibSwitcher
namespace Json

/-- A position in an array that is written as a key. -/
def elementAt (k : String) : ℕ → List Json → Option Json
  | _, [] => none
  | i, j :: js => if toString i = k then some j else elementAt k (i + 1) js

/-- What stands under a key: a member, or the element at the position. -/
def child (j : Json) (k : String) : Option Json :=
  match j with
  | .arr js => elementAt k 0 js
  | .obj ms => ms.lookup k
  | _ => none

/-- What is found along a path. -/
def get : List String → Json → Option Json
  | [], j => some j
  | k :: ks, j => (j.child k).bind (get ks)

/-- The second object is the first one with a member `id`, if it has none of its own. -/
def UpToId (key : String) (j j' : Json) : Prop :=
  ∃ ms ms', j = .obj ms ∧ j' = .obj ms' ∧ ∀ name,
    ms'.lookup name = (ms.lookup name).or (if name = "id" then some (.str key) else none)

end Json

namespace InfoTree

open Json

/-! ### The property -/

/-- A tree whose inner nodes have no value, whose arrays are keyed by positions, whose other
keys do not contain `__DOT__`, and whose values are null, booleans, integers or strings. -/
inductive Uniform : InfoTree → Prop
  | leaf (v : Any) (hv : ∀ text, v ≠ .double text) : Uniform (.node ⟨v, false⟩ [])
  | array (cs : List (String × InfoTree))
      (keys : cs.map Prod.fst = (List.range cs.length).map toString)
      (children : ∀ e ∈ cs, Uniform e.2) : Uniform (.node ⟨.null, true⟩ cs)
  | object (cs : List (String × InfoTree)) (nonempty : cs ≠ [])
      (keys : ∀ e ∈ cs, Components.Plain '.' e.1 ∧ ¬"__DOT__".toList <:+: e.1.toList)
      (nodup : (cs.map Prod.fst).Nodup) (children : ∀ e ∈ cs, Uniform e.2) :
      Uniform (.node ⟨.null, false⟩ cs)

/-- A path to an element of an array, under a key. -/
def ElementKey (t : InfoTree) (ks : List String) (key : String) : Prop :=
  ∃ ks' parent, ks = ks' ++ [key] ∧ t.get ks' = some parent ∧ isArray parent = true

/-- The text of the node at each path means what is found there in the document of the whole
tree, up to the member `id` of an object in an array. -/
def Compositional (glib : JsonGlib) (t : InfoTree) : Prop :=
  ∃ whole, read (serializeJson (serialize glib true) "." t) = some whole ∧
    ∀ path n, branch path t = some n → ∃ j j',
      read (serializeJson (serialize glib true) path t) = some j ∧
        whole.get (components path) = some j' ∧
          (j' = j ∨ ∃ key, ElementKey t (components path) key ∧ UpToId key j j')

/-- A text that may stand between the quotes of a string. -/
def isQuotable (s : String) : Bool :=
  match readString (s.toList ++ ['"']) with
  | some (_, []) => true
  | _ => false

/-- A value that is the same in the text of a leaf and in json-glib: an integer of 64 bits, or
a string whose characters stand for themselves. -/
def Literal : Any → Prop
  | .int i => toInt64 i = i
  | .id n => toInt64 n = n
  | .str s => Verbatim s.toList
  | _ => True

/-- All values are literal, and no key has a zero character. -/
def AllLiteral (t : InfoTree) : Prop :=
  ∀ ks n, t.get ks = some n →
    (∀ k ∈ ks, Char.ofNat 0 ∉ k.toList) ∧ (isLeaf n = true → Literal (data n))

/-! ### The documents of the builder calls -/

/-- The document of the value of a leaf. -/
def ofLeaf : Any → Json
  | .null => .null
  | .bool b => .bool b
  | .int i => .int (toInt64 i)
  | .id n => .int (toInt64 n)
  | .double text => .double text
  | .str s => .str (Stringutils.cStr s)

/-- The name of a member, and the value of a member `id`. -/
def memberName (key : String) : String := Stringutils.cStr (unescapeDots key)

/-- An object with its position as a first member. -/
def addId (key : String) : Json → Json
  | .obj ms => .obj (("id", .str (memberName key)) :: ms)
  | j => j

mutual

/-- The document that `serialize` has built. -/
def document : InfoTree → Json
  | .node d cs =>
      if d.isArray then .arr (elementDocuments cs)
      else if cs.isEmpty then ofLeaf d.data
      else .obj (memberDocuments cs)

/-- The documents of the elements of an array. -/
def elementDocuments : List (String × InfoTree) → List Json
  | [] => []
  | (key, c) :: cs => addId key (document c) :: elementDocuments cs

/-- The members of an object. -/
def memberDocuments : List (String × InfoTree) → List (String × Json)
  | [] => []
  | (key, c) :: cs => (memberName key, document c) :: memberDocuments cs

end

variable {t n c : InfoTree} {cs : List (String × InfoTree)} {ks : List String} {k key : String}
  {v : Any} {s : String} {glib : JsonGlib} {j : Json} {ms acc : List (String × Json)}

theorem calls_ofLeaf (v : Any) : (ofLeaf v).calls = [writeTypedMember v] := by
  cases v <;> rfl

/-- The calls for the elements of an array, if those for each are the ones of its document. -/
theorem writeChildren_elements (h : ∀ e ∈ cs, ∀ key,
    onVisitingNode key e.2 true true ++ writeWalk true e.2 ++ onNodeVisited e.2 =
      (addId key (document e.2)).calls) :
    writeChildren true true cs = Json.elementCalls (elementDocuments cs) := by
  induction cs with
  | nil => rfl
  | cons e cs ih =>
      rw [writeChildren, h e List.mem_cons_self e.1, elementDocuments, Json.elementCalls,
        ih fun e' he' => h e' (List.mem_cons_of_mem _ he')]

/-- The calls for the members of an object. -/
theorem writeChildren_members (h : ∀ e ∈ cs, ∀ key,
    onVisitingNode key e.2 true false ++ writeWalk true e.2 ++ onNodeVisited e.2 =
      (document e.2).calls) :
    writeChildren true false cs = Json.memberCalls (memberDocuments cs) := by
  induction cs with
  | nil => rfl
  | cons e cs ih =>
      rw [writeChildren, onVisitingNode_named, List.cons_append, List.cons_append,
        h e List.mem_cons_self e.1, memberDocuments, Json.memberCalls,
        ih fun e' he' => h e' (List.mem_cons_of_mem _ he'), memberName]

/-- A node is written as its document, with the member `id` if it is an element: by induction
on the tree. -/
theorem calls_document (h : Uniform t) (key : String) :
    onVisitingNode key t true true ++ writeWalk true t ++ onNodeVisited t =
        (addId key (document t)).calls ∧
      onVisitingNode key t true false ++ writeWalk true t ++ onNodeVisited t =
        (document t).calls := by
  induction h generalizing key with
  | leaf v hv =>
      have hdocument : document (.node ⟨v, false⟩ []) = ofLeaf v := rfl
      have hid : addId key (ofLeaf v) = ofLeaf v := by cases v <;> rfl
      rw [hdocument, hid, calls_ofLeaf]
      cases v <;> exact ⟨rfl, rfl⟩
  | array cs keys children ih =>
      have hdocument : document (.node ⟨.null, true⟩ cs) = .arr (elementDocuments cs) := rfl
      have hcalls := writeChildren_elements fun e he key => (ih e he key).1
      have hid : addId key (.arr (elementDocuments cs)) = .arr (elementDocuments cs) := rfl
      rw [hdocument, hid, Json.calls, ← hcalls, writeWalk]
      cases cs <;> exact ⟨rfl, rfl⟩
  | object cs nonempty keys nodup children ih =>
      have hdocument : document (.node ⟨.null, false⟩ cs) = .obj (memberDocuments cs) := by
        rw [document, if_neg Bool.false_ne_true, if_neg (by simpa using nonempty)]
      have hcalls := writeChildren_members fun e he key => (ih e he key).2
      rw [hdocument, addId, Json.calls, Json.calls, Json.memberCalls, ← hcalls, writeWalk]
      obtain ⟨e, cs, rfl⟩ := List.exists_cons_of_ne_nil nonempty
      exact ⟨rfl, rfl⟩

/-- What `serialize` has built. -/
theorem rootCalls_document (h : Uniform t) (hleaf : t.isLeaf = false) :
    rootCalls true t = (document t).calls := by
  rw [← (calls_document h "").2, rootCalls]
  cases h with
  | leaf v hv => cases hleaf
  | array cs keys children => cases cs <;> rfl
  | object cs nonempty keys nodup children =>
      obtain ⟨e, cs, rfl⟩ := List.exists_cons_of_ne_nil nonempty
      rfl

/-! ### Documents along paths -/

/-- Where the key of an element is found. -/
theorem elementAt_eq_some {i : ℕ} {js : List Json} (h : elementAt k i js = some j) :
    j ∈ js ∧ ∃ i : ℕ, k = toString i := by
  induction js generalizing i with
  | nil => cases h
  | cons j' js ih =>
      rw [elementAt] at h
      split_ifs at h with hk
      · obtain rfl := Option.some.inj h
        exact ⟨List.mem_cons_self, i, hk.symm⟩
      · obtain ⟨hj, hk⟩ := ih h
        exact ⟨List.mem_cons_of_mem _ hj, hk⟩

/-- The elements of an array are found under its keys. -/
theorem elementAt_elementDocuments (i : ℕ)
    (hkeys : cs.map Prod.fst = (List.range' i cs.length).map toString)
    (hc : cs.lookup k = some c) :
    elementAt k i (builtElements (elementDocuments cs)) = some (addId k (document c)).built := by
  induction cs generalizing i with
  | nil => cases hc
  | cons e cs ih =>
      rw [List.map_cons, List.length_cons, List.range'_succ, List.map_cons, List.cons.injEq] at hkeys
      obtain ⟨key, c'⟩ := e
      obtain ⟨hkey, hkeys⟩ := hkeys
      dsimp only at hkey
      rw [elementDocuments, builtElements, elementAt]
      rw [List.lookup_cons] at hc
      by_cases hk : k = key
      · rw [hk, BEq.rfl] at hc
        obtain rfl := Option.some.inj hc
        rw [if_pos (by rw [hk, hkey]), hk]
      · rw [beq_eq_false_iff_ne.2 hk] at hc
        rw [if_neg (by rw [← hkey]; exact Ne.symm hk)]
        exact ih (i + 1) hkeys hc

theorem memberDocuments_eq_map (cs : List (String × InfoTree)) :
    memberDocuments cs = cs.map fun e => (memberName e.1, document e.2) := by
  induction cs with
  | nil => rfl
  | cons e cs ih => rw [memberDocuments, ih, List.map_cons]

theorem elementDocuments_eq_map (cs : List (String × InfoTree)) :
    elementDocuments cs = cs.map fun e => addId e.1 (document e.2) := by
  induction cs with
  | nil => rfl
  | cons e cs ih => rw [elementDocuments, ih, List.map_cons]

/-- The position of an object does not hide a member. -/
theorem child_built_addId {c : Json} (key : String) (h : j.built.child k = some c) :
    (addId key j).built.child k = some c := by
  cases j with
  | obj ms =>
      change (builtMembers ms [("id", .str (memberName key))]).lookup k = some c
      rw [lookup_builtMembers, show (builtMembers ms []).lookup k = some c from h, Option.some_or]
  | null => exact h
  | bool b => exact h
  | int i => exact h
  | double text => exact h
  | str s => exact h
  | arr js => exact h

/-- The position of an object is all that is added to it. -/
theorem upToId_built_addId (hkey : memberName key = key) (j : Json) :
    (addId key j).built = j.built ∨ UpToId key j.built (addId key j).built := by
  cases j with
  | obj ms =>
      refine Or.inr ⟨builtMembers ms [], builtMembers ms [("id", .str (memberName key))], rfl, rfl,
        fun name => ?_⟩
      rw [lookup_builtMembers, hkey, List.lookup_cons]
      by_cases hname : name = "id"
      · rw [if_pos hname, hname, BEq.rfl]
      · rw [if_neg hname, beq_eq_false_iff_ne.2 hname]
        rfl
  | null => exact Or.inl rfl
  | bool b => exact Or.inl rfl
  | int i => exact Or.inl rfl
  | double text => exact Or.inl rfl
  | str s => exact Or.inl rfl
  | arr js => exact Or.inl rfl

/-- A position is written as it is. -/
theorem memberName_toString (i : ℕ) : memberName (toString i) = toString i := by
  have hplain : Components.Plain (Char.ofNat 0) (toString i) :=
    Components.plain_toString (by decide) i
  rw [memberName, unescapeDots, Stringutils.replaceString_of_not_infix _ (not_infix_toString i),
    Stringutils.cStr_of_not_mem hplain.2]

/-- No name is cut or unescaped. -/
def KeysKept (t : InfoTree) : Prop :=
  ∀ ks n, t.get ks = some n → ∀ k ∈ ks, Char.ofNat 0 ∉ k.toList

theorem KeysKept.child (h : KeysKept t) (hc : t.child k = some c) : KeysKept c := by
  intro ks n hn k' hk'
  refine h (k :: ks) n ?_ k' (List.mem_cons_of_mem _ hk')
  rw [KeyTree.get_cons, hc, Option.bind_some, hn]

/-- A member is found under its key, if no key is cut. -/
theorem lookup_memberDocuments (hnames : ∀ e ∈ cs, memberName e.1 = e.1)
    (hnodup : (cs.map Prod.fst).Nodup) (hc : cs.lookup k = some c) :
    (builtMembers (memberDocuments cs) []).lookup k = some (document c).built := by
  have hmap : memberDocuments cs = cs.map fun e => (e.1, document e.2) := by
    rw [memberDocuments_eq_map]
    exact List.map_congr_left fun e he => by rw [hnames e he]
  rw [hmap, lookup_builtMembers_nil k (by rwa [List.map_map]), KeyTree.lookup_map_snd, hc]
  rfl

/-- What stands under a key of a tree is found in its document, with its position if the tree
is an array. -/
theorem child_document (h : Uniform t) (hkeys : KeysKept t) (hc : t.child k = some c) :
    (document t).built.child k = some (document c).built ∨
      (t.isArray = true ∧ memberName k = k) ∧
        (document t).built.child k = some (addId k (document c)).built := by
  cases h with
  | leaf v hv => cases hc
  | array cs keys children =>
      have hmem : k ∈ cs.map Prod.fst := List.mem_map_of_mem (KeyTree.mem_of_lookup hc)
      rw [keys] at hmem
      obtain ⟨i, -, rfl⟩ := List.mem_map.1 hmem
      rw [List.range_eq_range'] at keys
      exact Or.inr ⟨⟨rfl, memberName_toString i⟩, elementAt_elementDocuments 0 keys hc⟩
  | object cs nonempty keys nodup children =>
      have hnames : ∀ e ∈ cs, memberName e.1 = e.1 := by
        intro e he
        have hget : KeyTree.get [e.1] (.node ⟨.null, false⟩ cs) = some e.2 := by
          rw [KeyTree.get_singleton]
          exact KeyTree.lookup_of_mem nodup he
        rw [memberName, unescapeDots, Stringutils.replaceString_of_not_infix _ (keys e he).2,
          Stringutils.cStr_of_not_mem (hkeys [e.1] e.2 hget e.1 (by simp))]
      have hdocument : document (.node ⟨.null, false⟩ cs) = .obj (memberDocuments cs) := by
        rw [document, if_neg Bool.false_ne_true, if_neg (by simpa using nonempty)]
      rw [hdocument]
      exact Or.inl (lookup_memberDocuments hnames nodup hc)

theorem Uniform.child (h : Uniform t) (hc : t.child k = some c) : Uniform c := by
  cases h with
  | leaf v hv => cases hc
  | array cs keys children => exact children _ (KeyTree.mem_of_lookup hc)
  | object cs nonempty keys nodup children => exact children _ (KeyTree.mem_of_lookup hc)

theorem ElementKey.cons {k' : String} (hc : t.child k = some c) (h : ElementKey c ks k') :
    ElementKey t (k :: ks) k' := by
  obtain ⟨ks', parent, rfl, hparent, harray⟩ := h
  exact ⟨k :: ks', parent, rfl, by rw [KeyTree.get_cons, hc, Option.bind_some, hparent], harray⟩

/-- What is found along a path in the document of a tree is the document of the node there, up
to its position in an array: by induction on the path. -/
theorem get_document (h : Uniform t) (hkeys : KeysKept t) (hn : t.get ks = some n) :
    ∃ j, (document t).built.get ks = some j ∧
      (j = (document n).built ∨ ∃ key, ElementKey t ks key ∧ UpToId key (document n).built j) := by
  induction ks generalizing t with
  | nil =>
      obtain rfl := Option.some.inj hn
      exact ⟨_, rfl, Or.inl rfl⟩
  | cons k ks ih =>
      obtain ⟨c, hc, hn⟩ := Option.bind_eq_some_iff.1 ((KeyTree.get_cons k ks t).symm.trans hn)
      obtain ⟨j, hj, hupto⟩ := ih (h.child hc) (hkeys.child hc) hn
      have hupto : j = (document n).built ∨
          ∃ key, ElementKey t (k :: ks) key ∧ UpToId key (document n).built j :=
        hupto.imp_right fun ⟨key, hkey, hid⟩ => ⟨key, hkey.cons hc, hid⟩
      rcases child_document h hkeys hc with hchild | ⟨⟨harray, hname⟩, hchild⟩
      · exact ⟨j, by rw [Json.get, hchild, Option.bind_some, hj], hupto⟩
      · cases ks with
        | nil =>
            obtain rfl := Option.some.inj hn
            refine ⟨_, by rw [Json.get, hchild]; rfl, ?_⟩
            exact (upToId_built_addId hname _).imp_right fun hid => ⟨k, ⟨[], t, rfl, rfl, harray⟩, hid⟩
        | cons k' ks =>
            obtain ⟨j', hj', hget⟩ := Option.bind_eq_some_iff.1 hj
            refine ⟨j, ?_, hupto⟩
            rw [Json.get, hchild, Option.bind_some, Json.get, child_built_addId k hj',
              Option.bind_some, hget]

/-- A part of the document of some tree. -/
def Part (j : Json) : Prop :=
  (∃ t key, j = (document t).built ∨ j = (addId key (document t)).built) ∨ ∃ s, j = .str s

/-- What is found among the members of an object has a name that is cut at a zero. -/
theorem Part.of_lookup {j' : Json} (hacc : ∀ e ∈ acc, Char.ofNat 0 ∉ e.1.toList ∧ Part e.2)
    (h : (builtMembers (memberDocuments cs) acc).lookup k = some j') :
    Char.ofNat 0 ∉ k.toList ∧ Part j' := by
  rcases mem_builtMembers (KeyTree.mem_of_lookup h) with hmem | ⟨m, hm, heq⟩
  · exact hacc _ hmem
  · rw [memberDocuments_eq_map] at hm
    obtain ⟨e, -, rfl⟩ := List.mem_map.1 hm
    obtain ⟨rfl, rfl⟩ := Prod.mk.inj heq
    exact ⟨Stringutils.not_mem_cStr _, Or.inl ⟨e.2, "", Or.inl rfl⟩⟩

/-- What is found among the elements of an array has a position for a key. -/
theorem Part.of_elementAt {j' : Json}
    (h : elementAt k 0 (builtElements (elementDocuments cs)) = some j') :
    Char.ofNat 0 ∉ k.toList ∧ Part j' := by
  obtain ⟨hmem, i, rfl⟩ := elementAt_eq_some h
  rw [builtElements_eq_map, elementDocuments_eq_map, List.map_map] at hmem
  obtain ⟨e, -, rfl⟩ := List.mem_map.1 hmem
  have hplain : Components.Plain (Char.ofNat 0) (toString i) :=
    Components.plain_toString (by decide) i
  exact ⟨hplain.2, Or.inl ⟨e.2, e.1, Or.inr rfl⟩⟩

/-- No key has a zero character where a part has something under it. -/
theorem Part.child {j' : Json} (h : Part j) (hchild : j.child k = some j') :
    Char.ofNat 0 ∉ k.toList ∧ Part j' := by
  rcases h with ⟨⟨d, cs⟩, key, h⟩ | ⟨s, rfl⟩
  · by_cases harray : d.isArray = true
    · have hdocument : document (.node d cs) = .arr (elementDocuments cs) := by
        rw [document, if_pos harray]
      rw [hdocument] at h
      obtain rfl : j = .arr (builtElements (elementDocuments cs)) := h.elim id id
      exact Part.of_elementAt hchild
    · by_cases hleaf : cs.isEmpty = true
      · have hdocument : document (.node d cs) = ofLeaf d.data := by
          rw [document, if_neg harray, if_pos hleaf]
        have hnone : j.child k = none := by
          rw [hdocument] at h
          rcases h with rfl | rfl <;> cases d.data <;> rfl
        cases hnone.symm.trans hchild
      · have hdocument : document (.node d cs) = .obj (memberDocuments cs) := by
          rw [document, if_neg harray, if_neg hleaf]
        rw [hdocument] at h
        rcases h with rfl | rfl
        · exact Part.of_lookup (List.forall_mem_nil _) hchild
        · have hid : Char.ofNat 0 ∉ "id".toList := by decide
          exact Part.of_lookup (List.forall_mem_singleton.2 ⟨hid, Or.inr ⟨_, rfl⟩⟩) hchild
  · cases hchild

/-- A path along which something is found has no zero character. -/
theorem Part.get {j' : Json} (h : Part j) (hget : j.get ks = some j') :
    ∀ k ∈ ks, Char.ofNat 0 ∉ k.toList := by
  induction ks generalizing j with
  | nil => exact List.forall_mem_nil _
  | cons k ks ih =>
      obtain ⟨c, hc, hget⟩ := Option.bind_eq_some_iff.1 hget
      obtain ⟨hk, hc⟩ := h.child hc
      exact List.forall_mem_cons.2 ⟨hk, ih hc hget⟩

/-! ### Texts of leaves -/

/-- The hand-written text of a leaf means the value that json-glib is given exactly if the
value is literal. -/
theorem read_leafText_iff (h : Uniform t) (hleaf : t.isLeaf = true) :
    read (leafText t) = some (document t).built ↔ Literal t.data := by
  cases h with
  | leaf v hv =>
      cases v with
      | null => exact iff_of_true read_null trivial
      | bool b => exact iff_of_true (read_bool b) trivial
      | int i =>
          change read (toString i) = some (.int (toInt64 i)) ↔ toInt64 i = i
          rw [read_int, Option.some.injEq, Json.int.injEq, eq_comm]
      | id m =>
          change read (toString (m : ℤ)) = some (.int (toInt64 m)) ↔ toInt64 m = m
          rw [read_int, Option.some.injEq, Json.int.injEq, eq_comm]
      | double text => exact absurd rfl (hv text)
      | str s =>
          change read ("\"" ++ s ++ "\"") = some (.str (Stringutils.cStr s)) ↔ Verbatim s.toList
          constructor
          · intro h
            obtain ⟨s', -, hstring⟩ := read_quoted_eq_some_iff.1 h
            obtain ⟨⟨us, rest⟩, hunits, hdecode⟩ := Option.bind_eq_some_iff.1 hstring
            obtain ⟨cs, -, hchars⟩ := Option.map_eq_some_iff.1 hdecode
            obtain ⟨body, hbody, hzero⟩ := readUnits_body hunits
            obtain rfl : rest = [] := (Prod.mk.inj hchars).2
            rw [← List.append_cancel_right hbody] at hzero
            rw [Stringutils.cStr_of_not_mem hzero] at h
            exact read_quoted_iff.1 h
          · intro h
            have hzero : Char.ofNat 0 ∉ s.toList := fun hmem => absurd (h _ hmem) (by decide)
            rw [Stringutils.cStr_of_not_mem hzero]
            exact read_quoted_iff.2 h
  | array cs keys children =>
      obtain rfl : cs = [] := List.isEmpty_iff.1 hleaf
      exact iff_of_true read_empty trivial
  | object cs nonempty keys nodup children => exact absurd (List.isEmpty_iff.1 hleaf) nonempty

/-- The text of a leaf is a document, unless it is a string with a wrong escape. -/
theorem exists_read_leafText_iff (h : Uniform t) (hleaf : t.isLeaf = true) :
    (∃ j, read (leafText t) = some j) ↔ ∀ s, t.data = .str s → isQuotable s = true := by
  cases h with
  | leaf v hv =>
      by_cases hstr : ∃ s, v = .str s
      · obtain ⟨s, rfl⟩ := hstr
        change (∃ j, read ("\"" ++ s ++ "\"") = some j) ↔ ∀ s', Any.str s = .str s' → isQuotable s'
        constructor
        · rintro ⟨j, hj⟩ s' hs'
          obtain rfl := Any.str.inj hs'
          obtain ⟨s', -, hstring⟩ := read_quoted_eq_some_iff.1 hj
          rw [isQuotable, hstring]
        · intro h
          have hquotable := h s rfl
          unfold isQuotable at hquotable
          split at hquotable
          · rename_i s' hstring
            exact ⟨.str s', read_quoted_eq_some_iff.2 ⟨s', rfl, hstring⟩⟩
          · cases hquotable
      · have hliteral : ∃ j, read (leafText (.node ⟨v, false⟩ [])) = some j := by
          cases v with
          | null => exact ⟨_, read_null⟩
          | bool b => exact ⟨_, read_bool b⟩
          | int i => exact ⟨_, read_int i⟩
          | id m => exact ⟨_, read_int m⟩
          | double text => exact absurd rfl (hv text)
          | str s => exact absurd ⟨s, rfl⟩ hstr
        exact iff_of_true hliteral fun s hs => absurd ⟨s, hs⟩ hstr
  | array cs keys children =>
      obtain rfl : cs = [] := List.isEmpty_iff.1 hleaf
      refine iff_of_true ⟨_, read_empty⟩ fun s hs => ?_
      cases hs
  | object cs nonempty keys nodup children => exact absurd (List.isEmpty_iff.1 hleaf) nonempty

/-! ### The condition -/

theorem Uniform.wellKeyed (h : Uniform t) : t.WellKeyed := by
  induction h with
  | leaf v hv => exact KeyTree.wellKeyed_nil _
  | array cs keys children ih =>
      refine .node _ _ (fun e he => ?_) ?_ ih
      · have hmem : e.1 ∈ cs.map Prod.fst := List.mem_map_of_mem he
        rw [keys] at hmem
        obtain ⟨i, -, hi⟩ := List.mem_map.1 hmem
        rw [← hi]
        exact Components.plain_toString (by decide) i
      · rw [keys]
        exact List.Nodup.map (fun m n h => Components.toString_inj.1 h) List.nodup_range
  | object cs nonempty keys nodup children ih =>
      exact .node _ _ (fun e he => (keys e he).1) nodup ih

theorem Uniform.get (h : Uniform t) (hn : t.get ks = some n) : Uniform n := by
  induction ks generalizing t with
  | nil =>
      obtain rfl := Option.some.inj hn
      exact h
  | cons k ks ih =>
      obtain ⟨c, hc, hn⟩ := Option.bind_eq_some_iff.1 ((KeyTree.get_cons k ks t).symm.trans hn)
      exact ih (h.child hc) hn

/-- Every node below the root has a path. -/
theorem exists_path (h : Uniform t) (hn : t.get ks = some n) (hks : ks ≠ []) :
    ∃ path, components path = ks ∧ branch path t = some n := by
  obtain ⟨path, hpath⟩ : ∃ path, components path = ks :=
    Components.exists_components_eq (h.wellKeyed.mem_path hn)
  refine ⟨path, hpath, ?_⟩
  rw [branch_eq_get (by rwa [hpath]), hpath, hn]

/-- What a path denotes is what its components lead to. -/
theorem get_of_branch {path : String} (h : branch path t = some n) :
    t.get (components path) = some n := by
  by_cases hcomps : components path = []
  · rw [branch, getNode, if_pos hcomps] at h
    split_ifs at h
    rw [hcomps, KeyTree.get_nil, h]
  · rwa [branch_eq_get hcomps] at h

/-- The text of an inner node, if json-glib is correct on its document. -/
theorem read_serialize (h : Uniform t) (hleaf : t.isLeaf = false)
    (hglib : glib.Generates (document t)) :
    read (serialize glib true t) = some (document t).built := by
  obtain ⟨text, hdata, hread⟩ := hglib
  rw [serialize, if_neg (by simp [hleaf]), rootCalls_document h hleaf, hdata, Option.getD_some,
    hread]

theorem serializeJson_of_branch {path : String} (h : branch path t = some n) :
    serializeJson (serialize glib true) path t = serialize glib true n := by
  rw [serializeJson, h, Option.map_some, Option.getD_some]

theorem branch_root (t : InfoTree) : branch "." t = some t := if_pos (by decide)

/-- The only node of a leaf is the leaf. -/
theorem get_of_isLeaf (hleaf : t.isLeaf = true) (hn : t.get ks = some n) : ks = [] ∧ n = t := by
  cases ks with
  | nil => exact ⟨rfl, (Option.some.inj hn).symm⟩
  | cons k ks =>
      obtain ⟨c, hc, -⟩ := Option.bind_eq_some_iff.1 ((KeyTree.get_cons k ks t).symm.trans hn)
      rw [KeyTree.child, List.isEmpty_iff.1 hleaf] at hc
      cases hc

/-- The texts of a leaf agree if there is one. -/
theorem compositional_leaf_iff (h : Uniform t) (hleaf : t.isLeaf = true) :
    Compositional glib t ↔ ∀ s, t.data = .str s → isQuotable s = true := by
  have hroot : serializeJson (serialize glib true) "." t = leafText t := by
    rw [serializeJson_of_branch (branch_root t), serialize, if_pos hleaf]
  rw [← exists_read_leafText_iff h hleaf, Compositional, hroot]
  constructor
  · rintro ⟨j, hj, -⟩
    exact ⟨j, hj⟩
  · rintro ⟨j, hj⟩
    refine ⟨j, hj, fun path n hn => ⟨j, j, ?_, ?_, Or.inl rfl⟩⟩
    · rw [serializeJson_of_branch hn, (get_of_isLeaf hleaf (get_of_branch hn)).2, serialize,
        if_pos hleaf, hj]
    · rw [(get_of_isLeaf hleaf (get_of_branch hn)).1]
      rfl

/-- Only to objects something can be added. -/
theorem eq_of_upToId {j' : Json} {P : String → Prop}
    (h : j' = j ∨ ∃ key, P key ∧ UpToId key j j')
    (hj : (∀ ms, j ≠ .obj ms) ∨ ∀ ms, j' ≠ .obj ms) : j' = j := by
  rcases h with h | ⟨key, -, ms, ms', rfl, rfl, -⟩
  · exact h
  · rcases hj with hj | hj
    · exact absurd rfl (hj ms)
    · exact absurd rfl (hj ms')

theorem document_leaf_ne_obj (h : Uniform t) (hleaf : t.isLeaf = true) :
    ∀ ms, (document t).built ≠ .obj ms := by
  intro ms heq
  cases h with
  | leaf v hv => cases v <;> cases heq
  | array cs keys children => cases heq
  | object cs nonempty keys nodup children => exact absurd (List.isEmpty_iff.1 hleaf) nonempty

/-- The texts of the nodes agree with the text of the whole tree exactly if its leaves and
keys need no care: the tree is a leaf whose text is a document, or all is literal. -/
theorem compositional_iff (h : Uniform t)
    (hglib : ∀ ks n, t.get ks = some n → isLeaf n = false → glib.Generates (document n)) :
    Compositional glib t ↔
      if t.isLeaf then ∀ s, t.data = .str s → isQuotable s = true else AllLiteral t := by
  by_cases hleaf : t.isLeaf = true
  · rw [if_pos hleaf]
    exact compositional_leaf_iff h hleaf
  · rw [if_neg hleaf]
    rw [Bool.not_eq_true] at hleaf
    have hroot : read (serializeJson (serialize glib true) "." t) = some (document t).built := by
      rw [serializeJson_of_branch (branch_root t), read_serialize h hleaf (hglib [] t rfl hleaf)]
    constructor
    · rintro ⟨whole, hwhole, hnodes⟩
      obtain rfl := Option.some.inj (hroot.symm.trans hwhole)
      have hkeys : KeysKept t := by
        intro ks n hn k hk
        obtain ⟨path, hpath, hbranch⟩ := exists_path h hn (List.ne_nil_of_mem hk)
        obtain ⟨j, j', -, hget, -⟩ := hnodes path n hbranch
        rw [hpath] at hget
        exact Part.get (Or.inl ⟨t, "", Or.inl rfl⟩) hget k hk
      refine fun ks n hn => ⟨hkeys ks n hn, fun hleafn => ?_⟩
      have hks : ks ≠ [] := by
        rintro rfl
        obtain rfl := Option.some.inj hn
        cases hleaf.symm.trans hleafn
      obtain ⟨path, hpath, hbranch⟩ := exists_path h hn hks
      obtain ⟨j, j', hread, hget, hupto⟩ := hnodes path n hbranch
      obtain ⟨j'', hget', hupto'⟩ := get_document h hkeys hn
      rw [hpath] at hget
      obtain rfl := Option.some.inj (hget.symm.trans hget')
      have hn' := h.get hn
      have hj' := eq_of_upToId hupto' (Or.inl (document_leaf_ne_obj hn' hleafn))
      subst hj'
      have hj := eq_of_upToId hupto (Or.inr (document_leaf_ne_obj hn' hleafn))
      rw [← hj, serializeJson_of_branch hbranch, serialize, if_pos hleafn] at hread
      exact (read_leafText_iff hn' hleafn).1 hread
    · intro hliteral
      have hkeys : KeysKept t := fun ks n hn => (hliteral ks n hn).1
      refine ⟨_, hroot, fun path n hn => ?_⟩
      have hget := get_of_branch hn
      have hn' := h.get hget
      obtain ⟨j', hj', hupto⟩ := get_document h hkeys hget
      refine ⟨(document n).built, j', ?_, hj', hupto⟩
      rw [serializeJson_of_branch hn]
      by_cases hleafn : isLeaf n = true
      · rw [serialize, if_pos hleafn]
        exact (read_leafText_iff hn' hleafn).2 ((hliteral _ n hget).2 hleafn)
      · rw [Bool.not_eq_true] at hleafn
        exact read_serialize hn' hleafn (hglib _ n hget hleafn)

/-- An object in a list. -/
def shelfTree : InfoTree :=
  .node emptyNode [("shelf", .node ⟨.null, true⟩
    [("0", .node emptyNode [("name", makeValue (.str "x"))])])]

/-- The documents of its inner nodes with their texts. -/
def shelfTexts : List (Json × String) :=
  let book : Json := .obj [("name", .str "x")]
  let shelf : Json := .arr [.obj [("id", .str "0"), ("name", .str "x")]]
  [(book, "\x7b\n  \"name\" : \"x\"\n\x7d"),
    (shelf, "[\n  \x7b\n    \"id\" : \"0\",\n    \"name\" : \"x\"\n  \x7d\n]"),
    (.obj [("shelf", shelf)], "\x7b\n  \"shelf\" : [\n    \x7b\n      \"id\" : \"0\",\n" ++
      "      \"name\" : \"x\"\n    \x7d\n  ]\n\x7d")]

/-- A json-glib that is known to be correct on some documents. -/
def someDocuments (texts : List (Json × String)) : JsonGlib where
  toData calls := (texts.find? fun e => e.1.calls = calls).map Prod.snd
  parse _ := .error "not known"

theorem uniform_shelfTree : Uniform shelfTree := by
  have hbook : Uniform (.node emptyNode [("name", makeValue (.str "x"))]) :=
    .object _ (by simp) (List.forall_mem_singleton.2 ⟨by decide, by decide⟩) (by decide)
      (List.forall_mem_singleton.2 (.leaf _ (by simp)))
  have hshelf : Uniform (.node ⟨.null, true⟩
      [("0", .node emptyNode [("name", makeValue (.str "x"))])]) :=
    .array _ rfl (List.forall_mem_singleton.2 hbook)
  exact .object _ (by simp) (List.forall_mem_singleton.2 ⟨by decide, by decide⟩) (by decide)
    (List.forall_mem_singleton.2 hshelf)

/-- A single child is found under its key only. -/
theorem get_single {d : NodeData} {e : String × InfoTree}
    (hn : (KeyTree.node d [e]).get ks = some n) :
    ks = [] ∧ n = .node d [e] ∨ ∃ ks', ks = e.1 :: ks' ∧ e.2.get ks' = some n := by
  cases ks with
  | nil => exact Or.inl ⟨rfl, (Option.some.inj hn).symm⟩
  | cons k ks =>
      obtain ⟨c, hc, hget⟩ := Option.bind_eq_some_iff.1 ((KeyTree.get_cons k ks _).symm.trans hn)
      obtain rfl := List.mem_singleton.1 (KeyTree.mem_of_lookup hc)
      exact Or.inr ⟨ks, rfl, hget⟩

/-- The texts of its nodes agree. -/
theorem compositional_shelfTree : Compositional (someDocuments shelfTexts) shelfTree ↔
    if shelfTree.isLeaf then ∀ s, shelfTree.data = .str s → isQuotable s = true
    else AllLiteral shelfTree := by
  refine compositional_iff uniform_shelfTree fun ks n hn hleaf => ?_
  rcases get_single hn with ⟨-, rfl⟩ | ⟨ks, -, hn⟩
  · exact ⟨_, by cbv, by cbv⟩
  · rcases get_single hn with ⟨-, rfl⟩ | ⟨ks, -, hn⟩
    · exact ⟨_, by cbv, by cbv⟩
    · rcases get_single hn with ⟨-, rfl⟩ | ⟨ks, -, hn⟩
      · exact ⟨_, by cbv, by cbv⟩
      · rw [(get_of_isLeaf rfl hn).2] at hleaf
        cases hleaf

/-- The document of an object whose string has a quote. -/
def quoteTexts : List (Json × String) :=
  [(.obj [("title", .str "a\"b")], "\x7b\n  \"title\" : \"a\\\"b\"\n\x7d")]

/-- The text of the string alone is no document. -/
theorem not_compositional_quote : ¬Compositional (someDocuments quoteTexts)
    (.node emptyNode [("title", makeValue (.str "a\"b"))]) := by
  rintro ⟨whole, -, hnodes⟩
  obtain ⟨j, -, hread, -⟩ := hnodes "title" (makeValue (.str "a\"b")) (by rfl)
  have hnone : read "\"a\"b\"" = none := by cbv
  cases hnone.symm.trans hread

end InfoTree
end LibSwitcher
