/-
# Decoding documents

Whether `deserialize` loses something of a document.  Every member should be found in the
tree under its name, with the dots escaped (`Shows`), and serializing the tree should give
the same document, up to the order of members, and to empty objects, which may come back as
null (`Same`).

The names are grafted as paths, without being escaped first ("FIXME do escape"): of
`{"a.b": 1, "c": 2}` a tree with `b` below `a` is made.  So the document is kept exactly
if every member name is a single component, that is, not empty and without dots
(`decoded_iff`).  After a name that cannot be grafted, the reader is left inside the member,
and nothing more is known of the tree than where its keys come from (`Deserialized`).

The documents are those that the parser hands over with integers of 64 bits as numbers
(`Regular`): strings end at the first zero character there.
-/

import LibSwitcher.InfoTree.JsonText
import Mathlib

namespace LibSwitcher
namespace Json

/-! ### Documents -/

mutual

/-- Documents with integers of 64 bits for numbers and with different member names in each
object, none of which contains `__DOT__`. -/
def Regular : Json → Prop
  | .null => True
  | .bool _ => True
  | .int i => -2 ^ 63 ≤ i ∧ i < 2 ^ 63
  | .double _ => False
  | .str s => Char.ofNat 0 ∉ s.toList
  | .arr js => RegularElements js
  | .obj ms => (ms.map Prod.fst).Nodup ∧ RegularMembers ms

/-- The elements of an array are regular. -/
def RegularElements : List Json → Prop
  | [] => True
  | j :: js => Regular j ∧ RegularElements js

/-- The members of an object are regular, and their names do not contain `__DOT__`. -/
def RegularMembers : List (String × Json) → Prop
  | [] => True
  | (name, j) :: ms =>
      (¬"__DOT__".toList <:+: name.toList ∧ Char.ofNat 0 ∉ name.toList) ∧ Regular j ∧
        RegularMembers ms

end

mutual

/-- The member names of a document. -/
def names : Json → List String
  | .arr js => elementNames js
  | .obj ms => memberNames ms
  | _ => []

/-- The member names of the elements of an array. -/
def elementNames : List Json → List String
  | [] => []
  | j :: js => names j ++ elementNames js

/-- The names of the members of an object, and those of their values. -/
def memberNames : List (String × Json) → List String
  | [] => []
  | (name, j) :: ms => name :: names j ++ memberNames ms

end

mutual

/-- The second document is the first one, but for the order of members and for empty objects,
which may be null. -/
def Same : Json → Json → Prop
  | .null, .null => True
  | .bool b, .bool b' => b = b'
  | .int i, .int i' => i = i'
  | .double text, .double text' => text = text'
  | .str s, .str s' => s = s'
  | .arr js, .arr js' => SameElements js js'
  | .obj ms, .obj ms' => (ms.map Prod.fst).Perm (ms'.map Prod.fst) ∧ SameMembers ms ms'
  | .obj ms, .null => ms = []
  | _, _ => False

/-- The elements are the same, one after the other. -/
def SameElements : List Json → List Json → Prop
  | [], [] => True
  | j :: js, j' :: js' => Same j j' ∧ SameElements js js'
  | _, _ => False

/-- The members have the same values under their names. -/
def SameMembers : List (String × Json) → List (String × Json) → Prop
  | [], _ => True
  | (name, j) :: ms, ms' => (∃ j', ms'.lookup name = some j' ∧ Same j j') ∧ SameMembers ms ms'

end

mutual

/-- The document with null in the place of empty objects. -/
def collapsed : Json → Json
  | .arr js => .arr (collapsedElements js)
  | .obj [] => .null
  | .obj (m :: ms) => .obj (collapsedMembers (m :: ms))
  | .null => .null
  | .bool b => .bool b
  | .int i => .int i
  | .double text => .double text
  | .str s => .str s

/-- The elements of an array. -/
def collapsedElements : List Json → List Json
  | [] => []
  | j :: js => collapsed j :: collapsedElements js

/-- The members of an object. -/
def collapsedMembers : List (String × Json) → List (String × Json)
  | [] => []
  | (name, j) :: ms => (name, collapsed j) :: collapsedMembers ms

end

theorem map_fst_collapsedMembers (ms : List (String × Json)) :
    (collapsedMembers ms).map Prod.fst = ms.map Prod.fst := by
  induction ms with
  | nil => rfl
  | cons m ms ih => rw [collapsedMembers, List.map_cons, List.map_cons, ih]

theorem lookup_collapsedMembers (name : String) (ms : List (String × Json)) :
    (collapsedMembers ms).lookup name = (ms.lookup name).map collapsed := by
  induction ms with
  | nil => rfl
  | cons m ms ih =>
      rw [collapsedMembers, List.lookup_cons, List.lookup_cons, ih]
      cases name == m.1 <;> rfl

mutual

/-- Nothing else is changed. -/
theorem same_collapsed : (j : Json) → j.Regular → Same j (collapsed j)
  | .null, _ => trivial
  | .bool _, _ => rfl
  | .int _, _ => rfl
  | .double _, h => h.elim
  | .str _, _ => rfl
  | .arr js, h => sameElements_collapsed js h
  | .obj [], _ => rfl
  | .obj (m :: ms), h => by
      refine ⟨by rw [map_fst_collapsedMembers], sameMembers_collapsed (m :: ms) h.2 _ ?_⟩
      intro e he
      rw [lookup_collapsedMembers, KeyTree.lookup_of_mem h.1 he]
      rfl

theorem sameElements_collapsed : (js : List Json) → RegularElements js →
    SameElements js (collapsedElements js)
  | [], _ => trivial
  | j :: js, h => ⟨same_collapsed j h.1, sameElements_collapsed js h.2⟩

theorem sameMembers_collapsed : (ms : List (String × Json)) → RegularMembers ms →
    (ms' : List (String × Json)) → (∀ m ∈ ms, ms'.lookup m.1 = some (collapsed m.2)) →
    SameMembers ms ms'
  | [], _, _, _ => trivial
  | (_, j) :: ms, h, ms', hlookup =>
      ⟨⟨collapsed j, hlookup _ List.mem_cons_self, same_collapsed j h.2.1⟩,
        sameMembers_collapsed ms h.2.2 ms' fun m hm => hlookup m (List.mem_cons_of_mem _ hm)⟩

end

end Json

/-! ### Trees of documents -/

namespace InfoTree

mutual

/-- Every member is found under its name with the dots escaped, every element under its
position, and every leaf has its value. -/
def Shows : Json → InfoTree → Prop
  | .arr js, t => t.isArray = true ∧ ShowsElements 0 js t
  | .obj ms, t => ShowsMembers ms t
  | .null, t => t.data = .null
  | .bool b, t => t.data = .bool b
  | .int i, t => t.data = .int i
  | .double text, t => t.data = .double text
  | .str s, t => t.data = .str s

/-- The elements from the position `i` are found. -/
def ShowsElements : ℕ → List Json → InfoTree → Prop
  | _, [], _ => True
  | i, j :: js, t => (∃ c, getNode (toString i) t = some c ∧ Shows j c) ∧ ShowsElements (i + 1) js t

/-- The members are found. -/
def ShowsMembers : List (String × Json) → InfoTree → Prop
  | [], _ => True
  | (name, j) :: ms, t =>
      (∃ c, getNode (escapeDots name) t = some c ∧ Shows j c) ∧ ShowsMembers ms t

end

/-- The keys that come from a document: the components of its member names, and positions. -/
def KeyOf (names : List String) (k : String) : Prop :=
  (∃ name ∈ names, k ∈ components name) ∨ ∃ i : ℕ, k = toString i

/-- The trees that `deserialize` may return for a document: after a name that cannot be
grafted, only the origin of the keys is known. -/
def Deserialized (j : Json) (t : InfoTree) : Prop :=
  deserialize true (.ok (some j)) = some t ∨
    deserialize true (.ok (some j)) = none ∧ KeyTree.WellKeyed (KeyOf j.names) t

variable {j : Json} {js : List Json} {ms : List (String × Json)} {t c : InfoTree} {k name : String}
  {names : List String} {glib : JsonGlib}

/-! ### Where keys come from -/

mutual

/-- The keys of a node that is made of a document come from it. -/
theorem wellKeyed_addJsonNode : (j : Json) → (∀ name ∈ j.names, name ∈ names) →
    ∀ t, addJsonNode j = some t → KeyTree.WellKeyed (KeyOf names) t
  | .null, _, _, h => by
      rw [← Option.some.inj h]
      exact KeyTree.wellKeyed_nil _
  | .bool b, _, _, h => by
      rw [← Option.some.inj h]
      exact KeyTree.wellKeyed_nil _
  | .int i, _, _, h => by
      rw [← Option.some.inj h]
      exact KeyTree.wellKeyed_nil _
  | .double text, _, _, h => by
      rw [← Option.some.inj h]
      exact KeyTree.wellKeyed_nil _
  | .str s, _, _, h => by
      rw [← Option.some.inj h]
      exact KeyTree.wellKeyed_nil _
  | .arr js, hnames, _, h => by
      obtain ⟨t, ht, rfl⟩ := Option.map_eq_some_iff.1 h
      exact (wellKeyed_addElements js hnames 0 make (KeyTree.wellKeyed_nil _) t ht).setLabel _
  | .obj ms, hnames, t, h =>
      wellKeyed_addMembers ms hnames make (KeyTree.wellKeyed_nil _) t h

theorem wellKeyed_addElements : (js : List Json) → (∀ name ∈ Json.elementNames js, name ∈ names) →
    ∀ i t, KeyTree.WellKeyed (KeyOf names) t → ∀ t', addElements i js t = some t' →
      KeyTree.WellKeyed (KeyOf names) t'
  | [], _, _, _, ht, _, h => by
      rw [← Option.some.inj h]
      exact ht
  | j :: js, hnames, i, t, ht, t', h => by
      obtain ⟨n, hn, h⟩ := Option.bind_eq_some_iff.1 h
      have hnode := wellKeyed_addJsonNode j
        (fun name hname => hnames name (List.mem_append_left _ hname)) n hn
      have hcomps : components (toString i) = [toString i] :=
        components_of_plain (Components.plain_toString (by decide) i)
      refine wellKeyed_addElements js (fun name hname => hnames name (List.mem_append_right _ hname))
        (i + 1) _ ?_ t' h
      rw [graft, hcomps, if_neg (by simp)]
      exact ht.graft (fun k hk => Or.inr ⟨i, List.mem_singleton.1 hk⟩) hnode

theorem wellKeyed_addMembers : (ms : List (String × Json)) →
    (∀ name ∈ Json.memberNames ms, name ∈ names) →
    ∀ t, KeyTree.WellKeyed (KeyOf names) t → ∀ t', addMembers ms t = some t' →
      KeyTree.WellKeyed (KeyOf names) t'
  | [], _, _, ht, _, h => by
      rw [← Option.some.inj h]
      exact ht
  | (name, j) :: ms, hnames, t, ht, t', h => by
      rw [addMembers] at h
      split_ifs at h with hcan
      obtain ⟨n, hn, h⟩ := Option.bind_eq_some_iff.1 h
      have hnode := wellKeyed_addJsonNode j (fun name' hname' =>
        hnames name' (List.mem_cons_of_mem _ (List.mem_append_left _ hname'))) n hn
      refine wellKeyed_addMembers ms (fun name' hname' =>
        hnames name' (List.mem_cons_of_mem _ (List.mem_append_right _ hname'))) _ ?_ t' h
      rw [graft, if_neg (by simpa [canGraft] using hcan)]
      exact ht.graft (fun k hk => Or.inl ⟨name, hnames name List.mem_cons_self, hk⟩) hnode

end

/-- The keys of a tree that is made of a document come from it. -/
theorem Deserialized.wellKeyed (h : Deserialized j t) : KeyTree.WellKeyed (KeyOf j.names) t := by
  rcases h with h | ⟨-, h⟩
  · exact wellKeyed_addJsonNode j (fun name hname => hname) t h
  · exact h

/-- A key is a single component, and it is not escaped if the member names are not. -/
theorem KeyOf.plain (hnames : ∀ name ∈ names, ¬"__DOT__".toList <:+: name.toList)
    (h : KeyOf names k) : Components.Plain '.' k ∧ ¬"__DOT__".toList <:+: k.toList := by
  rcases h with ⟨name, hname, hk⟩ | ⟨i, rfl⟩
  · exact ⟨Components.plain_of_mem hk,
      fun hin => hnames name hname (hin.trans (Components.infix_of_mem hk))⟩
  · exact ⟨Components.plain_toString (by decide) i, not_infix_toString i⟩

mutual

/-- The member names of a regular document do not contain `__DOT__`. -/
theorem not_infix_names : (j : Json) → j.Regular → ∀ name ∈ j.names,
    ¬"__DOT__".toList <:+: name.toList
  | .arr js, h => not_infix_elementNames js h
  | .obj ms, h => not_infix_memberNames ms h.2
  | .null, _ => fun _ h => nomatch h
  | .bool _, _ => fun _ h => nomatch h
  | .int _, _ => fun _ h => nomatch h
  | .double _, _ => fun _ h => nomatch h
  | .str _, _ => fun _ h => nomatch h

theorem not_infix_elementNames : (js : List Json) → Json.RegularElements js →
    ∀ name ∈ Json.elementNames js, ¬"__DOT__".toList <:+: name.toList
  | [], _ => fun _ h => nomatch h
  | j :: js, h => fun name hname => (List.mem_append.1 hname).elim
      (not_infix_names j h.1 name) (not_infix_elementNames js h.2 name)

theorem not_infix_memberNames : (ms : List (String × Json)) → Json.RegularMembers ms →
    ∀ name ∈ Json.memberNames ms, ¬"__DOT__".toList <:+: name.toList
  | [], _ => fun _ h => nomatch h
  | (name, j) :: ms, h => by
      intro name' hname'
      rcases List.mem_cons.1 hname' with rfl | hname'
      · exact h.1.1
      · exact (List.mem_append.1 hname').elim (not_infix_names j h.2.1 name')
          (not_infix_memberNames ms h.2.2 name')

end

/-! ### Nothing is lost of plain names only -/

theorem wellKeyed_getNode {P : String → Prop} {path : String} {n : InfoTree}
    (ht : KeyTree.WellKeyed P t) (h : getNode path t = some n) : KeyTree.WellKeyed P n := by
  unfold getNode at h
  split_ifs at h
  exact ht.get h

/-- A plain path denotes a child. -/
theorem getNode_of_plain (hk : Components.Plain '.' k) : getNode k t = t.child k := by
  rw [getNode, components_of_plain hk, if_neg (by simp), KeyTree.get_singleton]

/-- The key under which a name is found. -/
theorem plain_of_getNode (ht : KeyTree.WellKeyed (fun k => ¬"__DOT__".toList <:+: k.toList) t)
    (h : getNode (escapeDots name) t = some c) : Components.Plain '.' name := by
  have hnot : '.' ∉ (escapeDots name).toList := Stringutils.not_mem_replaceChar (by decide)
  have hne : escapeDots name ≠ "" := by
    intro hempty
    rw [hempty] at h
    exact absurd h (by simp [getNode, show components "" = [] from by decide])
  have hplain : Components.Plain '.' (escapeDots name) := ⟨hne, hnot⟩
  have hdot : '.' ∉ name.toList := by
    intro hdot
    rw [getNode_of_plain hplain] at h
    exact ht.keys _ (KeyTree.mem_of_lookup h) (Stringutils.infix_replaceChar "__DOT__" hdot)
  have hescape : escapeDots name = name := Stringutils.replaceChar_of_not_mem "__DOT__" hdot
  rwa [hescape] at hplain

/-- The positions of elements are different. -/
theorem nodup_elementTrees (i : ℕ) (js : List Json) :
    ((Json.elementTrees i js).map Prod.fst).Nodup := by
  rw [Json.map_fst_elementTrees]
  exact List.Nodup.map (fun m n h => Components.toString_inj.1 h) List.nodup_range'

mutual

/-- Where a document is shown by a tree without escaped keys, its names are single
components. -/
theorem plainNames_of_shows : (j : Json) → j.Regular → (t : InfoTree) →
    KeyTree.WellKeyed (fun k => ¬"__DOT__".toList <:+: k.toList) t → Shows j t → j.PlainNames
  | .null, _, _, _, _ => trivial
  | .bool _, _, _, _, _ => trivial
  | .int _, _, _, _, _ => trivial
  | .double _, _, _, _, _ => trivial
  | .str _, _, _, _, _ => trivial
  | .arr js, h, t, ht, hshows => plainElements_of_shows js h 0 t ht hshows.2
  | .obj ms, h, t, ht, hshows => ⟨h.1, plainMembers_of_shows ms h.2 t ht hshows⟩

theorem plainElements_of_shows : (js : List Json) → Json.RegularElements js → (i : ℕ) →
    (t : InfoTree) → KeyTree.WellKeyed (fun k => ¬"__DOT__".toList <:+: k.toList) t →
    ShowsElements i js t → Json.PlainElements js
  | [], _, _, _, _, _ => trivial
  | j :: js, h, i, t, ht, ⟨⟨c, hc, hj⟩, hjs⟩ =>
      ⟨plainNames_of_shows j h.1 c (wellKeyed_getNode ht hc) hj,
        plainElements_of_shows js h.2 (i + 1) t ht hjs⟩

theorem plainMembers_of_shows : (ms : List (String × Json)) → Json.RegularMembers ms →
    (t : InfoTree) → KeyTree.WellKeyed (fun k => ¬"__DOT__".toList <:+: k.toList) t →
    ShowsMembers ms t → Json.PlainMembers ms
  | [], _, _, _, _ => trivial
  | (_, j) :: ms, h, t, ht, ⟨⟨c, hc, hj⟩, hms⟩ =>
      ⟨plain_of_getNode ht hc, plainNames_of_shows j h.2.1 c (wellKeyed_getNode ht hc) hj,
        plainMembers_of_shows ms h.2.2 t ht hms⟩

end

/-! ### Nothing is lost of plain names -/

mutual

/-- The tree of a document shows it. -/
theorem shows_toTree : (j : Json) → j.PlainNames → Shows j j.toTree
  | .null, _ => rfl
  | .bool _, _ => rfl
  | .int _, _ => rfl
  | .double _, _ => rfl
  | .str _, _ => rfl
  | .arr js, h => by
      refine ⟨rfl, showsElements_of_child js h 0 _ fun i j hj => ?_⟩
      exact KeyTree.lookup_of_mem (nodup_elementTrees 0 js) hj
  | .obj ms, h => by
      refine showsMembers_of_child ms h.2 _ fun m hm => ?_
      have hmem : (m.1, m.2.toTree) ∈ Json.memberTrees ms := by
        rw [Json.memberTrees_eq_map]
        exact List.mem_map_of_mem hm
      have hnodup : ((Json.memberTrees ms).map Prod.fst).Nodup := by
        rw [Json.memberTrees_eq_map, List.map_map]
        exact h.1
      exact KeyTree.lookup_of_mem hnodup hmem

theorem showsElements_of_child : (js : List Json) → Json.PlainElements js → (i : ℕ) →
    (t : InfoTree) → (∀ k c, (k, c) ∈ Json.elementTrees i js → t.child k = some c) →
    ShowsElements i js t
  | [], _, _, _, _ => trivial
  | j :: js, h, i, t, hchild => by
      have hplain : Components.Plain '.' (toString i) := Components.plain_toString (by decide) i
      refine ⟨⟨j.toTree, ?_, shows_toTree j h.1⟩, showsElements_of_child js h.2 (i + 1) t ?_⟩
      · rw [getNode_of_plain hplain]
        exact hchild _ _ List.mem_cons_self
      · exact fun k c hc => hchild k c (List.mem_cons_of_mem _ hc)

theorem showsMembers_of_child : (ms : List (String × Json)) → Json.PlainMembers ms →
    (t : InfoTree) → (∀ m ∈ ms, t.child m.1 = some m.2.toTree) → ShowsMembers ms t
  | [], _, _, _ => trivial
  | (name, j) :: ms, h, t, hchild => by
      have hescape : escapeDots name = name :=
        Stringutils.replaceChar_of_not_mem "__DOT__" h.1.2
      refine ⟨⟨j.toTree, ?_, shows_toTree j h.2.1⟩,
        showsMembers_of_child ms h.2.2 t fun m hm => hchild m (List.mem_cons_of_mem _ hm)⟩
      rw [hescape, getNode_of_plain h.1]
      exact hchild _ List.mem_cons_self

end

mutual

/-- The tree of a regular document can be written. -/
theorem writable_toTree : (j : Json) → j.PlainNames → j.Regular → Writable j.toTree
  | .null, _, _ => .leaf .null trivial
  | .bool b, _, _ => .leaf (.bool b) trivial
  | .int i, _, h => .leaf (.int i) h
  | .double _, _, h => h.elim
  | .str s, _, h => .leaf (.str s) h
  | .arr js, hplain, h => by
      refine .array _ ?_ fun e he => ?_
      · have hlength := congrArg List.length (Json.map_fst_elementTrees 0 js)
        rw [List.length_map, List.length_map, List.length_range'] at hlength
        rw [Json.map_fst_elementTrees, hlength, List.range_eq_range']
      · have hmem : e.2 ∈ (Json.elementTrees 0 js).map Prod.snd := List.mem_map_of_mem he
        rw [Json.map_snd_elementTrees] at hmem
        obtain ⟨j, hj, heq⟩ := List.mem_map.1 hmem
        rw [← heq]
        exact writable_elements js hplain h j hj
  | .obj [], _, _ => .leaf .null trivial
  | .obj (m :: ms), hplain, h => by
      have hmembers := writable_members (m :: ms) hplain.2 h.2
      rw [Json.toTree, Json.memberTrees_eq_map]
      refine .object _ (by simp) (fun e he => ?_) (by rw [List.map_map]; exact h.1) fun e he => ?_
      · obtain ⟨m', hm', rfl⟩ := List.mem_map.1 he
        exact (hmembers m' hm').1
      · obtain ⟨m', hm', rfl⟩ := List.mem_map.1 he
        exact (hmembers m' hm').2

theorem writable_elements : (js : List Json) → Json.PlainElements js → Json.RegularElements js →
    ∀ j ∈ js, Writable j.toTree
  | [], _, _ => fun _ hj => nomatch hj
  | j :: js, hplain, h => List.forall_mem_cons.2
      ⟨writable_toTree j hplain.1 h.1, writable_elements js hplain.2 h.2⟩

theorem writable_members : (ms : List (String × Json)) → Json.PlainMembers ms →
    Json.RegularMembers ms → ∀ m ∈ ms, WritableKey m.1 ∧ Writable m.2.toTree
  | [], _, _ => fun _ hm => nomatch hm
  | (_, j) :: ms, hplain, h => List.forall_mem_cons.2
      ⟨⟨⟨hplain.1, h.1.1, h.1.2⟩, writable_toTree j hplain.2.1 h.2.1⟩,
        writable_members ms hplain.2.2 h.2.2⟩

end

mutual

/-- The tree of a document is written as the document, without empty objects. -/
theorem ofTree_toTree : (j : Json) → Json.ofTree j.toTree = j.collapsed
  | .null => rfl
  | .bool _ => rfl
  | .int _ => rfl
  | .double _ => rfl
  | .str _ => rfl
  | .arr js => congrArg Json.arr (ofElements_elementTrees 0 js)
  | .obj [] => rfl
  | .obj (m :: ms) => congrArg Json.obj (ofMembers_memberTrees (m :: ms))

theorem ofElements_elementTrees (i : ℕ) : (js : List Json) →
    Json.ofElements (Json.elementTrees i js) = Json.collapsedElements js
  | [] => rfl
  | j :: js => by
      rw [Json.elementTrees, Json.ofElements, ofTree_toTree j, ofElements_elementTrees (i + 1) js,
        Json.collapsedElements]

theorem ofMembers_memberTrees : (ms : List (String × Json)) →
    Json.ofMembers (Json.memberTrees ms) = Json.collapsedMembers ms
  | [] => rfl
  | (name, j) :: ms => by
      rw [Json.memberTrees, Json.ofMembers, ofTree_toTree j, ofMembers_memberTrees ms,
        Json.collapsedMembers]

end

/-- The text of the tree of a document means the document, without empty objects. -/
theorem read_serialize_toTree (hplain : (Json.obj ms).PlainNames) (h : (Json.obj ms).Regular)
    (hglib : glib.Generates (Json.obj ms).collapsed) :
    Json.read (serialize glib false (Json.obj ms).toTree) = some (Json.obj ms).collapsed := by
  have hwritable := writable_toTree (.obj ms) hplain h
  cases ms with
  | nil => exact Json.read_null
  | cons m ms =>
      obtain ⟨text, hdata, hread⟩ := hglib
      have hnames := plainNames_ofTree hwritable
      rw [ofTree_toTree] at hnames
      rw [serialize, if_neg (by simp [isLeaf, Json.toTree, Json.memberTrees]),
        rootCalls_eq hwritable rfl, ofTree_toTree, hdata, Option.getD_some, hread,
        Json.built_of_plainNames _ hnames]

/-- A document is found in the tree that is made of it, and comes back from it, exactly if its
member names are single components. -/
theorem decoded_iff (h : (Json.obj ms).Regular)
    (hglib : glib.Generates (Json.obj ms).collapsed) (ht : Deserialized (.obj ms) t) :
    (Shows (.obj ms) t ∧ ∃ d, Json.read (serialize glib false t) = some d ∧
      Json.Same (.obj ms) d) ↔ (Json.obj ms).PlainNames := by
  constructor
  · rintro ⟨hshows, -⟩
    refine plainNames_of_shows (.obj ms) h t ?_ hshows
    exact ht.wellKeyed.mono fun k hk => (hk.plain (not_infix_names (.obj ms) h)).2
  · intro hplain
    have hadd := addJsonNode_of_plainNames (.obj ms) hplain
    obtain rfl : (Json.obj ms).toTree = t := by
      rcases ht with ht | ⟨ht, -⟩
      · exact Option.some.inj (hadd.symm.trans ht)
      · cases hadd.symm.trans ht
    exact ⟨shows_toTree (.obj ms) hplain, _, read_serialize_toTree hplain h hglib,
      Json.same_collapsed (.obj ms) h⟩

/-- A list with an empty object, and a name that is a number. -/
def plainDocument : Json := .obj [("list", .arr [.int 1, .obj []]), ("7", .str "x")]

/-- The text of this document. -/
def plainText : String :=
  "\x7b\n  \"list\" : [\n    1,\n    null\n  ],\n  \"7\" : \"x\"\n\x7d"

/-- It is kept. -/
theorem decoded_plainDocument :
    let glib := oneDocument plainText plainDocument.collapsed
    (Shows plainDocument plainDocument.toTree ∧
      ∃ d, Json.read (serialize glib false plainDocument.toTree) = some d ∧
        Json.Same plainDocument d) ↔ plainDocument.PlainNames := by
  have hregular : plainDocument.Regular := by
    refine ⟨by decide, ⟨by decide, by decide⟩, ⟨⟨by decide, by decide⟩, ⟨by simp, trivial⟩, trivial⟩,
      ⟨by decide, by decide⟩, ?_, trivial⟩
    change Char.ofNat 0 ∉ "x".toList
    decide
  have hread : Json.read plainText = some plainDocument.collapsed.built := by cbv
  exact decoded_iff hregular (generates_oneDocument hread) (Or.inl rfl)

/-- Of a name with a dot a path is made. -/
theorem not_shows_dotted :
    let j : Json := .obj [("a.b", .int 1), ("c", .int 2)]
    j.Regular ∧ ∃ t, deserialize true (.ok (some j)) = some t ∧ ¬Shows j t := by
  refine ⟨⟨by decide, ⟨by decide, by decide⟩, ⟨by decide, by decide⟩, ⟨by decide, by decide⟩,
    ⟨by decide, by decide⟩, trivial⟩, _, rfl, ?_⟩
  rintro ⟨⟨c, hc, -⟩, -⟩
  have hnone : (getNode (escapeDots "a.b") (.node emptyNode
      [("a", .node emptyNode [("b", makeValue (.int 1))]), ("c", makeValue (.int 2))])).isNone := by
    decide
  rw [Option.isNone_iff_eq_none] at hnone
  exact absurd (hnone.symm.trans hc) (by simp)

end InfoTree
end LibSwitcher
