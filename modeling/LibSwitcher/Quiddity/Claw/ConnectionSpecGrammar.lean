/-
# The grammar of specifications

What a document must be for a specification (`Grammar`): an object of the members
`follower` and `writer`, each an array of points with a label, a description and
types, whose labels are different.

The constructor decides this but for a few documents (`Decided`).  It finds equal
labels only where they follow each other, it accepts a document without root or whose
root is not an object, and it gives each point an identifier, of which there are
finitely many.
-/

import LibSwitcher.Quiddity.Claw.CanDo
import LibSwitcher.Quiddity.Claw.Documents

namespace LibSwitcher
namespace Claw

open InfoTree ConnectionSpec

variable {τ : Type} (x : Externals τ)

/-! ### The grammar -/

/-- The members of the description of a point. -/
structure IsPoint (ms : List (String × Json)) : Prop where
  names : (ms.map Prod.fst).Perm ["label", "description", "can_do"]
  label : ∃ label, ms.lookup "label" = some (.str label) ∧ label ≠ ""
  description : ∃ text, ms.lookup "description" = some (.str text)
  canDo : ∃ js, ms.lookup "can_do" = some (.arr js) ∧ js ≠ [] ∧
    ∀ j ∈ js, ∃ caps, j = .str caps ∧ x.parsingErrors (x.ofString caps) = ""

/-- The label of a point, empty if it has none. -/
def pointLabel : Json → String
  | .obj ms => match ms.lookup "label" with
      | some (.str label) => label
      | _ => ""
  | _ => ""

/-- The labels in the section of a role. -/
def docLabels (role : Role) (j : Json) : List String := (j.sectionElements role).map pointLabel

/-- The members of a document in which everything but the labels is right. -/
def IsShaped (ms : List (String × Json)) : Prop :=
  ∀ m ∈ ms, (m.1 = "follower" ∨ m.1 = "writer") ∧
    ∃ js, m.2 = .arr js ∧ ∀ j ∈ js, ∃ point, j = .obj point ∧ IsPoint x point

/-- The labels of the followers are different, and those of the writers. -/
def Distinct (j : Json) : Prop :=
  (docLabels followerRole j).Nodup ∧ (docLabels writerRole j).Nodup

/-- A document of the grammar of specifications. -/
def Grammar (doc : Except String (Option Json)) : Prop :=
  ∃ ms, doc = .ok (some (.obj ms)) ∧ IsShaped x ms ∧ Distinct (.obj ms)

/-- The constructor accepts a document. -/
def Accepts (doc : Except String (Option Json)) : Prop :=
  ∃ s : ConnectionSpec τ, ofDocument x doc = some s ∧ s.isValid = true

/-! ### The documents on which the constructor decides the grammar -/

/-- There are identifiers for all points. -/
def HasRoom (j : Json) : Prop :=
  (j.sectionElements followerRole).length ≤ Ids.kMaxNumOfIds ∧
    (j.sectionElements writerRole).length ≤ Ids.kMaxNumOfIds

/-- No two equal labels follow each other. -/
def NoneAdjacent (j : Json) : Prop :=
  hasAdjacentEqual (docLabels followerRole j) = false ∧
    hasAdjacentEqual (docLabels writerRole j) = false

/-- The text is no document, or one with a root: a non-empty array, or an object for
which, if it is otherwise right, the labels tell whether the points are accepted. -/
def Decided : Except String (Option Json) → Prop
  | .error _ => True
  | .ok (some (.obj ms)) => IsShaped x ms →
      (Distinct (.obj ms) → HasRoom (.obj ms)) ∧
        (NoneAdjacent (.obj ms) ∧ HasRoom (.obj ms) → Distinct (.obj ms))
  | .ok (some (.arr js)) => js ≠ []
  | _ => False

variable {x}

/-- Different labels have no equal neighbours. -/
theorem hasAdjacentEqual_of_nodup {labels : List String} (h : labels.Nodup) :
    hasAdjacentEqual labels = false := by
  induction labels with
  | nil => rfl
  | cons a l ih =>
      cases l with
      | nil => rfl
      | cons b l =>
          rw [List.nodup_cons] at h
          have hne : a ≠ b := fun heq => h.1 (by rw [heq]; simp)
          rw [hasAdjacentEqual, ih h.2]
          simpa using hne

/-! ### The check of an element -/

variable {ms : List (String × Json)} {j : Json} {k : String}

theorem child_obj (k : String) (ms : List (String × Json)) :
    (Json.obj ms).toTree.child k = (ms.lookup k).map Json.toTree :=
  lookup_memberTrees k ms

theorem isString_toTree {j : Json} : j.toTree.data.isString = true ↔ ∃ s, j = .str s := by
  cases j <;> simp [Json.toTree, InfoTree.data, Any.isString, InfoTree.make, InfoTree.makeValue,
    InfoTree.emptyNode]

/-- The value under a member. -/
theorem branchGetValue_obj (hk : Components.Plain '.' k) :
    branchGetValue k (Json.obj ms).toTree =
      ((ms.lookup k).map fun j => j.toTree.data).getD .null := by
  rw [branchGetValue, branch_of_plain hk, child_obj, Option.map_map]
  rfl

theorem isString_branchGetValue_obj (hk : Components.Plain '.' k) :
    (branchGetValue k (Json.obj ms).toTree).isString = true ↔ ∃ s, ms.lookup k = some (.str s) := by
  rw [branchGetValue_obj hk]
  cases h : ms.lookup k with
  | none => simp [Any.isString]
  | some j => simpa using isString_toTree

theorem asString_label (ms : List (String × Json)) :
    (branchGetValue "label" (Json.obj ms).toTree).asString = pointLabel (.obj ms) := by
  rw [branchGetValue_obj (by decide), pointLabel]
  cases h : ms.lookup "label" with
  | none => rfl
  | some j => cases j <;> rfl

theorem branchIsArray_obj (hk : Components.Plain '.' k) :
    branchIsArray k (Json.obj ms).toTree = true ↔ ∃ js, ms.lookup k = some (.arr js) := by
  have hnode : getNode k (Json.obj ms).toTree = (ms.lookup k).map Json.toTree := by
    rw [getNode, components_of_plain hk, if_neg (by simp), KeyTree.get_singleton, child_obj]
  rw [branchIsArray, pathIsRoot_of_components (by rw [components_of_plain hk]; simp), hnode]
  cases h : ms.lookup k with
  | none => simp
  | some j => cases j <;> simp [Json.toTree, InfoTree.isArray, InfoTree.make, InfoTree.makeValue,
      InfoTree.emptyNode]

theorem elements_obj {js : List Json} (hk : Components.Plain '.' k)
    (h : ms.lookup k = some (.arr js)) :
    elements k (Json.obj ms).toTree = js.map Json.toTree := by
  rw [elements, branch_of_plain hk, child_obj, h]
  exact Json.map_snd_elementTrees 0 js

theorem getChildKeys_obj (ms : List (String × Json)) :
    getChildKeys "." (Json.obj ms).toTree = ms.map Prod.fst := by
  rw [getChildKeys_root, Json.toTree, KeyTree.children_node, Json.memberTrees_eq_map, List.map_map]
  rfl

/-- Three members under the three names are exactly these. -/
theorem names_perm_iff : (ms.map Prod.fst).Perm ["label", "description", "can_do"] ↔
    ms.length = 3 ∧ ∀ name ∈ ["label", "description", "can_do"], name ∈ ms.map Prod.fst := by
  constructor
  · intro h
    exact ⟨by simpa using h.length_eq, fun name hname => h.mem_iff.2 hname⟩
  · rintro ⟨hlength, hmem⟩
    have hsub := List.subperm_of_subset (by decide) (fun name hname => hmem name hname)
    exact (hsub.perm_of_length_le (by simp [hlength])).symm

theorem mem_names_of_lookup (h : ms.lookup k = some j) : k ∈ ms.map Prod.fst :=
  List.mem_map.2 ⟨(k, j), KeyTree.mem_of_lookup h, rfl⟩

/-- An object passes exactly when it describes a point. -/
theorem checkShmdataSpec_obj :
    checkShmdataSpec x (Json.obj ms).toTree = none ↔ IsPoint x ms := by
  rw [checkShmdataSpec_eq_none_iff, getChildKeys_obj, List.length_map, asString_label,
    isString_branchGetValue_obj (by decide), isString_branchGetValue_obj (by decide),
    branchIsArray_obj plain_can_do]
  constructor
  · rintro ⟨hlength, ⟨⟨label, hlabel⟩, hempty⟩, ⟨text, htext⟩, ⟨js, hjs⟩, hne, hcaps⟩
    rw [elements_obj plain_can_do hjs] at hne hcaps
    rw [pointLabel, hlabel] at hempty
    refine ⟨names_perm_iff.2 ⟨hlength, ?_⟩, ⟨label, hlabel, hempty⟩, ⟨text, htext⟩,
      js, hjs, by simpa using hne, fun j hj => ?_⟩
    · rintro name hname
      simp only [List.mem_cons, List.not_mem_nil, or_false] at hname
      rcases hname with rfl | rfl | rfl
      · exact mem_names_of_lookup hlabel
      · exact mem_names_of_lookup htext
      · exact mem_names_of_lookup hjs
    · obtain ⟨hstr, herr⟩ := capsMessage_eq_none_iff.1 (hcaps j.toTree (List.mem_map_of_mem hj))
      obtain ⟨caps, rfl⟩ := isString_toTree.1 hstr
      exact ⟨caps, rfl, herr⟩
  · rintro ⟨hnames, ⟨label, hlabel, hempty⟩, ⟨text, htext⟩, js, hjs, hne, hcaps⟩
    rw [elements_obj plain_can_do hjs, pointLabel, hlabel]
    refine ⟨(names_perm_iff.1 hnames).1, ⟨⟨label, rfl⟩, hempty⟩, ⟨text, htext⟩, ⟨js, hjs⟩,
      by simpa using hne, fun caps hmem => ?_⟩
    obtain ⟨j, hj, rfl⟩ := List.mem_map.1 hmem
    obtain ⟨caps, rfl, herr⟩ := hcaps j hj
    exact capsMessage_eq_none_iff.2 ⟨rfl, herr⟩

/-- An element passes exactly when it is an object that describes a point. -/
theorem checkShmdataSpec_toTree :
    checkShmdataSpec x j.toTree = none ↔ ∃ point, j = .obj point ∧ IsPoint x point := by
  constructor
  · intro h
    have hkeys := (checkShmdataSpec_eq_none_iff.1 h).1
    have hlabel := (checkShmdataSpec_eq_none_iff.1 h).2.1.1
    rw [getChildKeys_root, List.length_map] at hkeys
    cases j with
    | obj ms => exact ⟨ms, rfl, checkShmdataSpec_obj.1 h⟩
    | arr js =>
        -- three elements are under the keys `0`, `1` and `2`
        have hlength := congrArg List.length (Json.map_snd_elementTrees 0 js)
        rw [List.length_map, List.length_map] at hlength
        obtain ⟨a, b, c, rfl⟩ := List.length_eq_three.1 (hlength.symm.trans hkeys)
        cases hlabel
    | null => cases hkeys
    | bool b => cases hkeys
    | int i => cases hkeys
    | double text => cases hkeys
    | str s => cases hkeys
  · rintro ⟨point, rfl, hpoint⟩
    exact checkShmdataSpec_obj.2 hpoint

/-! ### The check of a section -/

variable {role : Role}

theorem forall_sectionOf_toTree {js : List Json} {t : InfoTree} {P : InfoTree → Prop}
    (h : sectionOf role t = Json.elementTrees 0 js) :
    (∀ c ∈ sectionOf role t, P c.2) ↔ ∀ j ∈ js, P j.toTree := by
  rw [h, ← List.forall_mem_map (f := Json.toTree) (P := P), ← Json.map_snd_elementTrees 0 js,
    List.forall_mem_map]

/-- A section of a document is accepted when all its elements are points, there are
identifiers for them, and no two equal labels follow each other. -/
theorem sectionAccepted_toTree (h : sectionOf role j.toTree =
    Json.elementTrees 0 (j.sectionElements role)) :
    SectionAccepted x role j.toTree ↔
      (∀ e ∈ j.sectionElements role, ∃ point, e = .obj point ∧ IsPoint x point) ∧
        (j.sectionElements role).length ≤ Ids.kMaxNumOfIds ∧
        hasAdjacentEqual (docLabels role j) = false := by
  have hpass : (∀ c ∈ sectionOf role j.toTree, checkShmdataSpec x c.2 = none) ↔
      ∀ e ∈ j.sectionElements role, ∃ point, e = .obj point ∧ IsPoint x point := by
    rw [forall_sectionOf_toTree (P := fun t => checkShmdataSpec x t = none) h]
    simp only [checkShmdataSpec_toTree]
  have hsnd : (sectionOf role j.toTree).map Prod.snd = (j.sectionElements role).map Json.toTree := by
    rw [h, Json.map_snd_elementTrees]
  have hlength : (sectionOf role j.toTree).length = (j.sectionElements role).length := by
    simpa using congrArg List.length hsnd
  have hlabels : (∀ e ∈ j.sectionElements role, ∃ point, e = .obj point ∧ IsPoint x point) →
      (sectionOf role j.toTree).map (fun c => (pointOf x c.2).1) = docLabels role j := by
    intro hpoints
    have hmap : (sectionOf role j.toTree).map (fun c => (pointOf x c.2).1) =
        ((sectionOf role j.toTree).map Prod.snd).map fun t => (pointOf x t).1 := by
      rw [List.map_map]
      rfl
    rw [hmap, hsnd, List.map_map]
    refine List.map_congr_left fun e he => ?_
    obtain ⟨point, rfl, -⟩ := hpoints e he
    exact asString_label point
  constructor
  · rintro ⟨hall, hroom, hadjacent⟩
    have hpoints := hpass.1 hall
    exact ⟨hpoints, hlength ▸ hroom, hlabels hpoints ▸ hadjacent⟩
  · rintro ⟨hpoints, hroom, hadjacent⟩
    exact ⟨hpass.2 hpoints, hlength ▸ hroom, (hlabels hpoints).symm ▸ hadjacent⟩

/-! ### The constructor -/

/-- The keys of an object are accepted when it has no other members than the two
arrays. -/
theorem checkKeys_obj (hnodup : (ms.map Prod.fst).Nodup) :
    checkKeys (Json.obj ms).toTree (getChildKeys "." (Json.obj ms).toTree) = none ↔
      ∀ m ∈ ms, (m.1 = "follower" ∨ m.1 = "writer") ∧ ∃ js, m.2 = .arr js := by
  have harray : ∀ m ∈ ms, m.1 = "follower" ∨ m.1 = "writer" →
      (branchIsArray m.1 (Json.obj ms).toTree = true ↔ ∃ js, m.2 = .arr js) := by
    rintro ⟨name, j⟩ hm hname
    have hplain : Components.Plain '.' name := by
      rcases hname with rfl | rfl
      · exact followerRole.plain_name
      · exact writerRole.plain_name
    rw [branchIsArray_obj hplain, KeyTree.lookup_of_mem hnodup hm]
    simp
  rw [checkKeys_eq_none_iff, getChildKeys_obj, List.forall_mem_map]
  refine forall_congr' fun m => forall_congr' fun hm => ?_
  constructor
  · rintro ⟨hname, h⟩
    exact ⟨hname, (harray m hm hname).1 h⟩
  · rintro ⟨hname, h⟩
    exact ⟨hname, (harray m hm hname).2 h⟩

/-- The elements of a section are those of a member. -/
theorem sectionElements_obj (role : Role) {js : List Json} (hnodup : (ms.map Prod.fst).Nodup)
    (h : (role.name, .arr js) ∈ ms) : (Json.obj ms).sectionElements role = js := by
  rw [Json.sectionElements, KeyTree.lookup_of_mem hnodup h]
  rfl

/-- An element of a section comes from a member. -/
theorem exists_member_of_mem_sectionElements {e : Json}
    (h : e ∈ (Json.obj ms).sectionElements role) : ∃ js, (role.name, .arr js) ∈ ms ∧ e ∈ js := by
  rw [Json.sectionElements] at h
  cases hlookup : ms.lookup role.name with
  | none => simp [hlookup] at h
  | some j =>
      simp only [hlookup, Option.map_some, Option.getD_some] at h
      cases j with
      | arr js => exact ⟨js, KeyTree.mem_of_lookup hlookup, h⟩
      | _ => cases h

/-- A document is shaped when its members are the two arrays and their elements are
points. -/
theorem isShaped_iff (hnodup : (ms.map Prod.fst).Nodup) : IsShaped x ms ↔
    (∀ m ∈ ms, (m.1 = "follower" ∨ m.1 = "writer") ∧ ∃ js, m.2 = .arr js) ∧
      (∀ e ∈ (Json.obj ms).sectionElements followerRole,
        ∃ point, e = .obj point ∧ IsPoint x point) ∧
      ∀ e ∈ (Json.obj ms).sectionElements writerRole,
        ∃ point, e = .obj point ∧ IsPoint x point := by
  constructor
  · intro h
    have hsection : ∀ role : Role, ∀ e ∈ (Json.obj ms).sectionElements role,
        ∃ point, e = .obj point ∧ IsPoint x point := by
      intro role e he
      obtain ⟨js, hm, hjs⟩ := exists_member_of_mem_sectionElements he
      obtain ⟨-, js', heq, hpoints⟩ := h _ hm
      obtain rfl := Json.arr.inj heq
      exact hpoints e hjs
    exact ⟨fun m hm => ⟨(h m hm).1, (h m hm).2.imp fun _ hjs => hjs.1⟩,
      hsection followerRole, hsection writerRole⟩
  · rintro ⟨hmembers, hfollower, hwriter⟩ ⟨name, j⟩ hm
    obtain ⟨hname, js, rfl⟩ := hmembers _ hm
    refine ⟨hname, js, rfl, ?_⟩
    rcases hname with rfl | rfl
    · rwa [sectionElements_obj followerRole hnodup hm] at hfollower
    · rwa [sectionElements_obj writerRole hnodup hm] at hwriter

theorem parsed_of_child {t : InfoTree} (h : t.child "parsing_error" = none) :
    branchHasData ".parsing_error" t = false := by
  have hbranch : branch ".parsing_error" t = t.child "parsing_error" :=
    branch_dot (k := "parsing_error") (by decide)
  rw [branchHasData, branchGetValue, hbranch, h]
  rfl

/-- What the constructor accepts of the objects. -/
theorem accepted_obj (hnodup : (ms.map Prod.fst).Nodup) :
    Accepted x (Json.obj ms).toTree ↔
      IsShaped x ms ∧ HasRoom (.obj ms) ∧ NoneAdjacent (.obj ms) := by
  rw [isShaped_iff hnodup]
  constructor
  · rintro ⟨-, hkeys, hf, hw⟩
    obtain ⟨hfp, hfr, hfa⟩ := (sectionAccepted_toTree (sectionOf_obj followerRole ms)).1 hf
    obtain ⟨hwp, hwr, hwa⟩ := (sectionAccepted_toTree (sectionOf_obj writerRole ms)).1 hw
    exact ⟨⟨(checkKeys_obj hnodup).1 hkeys, hfp, hwp⟩, ⟨hfr, hwr⟩, ⟨hfa, hwa⟩⟩
  · rintro ⟨⟨hmembers, hfp, hwp⟩, ⟨hfr, hwr⟩, ⟨hfa, hwa⟩⟩
    refine ⟨?_, (checkKeys_obj hnodup).2 hmembers,
      (sectionAccepted_toTree (sectionOf_obj followerRole ms)).2 ⟨hfp, hfr, hfa⟩,
      (sectionAccepted_toTree (sectionOf_obj writerRole ms)).2 ⟨hwp, hwr, hwa⟩⟩
    have hnone : ms.lookup "parsing_error" = none := by
      rw [KeyTree.lookup_eq_none_iff, List.mem_map]
      rintro ⟨m, hm, hname⟩
      have := (hmembers m hm).1
      simp [hname] at this
    exact parsed_of_child (by rw [child_obj, hnone]; rfl)

/-- What the constructor accepts of the documents with plain member names. -/
theorem accepts_ok_iff (hplain : j.PlainNames) :
    Accepts x (.ok (some j)) ↔ Accepted x j.toTree := by
  rw [Accepts, ofDocument, InfoTree.deserialize, addJsonNode_of_plainNames j hplain,
    Option.map_some]
  simp [isValid_ofTree_iff]

/-- The constructor accepts the trees without any child, but for those of an error. -/
theorem accepted_of_children_nil {t : InfoTree} (h : t.children = []) : Accepted x t := by
  have hsection : ∀ role, sectionOf role t = [] := fun role =>
    sectionOf_eq_nil (by rw [h]; simp)
  have haccepted : ∀ role, SectionAccepted x role t := fun role =>
    ⟨by rw [hsection]; simp, by rw [hsection]; exact Nat.zero_le _, by rw [hsection]; rfl⟩
  refine ⟨?_, ?_, haccepted _, haccepted _⟩
  · exact parsed_of_child (KeyTree.child_eq_none_iff.2 (by rw [h]; simp))
  · rw [getChildKeys_root, h]
    rfl

/-- An array with elements is not accepted. -/
theorem not_accepted_arr {js : List Json} (hjs : js ≠ []) : ¬Accepted x (Json.arr js).toTree := by
  obtain ⟨j, js, rfl⟩ := List.exists_cons_of_ne_nil hjs
  intro h
  have hkey := checkKeys_eq_none_iff.1 h.keys (toString 0) (by
    rw [getChildKeys_root, Json.toTree, Json.elementTrees]
    simp)
  exact absurd hkey.1 (by decide)

/-- On documents whose member names are single components, the constructor decides the
grammar exactly where the condition holds. -/
theorem accepts_iff_grammar_iff {doc : Except String (Option Json)}
    (hplain : ∀ j, doc = .ok (some j) → j.PlainNames) :
    (Accepts x doc ↔ Grammar x doc) ↔ Decided x doc := by
  have hscalar : ∀ {j : Json}, j.PlainNames → j.toTree.children = [] → (∀ ms, j ≠ .obj ms) →
      ¬(Accepts x (.ok (some j)) ↔ Grammar x (.ok (some j))) := by
    intro j hj hchildren hobj h
    obtain ⟨ms, heq, -⟩ := h.1 ((accepts_ok_iff hj).2 (accepted_of_children_nil hchildren))
    exact hobj ms (Option.some.inj (Except.ok.inj heq))
  match doc, hplain with
  | .error msg, _ =>
      refine iff_of_true (iff_of_false ?_ ?_) trivial
      · rintro ⟨s, hs, hvalid⟩
        obtain rfl := Option.some.inj hs
        exact not_accepted_error msg (isValid_ofTree_iff.1 hvalid)
      · rintro ⟨ms, heq, -⟩
        cases heq
  | .ok none, _ =>
      refine iff_of_false (fun h => ?_) id
      obtain ⟨ms, heq, -⟩ := h.1 ⟨_, rfl, isValid_ofTree_iff.2 (accepted_of_children_nil rfl)⟩
      cases heq
  | .ok (some (.obj ms)), hplain =>
      have hobj : Accepts x (.ok (some (.obj ms))) ↔ _ :=
        (accepts_ok_iff (hplain _ rfl)).trans (accepted_obj (hplain _ rfl).1)
      have hgrammar : Grammar x (.ok (some (.obj ms))) ↔ IsShaped x ms ∧ Distinct (.obj ms) := by
        constructor
        · rintro ⟨ms', heq, h⟩
          obtain rfl := Json.obj.inj (Option.some.inj (Except.ok.inj heq))
          exact h
        · exact fun h => ⟨ms, rfl, h⟩
      have hnone : Distinct (.obj ms) → NoneAdjacent (.obj ms) := fun h =>
        ⟨hasAdjacentEqual_of_nodup h.1, hasAdjacentEqual_of_nodup h.2⟩
      rw [hobj, hgrammar]
      constructor
      · intro h hshaped
        exact ⟨fun hdistinct => (h.2 ⟨hshaped, hdistinct⟩).2.1,
          fun hboth => (h.1 ⟨hshaped, hboth.2, hboth.1⟩).2⟩
      · intro h
        exact ⟨fun hacc => ⟨hacc.1, (h hacc.1).2 ⟨hacc.2.2, hacc.2.1⟩⟩,
          fun hgram => ⟨hgram.1, (h hgram.1).1 hgram.2, hnone hgram.2⟩⟩
  | .ok (some (.arr js)), hplain =>
      by_cases hjs : js = []
      · subst hjs
        exact iff_of_false (hscalar (hplain _ rfl) rfl fun ms h => by cases h) fun h => h rfl
      · refine iff_of_true (iff_of_false ?_ ?_) hjs
        · rw [accepts_ok_iff (hplain _ rfl)]
          exact not_accepted_arr hjs
        · rintro ⟨ms, heq, -⟩
          cases heq
  | .ok (some .null), hplain =>
      exact iff_of_false (hscalar (hplain _ rfl) rfl fun ms h => by cases h) id
  | .ok (some (.bool b)), hplain =>
      exact iff_of_false (hscalar (hplain _ rfl) rfl fun ms h => by cases h) id
  | .ok (some (.int i)), hplain =>
      exact iff_of_false (hscalar (hplain _ rfl) rfl fun ms h => by cases h) id
  | .ok (some (.double text)), hplain =>
      exact iff_of_false (hscalar (hplain _ rfl) rfl fun ms h => by cases h) id
  | .ok (some (.str s)), hplain =>
      exact iff_of_false (hscalar (hplain _ rfl) rfl fun ms h => by cases h) id

/-- Followers of different labels, one of which is the label of a writer. -/
theorem accepts_iff_grammar_iff_texture :
    Accepts plainText (.ok (some (labelsDoc ["texture", "mic%d"] ["texture"]))) ↔
      Grammar plainText (.ok (some (labelsDoc ["texture", "mic%d"] ["texture"]))) := by
  refine (accepts_iff_grammar_iff fun j hj => ?_).2 fun _ => ⟨fun _ => ?_, fun _ => ?_⟩
  · obtain rfl := Option.some.inj (Except.ok.inj hj)
    exact plainNames_labelsDoc _ _
  · exact ⟨by decide, by decide⟩
  · exact ⟨by decide, by decide⟩

/-- Two equal labels with another one between them are not found. -/
theorem not_accepts_iff_grammar_repeated :
    ¬(Accepts plainText (.ok (some (labelsDoc ["video", "audio", "video"] []))) ↔
      Grammar plainText (.ok (some (labelsDoc ["video", "audio", "video"] [])))) := by
  intro h
  have hvalid : (labelsSpec ["video", "audio", "video"] []).isValid = true := by decide +kernel
  obtain ⟨ms, heq, -, hdistinct⟩ := h.1 ⟨_, (ofPlain_labelsSpec hvalid).made, hvalid⟩
  obtain rfl := Json.obj.inj (Option.some.inj (Except.ok.inj heq))
  exact absurd hdistinct.1 (by decide)

end Claw
end LibSwitcher
