/-
# Specifications made of documents

The sections of a document (`Json.sectionElements`) are those of its tree when its
member names are single components, and their elements are keyed by their
positions.  A specification that the constructor accepts on such a document
(`OfPlain`) starts with its points and its elements in step.
-/

import LibSwitcher.Quiddity.Claw.Registration

namespace LibSwitcher

/-- The elements of an array. -/
def Json.elements : Json → List Json
  | .arr js => js
  | _ => []

/-- The elements of the section of a role. -/
def Json.sectionElements (role : Claw.Role) : Json → List Json
  | .obj ms => ((ms.lookup role.name).map Json.elements).getD []
  | _ => []

namespace Claw

open InfoTree ConnectionSpec

variable {τ : Type} {x : Externals τ} {role : Role} {tree : InfoTree} {j : Json}

/-- A specification made of a document whose member names are single components. -/
structure OfPlain (x : Externals τ) (doc : Except String (Option Json)) (s : ConnectionSpec τ) :
    Prop where
  made : ofDocument x doc = some s
  valid : s.isValid = true
  plain : ∀ j, doc = .ok (some j) → j.PlainNames

/-- The loop over the keys accepts these. -/
theorem checkKeys_eq_none_iff {keys : List String} :
    checkKeys tree keys = none ↔
      ∀ key ∈ keys, (key = "follower" ∨ key = "writer") ∧ branchIsArray key tree = true := by
  induction keys with
  | nil => simp [checkKeys]
  | cons key keys ih =>
      rw [List.forall_mem_cons, ← ih, checkKeys]
      constructor
      · intro h
        split_ifs at h with hname harr
        exact ⟨⟨by tauto, by simpa using harr⟩, h⟩
      · rintro ⟨⟨hname, harr⟩, hkeys⟩
        rw [if_neg (by tauto), if_neg (by simp [harr])]
        exact hkeys

theorem lookup_memberTrees (k : String) (ms : List (String × Json)) :
    (Json.memberTrees ms).lookup k = (ms.lookup k).map Json.toTree := by
  induction ms with
  | nil => rfl
  | cons m ms ih =>
      obtain ⟨name, j⟩ := m
      rw [Json.memberTrees, List.lookup_cons, List.lookup_cons]
      cases k == name
      · exact ih
      · rfl

theorem sectionOf_eq_nil (h : role.name ∉ tree.children.map Prod.fst) : sectionOf role tree = [] := by
  rw [sectionOf, KeyTree.child_eq_none_iff.2 h]

/-- The elements under a member are those of its array. -/
theorem sectionOf_obj (role : Role) (ms : List (String × Json)) :
    sectionOf role (Json.obj ms).toTree =
      Json.elementTrees 0 ((Json.obj ms).sectionElements role) := by
  have hchild : (Json.obj ms).toTree.child role.name = (ms.lookup role.name).map Json.toTree :=
    lookup_memberTrees role.name ms
  rw [sectionOf, hchild, Json.sectionElements]
  cases ms.lookup role.name with
  | none => rfl
  | some j => cases j <;> rfl

/-- The section of a tree whose keys are accepted is that of its document. -/
theorem sectionOf_toTree (h : checkKeys j.toTree (getChildKeys "." j.toTree) = none) :
    sectionOf role j.toTree = Json.elementTrees 0 (j.sectionElements role) := by
  have hnil : ∀ {t : InfoTree}, t.children = [] → sectionOf role t = [] := fun ht =>
    sectionOf_eq_nil (by rw [ht]; simp)
  cases j with
  | obj ms => exact sectionOf_obj role ms
  | arr js =>
      cases js with
      | nil => exact hnil rfl
      | cons j js =>
          have hkey := checkKeys_eq_none_iff.1 h (toString 0) (by
            rw [getChildKeys_root, Json.toTree, Json.elementTrees]
            simp)
          exact absurd hkey.1 (by decide)
  | null => exact hnil rfl
  | bool b => exact hnil rfl
  | int i => exact hnil rfl
  | double text => exact hnil rfl
  | str s => exact hnil rfl

theorem positional_of_elementTrees (js : List Json) (h : sectionOf role tree =
    Json.elementTrees 0 js) : Positional role tree := by
  rw [Positional, h, Json.map_fst_elementTrees]
  have hlen := congrArg List.length (Json.map_snd_elementTrees 0 js)
  rw [List.length_map, List.length_map] at hlen
  rw [hlen, List.range_eq_range']

/-- A document that cannot be parsed is not accepted. -/
theorem not_accepted_error (msg : String) :
    ¬Accepted x (vgraft "parsing_error" (.str msg) InfoTree.make) := by
  intro h
  have hvalue : branchGetValue ".parsing_error" (vgraft "parsing_error" (.str msg) InfoTree.make) =
      .str msg := by
    rfl
  have hparsed := h.parsed
  rw [branchHasData, hvalue] at hparsed
  simp at hparsed

/-- The tree that a specification of a plain document is made of. -/
theorem OfPlain.exists_tree {doc : Except String (Option Json)} {s : ConnectionSpec τ}
    (h : OfPlain x doc s) : ∃ tree, Accepted x tree ∧ s = registered x tree ∧
      ∀ role, Positional role tree := by
  obtain ⟨tree, htree, hmade⟩ := Option.map_eq_some_iff.1 h.made
  have hacc : Accepted x tree := isValid_ofTree_iff.1 (hmade ▸ h.valid)
  refine ⟨tree, hacc, hmade.symm.trans (ofTree_of_accepted hacc), fun role => ?_⟩
  match doc, htree, h.plain with
  | .error msg, htree, _ =>
      obtain rfl := Option.some.inj htree
      exact absurd hacc (not_accepted_error msg)
  | .ok none, htree, _ =>
      obtain rfl := Option.some.inj htree
      exact positional_of_elementTrees [] (sectionOf_eq_nil (by simp [InfoTree.make]))
  | .ok (some j), htree, hplain =>
      have hj := addJsonNode_of_plainNames j (hplain j rfl)
      obtain rfl := Option.some.inj (hj.symm.trans htree)
      exact positional_of_elementTrees _ (sectionOf_toTree hacc.keys)

/-! ### Documents of given labels -/

/-- Types that are known by their text alone and have no parsing error. -/
def plainText : Externals String where
  ofString := id
  str := id
  parsingErrors := fun _ => ""
  str_ofString := fun _ => rfl
  serialize := fun _ => ""

/-- The element of a document for a point that accepts all types. -/
def pointDoc (label : String) : Json :=
  .obj [("label", .str label), ("description", .str ""), ("can_do", .arr [.str "all"])]

/-- The document of followers and writers with the given labels. -/
def labelsDoc (followers writers : List String) : Json :=
  .obj [("follower", .arr (followers.map pointDoc)), ("writer", .arr (writers.map pointDoc))]

theorem plainElements_map_pointDoc (labels : List String) :
    Json.PlainElements (labels.map pointDoc) := by
  induction labels with
  | nil => trivial
  | cons label labels ih =>
      refine ⟨⟨by simp, by decide, trivial, by decide, trivial, by decide, ?_, trivial⟩, ih⟩
      exact ⟨trivial, trivial⟩

theorem plainNames_labelsDoc (followers writers : List String) :
    (labelsDoc followers writers).PlainNames :=
  ⟨by simp, by decide, plainElements_map_pointDoc followers, by decide,
    plainElements_map_pointDoc writers, trivial⟩

/-- The specification of the followers and the writers with the given labels. -/
def labelsSpec (followers writers : List String) : ConnectionSpec String :=
  ofTree plainText (labelsDoc followers writers).toTree

theorem ofPlain_labelsSpec {followers writers : List String}
    (h : (labelsSpec followers writers).isValid = true) :
    OfPlain plainText (.ok (some (labelsDoc followers writers))) (labelsSpec followers writers) where
  made := congrArg (Option.map (ofTree plainText))
    (addJsonNode_of_plainNames _ (plainNames_labelsDoc followers writers))
  valid := h
  plain := fun j hj => by
    obtain rfl := Option.some.inj (Except.ok.inj hj)
    exact plainNames_labelsDoc followers writers

end Claw
end LibSwitcher
