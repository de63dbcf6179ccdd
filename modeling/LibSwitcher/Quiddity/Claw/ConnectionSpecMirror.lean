/-
# The tree mirrors the maps

A specification mirrors its maps when each section of its tree has one element for
each identifier of the map of labels, with this identifier, the label of the map and
the types of the other map in their order (`Mirrors`).

Three functions do not keep this.  `allocate_sfid_from_meta` grafts no type;
`allocate_swid_from_meta` grafts the types it is given and stores those of the meta
writer; the `replace_` functions never increment the index under which they graft,
so that of several types the last one is shown.  Runs that avoid these calls
(`KeepsMirror`) mirror their maps in every state (`mirrors_of_keepsMirror`).
-/

import LibSwitcher.Quiddity.Claw.ConnectionSpecRuns

namespace LibSwitcher
namespace Claw

open InfoTree ConnectionSpec

variable {τ : Type} (x : Externals τ)

/-- An element shows a label and types. -/
structure ShowsPoint (e : InfoTree) (label : String) (types : List τ) : Prop where
  label : branchGetValue "label" e = .str label
  canDo : canDo e = types.map fun type => .str (x.str type)

/-- A section of the tree mirrors the maps of its points. -/
def SectionMirrors (role : Role) (p : Points τ) (t : InfoTree) : Prop :=
  ∃ ids : List ℕ, ids.Nodup ∧ (∀ id, id ∈ ids ↔ id ∈ p.ids) ∧
    List.Forall₂ (fun id c => branchGetValue role.idKey c.2 = .id id ∧
      ShowsPoint x c.2 (p.labelOf id) (p.typesOf id)) ids (sectionOf role t)

/-- The tree of a specification mirrors its maps. -/
structure Mirrors (s : ConnectionSpec τ) : Prop where
  follower : SectionMirrors x followerRole s.follower s.tree
  writer : SectionMirrors x writerRole s.writer s.tree

/-- The calls that keep the tree in step: no new follower, a new writer with the types
that are stored for it, and one type at a time. -/
def KeepsMirror (s : ConnectionSpec τ) : SpecOp τ → Prop
  | .allocateSfidFromMeta sfid => ¬(s.follower.IsMeta sfid ∧ s.follower.Left)
  | .deallocateSfidFromMeta _ => True
  | .allocateSwidFromMeta swid spec => s.writer.IsMeta swid ∧ s.writer.Left →
      spec.canDos = [] ∨ spec.canDos = (s.writer.typesOf swid).map x.str
  | .deallocateSwidFromMeta _ => True
  | .replaceFollowerCanDo sfid types => types ≠ [] ∧ sfid ∈ s.follower.ids → types.length = 1
  | .replaceWriterCanDo swid types => types ≠ [] ∧ swid ∈ s.writer.ids → types.length = 1

instance decidableKeepsMirror (s : ConnectionSpec τ) (op : SpecOp τ) :
    Decidable (KeepsMirror x s op) := by
  cases op <;> unfold KeepsMirror <;> infer_instance

variable {x} {s : ConnectionSpec τ} {role : Role} {p : Points τ} {t e : InfoTree} {n m : ℕ}
  {types : List τ}

/-- Points and elements in step mirror each other. -/
theorem Listed.sectionMirrors (h : Listed (ShowsPoint x) role n p t) : SectionMirrors x role p t :=
  ⟨p.listed n, h.nodup_listed, h.mem_listed, h.elements.imp fun _ _ hc => ⟨hc.idValue, hc.shown⟩⟩

/-- The element of an identifier shows its types. -/
theorem SectionMirrors.canDo_eq (h : SectionMirrors x role p t) {c : String × InfoTree} {id : ℕ}
    (hc : c ∈ sectionOf role t) (hid : branchGetValue role.idKey c.2 = .id id) :
    canDo c.2 = (p.typesOf id).map fun type => .str (x.str type) := by
  obtain ⟨ids, -, -, hall⟩ := h
  obtain ⟨id', -, hid', hshows⟩ := KeyTree.exists_of_forall₂_of_mem hall hc
  obtain rfl := Any.id.inj (hid.symm.trans hid')
  exact hshows.canDo

/-! ### The elements that show their point -/

/-- An element that passes shows the point that is made of it. -/
theorem showsPoint_identify (role : Role) {e : InfoTree} (id : ℕ)
    (h : checkShmdataSpec x e = none) :
    ShowsPoint x (identify role id Ids.kInvalid e) (pointOf x e).1 (pointOf x e).2 := by
  obtain ⟨-, ⟨hlabel, -⟩, -, -, -, hcaps⟩ := checkShmdataSpec_eq_none_iff.1 h
  have hplain : Components.Plain '.' "label" := by decide
  constructor
  · obtain ⟨label, heq⟩ := Any.isString_iff.1 hlabel
    rw [branchGetValue, branch_of_plain hplain, child_identify role.idKey_ne.1.symm
      role.fromKey_ne.1.symm, ← branch_of_plain hplain]
    exact heq.trans (congrArg Any.str (congrArg Any.asString heq).symm)
  · rw [canDo_congr (child_identify role.idKey_ne.2.symm role.fromKey_ne.2.1.symm), canDo, pointOf,
      typesIn, List.map_map]
    refine List.map_congr_left fun caps hmem => ?_
    obtain ⟨text, heq⟩ := Any.isString_iff.1 (capsMessage_eq_none_iff.1 (hcaps caps hmem)).1
    rw [Function.comp_apply, x.str_ofString, heq]
    rfl

/-- The element of a new writer shows the types it was given. -/
theorem showsPoint_writerTree {label description : String} {id swid : ℕ} {canDos : List String}
    (h : canDos = types.map x.str) :
    ShowsPoint x (writerTree label id swid description canDos) label types := by
  have hplain : Components.Plain '.' "label" := by decide
  constructor
  · rw [branchGetValue, branch_of_plain hplain, child_writerTree_ne (by decide),
      child_vgraft_ne (by decide) (by decide), child_vgraft_ne (by decide) (by decide),
      child_vgraft_ne (by decide) (by decide), ← branch_of_plain hplain]
    exact branchGetValue_vgraft_self hplain _
  · rw [canDo_writerTree, h, List.map_map]
    rfl

/-- A single type replaces those an element shows. -/
theorem showsPoint_replaceCanDo {label : String} {ts : List τ} (htypes : types.length = 1)
    (h : ShowsPoint x e label ts) : ShowsPoint x (replaceCanDo x types e) label types := by
  obtain ⟨type, rfl⟩ := List.length_eq_one_iff.1 htypes
  constructor
  · rw [branchGetValue_replaceCanDo (by decide) (by decide)]
    exact h.label
  · rw [canDo_replaceCanDo]
    rfl

/-! ### Runs -/

/-- A call that meets the condition keeps both sections in step. -/
theorem inStep_call (h : InStep (ShowsPoint x) n m s) {op : SpecOp τ} (hop : KeepsMirror x s op) :
    InStep (ShowsPoint x) n m (s.call x op).1 := by
  cases op with
  | allocateSfidFromMeta sfid => exact h.allocateSfidFromMeta sfid fun hmeta => absurd hmeta hop
  | deallocateSfidFromMeta sfid => exact h.deallocateSfidFromMeta
  | allocateSwidFromMeta swid spec =>
      refine h.allocateSwidFromMeta swid spec fun hmeta label => showsPoint_writerTree ?_
      rcases hop hmeta with hnil | hsame
      · exact if_pos hnil
      · rw [hsame, ite_self]
  | deallocateSwidFromMeta swid => exact h.deallocateSwidFromMeta swid
  | replaceFollowerCanDo sfid types =>
      exact h.replaceFollowerCanDo fun hne hid e label ts =>
        showsPoint_replaceCanDo (hop ⟨hne, hid⟩)
  | replaceWriterCanDo swid types =>
      exact h.replaceWriterCanDo fun hne hid e label ts =>
        showsPoint_replaceCanDo (hop ⟨hne, hid⟩)

/-- From a valid specification of a plain document, a run whose calls all meet the
condition ends with a tree that mirrors the maps. -/
theorem mirrors_of_keepsMirror {doc : Except String (Option Json)} (h : OfPlain x doc s)
    {ops : List (SpecOp τ)} (hops : Machine.Admits (ConnectionSpec.step x) (KeepsMirror x) s ops) :
    ∃ s' results, Machine.run (ConnectionSpec.step x) s ops = some (s', results) ∧ Mirrors x s' := by
  have hinit : ∃ n m, InStep (ShowsPoint x) n m s :=
    inStep_of_ofPlain h fun role e id hpass => showsPoint_identify role id hpass
  obtain ⟨s', results, hrun, n, m, hs'⟩ := Machine.Admits.defined
    (fun s op (hs : ∃ n m, InStep (ShowsPoint x) n m s) hop => by
      obtain ⟨n, m, hs⟩ := hs
      exact ⟨s.call x op, rfl, n, m, inStep_call hs hop⟩) hinit hops
  exact ⟨s', results, hrun, hs'.follower.sectionMirrors, hs'.writer.sectionMirrors⟩

/-- Runs with a dynamic writer, a new type for it and its removal. -/
theorem mirrors_of_keepsMirror_audio :
    ∃ s' results, Machine.run (ConnectionSpec.step plainText) (labelsSpec ["video"] ["audio%"])
      [.allocateSwidFromMeta 1 ⟨"", "left", []⟩, .replaceWriterCanDo 2 ["audio/x-raw"],
        .deallocateSwidFromMeta 2] = some (s', results) ∧ Mirrors plainText s' :=
  mirrors_of_keepsMirror (ofPlain_labelsSpec (by decide +kernel)) (by decide +kernel)

/-- The element of a dynamic follower shows no type, whatever its meta follower accepts. -/
theorem not_mirrors_dynamic_follower :
    ∃ s' results, OfPlain plainText (.ok (some (labelsDoc ["video%"] [])))
        (labelsSpec ["video%"] []) ∧
      Machine.run (ConnectionSpec.step plainText) (labelsSpec ["video%"] [])
        [.allocateSfidFromMeta 1] = some (s', results) ∧ ¬Mirrors plainText s' := by
  refine ⟨_, _, ofPlain_labelsSpec (by decide +kernel), rfl, fun h => ?_⟩
  have helement : ("2", followerTree "video2" 2 1) ∈ sectionOf followerRole
      ((labelsSpec ["video%"] []).call plainText (.allocateSfidFromMeta 1)).1.tree :=
    List.mem_of_getElem? (i := 1) rfl
  exact absurd (h.follower.canDo_eq helement rfl) (by decide +kernel)

end Claw
end LibSwitcher
