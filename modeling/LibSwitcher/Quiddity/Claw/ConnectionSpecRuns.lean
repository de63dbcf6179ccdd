/-
# Runs of a connection specification

The six functions that change a specification, as the steps of a machine, and the
invariant of its runs: the points and the elements of both sections are in step
(`InStep`).  What an element shows is a parameter, and each function keeps the
invariant if the element it makes shows the point it is made for.
-/

import LibSwitcher.Lib.Machine
import LibSwitcher.Quiddity.Claw.CanDo
import LibSwitcher.Quiddity.Claw.Documents

namespace LibSwitcher
namespace Claw

open InfoTree

/-- A call of a function that changes a specification. -/
inductive SpecOp (τ : Type)
  | allocateSfidFromMeta (sfid : ℕ)
  | deallocateSfidFromMeta (sfid : ℕ)
  | allocateSwidFromMeta (swid : ℕ) (spec : ShmSpec)
  | deallocateSwidFromMeta (swid : ℕ)
  | replaceFollowerCanDo (sfid : ℕ) (types : List τ)
  | replaceWriterCanDo (swid : ℕ) (types : List τ)

/-- What these functions return. -/
inductive SpecResult
  | id (n : ℕ)
  | bool (b : Bool)
  deriving DecidableEq

namespace ConnectionSpec

variable {τ : Type} (x : Externals τ)

/-- One call. -/
def call (s : ConnectionSpec τ) : SpecOp τ → ConnectionSpec τ × SpecResult
  | .allocateSfidFromMeta sfid => (s.allocateSfidFromMeta sfid).map id .id
  | .deallocateSfidFromMeta sfid => (s.deallocateSfidFromMeta sfid).map id .bool
  | .allocateSwidFromMeta swid spec => (s.allocateSwidFromMeta x swid spec).map id .id
  | .deallocateSwidFromMeta swid => (s.deallocateSwidFromMeta swid).map id .bool
  | .replaceFollowerCanDo sfid types => (s.replaceFollowerCanDo x sfid types).map id .bool
  | .replaceWriterCanDo swid types => (s.replaceWriterCanDo x swid types).map id .bool

/-- The machine of these calls, none of which is undefined. -/
def step (s : ConnectionSpec τ) (op : SpecOp τ) : Option (ConnectionSpec τ × SpecResult) :=
  some (s.call x op)

/-- The points and the elements of both sections are in step. -/
structure InStep (shows : InfoTree → String → List τ → Prop) (n m : ℕ) (s : ConnectionSpec τ) :
    Prop where
  follower : Listed shows followerRole n s.follower s.tree
  writer : Listed shows writerRole m s.writer s.tree

variable {x} {shows : InfoTree → String → List τ → Prop} {n m : ℕ} {s : ConnectionSpec τ}
  {sfid swid : ℕ} {spec : ShmSpec} {types : List τ}

theorem follower_ne_writer : followerRole.name ≠ writerRole.name := by decide

/-- The identifier of an element the code makes. -/
theorem branchGetValue_followerTree (label : String) (id sfid : ℕ) :
    branchGetValue "sfid" (followerTree label id sfid) = .id id := by
  rw [followerTree, branchGetValue_vgraft_ne (by decide) (by decide) (by decide),
    branchGetValue_vgraft_self (by decide)]

theorem branchGetValue_writerTree (label : String) (id swid : ℕ) (description : String)
    (canDos : List String) :
    branchGetValue "swid" (writerTree label id swid description canDos) = .id id := by
  have hplain : Components.Plain '.' "swid" := by decide
  rw [branchGetValue, branch_of_plain hplain, child_writerTree_ne (by decide),
    child_vgraft_ne (by decide) (by decide), child_vgraft_ne (by decide) (by decide),
    ← branch_of_plain hplain]
  exact branchGetValue_vgraft_self hplain _

/-- A new follower keeps the sections in step. -/
theorem InStep.allocateSfidFromMeta (h : InStep shows n m s) (sfid : ℕ)
    (hshown : ∀ hmeta : s.follower.IsMeta sfid ∧ s.follower.Left,
      let id := s.follower.nextId hmeta.2
      let label := Stringutils.replaceChar (s.follower.labelOf sfid) '%' (toString id)
      shows (followerTree label id sfid) label (s.follower.typesOf sfid)) :
    InStep shows n m (s.allocateSfidFromMeta sfid).1 := by
  unfold ConnectionSpec.allocateSfidFromMeta
  split_ifs with hmeta
  · constructor
    · exact h.follower.addDynamic (h.follower.sectionOf_ne_nil hmeta.1.1)
        (branchGetValue_followerTree _ _ _) (hshown hmeta)
    · exact h.writer.congr (sectionOf_graft_ne followerRole follower_ne_writer.symm)
  · exact h

/-- Taking a dynamic follower out keeps the sections in step. -/
theorem InStep.deallocateSfidFromMeta (h : InStep shows n m s) :
    InStep shows n m (s.deallocateSfidFromMeta sfid).1 := by
  unfold ConnectionSpec.deallocateSfidFromMeta
  split_ifs with hdyn
  · constructor
    · exact h.follower.remove hdyn
    · exact h.writer.congr (sectionOf_prune_ne followerRole follower_ne_writer.symm)
  · exact h

/-- A new writer keeps the sections in step. -/
theorem InStep.allocateSwidFromMeta (h : InStep shows n m s) (swid : ℕ) (spec : ShmSpec)
    (hshown : ∀ hmeta : s.writer.IsMeta swid ∧ s.writer.Left, ∀ label,
      let id := s.writer.nextId hmeta.2
      let canDos := if spec.canDos = [] then (s.writer.typesOf swid).map x.str else spec.canDos
      shows (writerTree label id swid spec.description canDos) label (s.writer.typesOf swid)) :
    InStep shows n m (s.allocateSwidFromMeta x swid spec).1 := by
  rw [ConnectionSpec.allocateSwidFromMeta]
  by_cases hmeta : s.writer.IsMeta swid ∧ s.writer.Left
  · rw [dif_pos hmeta]
    constructor
    · exact h.follower.congr (sectionOf_graft_ne writerRole follower_ne_writer)
    · exact h.writer.addDynamic (h.writer.sectionOf_ne_nil hmeta.1.1)
        (branchGetValue_writerTree _ _ _ _ _) (hshown hmeta _)
  · rw [dif_neg hmeta]
    exact h

/-- Taking a dynamic writer out keeps the sections in step. -/
theorem InStep.deallocateSwidFromMeta (h : InStep shows n m s) (swid : ℕ) :
    InStep shows n m (s.deallocateSwidFromMeta swid).1 := by
  unfold ConnectionSpec.deallocateSwidFromMeta
  split_ifs with hdyn
  · constructor
    · exact h.follower.congr (sectionOf_prune_ne writerRole follower_ne_writer)
    · exact h.writer.remove hdyn
  · exact h

/-- The loop over a section replaces the types of the element of the identifier. -/
theorem sectionOf_replaceInTree (role : Role) (id : ℕ) (types : List τ) (t : InfoTree) :
    sectionOf role (replaceInTree x role id types t) = (sectionOf role t).map fun c =>
      (c.1, if branchGetValue role.idKey c.2 = .id id then replaceCanDo x types c.2 else c.2) := by
  rw [replaceInTree, (forEachInArray_section (components_of_plain role.plain_name)
    (branch_of_plain role.plain_name)).2]
  induction sectionOf role t with
  | nil => rfl
  | cons c l ih => rw [visit, ih, List.map_cons]

theorem sectionOf_replaceInTree_ne {role role' : Role} (h : role'.name ≠ role.name) (id : ℕ)
    (types : List τ) (t : InfoTree) :
    sectionOf role' (replaceInTree x role id types t) = sectionOf role' t :=
  sectionOf_forEachInArray_ne (components_of_plain role.plain_name) h

/-- An element keeps its identifier when its types are replaced. -/
theorem branchGetValue_replaceCanDo {k : String} (hplain : Components.Plain '.' k)
    (hk : k ≠ "can_do") (types : List τ) (e : InfoTree) :
    branchGetValue k (replaceCanDo x types e) = branchGetValue k e := by
  rw [branchGetValue, branchGetValue, branch_of_plain hplain, branch_of_plain hplain,
    child_replaceCanDo_ne hk]

/-- New types for a follower keep the sections in step. -/
theorem InStep.replaceFollowerCanDo (h : InStep shows n m s)
    (hshown : types ≠ [] → sfid ∈ s.follower.ids → ∀ e label ts, shows e label ts →
      shows (replaceCanDo x types e) label types) :
    InStep shows n m (s.replaceFollowerCanDo x sfid types).1 := by
  unfold ConnectionSpec.replaceFollowerCanDo
  split_ifs with htypes
  · constructor
    · exact h.follower.setTypes htypes.2 (sectionOf_replaceInTree followerRole sfid types s.tree)
        (branchGetValue_replaceCanDo (by decide) (by decide) types) (hshown htypes.1 htypes.2)
    · exact h.writer.congr (sectionOf_replaceInTree_ne follower_ne_writer.symm sfid types s.tree)
  · exact h

/-- New types for a writer keep the sections in step. -/
theorem InStep.replaceWriterCanDo (h : InStep shows n m s)
    (hshown : types ≠ [] → swid ∈ s.writer.ids → ∀ e label ts, shows e label ts →
      shows (replaceCanDo x types e) label types) :
    InStep shows n m (s.replaceWriterCanDo x swid types).1 := by
  unfold ConnectionSpec.replaceWriterCanDo
  split_ifs with htypes
  · constructor
    · exact h.follower.congr (sectionOf_replaceInTree_ne follower_ne_writer swid types s.tree)
    · exact h.writer.setTypes htypes.2 (sectionOf_replaceInTree writerRole swid types s.tree)
        (branchGetValue_replaceCanDo (by decide) (by decide) types) (hshown htypes.1 htypes.2)
  · exact h

/-- A specification made of a plain document starts with its sections in step, if the
elements that pass show the points that are made of them. -/
theorem inStep_of_ofPlain {doc : Except String (Option Json)} (h : OfPlain x doc s)
    (hshown : ∀ role e id, checkShmdataSpec x e = none →
      shows (identify role id Ids.kInvalid e) (pointOf x e).1 (pointOf x e).2) :
    ∃ n m, InStep shows n m s := by
  obtain ⟨tree, hacc, rfl, hpos⟩ := h.exists_tree
  refine ⟨_, _, ⟨hacc.listed_follower (hpos followerRole) fun c hc id => ?_,
    hacc.listed_writer (hpos writerRole) fun c hc id => ?_⟩⟩
  · exact hshown followerRole c.2 id (hacc.follower.pass c hc)
  · exact hshown writerRole c.2 id (hacc.writer.pass c hc)

end ConnectionSpec
end Claw
end LibSwitcher
