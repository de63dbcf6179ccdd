/-
# Identifiers that are never given back

The generator of a specification holds the identifiers it has given out.  They are those of the
points as long as no dynamic point is taken out: `deallocate_sfid_from_meta` and
`deallocate_swid_from_meta` erase the entries of the maps, and do not call `release_id`
(`always_holdsItsIds_iff`).

So a follower that is connected and disconnected for long enough uses the generator up, while the
specification has the same followers all the time (`exists_exhausted`).
-/

import LibSwitcher.Quiddity.Claw.ClawAtomicity

namespace LibSwitcher
namespace Claw

variable {τ : Type} {x : Externals τ}

namespace Points

variable {p : Points τ} {id : ℕ} {label : String} {types : List τ}

/-- The identifiers that the generator holds are those of the points. -/
def HoldsItsIds (p : Points τ) : Prop := ∀ id, id ∈ p.idGenerator.ids ↔ id ∈ p.ids

theorem holdsItsIds_empty : (empty : Points τ).HoldsItsIds := fun id => by
  simp [empty, Ids.empty]

theorem HoldsItsIds.add (h : p.HoldsItsIds) (hleft : p.Left) (label : String) (types : List τ) :
    (p.add hleft label types).HoldsItsIds := fun id => by
  change id ∈ p.idGenerator.ids ++ [p.nextId hleft] ↔ id ∈ p.ids.insertIfNew (p.nextId hleft) label
  rw [List.mem_append, List.mem_singleton, IdMap.mem_emplace, h id, or_comm]

/-- A point that is taken out is still held. -/
theorem not_holdsItsIds_remove (hid : id ∈ p.ids) : ¬(p.remove id).HoldsItsIds := fun h =>
  (mem_ids_remove.1 ((h id).1 (p.allocated id hid))).1 rfl

end Points

namespace ConnectionSpec

variable {s : ConnectionSpec τ} {sfid : ℕ}

/-- The generators of a specification hold the identifiers of its points. -/
structure HoldsItsIds (s : ConnectionSpec τ) : Prop where
  follower : s.follower.HoldsItsIds
  writer : s.writer.HoldsItsIds

/-- No dynamic point is taken out by a call. -/
def TakesNoneOut (s : ConnectionSpec τ) : SpecOp τ → Prop
  | .deallocateSfidFromMeta sfid => sfid ∉ s.follower.dynamic
  | .deallocateSwidFromMeta swid => swid ∉ s.writer.dynamic
  | _ => True

/-- Such a call keeps the generators and the maps the same, and no other one does. -/
theorem takesNoneOut_iff (h : s.HoldsItsIds) (op : SpecOp τ) :
    s.TakesNoneOut op ↔ (s.call x op).1.HoldsItsIds := by
  cases op with
  | allocateSfidFromMeta sfid =>
      refine iff_of_true trivial ?_
      rw [call, allocateSfidFromMeta]
      split_ifs with hmeta
      · exact ⟨h.follower.add hmeta.2 _ (s.follower.typesOf sfid), h.writer⟩
      · exact h
  | deallocateSfidFromMeta sfid =>
      rw [call, deallocateSfidFromMeta]
      split_ifs with hdyn
      · exact iff_of_false (not_not.2 hdyn) fun h' =>
          Points.not_holdsItsIds_remove (s.follower.dynamic_mem sfid hdyn) h'.follower
      · exact iff_of_true hdyn h
  | allocateSwidFromMeta swid spec =>
      refine iff_of_true trivial ?_
      rw [call, allocateSwidFromMeta]
      by_cases hmeta : s.writer.IsMeta swid ∧ s.writer.Left
      · rw [dif_pos hmeta]
        exact ⟨h.follower, h.writer.add hmeta.2 _ (s.writer.typesOf swid)⟩
      · rw [dif_neg hmeta]
        exact h
  | deallocateSwidFromMeta swid =>
      rw [call, deallocateSwidFromMeta]
      split_ifs with hdyn
      · exact iff_of_false (not_not.2 hdyn) fun h' =>
          Points.not_holdsItsIds_remove (s.writer.dynamic_mem swid hdyn) h'.writer
      · exact iff_of_true hdyn h
  | replaceFollowerCanDo sfid types =>
      refine iff_of_true trivial ?_
      rw [call, replaceFollowerCanDo]
      split_ifs <;> exact ⟨h.follower, h.writer⟩
  | replaceWriterCanDo swid types =>
      refine iff_of_true trivial ?_
      rw [call, replaceWriterCanDo]
      split_ifs <;> exact ⟨h.follower, h.writer⟩

/-- The constructor enters the identifiers it allocates. -/
theorem holdsItsIds_ofTree (tree : InfoTree) : (ofTree x tree).HoldsItsIds := by
  obtain ⟨hfollower, hwriter⟩ := ofTree_points (x := x) Points.holdsItsIds_empty
    (fun _ hleft label types _ hp => hp.add hleft label types) tree
  exact ⟨hfollower, hwriter⟩

/-- **The generators hold the identifiers of the points** in all the states of a run exactly when
no call of it takes a dynamic point out. -/
theorem always_holdsItsIds_iff (tree : InfoTree) (ops : List (SpecOp τ)) :
    Machine.Always (step x) HoldsItsIds (ofTree x tree) ops ↔
      Machine.Admits (step x) TakesNoneOut (ofTree x tree) ops := by
  rw [Machine.always_iff_admits fun s op hs => ?_]
  · exact and_iff_right (holdsItsIds_ofTree tree)
  · refine (takesNoneOut_iff (x := x) hs op).trans ⟨fun h r hr => ?_, fun h => h _ rfl⟩
    exact Option.some.inj hr ▸ h

/-- A follower that is connected and disconnected. -/
theorem not_holdsItsIds_connected : (labelsSpec ["video%"] []).isValid = true ∧
    ¬Machine.Always (step plainText) HoldsItsIds (labelsSpec ["video%"] [])
      [.allocateSfidFromMeta 1, .deallocateSfidFromMeta 2] := by
  refine ⟨by decide +kernel, fun h => ?_⟩
  have hlast := (h.2 _ rfl).2 _ rfl
  exact absurd ((hlast.follower 2).1 (by decide +kernel)) (by decide +kernel)

/-! ### Running out of identifiers -/

/-- A connection of a meta follower, and the disconnection of the follower it makes. -/
def cycle (sfid : ℕ) (s : ConnectionSpec τ) : ConnectionSpec τ :=
  ((s.allocateSfidFromMeta sfid).1.deallocateSfidFromMeta (s.allocateSfidFromMeta sfid).2).1

theorem cycle_spec (hmeta : s.follower.IsMeta sfid) (hleft : s.follower.Left) :
    SamePoints s.follower (cycle sfid s).follower ∧
      (cycle sfid s).follower.idGenerator.ids.length = s.follower.idGenerator.ids.length + 1 := by
  rw [cycle, allocateSfidFromMeta, dif_pos ⟨hmeta, hleft⟩, deallocateSfidFromMeta, if_pos (by
    exact List.mem_append_right _ (List.mem_singleton.2 rfl))]
  exact ⟨samePoints_remove_addDynamic, List.length_append⟩

/-- **The generator is used up** by cycles of a meta follower, whatever the points are. -/
theorem exists_exhausted (hmeta : s.follower.IsMeta sfid) : ∃ n,
    SamePoints s.follower ((cycle sfid)^[n] s).follower ∧
      (((cycle sfid)^[n] s).allocateSfidFromMeta sfid).2 = Ids.kInvalid := by
  induction hfree : Ids.kMaxNumOfIds - s.follower.idGenerator.ids.length generalizing s with
  | zero =>
      have hle := s.follower.idGenerator.length_le
      refine ⟨0, ⟨rfl, rfl, rfl⟩, ?_⟩
      rw [Function.iterate_zero_apply, allocateSfidFromMeta, dif_neg fun h => h.2 (by omega)]
  | succ m ih =>
      have hleft : s.follower.Left := fun heq => by omega
      obtain ⟨hsame, hlength⟩ := cycle_spec hmeta hleft
      have hmeta' : (cycle sfid s).follower.IsMeta sfid := by
        rw [Points.IsMeta, Points.labelOf, hsame.ids]
        exact hmeta
      obtain ⟨n, hn, hinvalid⟩ := ih hmeta' (by omega)
      refine ⟨n + 1, ?_, hinvalid⟩
      exact ⟨hn.ids.trans hsame.ids, hn.canDo.trans hsame.canDo, hn.dynamic.trans hsame.dynamic⟩

end ConnectionSpec
end Claw
end LibSwitcher
