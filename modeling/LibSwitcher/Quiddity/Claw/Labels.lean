/-
# Labels as names

Users name a follower or a writer by its label: `get_sfid` and `get_swid` give the
identifier of a label back (`switcher/quiddity/claw/connection-spec.cpp`).  This is
sound as long as no two points have the same label (`Identified`).

The constructor removes such specifications only if the two labels follow each
other, since `std::unique` is applied to labels that are not sorted, and the
`allocate_` functions give a new point its label without a comparison with those in
use.  The labels stay distinct along a run exactly when those of the document are
and no call gives a label that is in use (`always_identified_iff`).
-/

import LibSwitcher.Quiddity.Claw.ConnectionSpecRuns

namespace LibSwitcher
namespace Claw

variable {τ : Type}

/-! ### Points with distinct labels -/

namespace Points

/-- The loop of `get_sfid` and `get_swid`: the first identifier of a label. -/
def getId (p : Points τ) (label : String) : ℕ :=
  ((p.ids.toList.find? fun it => it.2 = label).map Prod.fst).getD Ids.kInvalid

/-- The labels are names of the points, and the lookup gives the point of a name. -/
structure Identified (p : Points τ) : Prop where
  distinct : ∀ id ∈ p.ids, ∀ id' ∈ p.ids, p.labelOf id = p.labelOf id' → id = id'
  getId : ∀ id ∈ p.ids, p.getId (p.labelOf id) = id

variable {p : Points τ} {label : String} {types : List τ} {id : ℕ}

theorem mem_toList_iff {it : ℕ × String} :
    it ∈ p.ids.toList ↔ it.1 ∈ p.ids ∧ p.labelOf it.1 = it.2 := by
  rw [Std.ExtTreeMap.mem_toList_iff_getElem?_eq_some, Points.labelOf,
    Std.ExtTreeMap.mem_iff_isSome_getElem?]
  cases p.ids[it.1]? <;> simp

/-- The labels in use are those of the points. -/
theorem mem_labels_iff : label ∈ p.labels ↔ ∃ id ∈ p.ids, p.labelOf id = label := by
  rw [labels, List.mem_map]
  constructor
  · rintro ⟨it, hit, rfl⟩
    exact ⟨it.1, mem_toList_iff.1 hit⟩
  · rintro ⟨id, hid, hlabel⟩
    exact ⟨(id, label), mem_toList_iff.2 ⟨hid, hlabel⟩, rfl⟩

/-- What the lookup finds is a point of the label, if there is one. -/
theorem labelOf_getId (h : id ∈ p.ids) :
    p.getId (p.labelOf id) ∈ p.ids ∧ p.labelOf (p.getId (p.labelOf id)) = p.labelOf id := by
  have hmem : (id, p.labelOf id) ∈ p.ids.toList := mem_toList_iff.2 ⟨h, rfl⟩
  rw [getId]
  cases hfind : p.ids.toList.find? fun it => it.2 = p.labelOf id with
  | none => exact absurd (List.find?_eq_none.1 hfind _ hmem) (by simp)
  | some it =>
      have hit := mem_toList_iff.1 (List.mem_of_find?_eq_some hfind)
      have hlabel : it.2 = p.labelOf id := by simpa using List.find?_some hfind
      exact ⟨hit.1, hit.2.trans hlabel⟩

/-- Distinct labels are enough for the lookup. -/
theorem identified_iff : p.Identified ↔
    ∀ id ∈ p.ids, ∀ id' ∈ p.ids, p.labelOf id = p.labelOf id' → id = id' := by
  refine ⟨fun h => h.distinct, fun h => ⟨h, fun id hid => ?_⟩⟩
  obtain ⟨hmem, hlabel⟩ := labelOf_getId hid
  exact h _ hmem id hid hlabel

/-- Points have distinct labels when no label is listed twice. -/
theorem identified_iff_nodup : p.Identified ↔ p.labels.Nodup := by
  rw [identified_iff, labels]
  constructor
  · intro h
    refine (IdMap.nodup_toList p.ids).map_on fun a ha b hb hab => ?_
    obtain ⟨hida, hla⟩ := mem_toList_iff.1 ha
    obtain ⟨hidb, hlb⟩ := mem_toList_iff.1 hb
    exact Prod.ext (h _ hida _ hidb (by rw [hla, hlb, hab])) hab
  · intro h id hid id' hid' hlabel
    have hmem : (id, p.labelOf id) ∈ p.ids.toList := mem_toList_iff.2 ⟨hid, rfl⟩
    have hmem' : (id', p.labelOf id') ∈ p.ids.toList := mem_toList_iff.2 ⟨hid', rfl⟩
    exact congrArg Prod.fst (List.inj_on_of_nodup_map h hmem hmem' hlabel)

/-- A new point keeps the labels distinct exactly when its label is not in use. -/
theorem identified_addDynamic_iff (h : p.Identified) {hleft : p.Left} :
    (p.addDynamic hleft label types).Identified ↔ label ∉ p.labels := by
  rw [identified_iff, mem_labels_iff]
  have hnew := p.nextId_not_mem hleft
  constructor
  · rintro hall ⟨id, hid, hlabel⟩
    have heq := hall id (mem_ids_addDynamic.2 (Or.inr hid)) (p.nextId hleft)
      (mem_ids_addDynamic.2 (Or.inl rfl))
      (by rw [labelOf_addDynamic hid, labelOf_addDynamic_nextId, hlabel])
    exact hnew (heq ▸ hid)
  · intro hfree id hid id' hid' hlabel
    rcases mem_ids_addDynamic.1 hid with rfl | hid <;>
      rcases mem_ids_addDynamic.1 hid' with rfl | hid'
    · rfl
    · rw [labelOf_addDynamic_nextId, labelOf_addDynamic hid'] at hlabel
      exact absurd ⟨id', hid', hlabel.symm⟩ hfree
    · rw [labelOf_addDynamic_nextId, labelOf_addDynamic hid] at hlabel
      exact absurd ⟨id, hid, hlabel⟩ hfree
    · rw [labelOf_addDynamic hid, labelOf_addDynamic hid'] at hlabel
      exact h.distinct id hid id' hid' hlabel

/-- Taking a point out keeps the labels distinct. -/
theorem Identified.remove (h : p.Identified) (id : ℕ) : (p.remove id).Identified := by
  refine identified_iff.2 fun id₁ h₁ id₂ h₂ hlabel => ?_
  obtain ⟨hne₁, hmem₁⟩ := mem_ids_remove.1 h₁
  obtain ⟨hne₂, hmem₂⟩ := mem_ids_remove.1 h₂
  rw [labelOf_remove hne₁, labelOf_remove hne₂] at hlabel
  exact h.distinct id₁ hmem₁ id₂ hmem₂ hlabel

end Points

/-! ### Runs -/

namespace ConnectionSpec

/-- `get_sfid`. -/
def getSfid (s : ConnectionSpec τ) (label : String) : ℕ := s.follower.getId label

/-- `get_swid`. -/
def getSwid (s : ConnectionSpec τ) (label : String) : ℕ := s.writer.getId label

/-- `get_follower_label`. -/
def getFollowerLabel (s : ConnectionSpec τ) (sfid : ℕ) : String := s.follower.labelOf sfid

/-- `get_writer_label`. -/
def getWriterLabel (s : ConnectionSpec τ) (swid : ℕ) : String := s.writer.labelOf swid

/-- The labels identify the followers and the writers. -/
structure LabelsIdentify (s : ConnectionSpec τ) : Prop where
  follower : ∀ sfid, s.IsAllocatedFollower sfid → ∀ sfid', s.IsAllocatedFollower sfid' →
    s.getFollowerLabel sfid = s.getFollowerLabel sfid' → sfid = sfid'
  writer : ∀ swid, s.IsAllocatedWriter swid → ∀ swid', s.IsAllocatedWriter swid' →
    s.getWriterLabel swid = s.getWriterLabel swid' → swid = swid'
  getSfid : ∀ sfid, s.IsAllocatedFollower sfid → s.getSfid (s.getFollowerLabel sfid) = sfid
  getSwid : ∀ swid, s.IsAllocatedWriter swid → s.getSwid (s.getWriterLabel swid) = swid

/-- The call gives no label that is in use: neither the one of the caller, nor that of
the meta point with the next identifier in place of `%`. -/
def GivesFreeLabel (s : ConnectionSpec τ) : SpecOp τ → Prop
  | .allocateSfidFromMeta sfid => ∀ h : s.follower.IsMeta sfid ∧ s.follower.Left,
      Stringutils.replaceChar (s.follower.labelOf sfid) '%' (toString (s.follower.nextId h.2)) ∉
        s.follower.labels
  | .allocateSwidFromMeta swid spec => ∀ h : s.writer.IsMeta swid ∧ s.writer.Left,
      (if spec.label = "" then
        Stringutils.replaceChar (s.writer.labelOf swid) '%' (toString (s.writer.nextId h.2))
      else spec.label) ∉ s.writer.labels
  | _ => True

instance decidableGivesFreeLabel (s : ConnectionSpec τ) :
    (op : SpecOp τ) → Decidable (s.GivesFreeLabel op)
  | .allocateSfidFromMeta _ => inferInstanceAs (Decidable (∀ _ : _ ∧ _, _))
  | .allocateSwidFromMeta _ _ => inferInstanceAs (Decidable (∀ _ : _ ∧ _, _))
  | .deallocateSfidFromMeta _ => inferInstanceAs (Decidable True)
  | .deallocateSwidFromMeta _ => inferInstanceAs (Decidable True)
  | .replaceFollowerCanDo _ _ => inferInstanceAs (Decidable True)
  | .replaceWriterCanDo _ _ => inferInstanceAs (Decidable True)

variable {x : Externals τ} {s : ConnectionSpec τ}

theorem labelsIdentify_iff :
    s.LabelsIdentify ↔ s.follower.Identified ∧ s.writer.Identified :=
  ⟨fun h => ⟨⟨h.follower, h.getSfid⟩, h.writer, h.getSwid⟩,
    fun h => ⟨h.1.distinct, h.2.distinct, h.1.getId, h.2.getId⟩⟩

/-- A call keeps the labels distinct exactly when it gives none that is in use. -/
theorem labelsIdentify_call_iff (h : s.LabelsIdentify) (op : SpecOp τ) :
    s.GivesFreeLabel op ↔ (s.call x op).1.LabelsIdentify := by
  obtain ⟨hf, hw⟩ := labelsIdentify_iff.1 h
  rw [labelsIdentify_iff]
  cases op with
  | allocateSfidFromMeta sfid =>
      rw [GivesFreeLabel, call, ConnectionSpec.allocateSfidFromMeta]
      by_cases hmeta : s.follower.IsMeta sfid ∧ s.follower.Left
      · rw [dif_pos hmeta]
        constructor
        · intro hfree
          exact ⟨(Points.identified_addDynamic_iff hf).2 (hfree hmeta), hw⟩
        · intro hid _
          exact (Points.identified_addDynamic_iff hf).1 hid.1
      · rw [dif_neg hmeta]
        exact ⟨fun _ => ⟨hf, hw⟩, fun _ h => absurd h hmeta⟩
  | allocateSwidFromMeta swid spec =>
      rw [GivesFreeLabel, call, ConnectionSpec.allocateSwidFromMeta]
      by_cases hmeta : s.writer.IsMeta swid ∧ s.writer.Left
      · rw [dif_pos hmeta]
        constructor
        · intro hfree
          exact ⟨hf, (Points.identified_addDynamic_iff hw).2 (hfree hmeta)⟩
        · intro hid _
          exact (Points.identified_addDynamic_iff hw).1 hid.2
      · rw [dif_neg hmeta]
        exact ⟨fun _ => ⟨hf, hw⟩, fun _ h => absurd h hmeta⟩
  | deallocateSfidFromMeta sfid =>
      refine ⟨fun _ => ?_, fun _ => trivial⟩
      rw [call, ConnectionSpec.deallocateSfidFromMeta]
      split_ifs
      · exact ⟨hf.remove sfid, hw⟩
      · exact ⟨hf, hw⟩
  | deallocateSwidFromMeta swid =>
      refine ⟨fun _ => ?_, fun _ => trivial⟩
      rw [call, ConnectionSpec.deallocateSwidFromMeta]
      split_ifs
      · exact ⟨hf, hw.remove swid⟩
      · exact ⟨hf, hw⟩
  | replaceFollowerCanDo sfid types =>
      refine ⟨fun _ => ?_, fun _ => trivial⟩
      rw [call, ConnectionSpec.replaceFollowerCanDo]
      split_ifs
      · exact ⟨⟨hf.distinct, hf.getId⟩, hw⟩
      · exact ⟨hf, hw⟩
  | replaceWriterCanDo swid types =>
      refine ⟨fun _ => ?_, fun _ => trivial⟩
      rw [call, ConnectionSpec.replaceWriterCanDo]
      split_ifs
      · exact ⟨hf, ⟨hw.distinct, hw.getId⟩⟩
      · exact ⟨hf, hw⟩

/-- The labels that a section of a document gives. -/
def sectionLabels (role : Role) (tree : InfoTree) : List String :=
  (sectionOf role tree).map fun c => (c.2.branchGetValue "label").asString

/-- The points of a new specification have the labels of its document. -/
theorem labels_registered {tree : InfoTree} (h : Accepted x tree) :
    (registered x tree).follower.labels = sectionLabels followerRole tree ∧
      (registered x tree).writer.labels = sectionLabels writerRole tree := by
  have hsame := sectionOf_registerSection_ne (x := x) writer_ne_follower tree
  have hfollower := registerSection_spec followerRole tree h.follower.pass h.follower.room
  have hwriter := registerSection_spec (x := x) writerRole (registerSection x followerRole tree).2
    (hsame ▸ h.writer.pass) (hsame ▸ h.writer.room)
  rw [hsame] at hwriter
  constructor
  · have := hfollower.1.ids.values
    rwa [List.map_map] at this
  · have := hwriter.1.ids.values
    rwa [List.map_map] at this

/-- From a valid specification, the labels identify the points in every state of a run
exactly when those of the document are distinct and no call gives one that is in use. -/
theorem always_labelsIdentify_iff {tree : InfoTree} (hvalid : (ofTree x tree).isValid = true)
    (ops : List (SpecOp τ)) :
    Machine.Always (ConnectionSpec.step x) LabelsIdentify (ofTree x tree) ops ↔
      ((sectionLabels followerRole tree).Nodup ∧ (sectionLabels writerRole tree).Nodup) ∧
        Machine.Admits (ConnectionSpec.step x) GivesFreeLabel (ofTree x tree) ops := by
  have hacc := isValid_ofTree_iff.1 hvalid
  have hcall : ∀ (s : ConnectionSpec τ) (op : SpecOp τ), LabelsIdentify s →
      (GivesFreeLabel s op ↔ ∀ r, ConnectionSpec.step x s op = some r → LabelsIdentify r.1) := by
    intro s op hs
    rw [labelsIdentify_call_iff (x := x) hs op]
    exact ⟨fun h r hr => Option.some.inj hr ▸ h, fun h => h _ rfl⟩
  rw [Machine.always_iff_admits hcall]
  obtain ⟨hfollower, hwriter⟩ := labels_registered hacc
  rw [ofTree_of_accepted hacc, labelsIdentify_iff, Points.identified_iff_nodup,
    Points.identified_iff_nodup, hfollower, hwriter]

/-- A run with two dynamic writers that are given different labels. -/
theorem always_labelsIdentify_left_right :
    Machine.Always (ConnectionSpec.step plainText) LabelsIdentify (labelsSpec ["video"] ["audio%"])
      [.allocateSwidFromMeta 1 ⟨"left", "", []⟩, .allocateSwidFromMeta 1 ⟨"right", "", []⟩,
        .deallocateSwidFromMeta 2, .allocateSwidFromMeta 1 ⟨"left", "", []⟩] :=
  (always_labelsIdentify_iff (by decide +kernel) _).2 (by decide +kernel)

/-- The constructor accepts two followers with one label if another stands between them,
and two dynamic writers can be given the same label. -/
theorem not_labelsIdentify_left_left :
    ((labelsSpec ["a", "b", "a"] []).isValid = true ∧
        ¬(labelsSpec ["a", "b", "a"] []).LabelsIdentify) ∧
      (labelsSpec [] ["audio%"]).isValid = true ∧ ∃ s' results,
        Machine.run (ConnectionSpec.step plainText) (labelsSpec [] ["audio%"])
          [.allocateSwidFromMeta 1 ⟨"left", "", []⟩, .allocateSwidFromMeta 1 ⟨"left", "", []⟩] =
            some (s', results) ∧ ¬s'.LabelsIdentify := by
  refine ⟨⟨by decide +kernel, fun h => ?_⟩, by decide +kernel, _, _, rfl, fun h => ?_⟩
  · have hsame : (1 : ℕ) = 3 := h.follower 1 (by decide +kernel) 3 (by decide +kernel)
      (by decide +kernel)
    omega
  · have hsame : (2 : ℕ) = 3 := h.writer 2 (by decide +kernel) 3 (by decide +kernel)
      (by decide +kernel)
    omega

end ConnectionSpec
end Claw
end LibSwitcher
