/-
# Replacing a property

`switcher/quiddity/property/pbag.cpp`: `replace_impl` puts a new object under the
identifier of a property.  The property should stay what it is (`KeepsIdentity`): its
identifier, its name, its order, its parent, whether it is enabled and why it is not, and
its callbacks; its place in the tree should be kept, and nothing else should change
(`Replaced`).

The specification of the new object takes over five fields, and `why_disabled` is none of
them.  The entry of an identifier is used before it is known to be there.  And a property that
mirrors the one that is replaced becomes the new one, while its bag shows the old one.  So a
replacement is right exactly for a registered property that nothing mirrors and whose
explanation is that of the new object (`replaced_iff`).
-/

import LibSwitcher.Quiddity.Property.Mirroring

namespace LibSwitcher

open InfoTree

/-- Why a property is disabled. -/
def Property.whyDisabled (p : Property) : String := (branchGetValue "why_disabled" p.spec).asString

namespace PBags

/-! ### The property and the condition -/

/-- The fields of a specification that a bag writes when it installs a property. -/
def installedFields : List String := ["id", "prop_id", "order", "parent", "enabled"]

/-- A new object is the same property as an old one. -/
structure KeepsIdentity (id : ℕ) (old new : Property) : Prop where
  id : new.id = id
  field : ∀ k ∈ installedFields, branchGetValue k new.spec = branchGetValue k old.spec
  whyDisabled : new.whyDisabled = old.whyDisabled
  toNotify : new.toNotify = old.toNotify

/-- Bags differ in one property only, whose name and place they keep. -/
structure SameElsewhere (w w' : PBags) (n id : ℕ) (strid : String) : Prop where
  bag : ∀ m, m ≠ n → w'.bag m = w.bag m
  counter : (w'.bag n).counter = (w.bag n).counter
  ids : (w'.bag n).ids = (w.bag n).ids
  strids : (w'.bag n).strids = (w.bag n).strids
  suborders : (w'.bag n).suborders = (w.bag n).suborders
  place : (w'.bag n).tree.map Prod.fst = (w.bag n).tree.map Prod.fst
  tree : ∀ k, k ≠ strid → (w'.bag n).tree.lookup k = (w.bag n).tree.lookup k
  object : ∀ m id', (m, id') ≠ (n, id) → w'.object m id' = w.object m id'
  heap : ∀ ref < w.heap.length, w'.heap[ref]? = w.heap[ref]?

/-- A replacement keeps the identity of a registered property, and is refused for any other. -/
def Replaced (w : PBags) (n id : ℕ) (prop : Property) : Prop :=
  match (w.bag n).strids[id]? with
  | none => w.replace n id prop = some (w, false)
  | some strid => ∃ w' ref old ref' new, w.replace n id prop = some (w', true) ∧
      w.object n id = some ref ∧ w.heap[ref]? = some old ∧
      w'.object n id = some ref' ∧ w'.heap[ref']? = some new ∧
      (w'.bag n).tree.lookup strid = some ref' ∧
      KeepsIdentity id old new ∧ SameElsewhere w w' n id strid

/-- The property is registered, its object is there, the new object brings its explanation, and no
other property mirrors it. -/
def Replaceable (w : PBags) (n id : ℕ) (prop : Property) : Prop :=
  id ∈ (w.bag n).strids ∧
    (∃ ref old, w.object n id = some ref ∧ w.heap[ref]? = some old ∧
      old.whyDisabled = prop.whyDisabled) ∧
    ∀ m id', (m, id') ≠ (n, id) → (w.bag m).props[id']? ≠ some (n, id)

variable {w : PBags} {n id ref : ℕ} {prop old : Property} {strid : String}

/-! ### What a replacement does -/

/-- The bags after a replacement. -/
def replacedBags (w : PBags) (n id : ℕ) (strid : String) (old prop : Property) : PBags :=
  ⟨w.heap ++ [(Property.replacing id old prop).1],
    Function.update w.bag n ((w.bag n).adopt n id strid w.heap.length)⟩

theorem replace_eq (hid : (w.bag n).strids[id]? = some strid) (href : w.object n id = some ref)
    (hold : w.heap[ref]? = some old) :
    w.replace n id prop = some (w.replacedBags n id strid old prop, true) := by
  rw [replace, hid, Option.bind_some, href, Option.bind_some, hold, Option.map_some]
  rfl

theorem bag_replacedBags (strid : String) (old prop : Property) :
    (w.replacedBags n id strid old prop).bag n = (w.bag n).adopt n id strid w.heap.length :=
  Function.update_self ..

theorem bag_replacedBags_ne {m : ℕ} (h : m ≠ n) (strid : String) (old prop : Property) :
    (w.replacedBags n id strid old prop).bag m = w.bag m := Function.update_of_ne h _ _

/-- The owning pointer of the identifier points to the new object. -/
theorem owned_replacedBags (strid : String) (old prop : Property) (slot : ℕ × ℕ) :
    (w.replacedBags n id strid old prop).owned slot =
      if slot = (n, id) then some w.heap.length else w.owned slot := by
  obtain ⟨m, id'⟩ := slot
  by_cases hm : m = n
  · subst hm
    change ((w.replacedBags m id strid old prop).bag m).actualProps[id']?.join = _
    rw [bag_replacedBags]
    change ((w.bag m).actualProps.insert id (some w.heap.length))[id']?.join = _
    rw [IdMap.getElem?_insert]
    by_cases hid : id' = id
    · rw [if_pos hid, if_pos (by rw [hid])]
      rfl
    · rw [if_neg hid, if_neg fun h => hid (congrArg Prod.snd h)]
      rfl
  · change ((w.replacedBags n id strid old prop).bag m).actualProps[id']?.join = _
    rw [bag_replacedBags_ne hm, if_neg fun h => hm (congrArg Prod.fst h)]
    rfl

/-- The identifier denotes the new object. -/
theorem object_replacedBags (strid : String) (old prop : Property) :
    (w.replacedBags n id strid old prop).object n id = some w.heap.length := by
  rw [object, bag_replacedBags]
  change ((w.bag n).props.insert id (n, id))[id]?.bind _ = _
  rw [IdMap.getElem?_insert, if_pos rfl, Option.bind_some, owned_replacedBags, if_pos rfl]

/-- The other identifiers denote what their addresses point to. -/
theorem object_replacedBags_ne {m id' : ℕ} (h : (m, id') ≠ (n, id)) (strid : String)
    (old prop : Property) : (w.replacedBags n id strid old prop).object m id' =
      (w.bag m).props[id']?.bind (w.replacedBags n id strid old prop).owned := by
  rw [object]
  by_cases hm : m = n
  · subst hm
    rw [bag_replacedBags]
    change Option.bind ((w.bag m).props.insert id (m, id))[id']? _ = _
    rw [IdMap.getElem?_insert, if_neg fun hid => h (by rw [hid])]
  · rw [bag_replacedBags_ne hm]

/-- The new object is the last one. -/
theorem getElem?_heap_replacedBags (strid : String) (old prop : Property) :
    (w.replacedBags n id strid old prop).heap[w.heap.length]? =
      some (Property.replacing id old prop).1 := List.getElem?_concat_length

/-! ### The new object -/

/-- The five fields are those of the old object. -/
theorem branchGetValue_replacing {k : String} (hk : k ∈ installedFields) :
    branchGetValue k (Property.replacing id old prop).1.spec = branchGetValue k old.spec := by
  obtain ⟨hid, hpropId, horder, hparent, henabled⟩ := @Property.child_specialize prop.spec
    (branchGetValue "id" old.spec) (branchGetValue "prop_id" old.spec)
    (branchGetValue "order" old.spec) (branchGetValue "parent" old.spec)
    (branchGetValue "enabled" old.spec)
  rw [Property.spec_replacing]
  simp only [installedFields, List.mem_cons, List.not_mem_nil, or_false] at hk
  rcases hk with rfl | rfl | rfl | rfl | rfl
  · exact Property.branchGetValue_of_child (by decide) hid
  · exact Property.branchGetValue_of_child (by decide) hpropId
  · exact Property.branchGetValue_of_child (by decide) horder
  · exact Property.branchGetValue_of_child (by decide) hparent
  · exact Property.branchGetValue_of_child (by decide) henabled

/-- The explanation is that of the new object. -/
theorem whyDisabled_replacing :
    (Property.replacing id old prop).1.whyDisabled = prop.whyDisabled := by
  have hkey : Components.Plain '.' "why_disabled" := by decide
  rw [Property.whyDisabled, Property.whyDisabled, branchGetValue, branchGetValue,
    branch_of_plain hkey, branch_of_plain hkey, Property.spec_replacing, Property.specialize]
  rw [child_vgraft_ne (by decide) (by decide), child_vgraft_ne (by decide) (by decide),
    child_vgraft_ne (by decide) (by decide), child_vgraft_ne (by decide) (by decide),
    child_vgraft_ne (by decide) (by decide)]

/-- Only the explanation may be lost. -/
theorem keepsIdentity_replacing_iff :
    KeepsIdentity id old (Property.replacing id old prop).1 ↔ old.whyDisabled = prop.whyDisabled :=
  ⟨fun h => h.whyDisabled.symm.trans whyDisabled_replacing,
    fun h => ⟨Property.id_replacing, fun _ hk => branchGetValue_replacing hk,
      whyDisabled_replacing.trans h.symm, Property.toNotify_replacing⟩⟩

/-- The rest is left if no other property mirrors the one that is replaced. -/
theorem sameElsewhere_replacedBags_iff (hw : Sound w)
    (hid : (w.bag n).strids[id]? = some strid) (old prop : Property) :
    SameElsewhere w (w.replacedBags n id strid old prop) n id strid ↔
      ∀ m id', (m, id') ≠ (n, id) → (w.bag m).props[id']? ≠ some (n, id) := by
  have hmem : strid ∈ (w.bag n).tree.map Prod.fst :=
    ((hw.consistent n).keys strid).2 ((hw.consistent n).mem_ids_of_getElem? hid)
  constructor
  · intro h m id' hne hprops
    have hobject := h.object m id' hne
    rw [object_replacedBags_ne hne, object, hprops, Option.bind_some, Option.bind_some,
      owned_replacedBags, if_pos rfl] at hobject
    -- what is pointed to before is an object of the heap, and the new one is not
    obtain ⟨ref, -, heq, hlt, -⟩ := hw.owns n id _ (Option.join_eq_some_iff.1 hobject.symm)
    exact absurd (Option.some.inj heq) (Nat.ne_of_gt hlt)
  · intro h
    refine ⟨fun m hm => bag_replacedBags_ne hm strid old prop, ?_, ?_, ?_, ?_, ?_, ?_, ?_, ?_⟩
    · rw [bag_replacedBags]
      rfl
    · rw [bag_replacedBags]
      rfl
    · rw [bag_replacedBags]
      rfl
    · rw [bag_replacedBags]
      rfl
    · rw [bag_replacedBags]
      exact (KeyTree.keys_setKey _ _ _).trans (if_pos hmem)
    · intro k hk
      rw [bag_replacedBags]
      exact KeyTree.lookup_setKey_ne hk _ _
    · intro m id' hne
      rw [object_replacedBags_ne hne, object]
      cases hprops : (w.bag m).props[id']? with
      | none => rfl
      | some slot =>
          rw [Option.bind_some, Option.bind_some, owned_replacedBags, if_neg]
          rintro rfl
          exact h m id' hne hprops
    · intro ref href
      exact List.getElem?_append_left href

/-! ### All replacements -/

/-- A replacement that keeps the identity of the property, or is refused, can be done. -/
theorem replaceable_of_replaced (hw : Reached w) (h : Replaced w n id prop) :
    Replaceable w n id prop := by
  rw [Replaced] at h
  cases hid : (w.bag n).strids[id]? with
  | none =>
      rw [hid] at h
      have hnone : w.replace n id prop = none := by
        rw [replace, hid]
        rfl
      cases hnone.symm.trans h
  | some strid =>
      rw [hid] at h
      obtain ⟨w', ref, old, ref', new, hr, href, hold, href', hnew, -, hkeeps, helse⟩ := h
      obtain ⟨rfl, -⟩ := Prod.mk.inj (Option.some.inj ((replace_eq hid href hold).symm.trans hr))
      obtain rfl := Option.some.inj ((object_replacedBags strid old prop).symm.trans href')
      obtain rfl := Option.some.inj ((getElem?_heap_replacedBags strid old prop).symm.trans hnew)
      exact ⟨PBag.mem_strids_of_getElem? hid,
        ⟨ref, old, href, hold, keepsIdentity_replacing_iff.1 hkeeps⟩,
        (sameElsewhere_replacedBags_iff hw.sound hid old prop).1 helse⟩

/-- A property that can be replaced keeps its identity. -/
theorem replaced_of_replaceable (hw : Reached w) (h : Replaceable w n id prop) :
    Replaced w n id prop := by
  obtain ⟨hmem, ⟨ref, old, href, hold, hwhy⟩, hmirror⟩ := h
  obtain ⟨strid, hid⟩ := Option.isSome_iff_exists.1
    (Std.ExtTreeMap.mem_iff_isSome_getElem?.1 hmem)
  rw [Replaced, hid]
  refine ⟨_, ref, old, _, _, replace_eq hid href hold, href, hold, object_replacedBags strid old prop,
    getElem?_heap_replacedBags strid old prop, ?_, keepsIdentity_replacing_iff.2 hwhy,
    (sameElsewhere_replacedBags_iff hw.sound hid old prop).2 hmirror⟩
  rw [bag_replacedBags]
  exact KeyTree.lookup_setKey_self _ _ _

/-- In the states that the bags can reach, a replacement keeps the identity of the property exactly
when the property is registered, nothing mirrors it and its explanation is not lost. -/
theorem replaced_iff (hw : Reached w) (n id : ℕ) (prop : Property) :
    Replaced w n id prop ↔ Replaceable w n id prop :=
  ⟨replaceable_of_replaced hw, replaced_of_replaceable hw⟩

/-- A property is replaceable if only its own bag has properties, and none under another
identifier that is it. -/
theorem replaceable_of_alone (hother : ∀ m, m ≠ n → w.bag m = PBag.empty)
    (hid : id ∈ (w.bag n).strids)
    (hwhy : ∃ old ∈ (w.object n id).bind fun ref => w.heap[ref]?,
      old.whyDisabled = prop.whyDisabled)
    (hown : ∀ e ∈ (w.bag n).props.toList, e.2 = (n, id) → e.1 = id) : Replaceable w n id prop := by
  obtain ⟨old, hold, hwhy⟩ := hwhy
  obtain ⟨ref, href, hold⟩ := Option.bind_eq_some_iff.1 hold
  refine ⟨hid, ⟨ref, old, href, hold, hwhy⟩, fun m id' hne hprops => ?_⟩
  by_cases hm : m = n
  · subst hm
    have hmem := Std.ExtTreeMap.mem_toList_iff_getElem?_eq_some.2 hprops
    exact hne (Prod.ext rfl (hown _ hmem rfl))
  · rw [hother m hm] at hprops
    simp [PBag.empty] at hprops

/-- The volume can be replaced by another one. -/
theorem replaced_volume : ∃ w results, volumeBags = some (w, results) ∧
    Replaced w 1 1 (Property.make InfoTree.make "2" some) := by
  obtain ⟨r, hr⟩ := Option.isSome_iff_exists.1 (show volumeBags.isSome by decide +kernel)
  have hother : ∀ m, m ≠ 1 → r.1.bag m = PBag.empty := fun m hm =>
    bag_of_run hr fun i hi => by
      rw [List.mem_singleton.1 hi]
      exact hm
  have hrest : ∀ r ∈ volumeBags, 1 ∈ (r.1.bag 1).strids ∧
      (∃ old ∈ (r.1.object 1 1).bind fun ref => r.1.heap[ref]?,
        old.whyDisabled = (Property.make InfoTree.make "2" some).whyDisabled) ∧
      ∀ e ∈ (r.1.bag 1).props.toList, e.2 = (1, 1) → e.1 = 1 := by decide +kernel
  obtain ⟨hid, hwhy, hown⟩ := hrest r hr
  exact ⟨r.1, r.2, hr, (replaced_iff (Reached.of_run hr) 1 1 _).2
    (replaceable_of_alone hother hid hwhy hown)⟩

theorem plain_volume : Components.Plain '.' "volume" := by decide

/-- A volume that is disabled, as a recording is running. -/
def lockedBags : Option (PBags × List Result) :=
  Machine.run step empty
    [(1, .push ⟨"volume", plain_volume⟩ (some (Property.make InfoTree.make "1" some))),
      (1, .disable 1 "recording")]

/-- When the disabled volume is replaced, the explanation is lost; and the identifier that no
property has is looked up, and what is not found is dereferenced. -/
theorem not_replaced_volume : ∃ w results, lockedBags = some (w, results) ∧
    ¬ Replaced w 1 1 (Property.make InfoTree.make "2" some) ∧
    ¬ Replaced w 1 2 (Property.make InfoTree.make "2" some) := by
  obtain ⟨r, hr⟩ := Option.isSome_iff_exists.1 (show lockedBags.isSome by decide +kernel)
  have hwhy : ∀ r ∈ lockedBags, 2 ∉ (r.1.bag 1).strids ∧
      ∀ old ∈ (r.1.object 1 1).bind fun ref => r.1.heap[ref]?,
        old.whyDisabled ≠ (Property.make InfoTree.make "2" some).whyDisabled := by decide +kernel
  refine ⟨r.1, r.2, hr, fun h => ?_, fun h => ?_⟩
  · obtain ⟨-, ⟨ref, old, href, hold, heq⟩, -⟩ := replaceable_of_replaced (Reached.of_run hr) h
    exact (hwhy r hr).2 old (Option.bind_eq_some_iff.2 ⟨ref, href, hold⟩) heq
  · exact (hwhy r hr).1 (replaceable_of_replaced (Reached.of_run hr) h).1

end PBags
end LibSwitcher
