/-
# Mirroring a property

`mirror_property_from` makes a property of one bag a property of another one, under
another name and another parent.  It should leave the bag it mirrors as it is and make
the new identifier an alias (`MirrorCorrect`).

The alias is one: both bags refer to the same object, through the address of its owner.
But the object and its specification are shared as well, and they are given the new
identifier, the new name and the new parent: the tree of the other bag shows them too.
And a property that the other bag mirrors itself has no owning pointer there, so that a
null pointer is dereferenced.  `LeavesSource` says when none of this happens, and
`mirrorCorrect_iff` that it decides whether mirroring is correct, in every state that
the bags can reach.
-/

import LibSwitcher.Quiddity.Property.PBagUse

namespace LibSwitcher

open InfoTree

namespace PBags

/-- A bag refers to an object, by its tree or by an identifier. -/
def RefersTo (w : PBags) (n ref : ℕ) : Prop :=
  (∃ strid, (strid, ref) ∈ (w.bag n).tree) ∨ ∃ id, w.object n id = some ref

/-- The calls on one bag. -/
def useOf (n : ℕ) (w : PBags) (u : Use) : Option (PBags × UseResult) := use w (n, u)

/-- Mirroring is defined and leaves the other bag, the objects it refers to and the results
of all later uses of it as they are.  The identifier it returns, if it returns one, and
the one that is mirrored denote the same object, and do so after any uses. -/
structure MirrorCorrect (w : PBags) (n : ℕ) (strid : Strid) (parent : String) (pc id : ℕ) :
    Prop where
  intro : ∃ r, w.mirrorPropertyFrom n strid parent pc id = some r ∧
    r.1.bag pc = w.bag pc ∧
    (∀ ref, RefersTo w pc ref → r.1.heap[ref]? = w.heap[ref]?) ∧
    (∀ uses, (Machine.run (useOf pc) r.1 uses).map Prod.snd =
      (Machine.run (useOf pc) w uses).map Prod.snd) ∧
    (r.2 ≠ 0 → ∀ uses w' results, Machine.run use r.1 uses = some (w', results) →
      ∃ ref, w'.object n r.2 = some ref ∧ w'.object pc id = some ref)

/-- The property already is what mirroring would make of it. -/
structure LooksLike (p : Property) (num : ℕ) (strid parent : String) : Prop where
  id : p.id = num
  strid : branchGetValue "id" p.spec = .str strid
  propId : branchGetValue "prop_id" p.spec = .id num
  parent : branchGetValue "parent" p.spec = .str parent
  enabled : branchGetValue "enabled" p.spec = .bool true

instance decidableLooksLike (p : Property) (id : ℕ) (strid parent : String) :
    Decidable (LooksLike p id strid parent) :=
  decidable_of_iff (p.id = id ∧ branchGetValue "id" p.spec = .str strid ∧
      branchGetValue "prop_id" p.spec = .id id ∧ branchGetValue "parent" p.spec = .str parent ∧
      branchGetValue "enabled" p.spec = .bool true)
    ⟨fun ⟨h₁, h₂, h₃, h₄, h₅⟩ => ⟨h₁, h₂, h₃, h₄, h₅⟩,
      fun h => ⟨h.id, h.strid, h.propId, h.parent, h.enabled⟩⟩

/-- The name is taken; or the property is the other bag's own and the parent of the mirrored
one is not registered, or the two bags differ and the property already has the name, the
identifier and the parent it is given, and is enabled. -/
def LeavesSource (w : PBags) (n : ℕ) (strid : Strid) (parent : String) (pc id : ℕ) : Prop :=
  strid.str ∈ (w.bag n).ids ∨ ∃ ref p, w.owned (pc, id) = some ref ∧ w.heap[ref]? = some p ∧
    let newParent := mirroredParent (p.spec.branchGetValue ".parent").asString parent
    (newParent ≠ "" ∧ newParent ∉ (w.bag n).ids) ∨
      n ≠ pc ∧ LooksLike p ((w.bag n).counter + 1) strid.str newParent

variable {w : PBags} {n pc id : ℕ} {strid : Strid} {parent : String}

/-! ### An object that already is as it should be -/

/-- Grafting the value that is there. -/
theorem vgraft_of_child {k : String} {v : Any} {t : InfoTree} (hk : Components.Plain '.' k)
    (h : t.child k = some (makeValue v)) : vgraft k v t = t := by
  rw [vgraft, graft, components_of_plain hk, if_neg (by simp)]
  have hself : KeyTree.setKey k (makeValue v) t.children = t.children := KeyTree.setKey_self h
  rw [KeyTree.graft, KeyTree.graft, hself]
  exact KeyTree.setChildren_children t

/-- A field with a value of one of the types of a specification is that value. -/
theorem child_of_branchGetValue {k : String} {v v' : Any} {t : InfoTree}
    (hk : Components.Plain '.' k) (h : t.child k = some (makeValue v'))
    (hv : branchGetValue k t = v) : t.child k = some (makeValue v) := by
  rw [← hv, Property.branchGetValue_of_child hk h, h]

/-- Installing a property that looks like it should changes nothing. -/
theorem install_eq_self {p : Property} {parent strid : String} (hp : Property.Labelled p.spec)
    (h : LooksLike p id strid parent) :
    install id strid (p.spec.branchGetValue ".order").asId parent p = p := by
  obtain ⟨s, hs⟩ := hp.id
  obtain ⟨m, hm⟩ := hp.propId
  obtain ⟨o, ho⟩ := hp.order
  obtain ⟨t, ht⟩ := hp.parent
  obtain ⟨b, hb⟩ := hp.enabled
  have horder : branchGetValue ".order" p.spec = .id o := by
    rw [branchGetValue, show (".order" : String) = "." ++ "order" from rfl,
      branch_dot (by decide), ho]
    rfl
  have hspec : Property.specialize (.str strid) (.id id) (.id o) (.str parent) (.bool true) p.spec =
      p.spec := by
    rw [Property.specialize,
      vgraft_of_child (by decide) (child_of_branchGetValue (by decide) hs h.strid),
      vgraft_of_child (by decide) (child_of_branchGetValue (by decide) hm h.propId),
      vgraft_of_child (by decide) ho,
      vgraft_of_child (by decide) (child_of_branchGetValue (by decide) ht h.parent),
      vgraft_of_child (by decide) (child_of_branchGetValue (by decide) hb h.enabled)]
  rw [install, horder, Any.asId, hspec, ← h.id]

/-- A property that installing does not change looks like it should. -/
theorem looksLike_of_install {p : Property} {parent strid : String} {pos : ℕ}
    (h : install id strid pos parent p = p) : LooksLike p id strid parent := by
  have hchild := @Property.child_specialize p.spec (.str strid) (.id id) (.id pos) (.str parent)
    (.bool true)
  have hspec : Property.specialize (.str strid) (.id id) (.id pos) (.str parent) (.bool true)
      p.spec = p.spec := congrArg Property.spec h
  rw [hspec] at hchild
  obtain ⟨hid, hpropId, -, hparent, henabled⟩ := hchild
  constructor
  · exact (congrArg Property.id h).symm
  · exact Property.branchGetValue_of_child (by decide) hid
  · exact Property.branchGetValue_of_child (by decide) hpropId
  · exact Property.branchGetValue_of_child (by decide) hparent
  · exact Property.branchGetValue_of_child (by decide) henabled

/-- Writing what is there. -/
theorem modify_eq_self {heap : List Property} {ref : ℕ} {p : Property} {f : Property → Property}
    (hp : heap[ref]? = some p) (hf : f p = p) : heap.modify ref f = heap := by
  refine List.ext_getElem? fun i => ?_
  rw [List.getElem?_modify]
  by_cases hi : ref = i
  · rw [← hi, hp]
    simp [hf]
  · simp [hi]

/-! ### What later uses see -/

/-- States with the same objects, the same owners and the same addresses in one bag. -/
structure Agree (n : ℕ) (w w' : PBags) : Prop where
  heap : w'.heap = w.heap
  owned : w'.owned = w.owned
  props : (w'.bag n).props = (w.bag n).props

theorem Agree.refl (n : ℕ) (w : PBags) : Agree n w w := ⟨rfl, rfl, rfl⟩

theorem Agree.object {w' : PBags} (h : Agree n w w') (id : ℕ) :
    w'.object n id = w.object n id := by
  rw [PBags.object, PBags.object, h.props, h.owned]

theorem Agree.onObject {α : Type} {w' : PBags} (h : Agree n w w') (id : ℕ)
    (f : Property → Property × α) :
    Option.Rel (fun r r' => r.2 = r'.2 ∧ Agree n r.1 r'.1) (w.onObject n id f)
      (w'.onObject n id f) := by
  rw [PBags.onObject, PBags.onObject, h.object, h.heap]
  cases w.object n id with
  | none => exact Option.Rel.none
  | some ref =>
      rw [Option.bind_some, Option.bind_some]
      cases w.heap[ref]? with
      | none => exact Option.Rel.none
      | some p =>
          refine Option.Rel.some ⟨rfl, ?_, h.owned, h.props⟩
          change w'.heap.modify ref _ = w.heap.modify ref _
          rw [h.heap]

/-- The results of two calls that do the same are put into the same form. -/
theorem agree_map {α β : Type} {a b : Option (PBags × α)} (g : α → β)
    (h : Option.Rel (fun r r' => r.2 = r'.2 ∧ Agree n r.1 r'.1) a b) :
    Option.Rel (fun r r' => r.2 = r'.2 ∧ Agree n r.1 r'.1) (a.map fun r => (r.1, g r.2))
      (b.map fun r => (r.1, g r.2)) :=
  Machine.rel_map h fun _ _ hr => ⟨congrArg g hr.1, hr.2⟩

/-- A use of the bag does the same in both. -/
theorem Agree.use {w' : PBags} (h : Agree n w w') (u : Use) :
    Option.Rel (fun r r' => r.2 = r'.2 ∧ Agree n r.1 r'.1) (useOf n w u) (useOf n w' u) := by
  cases u with
  | getStr id => exact agree_map UseResult.str (h.onObject id _)
  | setStr id val =>
      refine agree_map (fun r : Bool × List Notified => UseResult.set r.1 r.2) ?_
      rw [PBags.setStr, PBags.setStr]
      split_ifs
      · exact Option.Rel.some ⟨rfl, h⟩
      · exact h.onObject id _
  | subscribe id f =>
      refine agree_map UseResult.id ?_
      rw [PBags.subscribe, PBags.subscribe, h.props]
      split_ifs
      · exact h.onObject id _
      · exact Option.Rel.some ⟨rfl, h⟩
  | unsubscribe id rid =>
      refine agree_map UseResult.bool ?_
      rw [PBags.unsubscribe, PBags.unsubscribe, h.props]
      split_ifs
      · exact h.onObject id _
      · exact Option.Rel.some ⟨rfl, h⟩
  | notify id => exact agree_map UseResult.calls (h.onObject id _)

/-- Later uses of the bag return the same. -/
theorem Agree.results {w' : PBags} (h : Agree n w w') (uses : List Use) :
    (Machine.run (useOf n) w' uses).map Prod.snd = (Machine.run (useOf n) w uses).map Prod.snd := by
  have hrel := Machine.run_rel (R := Agree n) (fun _ _ u hR => hR.use u) h uses
  generalize Machine.run (useOf n) w' uses = a at hrel ⊢
  generalize Machine.run (useOf n) w uses = b at hrel ⊢
  cases hrel with
  | none => rfl
  | some hr => exact congrArg some hr.1.symm

/-- Uses leave the object of an identifier. -/
theorem object_of_uses {uses : List (ℕ × Use)} {w' : PBags} {results : List UseResult}
    (hrun : Machine.run use w uses = some (w', results)) (n id : ℕ) :
    w'.object n id = w.object n id := by
  have hbag : w'.bag = w.bag := Machine.run_invariant (I := fun w' => w'.bag = w.bag)
    (fun _ _ _ hs hr => (use_bag hr).trans hs) rfl hrun
  have howned : w'.owned = w.owned := by
    funext slot
    rw [owned, owned, hbag]
  rw [object, object, hbag, howned]

/-! ### The bags that are mirrored from -/

/-- What an owning pointer points to is registered, and shown by the tree. -/
theorem Sound.registered (h : Sound w) {ref : ℕ} (howned : w.owned (pc, id) = some ref) :
    w.object pc id = some ref ∧ RefersTo w pc ref := by
  have hactual : (w.bag pc).actualProps[id]? = some (some ref) := Option.join_eq_some_iff.1 howned
  obtain ⟨ref', strid, heq, -, hprops, -, htree⟩ := h.owns pc id (some ref) hactual
  obtain rfl := Option.some.inj heq
  refine ⟨?_, Or.inl ⟨strid, KeyTree.mem_of_lookup htree⟩⟩
  rw [object, hprops, Option.bind_some, howned]

/-- A call that is refused. -/
theorem mirrorCorrect_refused (h : w.mirrorPropertyFrom n strid parent pc id = some (w, 0)) :
    MirrorCorrect w n strid parent pc id :=
  ⟨(w, 0), h, rfl, fun _ _ => rfl, (Agree.refl pc w).results, fun hne => absurd rfl hne⟩

/-- Entering a property into another bag changes nothing for the bag it is mirrored from. -/
theorem agree_enter (hne : n ≠ pc) (s : String) (slot : ℕ × ℕ) (ref : ℕ) :
    Agree pc w (w.setBag n ((w.bag n).enter s slot ref)) where
  heap := rfl
  owned := owned_setBag rfl
  props := by
    change (Function.update w.bag n _ pc).props = _
    rw [Function.update_of_ne hne.symm]

/-- The new identifier denotes the object that is mirrored. -/
theorem object_enter (s : String) {slot : ℕ × ℕ} {ref : ℕ} (howned : w.owned slot = some ref) :
    (w.setBag n ((w.bag n).enter s slot ref)).object n ((w.bag n).counter + 1) = some ref := by
  have hslots := owned_setBag (show ((w.bag n).enter s slot ref).actualProps = _ from rfl)
  rw [object, hslots]
  change Option.bind (Function.update w.bag n _ n).props[(w.bag n).counter + 1]? _ = _
  rw [Function.update_self]
  change Option.bind ((w.bag n).props.insert ((w.bag n).counter + 1) slot)[_]? _ = _
  rw [IdMap.getElem?_insert, if_pos rfl, Option.bind_some, howned]

/-- Where mirroring is correct, the object that is mirrored is left. -/
theorem leavesSource_of_mirrorCorrect (hw : Reached w) (h : MirrorCorrect w n strid parent pc id) :
    LeavesSource w n strid parent pc id := by
  obtain ⟨r, hr, hbag, hheap, -⟩ := h
  by_cases hfree : strid.str ∈ (w.bag n).ids
  · exact Or.inl hfree
  · have hcopy := hr
    rw [mirrorPropertyFrom] at hcopy
    dsimp only at hcopy
    rw [if_neg hfree] at hcopy
    obtain ⟨ref, howned, hcopy⟩ := Option.bind_eq_some_iff.1 hcopy
    obtain ⟨p, hp, -⟩ := Option.bind_eq_some_iff.1 hcopy
    refine Or.inr ⟨ref, p, howned, hp, ?_⟩
    rw [mirrorPropertyFrom_eq hfree howned hp] at hr
    split_ifs at hr with hparent
    · exact Or.inl hparent
    · obtain rfl := Option.some.inj hr
      refine Or.inr ⟨?_, ?_⟩
      · rintro rfl
        -- the counter of the bag has moved
        have hcounter := congrArg PBag.counter hbag
        change (Function.update w.bag n _ n).counter = _ at hcounter
        rw [Function.update_self] at hcounter
        exact absurd hcounter (Nat.succ_ne_self _)
      · have href := hheap ref (hw.sound.registered howned).2
        change (w.heap.modify ref _)[ref]? = _ at href
        rw [List.getElem?_modify_eq, hp] at href
        exact looksLike_of_install (Option.some.inj href)

/-- Where the object is left, mirroring is correct. -/
theorem mirrorCorrect_of_leavesSource (hw : Reached w) (h : LeavesSource w n strid parent pc id) :
    MirrorCorrect w n strid parent pc id := by
  obtain htaken | ⟨ref, p, howned, hp, hparent | ⟨hne, hlooks⟩⟩ := h
  · exact mirrorCorrect_refused (if_pos htaken)
  · by_cases hfree : strid.str ∈ (w.bag n).ids
    · exact mirrorCorrect_refused (if_pos hfree)
    · refine mirrorCorrect_refused ?_
      rw [mirrorPropertyFrom_eq hfree howned hp, if_pos hparent]
  · by_cases hfree : strid.str ∈ (w.bag n).ids
    · exact mirrorCorrect_refused (if_pos hfree)
    have hr : w.mirrorPropertyFrom n strid parent pc id = _ := mirrorPropertyFrom_eq hfree howned hp
    split_ifs at hr with hparent
    · exact mirrorCorrect_refused hr
    · rw [modify_eq_self hp (install_eq_self (hw.sound.labelled ref p hp) hlooks)] at hr
      have hagree := agree_enter (w := w) hne strid.str (pc, id) ref
      refine ⟨_, hr, Function.update_of_ne hne.symm _ _, fun _ _ => rfl, hagree.results, ?_⟩
      intro _ uses w' results hrun
      refine ⟨ref, ?_, ?_⟩
      · exact (object_of_uses hrun _ _).trans (object_enter strid.str howned)
      · rw [object_of_uses hrun]
        exact (hagree.object id).trans (hw.sound.registered howned).1

/-- In the states that the bags can reach, mirroring is correct exactly when it leaves the
object that is mirrored. -/
theorem mirrorCorrect_iff (hw : Reached w) (n : ℕ) (strid : Strid) (parent : String) (pc id : ℕ) :
    MirrorCorrect w n strid parent pc id ↔ LeavesSource w n strid parent pc id :=
  ⟨leavesSource_of_mirrorCorrect hw, mirrorCorrect_of_leavesSource hw⟩

/-- The states of runs from bags without properties. -/
theorem Reached.of_run {ops : List (ℕ × Op)} {results : List Result}
    (h : Machine.run PBags.step PBags.empty ops = some (w, results)) : Reached w :=
  Machine.run_invariant (fun _ i _ hs hr => Reached.step i hs hr) Reached.empty h

instance decidableLeavesSource : Decidable (LeavesSource w n strid parent pc id) :=
  decidable_of_iff (strid.str ∈ (w.bag n).ids ∨
      ∃ p ∈ (w.owned (pc, id)).bind fun ref => w.heap[ref]?,
        let newParent := mirroredParent (p.spec.branchGetValue ".parent").asString parent
        (newParent ≠ "" ∧ newParent ∉ (w.bag n).ids) ∨
          n ≠ pc ∧ LooksLike p ((w.bag n).counter + 1) strid.str newParent) <| by
    refine or_congr_right ⟨?_, ?_⟩
    · rintro ⟨p, hp, h⟩
      obtain ⟨ref, howned, hp⟩ := Option.bind_eq_some_iff.1 hp
      exact ⟨ref, p, howned, hp, h⟩
    · rintro ⟨ref, p, howned, hp, h⟩
      exact ⟨p, Option.bind_eq_some_iff.2 ⟨ref, howned, hp⟩, h⟩

/-- The bags after a bag, the second one, has been given a volume. -/
def volumeBags : Option (PBags × List Result) :=
  Machine.run step empty
    [(1, .push ⟨"volume", by decide⟩ (some (Property.make InfoTree.make "1" some)))]

/-- The name, the identifier and the parent of the volume are those it has in the first bag. -/
theorem mirrorCorrect_volume : ∃ w results, volumeBags = some (w, results) ∧
    MirrorCorrect w 0 ⟨"volume", by decide⟩ "" 1 1 := by
  obtain ⟨r, hr⟩ := Option.isSome_iff_exists.1 (show volumeBags.isSome by decide +kernel)
  have hleaves : ∀ r ∈ volumeBags, LeavesSource r.1 0 ⟨"volume", by decide⟩ "" 1 1 := by
    decide +kernel
  exact ⟨r.1, r.2, hr, (mirrorCorrect_iff (Reached.of_run hr) _ _ _ _ _).2 (hleaves r hr)⟩

/-- Under another name the volume of the second bag is renamed. -/
theorem not_mirrorCorrect_volume : ∃ w results, volumeBags = some (w, results) ∧
    ¬ MirrorCorrect w 0 ⟨"quid/volume", by decide⟩ "" 1 1 := by
  obtain ⟨r, hr⟩ := Option.isSome_iff_exists.1 (show volumeBags.isSome by decide +kernel)
  have hleaves : ∀ r ∈ volumeBags, ¬ LeavesSource r.1 0 ⟨"quid/volume", by decide⟩ "" 1 1 := by
    decide +kernel
  exact ⟨r.1, r.2, hr, fun h => hleaves r hr (leavesSource_of_mirrorCorrect (Reached.of_run hr) h)⟩

end PBags
end LibSwitcher
