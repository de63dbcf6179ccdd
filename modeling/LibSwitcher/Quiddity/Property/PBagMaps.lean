/-
# The maps of a property bag

What the maps of a bag and its tree owe to each other.  `PBag.Consistent` says this
whatever the properties are: the names and the identifiers are inverse to each other,
and the tree has the registered names.  `PBag.Owns` says that an owning pointer points
to the object the tree shows, and holds also where bags mirror properties of each other;
`PBag.Shows`, that a registered property is the bag's own and shows its name and its
identifier, holds as long as no property is mirrored.

A bag changes in four ways, by a new property, one of its own or not, by one that goes and
by one that is replaced, and each keeps what the bag owes.
-/

import LibSwitcher.Quiddity.Property.PBag

namespace LibSwitcher

open InfoTree

/-! ### Specifications -/

namespace Property

/-- The fields a bag gives to a specification are values of their types. -/
structure Labelled (spec : InfoTree) : Prop where
  id : ∃ s, spec.child "id" = some (makeValue (.str s))
  propId : ∃ n, spec.child "prop_id" = some (makeValue (.id n))
  order : ∃ n, spec.child "order" = some (makeValue (.id n))
  parent : ∃ s, spec.child "parent" = some (makeValue (.str s))
  enabled : ∃ b, spec.child "enabled" = some (makeValue (.bool b))

variable {spec : InfoTree} {k s : String} {v strid propId order parent enabled : Any}

theorem child_vgraft_self (hk : Components.Plain '.' k) :
    (vgraft k v spec).child k = some (makeValue v) := by
  rw [vgraft, graft, components_of_plain hk, if_neg (by simp), KeyTree.child_graft_self]
  rfl

theorem branchGetValue_of_child (hk : Components.Plain '.' k)
    (h : spec.child k = some (makeValue v)) : branchGetValue k spec = v := by
  rw [branchGetValue, branch_of_plain hk, h]
  rfl

/-- The five fields of a specialized specification. -/
theorem child_specialize :
    (specialize strid propId order parent enabled spec).child "id" = some (makeValue strid) ∧
      (specialize strid propId order parent enabled spec).child "prop_id" =
        some (makeValue propId) ∧
      (specialize strid propId order parent enabled spec).child "order" = some (makeValue order) ∧
      (specialize strid propId order parent enabled spec).child "parent" = some (makeValue parent) ∧
      (specialize strid propId order parent enabled spec).child "enabled" =
        some (makeValue enabled) := by
  have henabled : Components.Plain '.' "enabled" := by decide
  have hparent : Components.Plain '.' "parent" := by decide
  have horder : Components.Plain '.' "order" := by decide
  have hpropId : Components.Plain '.' "prop_id" := by decide
  unfold specialize
  refine ⟨?_, ?_, ?_, ?_, child_vgraft_self henabled⟩
  · rw [child_vgraft_ne henabled (by decide), child_vgraft_ne hparent (by decide),
      child_vgraft_ne horder (by decide), child_vgraft_ne hpropId (by decide)]
    exact child_vgraft_self (by decide)
  · rw [child_vgraft_ne henabled (by decide), child_vgraft_ne hparent (by decide),
      child_vgraft_ne horder (by decide)]
    exact child_vgraft_self hpropId
  · rw [child_vgraft_ne henabled (by decide), child_vgraft_ne hparent (by decide)]
    exact child_vgraft_self horder
  · rw [child_vgraft_ne henabled (by decide)]
    exact child_vgraft_self hparent

theorem labelled_specialize {n m : ℕ} {s t : String} {b : Bool} :
    Labelled (specialize (.str s) (.id n) (.id m) (.str t) (.bool b) spec) :=
  have h := @child_specialize spec (.str s) (.id n) (.id m) (.str t) (.bool b)
  ⟨⟨s, h.1⟩, ⟨n, h.2.1⟩, ⟨m, h.2.2.1⟩, ⟨t, h.2.2.2.1⟩, ⟨b, h.2.2.2.2⟩⟩

/-- A property that replaces another one has its fields. -/
theorem labelled_replacing {id : ℕ} {old new : Property} (h : Labelled old.spec) :
    Labelled (replacing id old new).1.spec := by
  obtain ⟨s, hs⟩ := h.id
  obtain ⟨n, hn⟩ := h.propId
  obtain ⟨m, hm⟩ := h.order
  obtain ⟨t, ht⟩ := h.parent
  obtain ⟨b, hb⟩ := h.enabled
  rw [spec_replacing, branchGetValue_of_child (by decide) hs, branchGetValue_of_child (by decide) hn,
    branchGetValue_of_child (by decide) hm, branchGetValue_of_child (by decide) ht,
    branchGetValue_of_child (by decide) hb]
  exact labelled_specialize

theorem child_graftEnabled_ne {b : Bool} {why : String} (h : k ≠ "enabled")
    (h' : k ≠ "why_disabled") : (PBags.graftEnabled b why spec).child k = spec.child k := by
  rw [PBags.graftEnabled, child_vgraft_ne (by decide) h', child_vgraft_ne (by decide) h]

theorem Labelled.graftEnabled {b : Bool} {why : String} (h : Labelled spec) :
    Labelled (PBags.graftEnabled b why spec) where
  id := by rw [child_graftEnabled_ne (by decide) (by decide)]; exact h.id
  propId := by rw [child_graftEnabled_ne (by decide) (by decide)]; exact h.propId
  order := by rw [child_graftEnabled_ne (by decide) (by decide)]; exact h.order
  parent := by rw [child_graftEnabled_ne (by decide) (by decide)]; exact h.parent
  enabled := by
    rw [PBags.graftEnabled, child_vgraft_ne (by decide) (by decide)]
    exact ⟨b, child_vgraft_self (by decide)⟩

/-- The specification shows the name and the identifier of a property. -/
structure ShownAs (strid : String) (n : ℕ) (spec : InfoTree) : Prop where
  id : branchGetValue "id" spec = .str strid
  propId : branchGetValue "prop_id" spec = .id n

theorem shownAs_specialize {strid : String} {id : ℕ} :
    ShownAs strid id (specialize (.str strid) (.id id) order parent enabled spec) :=
  ⟨branchGetValue_of_child (by decide) child_specialize.1,
    branchGetValue_of_child (by decide) child_specialize.2.1⟩

theorem ShownAs.replacing {strid : String} {id : ℕ} {old new : Property}
    (h : ShownAs strid id old.spec) : ShownAs strid id (replacing id old new).1.spec := by
  rw [spec_replacing, h.id, h.propId]
  exact shownAs_specialize

theorem ShownAs.graftEnabled {strid : String} {id : ℕ} {b : Bool} {why : String}
    (h : ShownAs strid id spec) : ShownAs strid id (PBags.graftEnabled b why spec) := by
  constructor
  · rw [branchGetValue, branch_of_plain (by decide), child_graftEnabled_ne (by decide) (by decide),
      ← branch_of_plain (by decide)]
    exact h.id
  · rw [branchGetValue, branch_of_plain (by decide), child_graftEnabled_ne (by decide) (by decide),
      ← branch_of_plain (by decide)]
    exact h.propId

end Property

/-! ### One bag -/

namespace PBag

/-- What the maps of a bag owe to each other. -/
structure Consistent (b : PBag) : Prop where
  inverse : ∀ (strid : String) (id : ℕ), b.ids[strid]? = some id ↔ b.strids[id]? = some strid
  props : ∀ id : ℕ, id ∈ b.props ↔ id ∈ b.strids
  le : ∀ id ∈ b.strids, id ≤ b.counter
  nodup : (b.tree.map Prod.fst).Nodup
  keys : ∀ strid, strid ∈ b.tree.map Prod.fst ↔ strid ∈ b.ids

theorem consistent_empty : Consistent empty := by
  constructor <;> simp [empty]

/-- The owning pointers of a bag are not null, and point to the objects that `props` and
the tree refer to. -/
def Owns (size n : ℕ) (b : PBag) : Prop :=
  ∀ (id : ℕ) o, b.actualProps[id]? = some o → ∃ ref strid, o = some ref ∧ ref < size ∧
    b.props[id]? = some (n, id) ∧ b.strids[id]? = some strid ∧ b.tree.lookup strid = some ref

/-- The registered properties are the bag's own, and show their names and identifiers. -/
structure Shows (heap : List Property) (b : PBag) : Prop where
  actual : ∀ id ∈ b.strids, id ∈ b.actualProps
  shown : ∀ (id ref : ℕ) strid, b.actualProps[id]? = some (some ref) → b.strids[id]? = some strid →
    ∃ p, heap[ref]? = some p ∧ Property.ShownAs strid id p.spec

/-- A bag with one more property, under the next identifier. -/
def enter (strid : String) (slot : ℕ × ℕ) (ref : ℕ) (b : PBag) : PBag :=
  { b with
    counter := b.counter + 1
    props := b.props.insert (b.counter + 1) slot
    ids := b.ids.insert strid (b.counter + 1)
    strids := b.strids.insert (b.counter + 1) strid
    tree := KeyTree.setKey strid ref b.tree }

/-- A bag without a property. -/
def forget (id : ℕ) (strid : String) (b : PBag) : PBag :=
  { b with
    tree := KeyTree.eraseKey strid b.tree
    ids := b.ids.erase strid
    strids := b.strids.erase id
    props := b.props.erase id
    actualProps := b.actualProps.erase id }

variable {b : PBag} {strid : String} {id n ref size : ℕ} {slot : ℕ × ℕ}

theorem Consistent.next_not_mem (h : b.Consistent) : b.counter + 1 ∉ b.strids := fun hmem => by
  have := h.le _ hmem
  omega

/-- An identifier that has a name. -/
theorem mem_strids_of_getElem? (h : b.strids[id]? = some strid) : id ∈ b.strids :=
  Std.ExtTreeMap.mem_iff_isSome_getElem?.2 (by rw [h]; rfl)

theorem Consistent.mem_ids_of_getElem? (h : b.Consistent) (hid : b.strids[id]? = some strid) :
    strid ∈ b.ids :=
  Std.ExtTreeMap.mem_iff_isSome_getElem?.2 (by rw [(h.inverse strid id).2 hid]; rfl)

/-- A property under a new name keeps the maps in step. -/
theorem Consistent.enter (h : b.Consistent) (hfree : strid ∉ b.ids) (slot : ℕ × ℕ) (ref : ℕ) :
    (b.enter strid slot ref).Consistent where
  inverse := fun s i => by
    change (b.ids.insert strid (b.counter + 1))[s]? = some i ↔
      (b.strids.insert (b.counter + 1) strid)[i]? = some s
    rw [NameMap.getElem?_insert, IdMap.getElem?_insert]
    split_ifs with hs hi hi
    · simp [hs, hi]
    · constructor
      · rintro heq
        exact absurd (Option.some.inj heq).symm hi
      · rintro heq
        exact absurd (h.mem_ids_of_getElem? heq) (hs ▸ hfree)
    · constructor
      · rintro heq
        exact absurd (hi ▸ mem_strids_of_getElem? ((h.inverse s i).1 heq)) h.next_not_mem
      · rintro heq
        exact absurd (Option.some.inj heq).symm hs
    · exact h.inverse s i
  props := fun i => by
    change i ∈ b.props.insert (b.counter + 1) slot ↔ i ∈ b.strids.insert (b.counter + 1) strid
    rw [IdMap.mem_insert, IdMap.mem_insert, h.props]
  le := fun i hi => by
    change i ≤ b.counter + 1
    rcases IdMap.mem_insert.1 hi with rfl | hi
    · exact Nat.le_refl _
    · exact Nat.le_succ_of_le (h.le i hi)
  nodup := KeyTree.nodup_setKey h.nodup
  keys := fun s => by
    change s ∈ (KeyTree.setKey strid ref b.tree).map Prod.fst ↔
      s ∈ b.ids.insert strid (b.counter + 1)
    rw [KeyTree.mem_keys_setKey, NameMap.mem_insert, h.keys]

/-- So does taking one out. -/
theorem Consistent.forget (h : b.Consistent) (hid : b.strids[id]? = some strid) :
    (b.forget id strid).Consistent where
  inverse := fun s i => by
    change (b.ids.erase strid)[s]? = some i ↔ (b.strids.erase id)[i]? = some s
    rw [NameMap.getElem?_erase, IdMap.getElem?_erase]
    have hids := (h.inverse strid id).2 hid
    split_ifs with hs hi hi
    · simp
    · refine ⟨fun heq => absurd heq (by simp), fun heq => ?_⟩
      rw [hs, ← h.inverse, hids] at heq
      exact absurd (Option.some.inj heq).symm hi
    · refine ⟨fun heq => ?_, fun heq => absurd heq (by simp)⟩
      rw [hi, h.inverse, hid] at heq
      exact absurd (Option.some.inj heq).symm hs
    · exact h.inverse s i
  props := fun i => by
    change i ∈ b.props.erase id ↔ i ∈ b.strids.erase id
    rw [IdMap.mem_erase, IdMap.mem_erase, h.props]
  le := fun i hi => h.le i (IdMap.mem_erase.1 hi).2
  nodup := KeyTree.nodup_eraseKey h.nodup
  keys := fun s => by
    change s ∈ (KeyTree.eraseKey strid b.tree).map Prod.fst ↔ s ∈ b.ids.erase strid
    rw [KeyTree.mem_keys_eraseKey h.nodup, NameMap.mem_erase, h.keys]

/-- A new size of the heap, and a bag entered in. -/
theorem Owns.mono (h : b.Owns size n) {size' : ℕ} (hle : size ≤ size') : b.Owns size' n := by
  intro i o ho
  obtain ⟨ref, strid, rfl, hlt, hrest⟩ := h i o ho
  exact ⟨ref, strid, rfl, Nat.lt_of_lt_of_le hlt hle, hrest⟩

/-- The bag's own properties stay when another one is entered. -/
theorem Owns.enter (h : b.Owns size n) (hb : b.Consistent) (hfree : strid ∉ b.ids) (slot : ℕ × ℕ)
    (ref : ℕ) : (b.enter strid slot ref).Owns size n := by
  intro i o ho
  obtain ⟨ref', strid', rfl, hlt, hprops, hstrids, htree⟩ := h i o ho
  have hi : i ≠ b.counter + 1 := fun heq =>
    hb.next_not_mem (heq ▸ mem_strids_of_getElem? hstrids)
  have hs : strid' ≠ strid := fun heq => hfree (heq ▸ hb.mem_ids_of_getElem? hstrids)
  refine ⟨ref', strid', rfl, hlt, ?_, ?_, ?_⟩
  · exact IdMap.getElem?_insert.trans (by rw [if_neg hi, hprops])
  · exact IdMap.getElem?_insert.trans (by rw [if_neg hi, hstrids])
  · exact (KeyTree.lookup_setKey_ne hs ref b.tree).trans htree

/-- They stay when one is taken out. -/
theorem Owns.forget (h : b.Owns size n) (hb : b.Consistent) (hid : b.strids[id]? = some strid) :
    (b.forget id strid).Owns size n := by
  intro i o ho
  have ho : (b.actualProps.erase id)[i]? = some o := ho
  rw [IdMap.getElem?_erase] at ho
  split_ifs at ho with hi
  obtain ⟨ref', strid', rfl, hlt, hprops, hstrids, htree⟩ := h i o ho
  have hs : strid' ≠ strid := by
    rintro rfl
    exact hi (Option.some.inj (((hb.inverse _ _).2 hstrids).symm.trans ((hb.inverse _ _).2 hid)))
  refine ⟨ref', strid', rfl, hlt, ?_, ?_, ?_⟩
  · exact IdMap.getElem?_erase.trans (by rw [if_neg hi, hprops])
  · exact IdMap.getElem?_erase.trans (by rw [if_neg hi, hstrids])
  · exact (KeyTree.lookup_eraseKey_ne hs b.tree).trans htree

/-- A bag with one more property of its own. -/
def enterOwn (n : ℕ) (strid : String) (ref : ℕ) (suborders : NameMap ℕ) (b : PBag) : PBag :=
  { b.enter strid (n, b.counter + 1) ref with
    actualProps := b.actualProps.insert (b.counter + 1) (some ref)
    suborders := suborders }

theorem Consistent.enterOwn (h : b.Consistent) (hfree : strid ∉ b.ids) (n ref : ℕ)
    (suborders : NameMap ℕ) : (b.enterOwn n strid ref suborders).Consistent :=
  have henter := h.enter hfree (n, b.counter + 1) ref
  ⟨henter.inverse, henter.props, henter.le, henter.nodup, henter.keys⟩

theorem Owns.enterOwn (h : b.Owns size n) (hb : b.Consistent) (hfree : strid ∉ b.ids)
    (suborders : NameMap ℕ) (hlt : ref < size) : (b.enterOwn n strid ref suborders).Owns size n := by
  intro i o ho
  have ho : (b.actualProps.insert (b.counter + 1) (some ref))[i]? = some o := ho
  rw [IdMap.getElem?_insert] at ho
  split_ifs at ho with hi
  · obtain rfl := Option.some.inj ho
    refine ⟨ref, strid, rfl, hlt, ?_, ?_, KeyTree.lookup_setKey_self _ _ _⟩
    · exact IdMap.getElem?_insert.trans (by rw [if_pos hi, hi])
    · exact IdMap.getElem?_insert.trans (if_pos hi)
  · exact h.enter hb hfree (n, b.counter + 1) ref i o ho

/-- A bag that puts an object under a registered identifier of its own. -/
def adopt (n id : ℕ) (strid : String) (ref : ℕ) (b : PBag) : PBag :=
  { b with
    actualProps := b.actualProps.insert id (some ref)
    props := b.props.insert id (n, id)
    tree := KeyTree.setKey strid ref b.tree }

theorem Consistent.adopt (h : b.Consistent) (hid : b.strids[id]? = some strid) (n ref : ℕ) :
    (b.adopt n id strid ref).Consistent where
  inverse := h.inverse
  props := fun i => by
    change i ∈ b.props.insert id (n, id) ↔ i ∈ b.strids
    rw [IdMap.mem_insert, h.props]
    exact ⟨fun hi => hi.elim (fun heq => heq ▸ mem_strids_of_getElem? hid) fun hi => hi, Or.inr⟩
  le := h.le
  nodup := KeyTree.nodup_setKey h.nodup
  keys := fun s => by
    change s ∈ (KeyTree.setKey strid ref b.tree).map Prod.fst ↔ s ∈ b.ids
    rw [KeyTree.mem_keys_setKey, h.keys]
    exact ⟨fun hs => hs.elim (fun heq => heq ▸ h.mem_ids_of_getElem? hid) fun hs => hs, Or.inr⟩

theorem Owns.adopt (h : b.Owns size n) (hb : b.Consistent) (hid : b.strids[id]? = some strid)
    (hlt : ref < size) : (b.adopt n id strid ref).Owns size n := by
  intro i o ho
  have ho : (b.actualProps.insert id (some ref))[i]? = some o := ho
  rw [IdMap.getElem?_insert] at ho
  split_ifs at ho with hi
  · obtain rfl := Option.some.inj ho
    refine ⟨ref, strid, rfl, hlt, ?_, hi ▸ hid, KeyTree.lookup_setKey_self _ _ _⟩
    exact IdMap.getElem?_insert.trans (by rw [if_pos hi, hi])
  · obtain ⟨ref', strid', rfl, hlt', hprops, hstrids, htree⟩ := h i o ho
    have hs : strid' ≠ strid := by
      rintro rfl
      exact hi (Option.some.inj (((hb.inverse _ _).2 hstrids).symm.trans ((hb.inverse _ _).2 hid)))
    refine ⟨ref', strid', rfl, hlt', ?_, hstrids, ?_⟩
    · exact IdMap.getElem?_insert.trans (by rw [if_neg hi, hprops])
    · exact (KeyTree.lookup_setKey_ne hs ref b.tree).trans htree

/-! #### Bags without mirrored properties -/

variable {heap heap' : List Property} {p : Property}

/-- A heap that shows the same of the objects of a bag. -/
theorem Shows.congr (h : b.Shows heap) (hheap : ∀ (ref : ℕ) p strid id, heap[ref]? = some p →
    Property.ShownAs strid id p.spec →
      ∃ p', heap'[ref]? = some p' ∧ Property.ShownAs strid id p'.spec) : b.Shows heap' where
  actual := h.actual
  shown := fun id ref strid hactual hstrid => by
    obtain ⟨p, hp, hshown⟩ := h.shown id ref strid hactual hstrid
    exact hheap ref p strid id hp hshown

theorem Shows.enterOwn (h : b.Shows heap) (suborders : NameMap ℕ)
    (hp : heap[ref]? = some p) (hshown : Property.ShownAs strid (b.counter + 1) p.spec) :
    (b.enterOwn n strid ref suborders).Shows heap where
  actual := fun i hi => by
    change i ∈ b.actualProps.insert (b.counter + 1) (some ref)
    exact IdMap.mem_insert.2 ((IdMap.mem_insert.1 hi).imp_right (h.actual i))
  shown := fun i ref' strid' hactual hstrid => by
    have hactual : (b.actualProps.insert (b.counter + 1) (some ref))[i]? = some (some ref') := hactual
    have hstrid : (b.strids.insert (b.counter + 1) strid)[i]? = some strid' := hstrid
    rw [IdMap.getElem?_insert] at hactual hstrid
    split_ifs at hactual hstrid with hi
    · obtain rfl := Option.some.inj (Option.some.inj hactual)
      obtain rfl := Option.some.inj hstrid
      exact ⟨p, hp, hi ▸ hshown⟩
    · exact h.shown i ref' strid' hactual hstrid

theorem Shows.adopt (h : b.Shows heap) (hid : b.strids[id]? = some strid)
    (hp : heap[ref]? = some p) (hshown : Property.ShownAs strid id p.spec) :
    (b.adopt n id strid ref).Shows heap where
  actual := fun i hi => IdMap.mem_insert.2 (Or.inr (h.actual i hi))
  shown := fun i ref' strid' hactual hstrid => by
    have hactual : (b.actualProps.insert id (some ref))[i]? = some (some ref') := hactual
    rw [IdMap.getElem?_insert] at hactual
    split_ifs at hactual with hi
    · obtain rfl := Option.some.inj (Option.some.inj hactual)
      subst hi
      obtain rfl : strid = strid' := Option.some.inj (hid.symm.trans hstrid)
      exact ⟨p, hp, hshown⟩
    · exact h.shown i ref' strid' hactual hstrid

theorem Shows.forget (h : b.Shows heap) (id : ℕ) (strid : String) :
    (b.forget id strid).Shows heap where
  actual := fun i hi => by
    obtain ⟨hne, hmem⟩ := IdMap.mem_erase.1 hi
    exact IdMap.mem_erase.2 ⟨hne, h.actual i hmem⟩
  shown := fun i ref strid' hactual hstrid => by
    have hactual : (b.actualProps.erase id)[i]? = some (some ref) := hactual
    have hstrid : (b.strids.erase id)[i]? = some strid' := hstrid
    rw [IdMap.getElem?_erase] at hactual hstrid
    split_ifs at hactual hstrid
    exact h.shown i ref strid' hactual hstrid

end PBag

end LibSwitcher
