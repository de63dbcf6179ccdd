/-
# The invariant of property bags

A bag keeps its four maps and the tree in step: the names and the identifiers are
inverse to each other, the properties are those of the registered identifiers, and the
children of `property` are the specifications of these properties under their names
(`Represented`).  This holds after all calls that mirror nothing, on any number of bags
that share the heap, and no bag hands out an identifier twice
(`represented_of_owning`).

`Stepped` says once what a call can lead to; the invariants are derived from it.
-/

import LibSwitcher.Lib.Machine
import LibSwitcher.Quiddity.Property.PBagMaps

namespace LibSwitcher

open InfoTree

/-! ### What a call can do -/

namespace PBags

variable {w w' : PBags} {n : ℕ}

/-- The property object that a bag has just installed. -/
def install (id : ℕ) (strid : String) (pos : ℕ) (parent : String) (p : Property) : Property :=
  { p with
    id := id
    spec := Property.specialize (.str strid) (.id id) (.id pos) (.str parent) (.bool true) p.spec }

/-- What a call on a bag leads to, if it mirrors nothing. -/
inductive Stepped (w : PBags) (n : ℕ) : PBags × Result → Prop
  | idle (r : Result) (h : ∀ id, r = .id id → id = 0) : Stepped w n (w, r)
  | push (strid : String) (pos : ℕ) (parent : String) (p : Property) (suborders : NameMap ℕ)
      (hfree : strid ∉ (w.bag n).ids) :
      Stepped w n (⟨w.heap ++ [install ((w.bag n).counter + 1) strid pos parent p],
        Function.update w.bag n ((w.bag n).enterOwn n strid w.heap.length suborders)⟩,
        .id ((w.bag n).counter + 1))
  | remove (id : ℕ) (strid : String) (hid : (w.bag n).strids[id]? = some strid) :
      Stepped w n (w.setBag n ((w.bag n).forget id strid), .bool true)
  | replace (id : ℕ) (strid : String) (ref : ℕ) (old new : Property)
      (hid : (w.bag n).strids[id]? = some strid) (href : w.object n id = some ref)
      (hold : w.heap[ref]? = some old) :
      Stepped w n (⟨w.heap ++ [(Property.replacing id old new).1],
        Function.update w.bag n ((w.bag n).adopt n id strid w.heap.length)⟩, .bool true)
  | setEnabled (ref : ℕ) (enabled : Bool) (why : String) :
      Stepped w n (w.modifyObject ref fun p => { p with spec := graftEnabled enabled why p.spec },
        .bool true)

/-- What mirroring a property leads to, if it is not refused. -/
structure Mirrored (w : PBags) (n : ℕ) (strid : String) (pc id : ℕ) (r : PBags × Result) : Prop where
  free : strid ∉ (w.bag n).ids
  intro : ∃ ref pos parent, w.owned (pc, id) = some ref ∧
    r = (⟨w.heap.modify ref (install ((w.bag n).counter + 1) strid pos parent),
      Function.update w.bag n ((w.bag n).enter strid (pc, id) ref)⟩, .id ((w.bag n).counter + 1))

theorem initNewlyInstalledProperty_eq {ref : ℕ} (strid : Strid) (parent : String) (pos : ℕ)
    (h : w.object n (w.bag n).counter = some ref) :
    w.initNewlyInstalledProperty n strid parent pos = some
      ((w.setBag n { w.bag n with
        ids := (w.bag n).ids.insert strid.str (w.bag n).counter
        strids := (w.bag n).strids.insert (w.bag n).counter strid.str
        tree := KeyTree.setKey strid.str ref (w.bag n).tree }).modifyObject ref
          (install (w.bag n).counter strid.str pos parent)) := by
  rw [initNewlyInstalledProperty, h]
  rfl

/-- Writing the object that was added last. -/
theorem modify_append (heap : List Property) (p : Property) (f : Property → Property) :
    (heap ++ [p]).modify heap.length f = heap ++ [f p] := by
  refine List.ext_getElem? fun i => ?_
  rw [List.getElem?_modify]
  rcases Nat.lt_trichotomy i heap.length with hi | rfl | hi
  · rw [List.getElem?_append_left hi, List.getElem?_append_left hi]
    simp [Nat.ne_of_gt hi]
  · simp
  · rw [List.getElem?_eq_none (by simp; omega), List.getElem?_eq_none (by simp; omega)]
    rfl

/-- A push under a name that is free installs a property. -/
theorem pushParented_of_free {strid : Strid} {parent : String} (p : Property)
    (hfree : strid.str ∉ (w.bag n).ids) (hparent : ¬(parent ≠ "" ∧ parent ∉ (w.bag n).ids)) :
    w.pushParented n strid parent (some p) =
      some (⟨w.heap ++ [install ((w.bag n).counter + 1) strid.str
          (20 * ((getCount parent (w.bag n).suborders).2 + 1)) parent p],
        Function.update w.bag n ((w.bag n).enterOwn n strid.str w.heap.length
          (getCount parent (w.bag n).suborders).1)⟩, (w.bag n).counter + 1) := by
  unfold pushParented
  dsimp only
  rw [if_neg hfree, if_neg hparent, @initNewlyInstalledProperty_eq _ _ w.heap.length]
  · rw [← modify_append w.heap p]
    simp [setBag, modifyObject, Function.update_idem, PBag.enterOwn, PBag.enter]
  · simp [object, owned]

/-- A push is idle, or installs a property. -/
theorem stepped_pushParented (strid : Strid) (parent : String) (prop : Option Property) :
    ∃ r, w.pushParented n strid parent prop = some r ∧ Stepped w n (r.1, .id r.2) := by
  have hidle : Stepped w n (w, .id 0) := Stepped.idle _ fun id hid => (Result.id.inj hid).symm
  by_cases hfree : strid.str ∈ (w.bag n).ids
  · exact ⟨(w, 0), by rw [pushParented.eq_def, if_pos hfree], hidle⟩
  by_cases hparent : parent ≠ "" ∧ parent ∉ (w.bag n).ids
  · exact ⟨(w, 0), by rw [pushParented.eq_def, if_neg hfree, if_pos hparent], hidle⟩
  cases prop with
  | none => exact ⟨(w, 0), by rw [pushParented, if_neg hfree, if_neg hparent], hidle⟩
  | some p =>
      exact ⟨_, pushParented_of_free p hfree hparent, Stepped.push strid.str _ parent p _ hfree⟩

/-- Writing a bag without touching its owning pointers. -/
theorem owned_setBag {b : PBag} (h : b.actualProps = (w.bag n).actualProps) :
    (w.setBag n b).owned = w.owned := by
  funext slot
  rw [owned, owned]
  change (Function.update w.bag n b slot.1).actualProps[slot.2]?.join = _
  rcases eq_or_ne slot.1 n with heq | hne
  · rw [heq, Function.update_self, h]
  · rw [Function.update_of_ne hne]

/-- Mirroring a property that the other bag owns. -/
theorem mirrorPropertyFrom_eq {strid : Strid} {parent : String} {pc id ref : ℕ} {p : Property}
    (hfree : strid.str ∉ (w.bag n).ids) (howned : w.owned (pc, id) = some ref)
    (hp : w.heap[ref]? = some p) :
    let newParent := mirroredParent (p.spec.branchGetValue ".parent").asString parent
    w.mirrorPropertyFrom n strid parent pc id =
      if newParent ≠ "" ∧ newParent ∉ (w.bag n).ids then some (w, 0)
      else some (⟨w.heap.modify ref (install ((w.bag n).counter + 1) strid.str
          (p.spec.branchGetValue ".order").asId newParent),
        Function.update w.bag n ((w.bag n).enter strid.str (pc, id) ref)⟩,
        (w.bag n).counter + 1) := by
  intro newParent
  rw [mirrorPropertyFrom]
  dsimp only
  rw [if_neg hfree, howned, Option.bind_some, hp, Option.bind_some]
  refine if_congr Iff.rfl rfl ?_
  rw [@initNewlyInstalledProperty_eq _ _ ref]
  · simp [setBag, modifyObject, Function.update_idem, PBag.enter, newParent]
  · rw [object, owned_setBag (by rfl)]
    simpa [setBag] using howned

/-- What any call leads to. -/
theorem step_cases {op : Op} {r : PBags × Result} (h : step w (n, op) = some r) :
    Stepped w n r ∨ ∃ strid parent pc id, op = .mirrorPropertyFrom strid parent pc id ∧
      Mirrored w n strid.str pc id r := by
  have henabled : ∀ {id : ℕ} {enabled : Bool} {why : String} {r' : PBags × Bool},
      w.setEnabled n id enabled why = some r' → Stepped w n (r'.1, .bool r'.2) := by
    intro id enabled why r' hr'
    rw [setEnabled] at hr'
    cases hid : (w.bag n).strids[id]? with
    | none =>
        rw [hid] at hr'
        obtain rfl := Option.some.inj hr'
        exact Stepped.idle _ fun _ hr => by cases hr
    | some strid =>
        rw [hid] at hr'
        obtain ⟨ref, -, rfl⟩ := Option.map_eq_some_iff.1 hr'
        exact Stepped.setEnabled ref enabled why
  cases op with
  | push strid prop =>
      obtain ⟨r', hr', rfl⟩ := Option.map_eq_some_iff.1 h
      obtain ⟨r'', hr'', hstep⟩ := stepped_pushParented (w := w) (n := n) strid "" prop
      obtain rfl := Option.some.inj (hr'.symm.trans hr'')
      exact Or.inl hstep
  | pushParented strid parent prop =>
      obtain ⟨r', hr', rfl⟩ := Option.map_eq_some_iff.1 h
      obtain ⟨r'', hr'', hstep⟩ := stepped_pushParented (w := w) (n := n) strid parent prop
      obtain rfl := Option.some.inj (hr'.symm.trans hr'')
      exact Or.inl hstep
  | remove id =>
      obtain rfl := Option.some.inj h
      refine Or.inl ?_
      rw [remove]
      cases hid : (w.bag n).strids[id]? with
      | none => exact Stepped.idle _ fun _ hr => by cases hr
      | some strid => exact Stepped.remove id strid hid
  | replace id prop =>
      obtain ⟨r', hr', rfl⟩ := Option.map_eq_some_iff.1 h
      obtain ⟨strid, hid, hr'⟩ := Option.bind_eq_some_iff.1 hr'
      obtain ⟨ref, href, hr'⟩ := Option.bind_eq_some_iff.1 hr'
      obtain ⟨old, hold, rfl⟩ := Option.map_eq_some_iff.1 hr'
      exact Or.inl (Stepped.replace id strid ref old prop hid href hold)
  | enable id =>
      obtain ⟨r', hr', rfl⟩ := Option.map_eq_some_iff.1 h
      exact Or.inl (henabled hr')
  | disable id why =>
      obtain ⟨r', hr', rfl⟩ := Option.map_eq_some_iff.1 h
      exact Or.inl (henabled hr')
  | mirrorPropertyFrom strid parent pc id =>
      obtain ⟨r', hr', rfl⟩ := Option.map_eq_some_iff.1 h
      have hidle : Stepped w n (w, .id 0) := Stepped.idle _ fun id hid => (Result.id.inj hid).symm
      by_cases hfree : strid.str ∈ (w.bag n).ids
      · rw [mirrorPropertyFrom, if_pos hfree] at hr'
        obtain rfl := Option.some.inj hr'
        exact Or.inl hidle
      · have hcopy := hr'
        rw [mirrorPropertyFrom] at hcopy
        dsimp only at hcopy
        rw [if_neg hfree] at hcopy
        obtain ⟨ref, howned, hcopy⟩ := Option.bind_eq_some_iff.1 hcopy
        obtain ⟨p, hp, -⟩ := Option.bind_eq_some_iff.1 hcopy
        rw [mirrorPropertyFrom_eq hfree howned hp] at hr'
        split_ifs at hr'
        · obtain rfl := Option.some.inj hr'
          exact Or.inl hidle
        · obtain rfl := Option.some.inj hr'
          exact Or.inr ⟨strid, parent, pc, id, rfl, hfree, ref, _, _, howned, rfl⟩

/-- The bags are in step, and own what they show of their own properties. -/
structure Sound (w : PBags) : Prop where
  consistent : ∀ n, (w.bag n).Consistent
  owns : ∀ n, (w.bag n).Owns w.heap.length n
  labelled : ∀ (ref : ℕ) p, w.heap[ref]? = some p → Property.Labelled p.spec

theorem sound_empty : Sound empty where
  consistent := fun _ => PBag.consistent_empty
  owns := fun n id o ho => by simp [empty, PBag.empty] at ho
  labelled := fun ref p hp => by simp [empty] at hp

/-- A bag and the heap may be written together. -/
theorem Sound.write (h : Sound w) {heap : List Property} {b : PBag} (hb : b.Consistent)
    (howns : b.Owns heap.length n) (hlen : w.heap.length ≤ heap.length)
    (hlabelled : ∀ (ref : ℕ) p, heap[ref]? = some p → Property.Labelled p.spec) :
    Sound ⟨heap, Function.update w.bag n b⟩ where
  consistent := fun m => by
    change (Function.update w.bag n b m).Consistent
    rcases eq_or_ne m n with rfl | hne
    · rwa [Function.update_self]
    · rw [Function.update_of_ne hne]
      exact h.consistent m
  owns := fun m => by
    change (Function.update w.bag n b m).Owns heap.length m
    rcases eq_or_ne m n with rfl | hne
    · rwa [Function.update_self]
    · rw [Function.update_of_ne hne]
      exact (h.owns m).mono hlen
  labelled := hlabelled

/-- What holds of the objects of a heap and of one more. -/
theorem forall_getElem?_append {P : Property → Prop} {heap : List Property} {p : Property}
    (h : ∀ (ref : ℕ) p, heap[ref]? = some p → P p) (hp : P p) (ref : ℕ) (q : Property)
    (hq : (heap ++ [p])[ref]? = some q) : P q := by
  rcases List.mem_append.1 (List.mem_of_getElem? hq) with hmem | hmem
  · obtain ⟨i, hi⟩ := List.mem_iff_getElem?.1 hmem
    exact h i q hi
  · rw [List.mem_singleton.1 hmem]
    exact hp

theorem forall_getElem?_modify {P : Property → Prop} {heap : List Property}
    {f : Property → Property} {i : ℕ} (h : ∀ (ref : ℕ) p, heap[ref]? = some p → P p)
    (hf : ∀ p, P p → P (f p)) (ref : ℕ) (q : Property) (hq : (heap.modify i f)[ref]? = some q) :
    P q := by
  rw [List.getElem?_modify] at hq
  obtain ⟨p, hp, rfl⟩ := Option.map_eq_some_iff.1 hq
  split_ifs
  · exact hf p (h ref p hp)
  · exact h ref p hp

/-- A call keeps the bags sound. -/
theorem Sound.stepped (h : Sound w) {r : PBags × Result} (hr : Stepped w n r) : Sound r.1 := by
  have hb := h.consistent n
  have hown := h.owns n
  cases hr with
  | idle r hr => exact h
  | push strid pos parent p suborders hfree =>
      refine h.write (hb.enterOwn hfree n w.heap.length suborders) ?_ (by simp)
        (forall_getElem?_append h.labelled Property.labelled_specialize)
      exact (hown.mono (by simp)).enterOwn hb hfree suborders (by simp)
  | remove id strid hid => exact h.write (hb.forget hid) (hown.forget hb hid) (Nat.le_refl _) h.labelled
  | replace id strid ref old new hid href hold =>
      refine h.write (hb.adopt hid n w.heap.length) ?_ (by simp) (forall_getElem?_append h.labelled
        (Property.labelled_replacing (h.labelled ref old hold)))
      exact (hown.mono (by simp)).adopt hb hid (by simp)
  | setEnabled ref enabled why =>
      refine ⟨h.consistent, fun m => ?_, ?_⟩
      · change (w.bag m).Owns (w.heap.modify ref _).length m
        rw [List.length_modify]
        exact h.owns m
      · exact forall_getElem?_modify h.labelled fun p hp => hp.graftEnabled

/-- A call on a bag leaves the other bags. -/
theorem step_bag_ne {op : Op} {r : PBags × Result} (h : step w (n, op) = some r) {m : ℕ}
    (hm : m ≠ n) : r.1.bag m = w.bag m := by
  rcases step_cases h with hr | ⟨strid, parent, pc, id, -, -, ref, pos, parent', -, rfl⟩
  · cases hr with
    | idle r hr => rfl
    | push strid pos parent p suborders hfree => exact Function.update_of_ne hm _ _
    | remove id strid hid => exact Function.update_of_ne hm _ _
    | replace id strid ref old new hid href hold => exact Function.update_of_ne hm _ _
    | setEnabled ref enabled why => rfl
  · exact Function.update_of_ne hm _ _

/-- Calls on other bags leave a bag. -/
theorem bag_of_run {ops : List (ℕ × Op)} {results : List Result} {m : ℕ}
    (h : Machine.run step w ops = some (w', results)) (hm : ∀ i ∈ ops, m ≠ i.1) :
    w'.bag m = w.bag m := by
  induction ops generalizing w results with
  | nil =>
      cases h
      rfl
  | cons i ops ih =>
      obtain ⟨r, os, hr, hrun, -⟩ := Machine.run_cons_eq_some h
      rw [ih hrun fun i hi => hm i (List.mem_cons_of_mem _ hi)]
      exact step_bag_ne hr (hm i List.mem_cons_self)

/-! ### Runs without mirroring -/

/-- The registered properties are those of the bags themselves. -/
structure Whole (w : PBags) : Prop extends Sound w where
  shows : ∀ n, (w.bag n).Shows w.heap

theorem whole_empty : Whole empty where
  toSound := sound_empty
  shows := fun n => by constructor <;> simp [empty, PBag.empty]

/-- The object of a registered property. -/
theorem Whole.exists_object (h : Whole w) {id : ℕ} {strid : String}
    (hid : (w.bag n).strids[id]? = some strid) : ∃ ref p, w.object n id = some ref ∧
      (w.bag n).tree.lookup strid = some ref ∧ w.heap[ref]? = some p ∧
      Property.ShownAs strid id p.spec := by
  have hmem := (h.shows n).actual id (PBag.mem_strids_of_getElem? hid)
  obtain ⟨o, ho⟩ := Option.isSome_iff_exists.1 (Std.ExtTreeMap.mem_iff_isSome_getElem?.1 hmem)
  obtain ⟨ref, strid', rfl, -, hprops, hstrid, htree⟩ := h.owns n id o ho
  obtain rfl : strid = strid' := Option.some.inj (hid.symm.trans hstrid)
  obtain ⟨p, hp, hshown⟩ := (h.shows n).shown id ref strid ho hid
  refine ⟨ref, p, ?_, htree, hp, hshown⟩
  rw [object, hprops, Option.bind_some, owned, ho]
  rfl

/-- A call that mirrors nothing keeps the properties those of the bags themselves. -/
theorem Whole.stepped (h : Whole w) {r : PBags × Result} (hr : Stepped w n r) : Whole r.1 := by
  refine ⟨h.toSound.stepped hr, fun m => ?_⟩
  have happend : ∀ p, (w.bag m).Shows (w.heap ++ [p]) := fun p =>
    (h.shows m).congr fun ref q strid id hq hshown =>
      ⟨q, by rw [List.getElem?_append_left (List.getElem?_eq_some_iff.1 hq).1, hq], hshown⟩
  cases hr with
  | idle r hr => exact h.shows m
  | push strid pos parent p suborders hfree =>
      change (Function.update w.bag n _ m).Shows _
      rcases eq_or_ne m n with rfl | hne
      · rw [Function.update_self]
        exact (happend _).enterOwn suborders List.getElem?_concat_length Property.shownAs_specialize
      · rw [Function.update_of_ne hne]
        exact happend _
  | remove id strid hid =>
      change (Function.update w.bag n _ m).Shows _
      rcases eq_or_ne m n with rfl | hne
      · rw [Function.update_self]
        exact (h.shows m).forget id strid
      · rw [Function.update_of_ne hne]
        exact h.shows m
  | replace id strid ref old new hid href hold =>
      obtain ⟨ref', p, href', -, hp, hshown⟩ := h.exists_object hid
      obtain rfl := Option.some.inj (href.symm.trans href')
      obtain rfl := Option.some.inj (hold.symm.trans hp)
      change (Function.update w.bag n _ m).Shows _
      rcases eq_or_ne m n with rfl | hne
      · rw [Function.update_self]
        exact (happend _).adopt hid List.getElem?_concat_length hshown.replacing
      · rw [Function.update_of_ne hne]
        exact happend _
  | setEnabled ref enabled why =>
      refine (h.shows m).congr fun ref' p strid id hp hshown => ?_
      change ∃ p', (w.heap.modify ref _)[ref']? = some p' ∧ _
      rw [List.getElem?_modify, hp]
      refine ⟨_, rfl, ?_⟩
      split_ifs
      · exact hshown.graftEnabled
      · exact hshown

/-- A property under a new name, in a bag. -/
theorem Whole.pushed (h : Whole w) (strid : Strid) (p : Property)
    (hfree : strid.str ∉ (w.bag n).ids) : ∃ w', w.push n strid (some p) =
      some (w', (w.bag n).counter + 1) ∧ Whole w' ∧
        (w'.bag n).counter = (w.bag n).counter + 1 ∧
        (w'.bag n).ids = (w.bag n).ids.insert strid.str ((w.bag n).counter + 1) ∧
        (w'.bag n).strids = (w.bag n).strids.insert ((w.bag n).counter + 1) strid.str := by
  have hpush : w.push n strid (some p) = some _ :=
    pushParented_of_free p hfree fun hparent => hparent.1 rfl
  refine ⟨_, hpush, h.stepped (Stepped.push strid.str _ "" p _ hfree), ?_⟩
  dsimp only
  rw [Function.update_self]
  exact ⟨rfl, rfl, rfl⟩

/-- A property that goes, from a bag. -/
theorem Whole.removed (h : Whole w) {id : ℕ} {strid : String}
    (hid : (w.bag n).strids[id]? = some strid) : Whole (w.remove n id).1 ∧
      ((w.remove n id).1.bag n).counter = (w.bag n).counter ∧
      ((w.remove n id).1.bag n).ids = (w.bag n).ids.erase strid ∧
      ((w.remove n id).1.bag n).strids = (w.bag n).strids.erase id := by
  have hremove : w.remove n id = (w.setBag n ((w.bag n).forget id strid), true) := by
    rw [PBags.remove, hid]
    rfl
  rw [hremove]
  refine ⟨h.stepped (Stepped.remove id strid hid), ?_⟩
  dsimp only [setBag]
  rw [Function.update_self]
  exact ⟨rfl, rfl, rfl⟩

/-- The calls that mirror nothing and replace registered properties only. -/
def Owning (w : PBags) (i : ℕ × Op) : Prop :=
  match i.2 with
  | .replace id _ => id ∈ (w.bag i.1).strids
  | .mirrorPropertyFrom _ _ _ _ => False
  | _ => True

/-- Such a call is defined where the properties are those of the bags. -/
theorem Whole.exists_step (h : Whole w) {i : ℕ × Op} (hi : Owning w i) :
    ∃ r, step w i = some r ∧ Stepped w i.1 r := by
  obtain ⟨n, op⟩ := i
  have hdefined : (step w (n, op)).isSome := by
    have henabled : ∀ id enabled why, (w.setEnabled n id enabled why).isSome := by
      intro id enabled why
      rw [setEnabled]
      cases hid : (w.bag n).strids[id]? with
      | none => rfl
      | some strid =>
          obtain ⟨ref, p, -, htree, -⟩ := h.exists_object hid
          dsimp only
          rw [htree]
          rfl
    cases op with
    | push strid prop =>
        obtain ⟨r, hr, -⟩ := stepped_pushParented (w := w) (n := n) strid "" prop
        exact Option.isSome_map.trans (by rw [push, hr]; rfl)
    | pushParented strid parent prop =>
        obtain ⟨r, hr, -⟩ := stepped_pushParented (w := w) (n := n) strid parent prop
        exact Option.isSome_map.trans (by rw [hr]; rfl)
    | remove id => rfl
    | replace id prop =>
        obtain ⟨strid, hid⟩ := Option.isSome_iff_exists.1
          (Std.ExtTreeMap.mem_iff_isSome_getElem?.1 (show id ∈ (w.bag n).strids from hi))
        obtain ⟨ref, p, href, -, hp, -⟩ := h.exists_object hid
        refine Option.isSome_map.trans ?_
        change (Option.bind _ _).isSome = true
        rw [hid, Option.bind_some, href, Option.bind_some, hp]
        rfl
    | enable id => exact Option.isSome_map.trans (henabled id true "")
    | disable id why => exact Option.isSome_map.trans (henabled id false why)
    | mirrorPropertyFrom strid parent pc id => exact absurd hi not_false
  obtain ⟨r, hr⟩ := Option.isSome_iff_exists.1 hdefined
  obtain hstep | ⟨strid, parent, pc, id, rfl, -⟩ := step_cases hr
  · exact ⟨r, hr, hstep⟩
  · exact absurd hi not_false

instance decidableOwning (w : PBags) (i : ℕ × Op) : Decidable (Owning w i) := by
  obtain ⟨n, op⟩ := i
  cases op <;> unfold Owning <;> infer_instance

/-- The identifier a call hands out, if it does. -/
def Result.handed : Result → List ℕ
  | .id 0 => []
  | .id (k + 1) => [k + 1]
  | .bool _ => []

/-- The identifiers that the calls on a bag hand out, in their order. -/
def handedOut (n : ℕ) : List (ℕ × Op) → List Result → List ℕ
  | i :: is, r :: rs => if i.1 = n then r.handed ++ handedOut n is rs else handedOut n is rs
  | _, _ => []

/-- A counter only grows, and it grows to the identifier that is handed out. -/
theorem Stepped.counter {r : PBags × Result} (hr : Stepped w n r) (m : ℕ) :
    (w.bag m).counter ≤ (r.1.bag m).counter ∧
      (n = m → ∀ k ∈ r.2.handed, (w.bag m).counter < k ∧ k ≤ (r.1.bag m).counter) := by
  have hcounter : ∀ b : PBag, (w.bag n).counter ≤ b.counter →
      (w.bag m).counter ≤ (Function.update w.bag n b m).counter := fun b hle => by
    rcases eq_or_ne m n with rfl | hne
    · rwa [Function.update_self]
    · exact Nat.le_of_eq (congrArg PBag.counter (Function.update_of_ne hne b w.bag).symm)
  cases hr with
  | idle r hr =>
      refine ⟨Nat.le_refl _, fun _ k hk => ?_⟩
      cases r with
      | id k' =>
          rw [hr k' rfl] at hk
          exact absurd hk List.not_mem_nil
      | bool b => exact absurd hk List.not_mem_nil
  | push strid pos parent p suborders hfree =>
      refine ⟨hcounter _ (Nat.le_succ _), ?_⟩
      rintro rfl k hk
      obtain rfl := List.mem_singleton.1 hk
      refine ⟨Nat.lt_succ_self _, ?_⟩
      change _ ≤ (Function.update w.bag n _ n).counter
      rw [Function.update_self]
      exact Nat.le_refl _
  | remove id strid hid =>
      exact ⟨hcounter _ (Nat.le_refl _), fun _ k hk => absurd hk List.not_mem_nil⟩
  | replace id strid ref old new hid href hold =>
      exact ⟨hcounter _ (Nat.le_refl _), fun _ k hk => absurd hk List.not_mem_nil⟩
  | setEnabled ref enabled why =>
      exact ⟨Nat.le_refl _, fun _ k hk => absurd hk List.not_mem_nil⟩

theorem pairwise_handed (r : Result) : r.handed.Pairwise (· < ·) := by
  cases r with
  | id k => cases k <;> simp [Result.handed]
  | bool b => exact List.Pairwise.nil

/-- A run hands out larger and larger identifiers. -/
theorem Whole.run (h : Whole w) {ops : List (ℕ × Op)} (hops : Machine.Admits step Owning w ops) :
    ∃ w' results, Machine.run step w ops = some (w', results) ∧ Whole w' ∧
      ∀ n, (∀ k ∈ handedOut n ops results, (w.bag n).counter < k) ∧
        (handedOut n ops results).Pairwise (· < ·) := by
  induction ops generalizing w with
  | nil => exact ⟨w, [], rfl, h, fun n => ⟨fun k hk => absurd hk List.not_mem_nil, List.Pairwise.nil⟩⟩
  | cons i ops ih =>
      obtain ⟨r, hr, hstep⟩ := h.exists_step hops.1
      obtain ⟨w', results, hrun, hw', hrest⟩ := ih (h.stepped hstep) (hops.2 r hr)
      refine ⟨w', r.2 :: results, ?_, hw', fun n => ?_⟩
      · rw [Machine.run_cons, hr, Option.bind_some, hrun, Option.map_some]
      · obtain ⟨hle, hhanded⟩ := hstep.counter n
        have hlater : ∀ k ∈ handedOut n ops results, (w.bag n).counter < k := fun k hk =>
          Nat.lt_of_le_of_lt hle ((hrest n).1 k hk)
        rw [handedOut]
        split_ifs with hn
        · constructor
          · intro k hk
            exact (List.mem_append.1 hk).elim (fun hk => (hhanded hn k hk).1) (hlater k)
          · refine List.pairwise_append.2 ⟨pairwise_handed r.2, (hrest n).2, fun k hk k' hk' => ?_⟩
            exact Nat.lt_of_le_of_lt (hhanded hn k hk).2 ((hrest n).1 k' hk')
        · exact ⟨hlater, (hrest n).2⟩

/-- The maps and the tree of a bag represent one set of registered properties. -/
structure Represented (w : PBags) (n : ℕ) : Prop where
  inverse : ∀ (strid : String) (id : ℕ),
    (w.bag n).ids[strid]? = some id ↔ (w.bag n).strids[id]? = some strid
  props : ∀ id : ℕ, id ∈ (w.bag n).props ↔ id ∈ (w.bag n).strids
  actualProps : ∀ id : ℕ, id ∈ (w.bag n).actualProps ↔ id ∈ (w.bag n).strids
  nodup : ((w.bag n).tree.map Prod.fst).Nodup
  keys : ∀ strid, strid ∈ (w.bag n).tree.map Prod.fst ↔ strid ∈ (w.bag n).ids
  node : ∀ (id : ℕ) strid, (w.bag n).strids[id]? = some strid → ∃ ref p,
    w.object n id = some ref ∧ (w.bag n).tree.lookup strid = some ref ∧ w.heap[ref]? = some p ∧
      branchGetValue "id" p.spec = .str strid ∧ branchGetValue "prop_id" p.spec = .id id

theorem Whole.represented (h : Whole w) (n : ℕ) : Represented w n where
  inverse := (h.consistent n).inverse
  props := (h.consistent n).props
  actualProps := fun id => by
    refine ⟨fun hid => ?_, (h.shows n).actual id⟩
    obtain ⟨o, ho⟩ := Option.isSome_iff_exists.1 (Std.ExtTreeMap.mem_iff_isSome_getElem?.1 hid)
    obtain ⟨ref, strid, -, -, -, hstrid, -⟩ := h.owns n id o ho
    exact PBag.mem_strids_of_getElem? hstrid
  nodup := (h.consistent n).nodup
  keys := (h.consistent n).keys
  node := fun id strid hid => by
    obtain ⟨ref, p, href, htree, hp, hshown⟩ := h.exists_object hid
    exact ⟨ref, p, href, htree, hp, hshown.id, hshown.propId⟩

/-- Calls on bags that mirror nothing and replace registered properties only are defined,
the maps and the tree of every bag are in step after them, and no bag hands out an
identifier twice. -/
theorem represented_of_owning (ops : List (ℕ × Op)) (hops : Machine.Admits step Owning empty ops) :
    ∃ w results, Machine.run step empty ops = some (w, results) ∧ (∀ n, Represented w n) ∧
      ∀ n, (handedOut n ops results).Pairwise (· < ·) := by
  obtain ⟨w, results, hrun, hw, hhanded⟩ := whole_empty.run hops
  exact ⟨w, results, hrun, hw.represented, fun n => (hhanded n).2⟩

/-- A property of two is replaced, the other one is disabled, and the first goes. -/
theorem represented_of_owning_volume :
    let ops : List (ℕ × Op) := [
      (0, .push ⟨"audio", by decide⟩ (some (Property.make InfoTree.make "" some))),
      (0, .pushParented ⟨"volume", by decide⟩ "audio" (some (Property.make InfoTree.make "1" some))),
      (0, .replace 2 (Property.make InfoTree.make "0" some)), (0, .disable 2 "muted"), (0, .remove 1)]
    ∃ w results, Machine.run step empty ops = some (w, results) ∧ (∀ n, Represented w n) ∧
      ∀ n, (handedOut n ops results).Pairwise (· < ·) :=
  represented_of_owning _ (by decide +kernel)

end PBags
end LibSwitcher
