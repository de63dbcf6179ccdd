/-
# Looking members up by name

The bags of properties, of methods and of signals look a text up in the same way, in
`PBag::get_id`, `MBag::get_id` and `SBag::get_id`: among the names of their members, and
else as an identifier.  A text should find the member of that name or of that identifier, and
no other one (`FindsOwn`).

The identifier is read by `stoul` with base zero, which takes whatever numeral a text starts
with, octal and hexadecimal ones too, and throws for a large one.  So "5abc" finds the fifth
member, and a text is safe only if it starts with no such numeral
(`getId_finds_own_iff`).  Two of the bags lose names besides: a bag of methods has none for the
identifiers, and a bag of signals forgets a name that two signals have had when one of them goes.
-/

import LibSwitcher.Quiddity.Method.MBag
import LibSwitcher.Quiddity.Property.Mirroring
import LibSwitcher.Quiddity.Signal.SBag

namespace LibSwitcher

open Stringutils

/-- A text of decimal digits. -/
def IsNumeral (s : String) : Prop := s ≠ "" ∧ ∀ c ∈ s.toList, c.isDigit = true

/-- A text finds the member of that name or of that identifier, or nothing: a name finds its own
identifier, and another text that is no numeral finds none. -/
def FindsOwn (getId : String → Option ℕ) (getName : ℕ → String) (Registered : String → ℕ → Prop)
    (s : String) : Prop :=
  ∃ id, getId s = some id ∧
    (id ≠ 0 → getName id = s ∨ s = toString id) ∧
    ((∃ id', Registered s id') → Registered s id) ∧
    ((¬ ∃ id', Registered s id') → ¬ IsNumeral s → id = 0)

/-! ### The lookup -/

/-- The maps of a bag that a lookup reads. -/
structure Members (α : Type) where
  ids : NameMap ℕ
  members : IdMap α
  strids : IdMap String

namespace Members

variable {α : Type} {m : Members α} {s : String}

/-- `get_id`. -/
def getId (strid : String) (m : Members α) : Option ℕ :=
  match m.ids[strid]? with
  | some id => some id
  | none => (idFromString strid).map fun id => if id ∈ m.members then id else 0

/-- `get_name`. -/
def getName (id : ℕ) (m : Members α) : String := m.strids[id]?.getD ""

/-- A member is registered under a name: the name leads to its identifier, or the identifier to
its name. -/
def Registered (m : Members α) (strid : String) (id : ℕ) : Prop :=
  m.ids[strid]? = some id ∨ m.strids[id]? = some strid

/-- The lookup in these maps finds what it should. -/
def FindsOwn (m : Members α) (s : String) : Prop :=
  LibSwitcher.FindsOwn (Members.getId · m) (Members.getName · m) m.Registered s

/-- A text that is no name starts with no numeral of an identifier, unless it is its decimal
representation. -/
def NoNumeral (m : Members α) (s : String) : Prop :=
  ∃ id, idFromString s = some id ∧ (id ∈ m.members → s = toString id)

/-- The members are those with an identifier, which is not zero, and those with a name are
among them. -/
structure Numbered (m : Members α) : Prop where
  ids : ∀ (strid : String) (id : ℕ), m.ids[strid]? = some id → id ≠ 0
  members : 0 ∉ m.members
  strids : ∀ id ∈ m.strids, id ∈ m.members

theorem isNumeral_toString (n : ℕ) : IsNumeral (toString n) := by
  have hlist : (toString n).toList = Nat.toDigits 10 n := String.toList_ofList
  refine ⟨fun h => ?_, fun c hc => ?_⟩
  · rw [h] at hlist
    exact Nat.toDigits_ne_nil hlist.symm
  · rw [hlist] at hc
    exact Nat.isDigit_of_mem_toDigits (by decide) (by decide) hc

/-- A name that leads to an identifier finds it. -/
theorem findsOwn_of_ids {id : ℕ} (h : m.Numbered) (hid : m.ids[s]? = some id) :
    m.FindsOwn s ↔ m.getName id = s ∨ s = toString id := by
  have hget : m.getId s = some id := by
    rw [getId, hid]
  constructor
  · rintro ⟨id', hid', hname, -⟩
    obtain rfl := Option.some.inj (hget.symm.trans hid')
    exact hname (h.ids s id hid)
  · exact fun hname => ⟨id, hget, fun _ => hname, fun _ => Or.inl hid, fun hnone =>
      absurd ⟨id, Or.inl hid⟩ hnone⟩

theorem mem_members_of_strids {id : ℕ} (h : m.Numbered) (hid : m.strids[id]? = some s) :
    id ∈ m.members :=
  h.strids id (Std.ExtTreeMap.mem_iff_isSome_getElem?.2 (by rw [hid]; rfl))

/-- What is found for a text that is not among the names. -/
theorem getId_of_free (hfree : m.ids[s]? = none) :
    m.getId s = (idFromString s).map fun id => if id ∈ m.members then id else 0 := by
  rw [getId, hfree]

/-- A text that no member has for a name finds what it should exactly if it starts with no numeral
of another identifier. -/
theorem findsOwn_iff_noNumeral (h : m.Numbered) (hfree : ∀ id, ¬ m.Registered s id) :
    m.FindsOwn s ↔ m.NoNumeral s := by
  have hids : m.ids[s]? = none := by
    cases hid : m.ids[s]? with
    | none => rfl
    | some id => exact absurd (Or.inl hid) (hfree id)
  rw [FindsOwn, LibSwitcher.FindsOwn, NoNumeral, getId_of_free hids]
  constructor
  · rintro ⟨r, hr, hname, -, hzero⟩
    obtain ⟨id, hid, rfl⟩ := Option.map_eq_some_iff.1 hr
    refine ⟨id, hid, fun hmem => ?_⟩
    have hne : id ≠ 0 := fun heq => h.members (heq ▸ hmem)
    rw [if_pos hmem] at hname hzero
    refine (hname hne).resolve_left fun hname => ?_
    -- the only name that no entry has is the empty one, which is no numeral
    rw [getName] at hname
    cases hstrid : m.strids[id]? with
    | some strid =>
        rw [hstrid] at hname
        exact hfree id (Or.inr (hstrid.trans (congrArg some hname)))
    | none =>
        rw [hstrid] at hname
        exact hne (hzero (fun hex => hfree hex.choose hex.choose_spec) fun hnum => hnum.1 hname.symm)
  · rintro ⟨id, hid, hdecimal⟩
    rw [hid]
    refine ⟨if id ∈ m.members then id else 0, rfl, fun hne => ?_, fun hex => absurd hex.choose_spec (hfree _), fun _ hnum => ?_⟩
    · by_cases hmem : id ∈ m.members
      · rw [if_pos hmem]
        exact Or.inr (hdecimal hmem)
      · exact absurd (if_neg hmem) hne
    · refine if_neg fun hmem => hnum ?_
      rw [hdecimal hmem]
      exact isNumeral_toString id

/-- A name that no longer leads to an identifier finds what it should exactly if it starts with a
numeral of an identifier that has it for a name. -/
theorem findsOwn_of_strids (h : m.Numbered) (hids : m.ids[s]? = none) {id : ℕ}
    (hid : m.strids[id]? = some s) :
    m.FindsOwn s ↔ ∃ id, idFromString s = some id ∧ m.strids[id]? = some s := by
  rw [FindsOwn, LibSwitcher.FindsOwn, getId_of_free hids]
  constructor
  · rintro ⟨r, hr, -, hreg, -⟩
    obtain ⟨id', hid', rfl⟩ := Option.map_eq_some_iff.1 hr
    obtain hreg | hreg := hreg ⟨id, Or.inr hid⟩
    · cases hids.symm.trans hreg
    · refine ⟨id', hid', ?_⟩
      by_cases hmem : id' ∈ m.members
      · rwa [if_pos hmem] at hreg
      · rw [if_neg hmem] at hreg
        exact absurd (mem_members_of_strids h hreg) h.members
  · rintro ⟨id', hid', hname⟩
    rw [hid', Option.map_some, if_pos (mem_members_of_strids h hname)]
    refine ⟨id', rfl, fun _ => Or.inl ?_, fun _ => Or.inr hname, fun hnone => ?_⟩
    · rw [getName, hname]
      rfl
    · exact absurd ⟨id', Or.inr hname⟩ hnone

end Members

/-! ### Bags of properties -/

namespace PBag

/-- The maps of the bag. -/
def maps (b : PBag) : Members (ℕ × ℕ) := ⟨b.ids, b.props, b.strids⟩

/-- `get_id` finds what it should. -/
def FindsOwn (b : PBag) (s : String) : Prop :=
  LibSwitcher.FindsOwn (getId · b) (getName · b) b.maps.Registered s

end PBag

namespace PBags

variable {w : PBags}

/-- No property has the identifier zero. -/
theorem Reached.pos (hw : Reached w) (n : ℕ) : 0 ∉ (w.bag n).strids := by
  have henter : ∀ {b : PBag} {strid : String}, 0 ∉ b.strids →
      0 ∉ b.strids.insert (b.counter + 1) strid := fun hb hmem =>
    (IdMap.mem_insert.1 hmem).elim (fun heq => by cases heq) hb
  induction hw with
  | empty => exact Std.ExtTreeMap.not_mem_empty
  | @step w r i _ hr ih =>
      have hn : ∀ {b : PBag}, (i.1 = n → 0 ∉ b.strids) →
          0 ∉ (Function.update w.bag i.1 b n).strids := by
        intro b hb
        rcases eq_or_ne i.1 n with heq | hne
        · rw [← heq, Function.update_self]
          exact hb heq
        · rwa [Function.update_of_ne hne.symm]
      obtain hstep | ⟨strid, parent, pc, id, -, -, ref, pos, parent', -, rfl⟩ :=
        step_cases (n := i.1) hr
      · cases hstep with
        | idle r hr => exact ih
        | push strid pos parent p suborders hfree => exact hn fun heq => henter (heq ▸ ih)
        | remove id strid hid =>
            exact hn fun heq hmem => (heq ▸ ih) (IdMap.mem_erase.1 hmem).2
        | replace id strid ref old new hid href hold => exact hn fun heq => heq ▸ ih
        | setEnabled ref enabled why => exact ih
      · exact hn fun heq => henter (heq ▸ ih)
  | @use w r i _ hr ih =>
      rw [use_bag hr]
      exact ih

theorem Reached.numbered (hw : Reached w) (n : ℕ) : (w.bag n).maps.Numbered where
  ids := fun strid id hid heq => by
    subst heq
    exact hw.pos n (PBag.mem_strids_of_getElem? (((hw.sound.consistent n).inverse strid 0).1 hid))
  members := fun hmem => hw.pos n (((hw.sound.consistent n).props 0).1 hmem)
  strids := fun id hid => ((hw.sound.consistent n).props id).2 hid

/-- Among properties, a name finds its own, and another text does if it starts with no numeral. -/
theorem findsOwn_iff (hw : Reached w) (n : ℕ) (s : String) :
    (w.bag n).FindsOwn s ↔ s ∈ (w.bag n).ids ∨ (w.bag n).maps.NoNumeral s := by
  have hinverse := (hw.sound.consistent n).inverse
  cases hid : (w.bag n).ids[s]? with
  | some id =>
      refine iff_of_true ?_ (Or.inl ?_)
      · refine (Members.findsOwn_of_ids (hw.numbered n) hid).2 (Or.inl ?_)
        rw [Members.getName]
        exact congrArg (·.getD "") ((hinverse s id).1 hid)
      · exact Std.ExtTreeMap.mem_iff_isSome_getElem?.2 (by rw [hid]; rfl)
  | none =>
      have hnot : s ∉ (w.bag n).ids := fun hmem => by
        rw [Std.ExtTreeMap.mem_iff_isSome_getElem?, hid] at hmem
        cases hmem
      rw [or_iff_right hnot]
      refine Members.findsOwn_iff_noNumeral (hw.numbered n) fun id hreg => ?_
      obtain hreg | hreg := hreg
      · cases hid.symm.trans hreg
      · cases hid.symm.trans ((hinverse s id).2 hreg)

end PBags

/-! ### Bags of methods -/

namespace MBag

/-- The maps of the bag. -/
def maps (b : MBag) : Members ℕ := ⟨b.ids, b.meths, b.strids⟩

/-- `get_id` finds what it should. -/
def FindsOwn (b : MBag) (s : String) : Prop :=
  LibSwitcher.FindsOwn (getId · b) (getName · b) b.maps.Registered s

/-- The identifiers of methods are not zero, and have no names. -/
structure Unnamed (b : MBag) : Prop where
  ids : ∀ (strid : String) (id : ℕ), b.ids[strid]? = some id → id ≠ 0
  meths : 0 ∉ b.meths
  strids : b.strids = ∅

theorem Unnamed.numbered {b : MBag} (h : b.Unnamed) : b.maps.Numbered where
  ids := h.ids
  members := h.meths
  strids := fun id hid => by
    change id ∈ b.strids at hid
    rw [h.strids] at hid
    exact absurd hid Std.ExtTreeMap.not_mem_empty

theorem unnamed_make (tree : InfoTree) : (make tree).Unnamed := by
  constructor <;> simp [make]

theorem Unnamed.makeMethod {b : MBag} (h : b.Unnamed) (strid : String) (trait : MethodTrait)
    (doc : Option InfoTree) (meth : ℕ) : (b.makeMethod strid trait doc meth).1.Unnamed where
  ids := fun s id => by
    unfold MBag.makeMethod
    split
    · dsimp only
      split_ifs
      · exact h.ids s id
      · rw [NameMap.getElem?_insert]
        split_ifs
        · exact fun heq => by cases heq; exact Nat.succ_ne_zero _
        · exact h.ids s id
    · exact h.ids s id
  meths := by
    unfold MBag.makeMethod
    split
    · exact fun hmem => (IdMap.mem_insert.1 hmem).elim (fun heq => by cases heq) h.meths
    · exact h.meths
  strids := (strids_makeMethod ..).trans h.strids

/-- A call leaves the identifiers without names. -/
theorem Unnamed.step {s : Session} {op : Op} {r : Session × Result} (h : s.bag.Unnamed)
    (hr : step s op = some r) : r.1.bag.Unnamed := by
  cases op with
  | makeMethod strid trait doc meth =>
      obtain rfl := Option.some.inj hr
      exact h.makeMethod strid trait doc meth
  | remove id =>
      rw [MBag.step, remove_of_strids h.strids] at hr
      obtain rfl := Option.some.inj hr
      exact h
  | enable id =>
      obtain rfl := Option.some.inj hr
      rw [enable, setEnabled_of_strids h.strids]
      exact h
  | disable id why =>
      obtain rfl := Option.some.inj hr
      rw [disable, setEnabled_of_strids h.strids]
      exact h

theorem unnamed_of_run {tree : InfoTree} {ops : List Op} {s : Session} {results : List Result}
    (h : Machine.run step (start tree) ops = some (s, results)) : s.bag.Unnamed :=
  Machine.run_invariant (I := fun s => s.bag.Unnamed) (fun _ _ _ hs hr => hs.step hr)
    (unnamed_make tree) h

/-- Among methods, a text finds its own if it is the empty name or a decimal identifier of a
method, or starts with no numeral. -/
theorem findsOwn_iff {b : MBag} (h : b.Unnamed) (s : String) :
    b.FindsOwn s ↔ (∀ id, b.ids[s]? = some id → s = "" ∨ s = toString id) ∧
      (s ∉ b.ids → b.maps.NoNumeral s) := by
  have hnone : ∀ id : ℕ, b.strids[id]? = none := fun id => by
    rw [h.strids]
    exact Std.ExtTreeMap.getElem?_empty
  cases hid : b.ids[s]? with
  | some id =>
      have hown : b.FindsOwn s ↔ _ := Members.findsOwn_of_ids h.numbered hid
      rw [hown, Members.getName]
      have hmem : s ∈ b.ids := Std.ExtTreeMap.mem_iff_isSome_getElem?.2 (by rw [hid]; rfl)
      change b.strids[id]?.getD "" = s ∨ s = toString id ↔ _
      rw [hnone id, and_iff_left fun hnot => absurd hmem hnot, Option.getD_none, eq_comm (a := "")]
      constructor
      · rintro hs id' heq
        rwa [← Option.some.inj heq]
      · exact fun hs => hs id rfl
  | none =>
      have hnot : s ∉ b.ids := fun hmem => by
        rw [Std.ExtTreeMap.mem_iff_isSome_getElem?, hid] at hmem
        cases hmem
      rw [and_iff_right fun id heq => (nomatch heq), forall_prop_of_true hnot]
      refine Members.findsOwn_iff_noNumeral h.numbered fun id hreg => ?_
      obtain hreg | hreg := hreg
      · cases hid.symm.trans hreg
      · cases (hnone id).symm.trans hreg

end MBag

/-! ### Bags of signals -/

namespace SBag

variable {b : SBag}

/-- The maps of the bag. -/
def maps (b : SBag) : Members Sig := ⟨b.ids, b.sigs, b.strids⟩

/-- `get_id` finds what it should. -/
def FindsOwn (b : SBag) (s : String) : Prop :=
  LibSwitcher.FindsOwn (getId · b) (getName · b) b.maps.Registered s

theorem Consistent.numbered (h : b.Consistent) : b.maps.Numbered where
  ids := fun strid id hid => by
    have hmem : id ∈ b.strids := Std.ExtTreeMap.mem_iff_isSome_getElem?.2
      (by rw [h.named strid id hid]; rfl)
    exact Nat.pos_iff_ne_zero.1 (h.bound id hmem).1
  members := fun hmem => absurd (h.bound 0 ((h.sigs 0).1 hmem)).1 (Nat.lt_irrefl 0)
  strids := fun id hid => (h.sigs id).2 hid

/-- Among signals, a name finds its own unless it is forgotten, and another text does if it starts
with no numeral. -/
theorem findsOwn_iff (h : b.Consistent) (s : String) :
    b.FindsOwn s ↔ s ∈ b.ids ∨ (∃ id, idFromString s = some id ∧ b.strids[id]? = some s) ∨
      (∀ id : ℕ, b.strids[id]? ≠ some s) ∧ b.maps.NoNumeral s := by
  cases hid : b.ids[s]? with
  | some id =>
      refine iff_of_true ?_ (Or.inl ?_)
      · refine (Members.findsOwn_of_ids h.numbered hid).2 (Or.inl ?_)
        rw [Members.getName]
        exact congrArg (·.getD "") (h.named s id hid)
      · exact Std.ExtTreeMap.mem_iff_isSome_getElem?.2 (by rw [hid]; rfl)
  | none =>
      have hnot : s ∉ b.ids := fun hmem => by
        rw [Std.ExtTreeMap.mem_iff_isSome_getElem?, hid] at hmem
        cases hmem
      rw [or_iff_right hnot]
      by_cases hnamed : ∃ id : ℕ, b.strids[id]? = some s
      · obtain ⟨id, hname⟩ := hnamed
        rw [or_iff_left fun hno => hno.1 id hname]
        exact Members.findsOwn_of_strids h.numbered hid hname
      · have hno : ∀ id : ℕ, b.strids[id]? ≠ some s := fun id hname => hnamed ⟨id, hname⟩
        rw [or_iff_right fun ⟨id, _, hname⟩ => hno id hname, and_iff_right hno]
        refine Members.findsOwn_iff_noNumeral h.numbered fun id hreg => ?_
        obtain hreg | hreg := hreg
        · cases hid.symm.trans hreg
        · exact hno id hreg

end SBag

/-! ### All bags -/

/-- When a text finds its own, in the states that the bags of each kind can reach. -/
theorem getId_finds_own_iff (s : String) :
    (∀ w, PBags.Reached w → ∀ n, (w.bag n).FindsOwn s ↔
      s ∈ (w.bag n).ids ∨ (w.bag n).maps.NoNumeral s) ∧
    (∀ tree ops m results, Machine.run MBag.step (MBag.start tree) ops = some (m, results) →
      (m.bag.FindsOwn s ↔ (∀ id, m.bag.ids[s]? = some id → s = "" ∨ s = toString id) ∧
        (s ∉ m.bag.ids → m.bag.maps.NoNumeral s))) ∧
    ∀ tree ops b results, Machine.run SBag.step (SBag.init tree) ops = some (b, results) →
      (b.FindsOwn s ↔ s ∈ b.ids ∨
        (∃ id, idFromString s = some id ∧ b.strids[id]? = some s) ∨
        (∀ id : ℕ, b.strids[id]? ≠ some s) ∧ b.maps.NoNumeral s) :=
  ⟨fun _ hw n => PBags.findsOwn_iff hw n s,
    fun _ _ _ _ hrun => MBag.findsOwn_iff (MBag.unnamed_of_run hrun) s,
    fun _ _ _ _ hrun => SBag.findsOwn_iff (SBag.consistent_of_run hrun) s⟩

/-- The names of a property and of a signal, and the name of a method that is not made. -/
theorem getId_finds_own_volume :
    (∃ w results, PBags.volumeBags = some (w, results) ∧ (w.bag 1).FindsOwn "volume") ∧
    (∃ m results, Machine.run MBag.step (MBag.start InfoTree.make) [] = some (m, results) ∧
      m.bag.FindsOwn "ping") ∧
    ∃ b results, Machine.run SBag.step (SBag.init InfoTree.make) [.make "on-level" "peak"] =
      some (b, results) ∧ b.FindsOwn "on-level" := by
  refine ⟨?_, ?_, ?_⟩
  · obtain ⟨r, hr⟩ := Option.isSome_iff_exists.1 (show PBags.volumeBags.isSome by decide +kernel)
    have hmem : ∀ r ∈ PBags.volumeBags, "volume" ∈ (r.1.bag 1).ids := by decide +kernel
    exact ⟨r.1, r.2, hr, ((getId_finds_own_iff "volume").1 r.1 (PBags.Reached.of_run hr) 1).2
      (Or.inl (hmem r hr))⟩
  · refine ⟨_, _, rfl, ((getId_finds_own_iff "ping").2.1 _ [] _ [] rfl).2 ⟨fun id hid => ?_, ?_⟩⟩
    · cases hid
    · exact fun _ => ⟨0, by decide, fun hmem => absurd hmem Std.ExtTreeMap.not_mem_empty⟩
  · exact ⟨_, _, rfl, ((getId_finds_own_iff "on-level").2.2 InfoTree.make [.make "on-level" "peak"]
      _ _ rfl).2 (Or.inl (by decide +kernel))⟩

/-- A text that starts with the identifier of the volume finds it, and a large number throws. -/
theorem not_finds_own_volume : ∃ w results, PBags.volumeBags = some (w, results) ∧
    ¬ (w.bag 1).FindsOwn "1abc" ∧ ¬ (w.bag 1).FindsOwn "99999999999999999999" := by
  obtain ⟨r, hr⟩ := Option.isSome_iff_exists.1 (show PBags.volumeBags.isSome by decide +kernel)
  have hbag : ∀ r ∈ PBags.volumeBags, 1 ∈ (r.1.bag 1).props ∧ "1abc" ∉ (r.1.bag 1).ids ∧
      "99999999999999999999" ∉ (r.1.bag 1).ids := by decide +kernel
  obtain ⟨hone, hname, hlarge⟩ := hbag r hr
  refine ⟨r.1, r.2, hr, fun h => ?_, fun h => ?_⟩
  · obtain ⟨id, hid, hdecimal⟩ :=
      ((PBags.findsOwn_iff (PBags.Reached.of_run hr) 1 _).1 h).resolve_left hname
    obtain rfl := Option.some.inj (hid.symm.trans (show _ = some 1 by decide))
    exact absurd (hdecimal hone) (by decide)
  · obtain ⟨id, hid, -⟩ :=
      ((PBags.findsOwn_iff (PBags.Reached.of_run hr) 1 _).1 h).resolve_left hlarge
    cases hid.symm.trans (show _ = none by decide)

end LibSwitcher
