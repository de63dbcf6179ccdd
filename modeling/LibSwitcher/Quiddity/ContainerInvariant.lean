/-
# The invariant of the container

`Consistent` says what the users of a container rely on: the live quiddities are
those of the allocated identifiers, their nicknames are different, and `get_id`
and `get_nickname` are inverse.  Nicknames are compared on one path only, an
explicit nickname given to `quiet_create`, and an identifier is not always given
back by the call that took it; `Sound` is the condition on an operation, and on
those its constructor and its callbacks perform, under which the invariant is
kept:

* a creation has an identifier left, its nickname is not in use when the quiddity
  enters the container, and when it fails its identifier is the last one;
* a constructor does not remove a quiddity that is still under construction;
* a quiddity is renamed to a nickname that no other one has.

While a constructor runs, the identifiers of the quiddities under construction are
allocated and have no quiddity: `Tidy` is the invariant with these `pending`
identifiers.
-/

import LibSwitcher.Lib.Machine
import LibSwitcher.Quiddity.ContainerRollback

namespace LibSwitcher
namespace Container

variable {β : Type} {s s' : Container β} {kinds : List String} {pending : List ℕ} {id own : ℕ}
  {nick : String} {q : Quiddity β}

/-! ### The property and the condition -/

/-- What the users of a container rely on. -/
structure Consistent (s : Container β) : Prop where
  mem_iff : ∀ id, id ∈ s.quiddities ↔ id ∈ s.ids.ids
  ne_zero : ∀ id ∈ s.ids.ids, id ≠ 0
  nickname_inj : ∀ id id' nick, s.getNickname id = some nick → s.getNickname id' = some nick →
    id = id'
  getId_nickname : ∀ id nick, s.getNickname id = some nick → s.getId nick = id
  getId_absent : ∀ nick, (∀ id, s.getNickname id ≠ some nick) → s.getId nick = 0

/-- The nickname is that of no quiddity but `id`. -/
def NicknameFree (s : Container β) (id : ℕ) (nick : String) : Prop :=
  ∀ e ∈ s.quiddities.entries, e.2.nickname = nick → e.1 = id

instance decidableNicknameFree (s : Container β) (id : ℕ) (nick : String) :
    Decidable (s.NicknameFree id nick) :=
  inferInstanceAs (Decidable (∀ e ∈ s.quiddities.entries, e.2.nickname = nick → e.1 = id))

/-- The quiddity of an allocated identifier is not under construction. -/
def Constructed (s : Container β) (id : ℕ) : Prop := id ∈ s.ids.ids → id ∈ s.quiddities.keys

instance decidableConstructed (s : Container β) (id : ℕ) : Decidable (s.Constructed id) :=
  inferInstanceAs (Decidable (_ → _))

/-- The state in which the factory returns is fit for the end of the creation: the
nickname is not in use, or the creation fails and its identifier is the last. -/
def Finishable (s : Container β) (nick : String) (id : ℕ) : Outcome β → Prop
  | .valid _ => ¬s.NicknameTaken nick
  | _ => s.ids.ids.getLast? = some id

instance decidableFinishable (s : Container β) (nick : String) (id : ℕ) (outcome : Outcome β) :
    Decidable (s.Finishable nick id outcome) := by
  cases outcome <;> unfold Finishable <;> infer_instance

/-- The condition on a creation, given the condition on the operations of its
constructor and the state that they make. -/
def Creatable (kinds : List String) (kind nick : String) (outcome : Outcome β)
    (ctorSound : Prop) (nested : Option (Container β)) (s : Container β) : Prop :=
  kind ∉ kinds ∨ s.ids.ids.length ≠ Ids.kMaxNumOfIds ∧ (s.Refused nick ∨ ctorSound ∧
    ∀ s' ∈ nested, s'.Finishable (chooseNickname kind nick s.ids.allocateId.1) s.ids.allocateId.1
      outcome)

instance decidableCreatable (kinds : List String) (kind nick : String) (outcome : Outcome β)
    (ctorSound : Prop) [Decidable ctorSound] (nested : Option (Container β)) (s : Container β) :
    Decidable (Creatable kinds kind nick outcome ctorSound nested s) := by
  unfold Creatable
  infer_instance

mutual

/-- The condition on an operation. -/
def Sound (kinds : List String) : Op β → Container β → Prop
  | .quietCreate kind nick ctor outcome, s =>
      Creatable kinds kind nick outcome (SoundAll kinds ctor s.allocated)
        (execAll kinds ctor s.allocated) s
  | .create kind nick ctor outcome onCreated, s =>
      Creatable kinds kind nick outcome (SoundAll kinds ctor s.allocated)
        (execAll kinds ctor s.allocated) s ∧
      ∀ r ∈ quietCreate kinds kind nick
          (fun s => (execAll kinds ctor s).map fun s' => (s', outcome)) s,
        r.2.isValid = true → SoundAll kinds onCreated r.1
  | .quietRemove id, s => s.Constructed id
  | .remove id onRemoved, s => SoundAll kinds onRemoved s ∧
      ∀ s' ∈ execAll kinds onRemoved s, s'.Constructed id
  | .setNickname id nick, s => id ∈ s.quiddities.keys → s.NicknameFree id nick

/-- The condition on a list of operations. -/
def SoundAll (kinds : List String) : List (Op β) → Container β → Prop
  | [], _ => True
  | op :: ops, s => Sound kinds op s ∧ ∀ r ∈ exec kinds op s, SoundAll kinds ops r.1

end

mutual

/-- Whether an operation meets the condition is found by performing it. -/
def decidableSound (kinds : List String) :
    (op : Op β) → (s : Container β) → Decidable (Sound kinds op s)
  | .quietCreate kind nick ctor outcome, s => by
      unfold Sound
      have := decidableSoundAll kinds ctor s.allocated
      infer_instance
  | .create kind nick ctor outcome onCreated, s => by
      unfold Sound
      have := decidableSoundAll kinds ctor s.allocated
      have := fun s => decidableSoundAll kinds onCreated s
      infer_instance
  | .quietRemove id, s => by
      unfold Sound
      infer_instance
  | .remove id onRemoved, s => by
      unfold Sound
      have := decidableSoundAll kinds onRemoved s
      infer_instance
  | .setNickname id nick, s => by
      unfold Sound
      infer_instance

/-- Whether a list of operations meets the condition is found by performing it. -/
def decidableSoundAll (kinds : List String) :
    (ops : List (Op β)) → (s : Container β) → Decidable (SoundAll kinds ops s)
  | [], _ => by
      unfold SoundAll
      infer_instance
  | op :: ops, s => by
      unfold SoundAll
      have := decidableSound kinds op s
      have := fun s => decidableSoundAll kinds ops s
      infer_instance

end

instance (kinds : List String) (s : Container β) (op : Op β) : Decidable (Sound kinds op s) :=
  decidableSound kinds op s

/-! ### The invariant -/

/-- The identifiers allocated are those of the live quiddities and the `pending`
ones, which have no quiddity yet, and the nicknames are different. -/
structure Tidy (pending : List ℕ) (s : Container β) : Prop where
  mem_iff : ∀ id, id ∈ s.ids.ids ↔ id ∈ s.quiddities.keys ∨ id ∈ pending
  disjoint : ∀ id ∈ pending, id ∉ s.quiddities.keys
  nickname_inj : ∀ e ∈ s.quiddities.entries, ∀ e' ∈ s.quiddities.entries,
    e.2.nickname = e'.2.nickname → e.1 = e'.1

theorem tidy_empty : Tidy [] (empty : Container β) where
  mem_iff := fun id => by simp [empty, Ids.empty]
  disjoint := fun id h => by simp at h
  nickname_inj := fun e h => by simp [empty] at h

/-- A live quiddity and its nickname. -/
theorem getNickname_eq_some_iff :
    s.getNickname id = some nick ↔ ∃ q, (⟨id, q⟩ : Sigma fun _ : ℕ => Quiddity β) ∈
      s.quiddities.entries ∧ q.nickname = nick := by
  unfold getNickname
  rw [Option.map_eq_some_iff]
  exact exists_congr fun q => and_congr_left fun _ => AList.mem_lookup_iff

/-- Where no quiddity is under construction, the container is consistent. -/
theorem Tidy.consistent (h : Tidy [] s) : Consistent s where
  mem_iff := fun id => by rw [h.mem_iff, AList.mem_keys]; simp
  ne_zero := s.ids.valid
  nickname_inj := fun id id' nick hid hid' => by
    obtain ⟨q, hq, rfl⟩ := getNickname_eq_some_iff.1 hid
    obtain ⟨q', hq', hnick⟩ := getNickname_eq_some_iff.1 hid'
    exact h.nickname_inj _ hq _ hq' hnick.symm
  getId_nickname := fun id nick hid => by
    obtain ⟨q, hq, rfl⟩ := getNickname_eq_some_iff.1 hid
    unfold getId
    cases hfind : s.quiddities.entries.find? fun e => e.2.nickname = q.nickname with
    | none => exact absurd (List.find?_eq_none.1 hfind _ hq) (by simp)
    | some e =>
        have hnick : e.2.nickname = q.nickname := by simpa using List.find?_some hfind
        exact h.nickname_inj _ (List.mem_of_find?_eq_some hfind) _ hq hnick
  getId_absent := fun nick habsent => by
    unfold getId
    have hfind : (s.quiddities.entries.find? fun e => e.2.nickname = nick) = none := by
      refine List.find?_eq_none.2 fun e he hnick => ?_
      exact habsent e.1 (getNickname_eq_some_iff.2 ⟨e.2, he, by simpa using hnick⟩)
    rw [hfind]
    rfl

/-! ### The operations -/

/-- An allocation makes one more identifier pending. -/
theorem Tidy.allocated (h : Tidy pending s) (hleft : s.ids.ids.length ≠ Ids.kMaxNumOfIds) :
    Tidy (s.ids.allocateId.1 :: pending) s.allocated := by
  obtain ⟨-, hnew, hids⟩ := s.allocated_ids.resolve_left fun hfull => hleft hfull.1
  refine ⟨fun id => ?_, fun id hid => ?_, h.nickname_inj⟩
  · rw [hids, List.mem_append, List.mem_singleton, h.mem_iff, List.mem_cons, or_assoc,
      or_comm (a := id ∈ pending)]
    rfl
  · rcases List.mem_cons.1 hid with rfl | hid
    · exact fun hkey => hnew ((h.mem_iff _).2 (Or.inl hkey))
    · exact h.disjoint id hid

/-- A quiddity enters the container under its pending identifier. -/
theorem Tidy.insert (h : Tidy (own :: pending) s) (hown : own ∉ pending)
    (hnick : ¬s.NicknameTaken q.nickname) :
    Tidy pending { s with quiddities := s.quiddities.insert own q } := by
  have hkey : own ∉ s.quiddities := h.disjoint own List.mem_cons_self
  have hentries : (s.quiddities.insert own q).entries = ⟨own, q⟩ :: s.quiddities.entries :=
    AList.entries_insert_of_notMem hkey
  refine ⟨fun id => ?_, fun id hid hmem => ?_, fun e he e' he' hee' => ?_⟩
  · rw [h.mem_iff, ← AList.mem_keys, ← AList.mem_keys, AList.mem_insert, List.mem_cons,
      or_left_comm, or_assoc]
  · rcases (AList.mem_insert _).1 (AList.mem_keys.2 hmem) with rfl | hmem
    · exact hown hid
    · exact h.disjoint id (List.mem_cons_of_mem _ hid) hmem
  · simp only [hentries, List.mem_cons] at he he'
    rcases he with rfl | he <;> rcases he' with rfl | he'
    · rfl
    · exact absurd ⟨e', he', hee'.symm⟩ hnick
    · exact absurd ⟨e, he, hee'⟩ hnick
    · exact h.nickname_inj e he e' he' hee'

/-- The last allocated identifier is given back when it is the pending one. -/
theorem Tidy.releaseLast (h : Tidy (own :: pending) s) (hown : own ∉ pending)
    (hlast : s.ids.ids.getLast? = some own) (msg : String) :
    ∃ s', s.releaseLast msg = some (s', Qrox.error msg) ∧ Tidy pending s' := by
  have hne : s.ids.ids ≠ [] := fun hnil => by simp [hnil] at hlast
  obtain ⟨s', hs', hids, hquids⟩ := releaseLast_eq_some msg hne
  rw [(dropLast_eq_erase_iff s.ids.nodup hne own).2 hlast] at hids
  refine ⟨s', hs', fun id => ?_, fun id hid => ?_, ?_⟩
  · rw [hids, s.ids.nodup.mem_erase_iff, h.mem_iff, hquids, List.mem_cons]
    have hkey := h.disjoint own List.mem_cons_self
    by_cases hid : id = own
    · subst hid
      simp [hkey, hown]
    · simp [hid]
  · rw [hquids]
    exact h.disjoint id (List.mem_cons_of_mem _ hid)
  · rw [hquids]
    exact h.nickname_inj

/-- A quiddity is removed. -/
theorem Tidy.quietRemove (h : Tidy pending s) (hid : s.Constructed id) :
    Tidy pending (quietRemove id s).1 := by
  unfold Container.quietRemove Ids.releaseId
  split_ifs with hmem
  · have hkey := hid hmem
    have hsub : (s.quiddities.erase id).entries ⊆ s.quiddities.entries :=
      (List.kerase_sublist id s.quiddities.entries).subset
    refine ⟨fun id' => ?_, fun id' hid' => ?_, fun e he e' he' =>
      h.nickname_inj e (hsub he) e' (hsub he')⟩
    · have hpend : id' ∈ pending → id' ≠ id := fun hp heq => h.disjoint id' hp (heq ▸ hkey)
      simp only [Ids.keep]
      rw [s.ids.nodup.mem_erase_iff, h.mem_iff, ← AList.mem_keys, ← AList.mem_keys,
        AList.mem_erase]
      tauto
    · rw [← AList.mem_keys, AList.mem_erase]
      exact fun hkey' => h.disjoint id' hid' hkey'.2
  · exact h

/-- The entries after the replacement of a value. -/
theorem mem_kreplace {l : List (Sigma fun _ : ℕ => Quiddity β)} {e : Sigma fun _ : ℕ => Quiddity β}
    (h : e ∈ l.kreplace id q) : e = ⟨id, q⟩ ∨ e ∈ l := by
  induction l with
  | nil => simp [List.kreplace] at h
  | cons x l ih =>
      unfold List.kreplace at h ih
      rw [List.lookmap_cons] at h
      split_ifs at h with hx
      · rcases List.mem_cons.1 h with rfl | h
        · exact Or.inl rfl
        · exact Or.inr (List.mem_cons_of_mem _ h)
      · rcases List.mem_cons.1 h with rfl | h
        · exact Or.inr List.mem_cons_self
        · exact (ih h).imp_right (List.mem_cons_of_mem _)

/-- A quiddity is renamed. -/
theorem Tidy.setNickname (h : Tidy pending s)
    (hfree : id ∈ s.quiddities.keys → s.NicknameFree id nick) :
    Tidy pending (setNickname id nick s).1 := by
  unfold Container.setNickname
  cases hq : s.quiddities.lookup id with
  | none => exact h
  | some q =>
      have hfree := hfree (AList.lookup_isSome.1 (by rw [hq]; rfl))
      refine ⟨fun id' => ?_, fun id' hid' => ?_, fun e he e' he' hee' => ?_⟩
      · simpa using h.mem_iff id'
      · simpa using h.disjoint id' hid'
      · rcases mem_kreplace he with rfl | he <;> rcases mem_kreplace he' with rfl | he'
        · rfl
        · exact (hfree e' he' hee'.symm).symm
        · exact hfree e he hee'
        · exact h.nickname_inj e he e' he' hee'

/-- The end of a creation settles its pending identifier. -/
theorem Tidy.finish (h : Tidy (own :: pending) s) (hown : own ∉ pending) (kind : String)
    {outcome : Outcome β} (hfin : s.Finishable nick own outcome) :
    ∃ r, s.finish kind nick own outcome = some r ∧ Tidy pending r.1 := by
  cases outcome with
  | null =>
      obtain ⟨s', hs', htidy⟩ := h.releaseLast hown hfin _
      exact ⟨_, hs', htidy⟩
  | invalid =>
      obtain ⟨s', hs', htidy⟩ := h.releaseLast hown hfin _
      exact ⟨_, hs', htidy⟩
  | valid body => exact ⟨_, rfl, h.insert hown hfin⟩

/-- A creation keeps the invariant when its constructor does, with the identifier of
the call pending. -/
theorem Tidy.quietCreate (h : Tidy pending s) {kind : String} {outcome : Outcome β}
    {ctor : Container β → Option (Container β)} {ctorSound : Prop}
    (hctor : ctorSound → s.ids.ids.length ≠ Ids.kMaxNumOfIds →
      ∃ s', ctor s.allocated = some s' ∧ Tidy (s.ids.allocateId.1 :: pending) s')
    (hcond : Creatable kinds kind nick outcome ctorSound (ctor s.allocated) s) :
    ∃ r, quietCreate kinds kind nick (fun s => (ctor s).map fun s' => (s', outcome)) s = some r ∧
      Tidy pending r.1 := by
  unfold Container.quietCreate
  by_cases hkind : kind ∉ kinds
  · exact ⟨_, if_pos hkind, h⟩
  obtain ⟨hleft, hcond⟩ := hcond.resolve_left hkind
  have hown : s.ids.allocateId.1 ∉ pending := fun hp =>
    s.allocateId_not_mem ((h.mem_iff _).2 (Or.inr hp))
  rw [if_neg hkind]
  by_cases hrefused : s.Refused nick
  · obtain ⟨s', hs', htidy⟩ := (h.allocated hleft).releaseLast hown
      ((allocated_getLast?_iff s).2 hleft) "nickname unavailable"
    exact ⟨_, by rw [if_pos hrefused, hs'], htidy⟩
  · obtain ⟨hsound, hfin⟩ := hcond.resolve_left hrefused
    obtain ⟨s', hs', htidy⟩ := hctor hsound hleft
    obtain ⟨r, hr, htidy'⟩ := htidy.finish hown kind (hfin s' hs')
    refine ⟨r, ?_, htidy'⟩
    simp only [if_neg hrefused, hs', Option.map_some, Option.bind_some, hr]

mutual

/-- An operation that meets the condition is defined and keeps the invariant: by
induction on the operation, those of a constructor with one more identifier
pending. -/
theorem Tidy.exec {pending : List ℕ} : (op : Op β) → (s : Container β) → Tidy pending s →
    Sound kinds op s → ∃ r, exec kinds op s = some r ∧ Tidy pending r.1
  | .quietCreate kind nick ctor outcome, s, h, hsound => by
      obtain ⟨r, hr, htidy⟩ := h.quietCreate
        (fun hctor hleft => Tidy.execAll ctor s.allocated (h.allocated hleft) hctor) hsound
      exact ⟨_, by rw [Container.exec, hr, Option.map_some], htidy⟩
  | .create kind nick ctor outcome onCreated, s, h, hsound => by
      obtain ⟨r, hr, htidy⟩ := h.quietCreate
        (fun hctor hleft => Tidy.execAll ctor s.allocated (h.allocated hleft) hctor) hsound.1
      by_cases hvalid : r.2.isValid = true
      · obtain ⟨s', hs', htidy'⟩ := Tidy.execAll onCreated r.1 htidy (hsound.2 r hr hvalid)
        exact ⟨_, by rw [Container.exec, hr, Option.bind_some, if_pos hvalid, hs',
          Option.map_some], htidy'⟩
      · exact ⟨_, by rw [Container.exec, hr, Option.bind_some, if_neg hvalid], htidy⟩
  | .quietRemove id, s, h, hsound => ⟨_, rfl, h.quietRemove hsound⟩
  | .remove id onRemoved, s, h, hsound => by
      obtain ⟨hcbs, hid⟩ := hsound
      obtain ⟨s', hs', htidy⟩ := Tidy.execAll onRemoved s h hcbs
      exact ⟨_, by rw [Container.exec, hs', Option.map_some], htidy.quietRemove (hid s' hs')⟩
  | .setNickname id nick, s, h, hsound => ⟨_, rfl, h.setNickname hsound⟩

/-- A list of operations that meets the condition is defined and keeps the
invariant. -/
theorem Tidy.execAll {pending : List ℕ} : (ops : List (Op β)) → (s : Container β) →
    Tidy pending s → SoundAll kinds ops s → ∃ s', execAll kinds ops s = some s' ∧ Tidy pending s'
  | [], s, h, _ => ⟨s, rfl, h⟩
  | op :: ops, s, h, hsound => by
      obtain ⟨r, hr, htidy⟩ := Tidy.exec op s h hsound.1
      obtain ⟨s', hs', htidy'⟩ := Tidy.execAll ops r.1 htidy (hsound.2 r hr)
      exact ⟨s', by rw [Container.execAll, hr, Option.bind_some, hs'], htidy'⟩

end

/-! ### The runs -/

/-- In every run of a new container whose operations meet the condition, every state
reached is consistent. -/
theorem consistent_of_sound (kinds : List String) (ops : List (Op β))
    (hops : Machine.Admits (step kinds) (fun s op => Sound kinds op s) (empty : Container β) ops) :
    ∃ s results, Machine.run (step kinds) empty ops = some (s, results) ∧ Consistent s := by
  obtain ⟨s, results, hrun, htidy⟩ := Machine.Admits.defined (I := Tidy [])
    (fun s op h hop => Tidy.exec op s h hop) tidy_empty hops
  exact ⟨s, results, hrun, htidy.consistent⟩

/-- A run with a nested creation that fails, a renaming and a removal. -/
theorem consistent_of_sound_nested :
    Machine.Admits (step ["nesting", "dummysink"]) (fun s op => Sound ["nesting", "dummysink"] op s)
      (empty : Container Unit)
      [.create "dummysink" "a" [] (.valid ()) [.setNickname 1 "b"],
        .quietCreate "nesting" "" [.quietCreate "dummysink" "b" [] (.valid ())] .null,
        .remove 1 []] ∧
    ∃ s results, Machine.run (step ["nesting", "dummysink"]) (empty : Container Unit)
      [.create "dummysink" "a" [] (.valid ()) [.setNickname 1 "b"],
        .quietCreate "nesting" "" [.quietCreate "dummysink" "b" [] (.valid ())] .null,
        .remove 1 []] = some (s, results) ∧ Consistent s :=
  ⟨by decide, consistent_of_sound _ _ (by decide)⟩

/-- Two quiddities of one nickname: the second is created with an empty one, which
is replaced by its kind and its identifier. -/
theorem not_consistent_generated :
    ∃ s results, Machine.run (step ["dummysink"]) (empty : Container Unit)
      [.create "dummysink" "dummysink2" [] (.valid ()) [],
        .create "dummysink" "" [] (.valid ()) []] = some (s, results) ∧ ¬Consistent s := by
  have hnicks : (Machine.run (step ["dummysink"]) (empty : Container Unit)
      [.create "dummysink" "dummysink2" [] (.valid ()) [],
        .create "dummysink" "" [] (.valid ()) []]).map
          (fun r => (r.1.getNickname 1, r.1.getNickname 2)) =
      some (some "dummysink2", some "dummysink2") := by decide
  obtain ⟨⟨s, results⟩, hrun, hnicks⟩ := Option.map_eq_some_iff.1 hnicks
  obtain ⟨h₁, h₂⟩ := Prod.mk.inj hnicks
  exact ⟨s, results, hrun, fun h => absurd (h.nickname_inj 1 2 _ h₁ h₂) (by decide)⟩

end Container
end LibSwitcher
