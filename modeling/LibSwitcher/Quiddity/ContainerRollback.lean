/-
# What a failed creation leaves

A creation that fails must leave the container as the operations of its
constructor alone made it, with its own identifier given back (`RollsBack`).
`quiet_create` gives back the last allocated identifier instead: that is the same
thing exactly when the constructor has left its own identifier at the end of the
list (`OwnIdLast`).  A quiddity whose constructor creates another one and then
fails takes the identifier of the other and keeps its own.
-/

import LibSwitcher.Quiddity.Container

namespace LibSwitcher
namespace Container

variable {β : Type} {s : Container β} {kinds : List String} {kind rawNickname : String}
  {construct : Container β → Option (Container β × Outcome β)}

/-- The state that the operations of the constructor make.  There are none when
the creation fails before the factory is called. -/
def afterConstructor (kinds : List String) (kind rawNickname : String)
    (construct : Container β → Option (Container β × Outcome β)) (s : Container β) :
    Option (Container β) :=
  if kind ∉ kinds ∨ s.Refused rawNickname then some s else (construct s.allocated).map Prod.fst

/-- If the creation fails, the allocated identifiers are those the constructor left
without the one of this call, and the live quiddities are those it left. -/
def RollsBack (kinds : List String) (kind rawNickname : String)
    (construct : Container β → Option (Container β × Outcome β)) (s : Container β) : Prop :=
  ∀ nested ∈ afterConstructor kinds kind rawNickname construct s,
    ∃ s' q, quietCreate kinds kind rawNickname construct s = some (s', q) ∧
      (q.isValid = false → s'.ids.ids = nested.ids.ids.erase s.ids.allocateId.1 ∧
        s'.quiddities = nested.quiddities)

/-- The identifier that a failed creation gives back is its own: an identifier was
left to allocate, and the constructor, if it is called and fails, leaves it last. -/
def OwnIdLast (kinds : List String) (kind rawNickname : String)
    (construct : Container β → Option (Container β × Outcome β)) (s : Container β) : Prop :=
  kind ∉ kinds ∨
    if s.Refused rawNickname then s.ids.ids.length ≠ Ids.kMaxNumOfIds
    else ∀ r ∈ construct s.allocated,
      (∃ body, r.2 = .valid body) ∨ r.1.ids.ids.getLast? = some s.ids.allocateId.1

/-- What is found after a quiddity is replaced. -/
theorem lookup_replace (id id' : ℕ) (q : Quiddity β) (l : AList fun _ : ℕ => Quiddity β) :
    (l.replace id q).lookup id' =
      if id' = id then (l.lookup id).map fun _ => q else l.lookup id' := by
  obtain ⟨l, hl⟩ := l
  change (l.kreplace id q).dlookup id' =
    if id' = id then (l.dlookup id).map fun _ => q else l.dlookup id'
  clear hl
  induction l with
  | nil => simp [List.kreplace]
  | cons e l ih =>
      obtain ⟨i, x⟩ := e
      by_cases hi : id = i
      · subst hi
        have hcons : List.kreplace id q (⟨id, x⟩ :: l) = ⟨id, q⟩ :: l :=
          List.lookmap_cons_some _ _ (if_pos rfl)
        rw [hcons, List.dlookup_cons_eq, Option.map_some]
        split_ifs with hid
        · rw [hid, List.dlookup_cons_eq]
        · rw [List.dlookup_cons_ne _ _ hid, List.dlookup_cons_ne _ _ hid]
      · have hcons : List.kreplace id q (⟨i, x⟩ :: l) = ⟨i, x⟩ :: l.kreplace id q :=
          List.lookmap_cons_none _ _ (if_neg hi)
        rw [hcons, List.dlookup_cons_ne l _ hi]
        by_cases hid : id' = i
        · subst hid
          rw [List.dlookup_cons_eq, List.dlookup_cons_eq, if_neg (Ne.symm hi)]
        · rw [List.dlookup_cons_ne _ _ hid, List.dlookup_cons_ne _ _ hid, ih]

/-- Dropping the last element of a list without repetition erases that element and
no other. -/
theorem dropLast_eq_erase_iff {l : List ℕ} (hl : l.Nodup) (hne : l ≠ []) (id : ℕ) :
    l.dropLast = l.erase id ↔ l.getLast? = some id := by
  obtain ⟨front, x, rfl⟩ := (List.eq_nil_or_concat' l).resolve_left hne
  have hx : x ∉ front := fun hmem => (List.nodup_append.1 hl).2.2 x hmem x (by simp) rfl
  rw [List.dropLast_concat, List.getLast?_concat, Option.some_inj]
  constructor
  · intro h
    by_contra hid
    by_cases hmem : id ∈ front
    · rw [List.erase_append_left _ hmem] at h
      exact hx (h ▸ List.mem_append_right _ (List.mem_singleton_self x))
    · rw [List.erase_append_right _ hmem, List.erase_of_not_mem (by simpa using Ne.symm hid)] at h
      simpa using congrArg List.length h
  · rintro rfl
    rw [List.erase_append_right _ hx, List.erase_cons_head, List.append_nil]

theorem releaseLast_eq_none_iff {msg : String} :
    s.releaseLast msg = none ↔ s.ids.ids = [] := by
  unfold releaseLast Ids.releaseLastAllocatedId
  split_ifs with h <;> simp [h]

/-- Where there is an identifier to give back, the last one goes. -/
theorem releaseLast_eq_some (msg : String) (h : s.ids.ids ≠ []) :
    ∃ s', s.releaseLast msg = some (s', Qrox.error msg) ∧ s'.ids.ids = s.ids.ids.dropLast ∧
      s'.quiddities = s.quiddities := by
  unfold releaseLast Ids.releaseLastAllocatedId
  rw [if_neg h]
  exact ⟨_, rfl, rfl, rfl⟩

/-- Giving back the last identifier gives back `id` exactly when it is last. -/
theorem releaseLast_erases_iff (msg : String) (id : ℕ) :
    (∃ s' q, s.releaseLast msg = some (s', q) ∧ (q.isValid = false →
      s'.ids.ids = s.ids.ids.erase id ∧ s'.quiddities = s.quiddities)) ↔
    s.ids.ids.getLast? = some id := by
  by_cases hne : s.ids.ids = []
  · rw [releaseLast_eq_none_iff.2 hne, hne]
    simp
  · obtain ⟨s', hs', hids, hquids⟩ := releaseLast_eq_some msg hne
    rw [← dropLast_eq_erase_iff s.ids.nodup hne]
    constructor
    · rintro ⟨t, q, ht, himp⟩
      obtain ⟨rfl, rfl⟩ := Prod.mk.inj (Option.some.inj (hs'.symm.trans ht))
      exact hids ▸ (himp rfl).1
    · exact fun h => ⟨s', _, hs', fun _ => ⟨hids.trans h, hquids⟩⟩

/-- The identifiers allocated when the factory is called: one more, unless none was
left. -/
theorem allocated_ids (s : Container β) :
    (s.ids.ids.length = Ids.kMaxNumOfIds ∧ s.ids.allocateId.1 = Ids.kInvalid ∧
        s.allocated.ids.ids = s.ids.ids) ∨
      (s.ids.ids.length ≠ Ids.kMaxNumOfIds ∧ s.ids.allocateId.1 ∉ s.ids.ids ∧
        s.allocated.ids.ids = s.ids.ids ++ [s.ids.allocateId.1]) := by
  unfold allocated Ids.allocateId
  split_ifs with h
  · exact Or.inl ⟨h, rfl, rfl⟩
  · exact Or.inr ⟨h, (s.ids.free_spec h).1, rfl⟩

/-- The identifier of a call is not one of those allocated before. -/
theorem allocateId_not_mem (s : Container β) : s.ids.allocateId.1 ∉ s.ids.ids := by
  rcases s.allocated_ids with ⟨-, hid, -⟩ | ⟨-, hid, -⟩
  · exact fun hmem => s.ids.valid _ hmem hid
  · exact hid

/-- Without the identifier of the call, the allocated ones are those of before. -/
theorem allocated_erase (s : Container β) :
    s.allocated.ids.ids.erase s.ids.allocateId.1 = s.ids.ids.erase s.ids.allocateId.1 := by
  rcases s.allocated_ids with ⟨-, -, hids⟩ | ⟨-, hid, hids⟩
  · rw [hids]
  · rw [hids, List.erase_append_right _ hid, List.erase_cons_head, List.append_nil,
      List.erase_of_not_mem hid]

/-- The identifier of the call is the last one, unless none was left. -/
theorem allocated_getLast?_iff (s : Container β) :
    s.allocated.ids.ids.getLast? = some s.ids.allocateId.1 ↔
      s.ids.ids.length ≠ Ids.kMaxNumOfIds := by
  rcases s.allocated_ids with ⟨hlen, hid, hids⟩ | ⟨hlen, -, hids⟩
  · refine iff_of_false (fun h => ?_) fun h => h hlen
    rw [hids, hid] at h
    exact s.ids.valid _ (List.mem_of_getLast? h) rfl
  · rw [hids, List.getLast?_concat]
    exact iff_of_true rfl hlen

/-- The end of a creation gives back `id`, if it fails, exactly when it is last. -/
theorem finish_erases_iff {nick : String} (id own : ℕ) (outcome : Outcome β) :
    (∃ s' q, s.finish kind nick own outcome = some (s', q) ∧ (q.isValid = false →
      s'.ids.ids = s.ids.ids.erase id ∧ s'.quiddities = s.quiddities)) ↔
    (∃ body, outcome = .valid body) ∨ s.ids.ids.getLast? = some id := by
  cases outcome with
  | null => exact (releaseLast_erases_iff _ id).trans (by simp)
  | invalid => exact (releaseLast_erases_iff _ id).trans (by simp)
  | valid body => exact iff_of_true ⟨_, _, rfl, fun h => by cases h⟩ (Or.inl ⟨body, rfl⟩)

/-- A creation rolls back if and only if the identifier it would give back is its
own, for every container and every constructor. -/
theorem rollsBack_iff (kinds : List String) (kind rawNickname : String)
    (construct : Container β → Option (Container β × Outcome β)) (s : Container β) :
    RollsBack kinds kind rawNickname construct s ↔
      OwnIdLast kinds kind rawNickname construct s := by
  unfold RollsBack OwnIdLast
  by_cases hkind : kind ∈ kinds
  · rw [or_iff_right (not_not.2 hkind)]
    by_cases hrefused : s.Refused rawNickname
    · have hcall : quietCreate kinds kind rawNickname construct s =
          s.allocated.releaseLast "nickname unavailable" := by
        rw [quietCreate, if_neg (not_not.2 hkind), if_pos hrefused]
      have hrelease := releaseLast_erases_iff (s := s.allocated) "nickname unavailable"
        s.ids.allocateId.1
      rw [allocated_erase, allocated_getLast?_iff] at hrelease
      rw [hcall, afterConstructor, if_pos (Or.inr hrefused), if_pos hrefused, ← hrelease]
      simp [allocated]
    · have hcall : quietCreate kinds kind rawNickname construct s =
          (construct s.allocated).bind fun r => r.1.finish kind
            (chooseNickname kind rawNickname s.ids.allocateId.1) s.ids.allocateId.1 r.2 := by
        rw [quietCreate, if_neg (not_not.2 hkind), if_neg hrefused]
      rw [hcall, afterConstructor, if_neg (by simp [hkind, hrefused]), if_neg hrefused]
      cases construct s.allocated with
      | none => simp
      | some r => simpa using finish_erases_iff (s := r.1) s.ids.allocateId.1 _ r.2
  · -- an unknown kind is refused before an identifier is allocated
    refine iff_of_true (fun nested hnested => ?_) (Or.inl hkind)
    rw [afterConstructor, if_pos (Or.inl hkind)] at hnested
    obtain rfl := Option.some.inj hnested
    exact ⟨_, _, if_pos hkind, fun _ =>
      ⟨(List.erase_of_not_mem (allocateId_not_mem _)).symm, rfl⟩⟩

/-- The constructor of a quiddity creates a `dummysink` and the quiddity then fails its
check: the identifier of the `dummysink` is given back and its own
stays allocated. -/
theorem not_rollsBack_nested :
    ¬RollsBack ["nesting", "dummysink"] "nesting" ""
      (fun s => (execAll ["nesting", "dummysink"]
        [.quietCreate "dummysink" "" [] (.valid ())] s).map fun s' => (s', .invalid))
      (empty : Container Unit) := by
  intro h
  have hnested : (afterConstructor ["nesting", "dummysink"] "nesting" ""
      (fun s => (execAll ["nesting", "dummysink"]
        [.quietCreate "dummysink" "" [] (.valid ())] s).map fun s' => (s', .invalid))
      (empty : Container Unit)).map (fun s => s.ids.ids) = some [1, 2] := by decide
  have hcall : (quietCreate ["nesting", "dummysink"] "nesting" ""
      (fun s => (execAll ["nesting", "dummysink"]
        [.quietCreate "dummysink" "" [] (.valid ())] s).map fun s' => (s', .invalid))
      (empty : Container Unit)).map (fun r => (r.1.ids.ids, r.2.isValid)) =
      some ([1], false) := by decide
  obtain ⟨nested, hnested, hids⟩ := Option.map_eq_some_iff.1 hnested
  obtain ⟨s', q, hs', himp⟩ := h nested hnested
  rw [hs'] at hcall
  obtain ⟨hids', hvalid⟩ := Prod.mk.inj (Option.some.inj hcall)
  have hlast := (himp hvalid).1
  rw [hids', hids] at hlast
  exact absurd hlast (by decide)

end Container
end LibSwitcher
