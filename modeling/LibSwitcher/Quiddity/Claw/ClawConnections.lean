/-
# The connections of a claw

After every call, the followers with a path are allocated and not meta; a successful
`connect_raw` leaves its path for the follower it returns; a successful `disconnect`
takes the path of its follower away, and no other (`StepCorrect`).

The code does not do this for two kinds of calls.  `connect_raw` of an identifier
that is not allocated is undefined, and `connect_raw` of a follower that is already
connected keeps the path of the first connection, since `emplace` does not replace a
value.  A run is correct exactly when none of its calls is of these kinds
(`stepCorrect_iff_connectOk`).
-/

import LibSwitcher.Quiddity.Claw.Claw

namespace LibSwitcher
namespace Claw

open ConnectionSpec

variable {τ : Type} (x : Externals τ)

/-- The followers with a path are allocated and not meta. -/
def KeysAllocated (c : Claw τ) : Prop :=
  ∀ id ∈ c.followerShmpaths, id ∈ c.connectionSpec.follower.ids ∧
    '%' ∉ (c.connectionSpec.follower.labelOf id).toList

/-- What a call promises by what it returns. -/
def Promised (c : Claw τ) : Op τ → Claw τ × SpecResult → Prop
  | .connectRaw _ shmpath _, (c', .id id) => id ≠ Ids.kInvalid → c'.getFollowerShmpath id = shmpath
  | .disconnect sfid _, (c', .bool true) => sfid ∉ c'.followerShmpaths ∧
      ∀ id ≠ sfid, c'.followerShmpaths[id]? = c.followerShmpaths[id]?
  | _, _ => True

/-- A call is defined, leaves paths for allocated followers only, and keeps its
promise. -/
def StepCorrect (c : Claw τ) (op : Op τ) : Prop :=
  ∃ r, step x c op = some r ∧ KeysAllocated r.1 ∧ Promised c op r

/-- The follower of a `connect_raw` is allocated and, unless the callback fails or the
follower is meta, it is not connected to another path. -/
def ConnectOk (c : Claw τ) : Op τ → Prop
  | .connectRaw sfid shmpath cb => sfid ∈ c.connectionSpec.follower.ids ∧
      (cb = true → ¬c.connectionSpec.follower.IsMeta sfid →
        c.followerShmpaths[sfid]? = none ∨ c.followerShmpaths[sfid]? = some shmpath)
  | _ => True

instance decidableConnectOk (c : Claw τ) (op : Op τ) : Decidable (ConnectOk c op) := by
  cases op <;> unfold ConnectOk <;> infer_instance

variable {x} {c : Claw τ} {sfid : ℕ} {shmpath : String} {cb : Bool}

/-! ### What connecting does -/

theorem connectRaw_of_not_mem (h : sfid ∉ c.connectionSpec.follower.ids) :
    c.connectRaw sfid shmpath cb = none := by
  rw [connectRaw, isMetaFollower, if_neg h]
  rfl

/-- Connecting a follower that is not meta. -/
theorem connectRaw_static (h : sfid ∈ c.connectionSpec.follower.ids)
    (hmeta : ¬c.connectionSpec.follower.IsMeta sfid) :
    c.connectRaw sfid shmpath cb = some (if cb = false then (c, Ids.kInvalid)
      else ({ c with followerShmpaths := c.followerShmpaths.insertIfNew sfid shmpath }, sfid)) := by
  have hlabel : ('%' ∈ (c.connectionSpec.follower.labelOf sfid).toList) = False :=
    eq_false fun hlabel => hmeta ⟨h, hlabel⟩
  simp only [connectRaw, isMetaFollower, if_pos h, hlabel, decide_false, Option.map_some,
    Bool.false_eq_true, if_false]
  rw [if_neg (not_not.2 h)]

/-- A meta follower cannot be connected when no identifier is left. -/
theorem connectRaw_not_left (hmeta : c.connectionSpec.follower.IsMeta sfid)
    (hleft : ¬c.connectionSpec.follower.Left) :
    c.connectRaw sfid shmpath cb = some (c, Ids.kInvalid) := by
  have hspec : c.connectionSpec.allocateSfidFromMeta sfid = (c.connectionSpec, Ids.kInvalid) :=
    dif_neg fun h => hleft h.2
  have hinvalid : Ids.kInvalid ∉ c.connectionSpec.follower.ids := fun h =>
    c.connectionSpec.follower.ne_zero_of_mem h rfl
  simp only [connectRaw, isMetaFollower, if_pos hmeta.1, hmeta.2, decide_true, Option.map_some,
    if_true, hspec, hinvalid, not_false_eq_true]

/-- Connecting a meta follower: the callback decides whether the dynamic follower that
is allocated stays. -/
theorem connectRaw_meta (hmeta : c.connectionSpec.follower.IsMeta sfid)
    (hleft : c.connectionSpec.follower.Left) :
    let spec := (c.connectionSpec.allocateSfidFromMeta sfid).1
    let id := c.connectionSpec.follower.nextId hleft
    c.connectRaw sfid shmpath cb = some (
      if cb = false then ({ c with connectionSpec := (spec.deallocateSfidFromMeta id).1 },
        Ids.kInvalid)
      else (⟨spec, c.followerShmpaths.insertIfNew id shmpath,
        c.notifications ++ [.grafted ("follower." ++ toString id)]⟩, id)) := by
  intro spec id
  have hsnd : (c.connectionSpec.allocateSfidFromMeta sfid).2 = id := by
    rw [allocateSfidFromMeta, dif_pos ⟨hmeta, hleft⟩]
  have hmem : id ∈ (c.connectionSpec.allocateSfidFromMeta sfid).1.follower.ids := by
    rw [allocateSfidFromMeta, dif_pos ⟨hmeta, hleft⟩]
    exact Points.mem_ids_addDynamic.2 (Or.inl rfl)
  simp only [connectRaw, isMetaFollower, if_pos hmeta.1, hmeta.2, decide_true, Option.map_some,
    if_true, hsnd, hmem, not_true_eq_false, if_false]
  rfl

/-! ### The keys -/

variable {spec : ConnectionSpec τ} {id : ℕ}

theorem getFollowerShmpath_of_getElem? (h : c.followerShmpaths[id]? = some shmpath) :
    c.getFollowerShmpath id = shmpath := by
  rw [getFollowerShmpath, h]
  rfl

/-- The keys stay allocated when the specification keeps its followers. -/
theorem KeysAllocated.of_spec {c' : Claw τ} (h : KeysAllocated c)
    (hpaths : c'.followerShmpaths = c.followerShmpaths)
    (hids : c'.connectionSpec.follower.ids = c.connectionSpec.follower.ids) : KeysAllocated c' := by
  intro id hid
  rw [hpaths] at hid
  rw [Points.labelOf, hids]
  exact h id hid

/-- An allocated follower that is not meta may become a key. -/
theorem KeysAllocated.emplace (h : KeysAllocated c) (hid : id ∈ c.connectionSpec.follower.ids)
    (hmeta : ¬c.connectionSpec.follower.IsMeta id) :
    KeysAllocated { c with followerShmpaths := c.followerShmpaths.insertIfNew id shmpath } := by
  intro id' hid'
  rcases IdMap.mem_emplace.1 hid' with rfl | hid'
  · exact ⟨hid, fun hlabel => hmeta ⟨hid, hlabel⟩⟩
  · exact h id' hid'

/-- Allocating a dynamic follower keeps the keys, and it is not meta itself. -/
theorem KeysAllocated.allocate (h : KeysAllocated c)
    (hmeta : c.connectionSpec.follower.IsMeta sfid) (hleft : c.connectionSpec.follower.Left) :
    KeysAllocated { c with connectionSpec := (c.connectionSpec.allocateSfidFromMeta sfid).1 } ∧
      c.connectionSpec.follower.nextId hleft ∈
        (c.connectionSpec.allocateSfidFromMeta sfid).1.follower.ids ∧
      ¬(c.connectionSpec.allocateSfidFromMeta sfid).1.follower.IsMeta
        (c.connectionSpec.follower.nextId hleft) := by
  rw [allocateSfidFromMeta, dif_pos ⟨hmeta, hleft⟩]
  refine ⟨fun id hid => ?_, Points.mem_ids_addDynamic.2 (Or.inl rfl), ?_⟩
  · obtain ⟨hmem, hlabel⟩ := h id hid
    refine ⟨Points.mem_ids_addDynamic.2 (Or.inr hmem), ?_⟩
    simp only
    rwa [Points.labelOf_addDynamic hmem]
  · rintro ⟨-, hlabel⟩
    simp only at hlabel
    rw [Points.labelOf_addDynamic_nextId] at hlabel
    refine Stringutils.not_mem_replaceChar ?_ hlabel
    exact (Components.plain_toString (by decide) _).2

/-- Taking out a follower that is not a key keeps the keys. -/
theorem KeysAllocated.deallocate (h : KeysAllocated c) (hid : id ∉ c.followerShmpaths) :
    KeysAllocated { c with connectionSpec := (c.connectionSpec.deallocateSfidFromMeta id).1 } := by
  rw [deallocateSfidFromMeta]
  split_ifs with hdyn
  · intro id' hid'
    have hne : id' ≠ id := fun heq => hid (heq ▸ hid')
    obtain ⟨hmem, hlabel⟩ := h id' hid'
    refine ⟨Points.mem_ids_remove.2 ⟨hne, hmem⟩, ?_⟩
    simp only
    rwa [Points.labelOf_remove hne]
  · exact h

/-- A new identifier is not a key. -/
theorem KeysAllocated.nextId_not_mem (h : KeysAllocated c) (hleft : c.connectionSpec.follower.Left) :
    c.connectionSpec.follower.nextId hleft ∉ c.followerShmpaths := fun hmem =>
  c.connectionSpec.follower.nextId_not_mem hleft (h _ hmem).1

/-! ### Calls -/

theorem stepCorrect_connectRaw_iff (h : KeysAllocated c) :
    StepCorrect x c (.connectRaw sfid shmpath cb) ↔ ConnectOk c (.connectRaw sfid shmpath cb) := by
  by_cases hid : sfid ∈ c.connectionSpec.follower.ids
  swap
  · have hstep : step x c (.connectRaw sfid shmpath cb) = none := by
      rw [step, connectRaw_of_not_mem hid]
      rfl
    refine ⟨fun ⟨r, hr, _⟩ => ?_, fun hok => absurd hok.1 hid⟩
    rw [hstep] at hr
    cases hr
  by_cases hmeta : c.connectionSpec.follower.IsMeta sfid
  · -- connecting a meta follower is always correct
    refine ⟨fun _ => ⟨hid, fun _ hnot => absurd hmeta hnot⟩, fun _ => ?_⟩
    by_cases hleft : c.connectionSpec.follower.Left
    · obtain ⟨hkeys, hmem, hnot⟩ := h.allocate hmeta hleft
      have hnew := h.nextId_not_mem hleft
      rw [StepCorrect, step, connectRaw_meta hmeta hleft]
      cases cb with
      | false => exact ⟨_, rfl, hkeys.deallocate hnew, fun hvalid => absurd rfl hvalid⟩
      | true =>
          refine ⟨_, rfl, hkeys.emplace hmem hnot, fun _ => ?_⟩
          exact getFollowerShmpath_of_getElem? (IdMap.getElem?_emplace_self hnew)
    · rw [StepCorrect, step, connectRaw_not_left hmeta hleft]
      exact ⟨_, rfl, h, fun hvalid => absurd rfl hvalid⟩
  · rw [StepCorrect, step, connectRaw_static hid hmeta]
    cases cb with
    | false =>
        refine ⟨fun _ => ⟨hid, fun hcb => by cases hcb⟩, fun _ => ?_⟩
        exact ⟨_, rfl, h, fun hvalid => absurd rfl hvalid⟩
    | true =>
        have hvalid := c.connectionSpec.follower.ne_zero_of_mem hid
        constructor
        · rintro ⟨r, hr, -, hpromise⟩
          obtain rfl := Option.some.inj hr
          refine ⟨hid, fun _ _ => ?_⟩
          rcases Option.eq_none_or_eq_some c.followerShmpaths[sfid]? with hnone | ⟨path, hpath⟩
          · exact Or.inl hnone
          · have hkept : (c.followerShmpaths.insertIfNew sfid shmpath)[sfid]? = some path := by
              rw [IdMap.getElem?_emplace_of_mem, hpath]
              rw [Std.ExtTreeMap.mem_iff_isSome_getElem?, hpath]
              rfl
            have hpromise := hpromise hvalid
            rw [getFollowerShmpath_of_getElem? hkept] at hpromise
            rw [hpath, hpromise]
            exact Or.inr rfl
        · rintro ⟨-, hok⟩
          refine ⟨_, rfl, h.emplace hid hmeta, fun _ => getFollowerShmpath_of_getElem? ?_⟩
          rcases hok rfl hmeta with hnone | hsame
          · exact IdMap.getElem?_emplace_self (IdMap.getElem?_eq_none_iff.1 hnone)
          · have hmem : sfid ∈ c.followerShmpaths := by
              rw [Std.ExtTreeMap.mem_iff_isSome_getElem?, hsame]
              rfl
            exact (IdMap.getElem?_emplace_of_mem hmem).trans hsame

/-- What disconnecting does when the callback succeeds. -/
theorem disconnect_true (h : sfid ∈ c.connectionSpec.follower.ids) :
    c.disconnect sfid true = (⟨(c.connectionSpec.deallocateSfidFromMeta sfid).1,
      c.followerShmpaths.erase sfid,
      if (c.connectionSpec.deallocateSfidFromMeta sfid).2 then
        c.notifications ++ [.pruned ("follower." ++ toString sfid)]
      else c.notifications⟩, true) := by
  rw [disconnect, if_neg (not_not.2 h), if_neg (by decide)]
  dsimp only
  split_ifs <;> rfl

/-- Disconnecting is always correct. -/
theorem stepCorrect_disconnect (h : KeysAllocated c) : StepCorrect x c (.disconnect sfid cb) := by
  by_cases hid : sfid ∈ c.connectionSpec.follower.ids
  · cases cb with
    | false =>
        rw [StepCorrect, step, disconnect, if_neg (not_not.2 hid), if_pos rfl]
        exact ⟨_, rfl, h, trivial⟩
    | true =>
        have hnot : sfid ∉ c.followerShmpaths.erase sfid := fun hmem =>
          (IdMap.mem_erase.1 hmem).1 rfl
        have herase : ∀ ns, KeysAllocated ⟨c.connectionSpec, c.followerShmpaths.erase sfid, ns⟩ :=
          fun ns id hmem => h id (IdMap.mem_erase.1 hmem).2
        rw [StepCorrect, step, disconnect_true hid]
        exact ⟨_, rfl, (herase _).deallocate hnot, hnot, fun id hne => IdMap.getElem?_erase_ne hne⟩
  · rw [StepCorrect, step, disconnect, if_pos hid]
    exact ⟨_, rfl, h, trivial⟩

/-- The calls about writers and types keep the identifiers of the followers. -/
theorem ids_allocateSwidFromMeta (spec : ConnectionSpec τ) (swid : ℕ) (shmSpec : ShmSpec) :
    (spec.allocateSwidFromMeta x swid shmSpec).1.follower.ids = spec.follower.ids := by
  rw [allocateSwidFromMeta]
  by_cases h : spec.writer.IsMeta swid ∧ spec.writer.Left
  · rw [dif_pos h]
  · rw [dif_neg h]

theorem ids_deallocateSwidFromMeta (spec : ConnectionSpec τ) (swid : ℕ) :
    (spec.deallocateSwidFromMeta swid).1.follower.ids = spec.follower.ids := by
  rw [deallocateSwidFromMeta]
  split_ifs <;> rfl

theorem ids_replaceFollowerCanDo (sfid : ℕ) (types : List τ) :
    (spec.replaceFollowerCanDo x sfid types).1.follower.ids = spec.follower.ids := by
  rw [ConnectionSpec.replaceFollowerCanDo]
  split_ifs <;> rfl

theorem ids_replaceWriterCanDo (swid : ℕ) (types : List τ) :
    (spec.replaceWriterCanDo x swid types).1.follower.ids = spec.follower.ids := by
  rw [ConnectionSpec.replaceWriterCanDo]
  split_ifs <;> rfl

/-- A call is correct exactly when it meets the condition. -/
theorem stepCorrect_iff (h : KeysAllocated c) (op : Op τ) :
    StepCorrect x c op ↔ ConnectOk c op := by
  cases op with
  | connectRaw sfid shmpath cb => exact stepCorrect_connectRaw_iff h
  | disconnect sfid cb => exact iff_of_true (stepCorrect_disconnect h) trivial
  | addWriterToMeta swid shmSpec =>
      have hids := ids_allocateSwidFromMeta (x := x) c.connectionSpec swid shmSpec
      refine iff_of_true ⟨_, rfl, ?_, trivial⟩ trivial
      rw [addWriterToMeta]
      by_cases hinvalid : (c.connectionSpec.allocateSwidFromMeta x swid shmSpec).2 = Ids.kInvalid
      · rw [if_pos hinvalid]
        exact h.of_spec rfl hids
      · rw [if_neg hinvalid]
        exact h.of_spec rfl hids
  | removeWriterFromMeta swid =>
      have hids := ids_deallocateSwidFromMeta c.connectionSpec swid
      refine iff_of_true ⟨_, rfl, ?_, trivial⟩ trivial
      rw [removeWriterFromMeta]
      cases (c.connectionSpec.deallocateSwidFromMeta swid).2
      · exact h.of_spec rfl hids
      · exact h.of_spec rfl hids
  | replaceFollowerCanDo sfid types =>
      exact iff_of_true ⟨_, rfl, h.of_spec rfl (ids_replaceFollowerCanDo sfid types), trivial⟩
        trivial
  | replaceWriterCanDo swid types =>
      exact iff_of_true ⟨_, rfl, h.of_spec rfl (ids_replaceWriterCanDo swid types), trivial⟩ trivial

/-- A run is correct exactly when all its calls meet the condition. -/
theorem stepCorrect_iff_connectOk (spec : ConnectionSpec τ) (ops : List (Op τ)) :
    Machine.Admits (step x) (StepCorrect x) (make spec) ops ↔
      Machine.Admits (step x) ConnectOk (make spec) ops := by
  refine Machine.admits_iff_admits (I := KeysAllocated) (fun c op h => stepCorrect_iff h op) ?_ ?_ ops
  · rintro c op r - ⟨r', hr', hkeys, -⟩ hr
    obtain rfl := Option.some.inj (hr'.symm.trans hr)
    exact hkeys
  · intro id hid
    simp [make] at hid

/-- A follower connected to a second path keeps the first one. -/
theorem not_stepCorrect_reconnect :
    ¬Machine.Admits (step plainText) (StepCorrect plainText) (make (labelsSpec ["video"] []))
      [.connectRaw 1 "/tmp/first" true, .connectRaw 1 "/tmp/second" true] := by
  rintro ⟨-, h⟩
  obtain ⟨⟨r, hr, -, hpromised⟩, -⟩ := h _ rfl
  obtain rfl := Option.some.inj hr
  exact absurd (hpromised (by decide +kernel)) (by decide +kernel)

end Claw
end LibSwitcher
