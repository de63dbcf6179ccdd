/-
# What loading a saved state gives back

A nickname is written as a path and read as a key, and the path of a reader that has no
writer is written under `raw_shm` and read one level above.  Loading the state of a
switcher makes its quiddities again exactly if the nicknames are read as one key each,
with no key for two of them, and each quiddity loads back (`LoadsBack`): its nickname is
this key, it has user data below the root only and no such reader, but for one whose path
is the text of a missing value; or, where the key is not the nickname, it is as a new
quiddity is besides its custom state.
-/

import LibSwitcher.Switcher.RestoredQuiddity

namespace LibSwitcher

open InfoTree

namespace Switcher

/-! ### The conditions -/

/-- What loading relies on: the trees of the quiddity are made by the functions of information
trees, its kind can be created, and every saved property of it can be set to its value. -/
structure Saveable (f : Factory) (q : Quiddity Body) : Prop where
  made : Made q
  kind : q.kind ∈ f.kinds
  property : ∀ prop ∈ savedProperties q, prop ∈ (f.make q.kind).properties ∧
    f.setStr q.kind prop (q.body.value prop).toString = some (q.body.value prop)

/-- The nickname is a key, and everything that is saved is read where it is written. -/
structure LoadsPlain (f : Factory) (q : Quiddity Body) : Prop where
  nickname : nickKeys q = [q.nickname]
  userData : q.body.userData.label = emptyNode
  readers : ∀ r ∈ savedReaders f q, r.2 = none → r.1 = "null" ∧ "connect" ∈ f.methods q.kind

/-- Nothing has to be restored but the kind, the nickname and the custom state. -/
structure AsNew (f : Factory) (q : Quiddity Body) : Prop where
  userData : q.body.userData = InfoTree.make
  value : ∀ prop ∈ savedProperties q, (f.make q.kind).value prop = q.body.value prop
  readers : savedReaders f q = []

/-- A quiddity that is loaded as it has been saved, where its nickname is read as one key. -/
def LoadsBack (f : Factory) (q : Quiddity Body) : Prop := LoadsPlain f q ∨ AsNew f q

/-- A switcher whose state can be loaded. -/
structure Loadable (f : Factory) (c : Container Body) : Prop where
  key : ∀ e ∈ c.quiddities.entries, ∃ k, nickKeys e.2 = [k]
  distinct : ∀ e ∈ c.quiddities.entries, ∀ e' ∈ c.quiddities.entries,
    nickKeys e.2 = nickKeys e'.2 → e.2.nickname = e'.2.nickname
  loadsBack : ∀ e ∈ c.quiddities.entries, LoadsBack f e.2

variable {f : Factory} {q : Quiddity Body} {k prop : String} {qs : List (Quiddity Body)}
  {c : Container Body} {quidditiesAtReset : List ℕ}

/-! ### One quiddity -/

/-- The values of the saved properties are those that have been saved. -/
theorem Saveable.valueIn_restoredTree (h : Saveable f q) (hprop : prop ∈ savedProperties q) :
    valueIn prop (restoredTree f q) = q.body.value prop := by
  have hstart : ∀ prop, (q.body.value prop).asBool = true →
      (q.body.value prop).toString = "true" := by
    intro prop htrue
    cases hvalue : q.body.value prop with
    | bool b =>
        rw [hvalue] at htrue
        exact if_pos htrue
    | _ =>
        rw [hvalue] at htrue
        cases htrue
  let starts := fun prop => prop = "started" ∧ (q.body.value prop).asBool = true
  have hsecond : ∀ t, ((savedProperties q).filter fun prop => starts prop).foldl
      (fun t _ => setTree f q.kind "started" "true" t) t =
        ((savedProperties q).filter fun prop => starts prop).foldl
          (fun t prop => setTree f q.kind prop (q.body.value prop).toString t) t := by
    refine fun t => List.foldl_ext _ _ _ fun t prop hmem => ?_
    obtain ⟨rfl, htrue⟩ : starts prop := by simpa using List.of_mem_filter hmem
    rw [hstart _ htrue]
  have hall : ∀ prop, prop ∈ ((savedProperties q).filter fun prop => ¬starts prop) ++
      ((savedProperties q).filter fun prop => starts prop) ↔ prop ∈ savedProperties q := by
    intro prop
    by_cases hstarts : starts prop <;> simp [hstarts]
  rw [restoredTree]
  dsimp only
  rw [hsecond, ← List.foldl_append, valueIn_foldl _ (fun prop hmem => ?_)
    (h.made.plain_savedProperties prop hprop), if_pos ((hall prop).2 hprop)]
  have hmem := (hall prop).1 hmem
  exact ⟨h.made.plain_savedProperties prop hmem, h.property prop hmem⟩

/-- The calls that are made are those that have been saved. -/
theorem loadedCalls_eq_iff : loadedCalls f q = savedCalls f q ↔
    ∀ r ∈ savedReaders f q, r.2 = none → r.1 = "null" ∧ "connect" ∈ f.methods q.kind := by
  have hsaved : savedCalls f q = (savedReaders f q).filterMap (fun r => r.2.map connectCall) ++
      (savedReaders f q).filterMap fun r => if r.2 = none then some (.connect r.1) else none := rfl
  rw [hsaved, loadedCalls, List.append_cancel_left_eq]
  generalize savedReaders f q = readers
  by_cases hmeth : "connect" ∈ f.methods q.kind
  · rw [if_pos hmeth]
    simp only [hmeth, and_true]
    induction readers with
    | nil => exact iff_of_true rfl fun r hr => by cases hr
    | cons r readers ih =>
        rw [List.forall_mem_cons]
        cases hwriter : r.2 with
        | none => simpa [hwriter, eq_comm] using and_congr_right fun _ => ih
        | some info => simpa [hwriter] using ih
  · rw [if_neg hmeth, eq_comm, List.filterMap_eq_nil_iff]
    refine forall₂_congr fun r _ => ?_
    rw [ite_eq_right_iff, iff_false_intro (Option.some_ne_none _), iff_false_intro hmeth,
      and_false]

/-- No calls are saved where no readers are. -/
theorem savedCalls_eq_nil_iff : savedCalls f q = [] ↔ savedReaders f q = [] := by
  rw [savedCalls, List.append_eq_nil_iff, List.filterMap_eq_nil_iff, List.filterMap_eq_nil_iff,
    List.eq_nil_iff_forall_not_mem]
  constructor
  · rintro ⟨hfrom, hraw⟩ r hr
    have hnone : r.2 = none := Option.map_eq_none_iff.1 (hfrom r hr)
    have hcall := hraw r hr
    rw [if_pos hnone] at hcall
    cases hcall
  · exact fun h => ⟨fun r hr => absurd hr (h r), fun r hr => absurd hr (h r)⟩

/-- The custom state is loaded, whatever the key is. -/
theorem OneKey.customState (h : OneKey qs) (hq : q ∈ qs) (hk : nickKeys q = [k]) {tree : InfoTree}
    (htree : q.body.customState = some tree) (hempty : tree.isEmpty = false) :
    loadedCustomState (stateOf f qs) k = tree := by
  refine h.loadedCustomState_eq hq hk ?_
  rw [savedCustomState, htree, Option.filter, hempty]
  rfl

/-- Readers are saved of quiddities that can be connected. -/
theorem connectQuid_mem_of_savedReaders {r : String × Option InfoTree}
    (hr : r ∈ savedReaders f q) : "connect-quid" ∈ f.methods q.kind := by
  rw [savedReaders] at hr
  split_ifs at hr with hmeth
  · exact hmeth
  · cases hr

/-- A quiddity is loaded as it has been saved. -/
theorem OneKey.restores_loaded_iff (h : OneKey qs) (hsave : ∀ q ∈ qs, Saveable f q) (hq : q ∈ qs)
    (hk : nickKeys q = [k]) : Restores f q (loaded f (stateOf f qs) k) ↔ LoadsBack f q := by
  have hmade : ∀ q ∈ qs, Made q := fun q hq => (hsave q hq).made
  by_cases hplain : q.nickname = k
  · subst hplain
    rw [h.loaded_of_plain hmade hq hk]
    have hdata : KeyTree.node emptyNode q.body.userData.children = q.body.userData ↔
        q.body.userData.label = emptyNode := by
      cases q.body.userData with
      | node d cs => simp [KeyTree.label, KeyTree.children, eq_comm]
    constructor
    · rintro ⟨-, -, -, huser, -, hcalls⟩
      exact Or.inl ⟨hk, hdata.1 huser, loadedCalls_eq_iff.1 hcalls⟩
    · intro hback
      have hparts : q.body.userData.label = emptyNode ∧ ∀ r ∈ savedReaders f q, r.2 = none →
          r.1 = "null" ∧ "connect" ∈ f.methods q.kind := by
        rcases hback with hload | hnew
        · exact ⟨hload.userData, hload.readers⟩
        · rw [hnew.userData, hnew.readers]
          exact ⟨rfl, fun r hr => by cases hr⟩
      exact {
        nickname := rfl
        kind := rfl
        customState := fun tree htree hempty =>
          congrArg (fun t => [t]) (h.customState hq hk htree hempty)
        userData := hdata.2 hparts.1
        value := fun prop hprop hsaves => (hsave q hq).valueIn_restoredTree
          (List.mem_filter.2 ⟨hprop, decide_eq_true hsaves⟩)
        calls := loadedCalls_eq_iff.2 hparts.2 }
  · have hloaded : loaded f (stateOf f qs) k =
        renamed f q (loadedCustomState (stateOf f qs) k) := by
      rw [h.loaded_eq hmade hq hk]
      exact performAt_of_ne (q := renamed f q _) hplain _
    rw [hloaded]
    constructor
    · rintro ⟨-, -, -, huser, hvalue, hcalls⟩
      refine Or.inr ⟨huser.symm, fun prop hprop => ?_, savedCalls_eq_nil_iff.1 hcalls.symm⟩
      obtain ⟨hmem, hsaves⟩ := List.mem_filter.1 hprop
      exact hvalue prop hmem (of_decide_eq_true hsaves)
    · rintro (hload | hnew)
      · exact absurd (List.cons.inj (hload.nickname.symm.trans hk)).1 hplain
      · exact {
          nickname := rfl
          kind := rfl
          customState := fun tree htree hempty =>
            congrArg (fun t => [t]) (h.customState hq hk htree hempty)
          userData := hnew.userData.symm
          value := fun prop hprop hsaves =>
            hnew.value prop (List.mem_filter.2 ⟨hprop, decide_eq_true hsaves⟩)
          calls := (savedCalls_eq_nil_iff.2 hnew.readers).symm }

/-! ### The keys of a saved state -/

/-- A key under which a kind is saved is one that a nickname starts with. -/
theorem exists_of_mem_quids
    (hk : k ∈ getChildKeys "." (getTree ".quiddities" (stateOf f qs))) :
    ∃ q ∈ qs, ∃ ks, nickKeys q = k :: ks := by
  rw [mem_getChildKeys_root, KeyTree.get_singleton] at hk
  obtain ⟨t, ht⟩ := Option.isSome_iff_exists.1 hk
  have hsec : components ".quiddities" = ["quiddities"] :=
    components_dot (k := "quiddities") (by decide)
  exact (child_section (fun q => .str q.kind) hsec (fun q => below_quiddities (p := []) rfl) ht).1

/-- The nicknames are read as the keys they are written at. -/
theorem namesFit_stateOf (hmade : ∀ q ∈ qs, Made q) : NamesFit (stateOf f qs) := by
  intro it hit
  have hkeyed := wellKeyed_getTree ".nicknames" (reachable_stateOf (f := f) hmade).wellKeyed
  have hplain := plain_of_mem_getChildKeys hkeyed hit
  rw [mem_getChildKeys_root, KeyTree.get_singleton] at hit
  obtain ⟨t, ht⟩ := Option.isSome_iff_exists.1 hit
  have hvalue : branchGetValue it (getTree ".nicknames" (stateOf f qs)) = InfoTree.data t := by
    rw [branchGetValue, branch_of_plain hplain, ht]
    rfl
  rw [hvalue]
  have hsec : components ".nicknames" = ["nicknames"] :=
    components_dot (k := "nicknames") (by decide)
  rcases (child_section (fun q => .str q.nickname) hsec (fun q => below_nicknames (p := []) rfl)
    ht).2 with hnull | ⟨q, -, hk, hdata⟩
  · rw [hnull]
    exact Or.inl rfl
  · rw [hdata]
    exact Or.inr hk

/-- There are no more keys than quiddities. -/
theorem length_quids_le (hmade : ∀ q ∈ qs, Made q) :
    (getChildKeys "." (getTree ".quiddities" (stateOf f qs))).length ≤ qs.length := by
  have hkeyed := wellKeyed_getTree ".quiddities" (reachable_stateOf (f := f) hmade).wellKeyed
  have hsub : getChildKeys "." (getTree ".quiddities" (stateOf f qs)) ⊆
      qs.map fun q => (nickKeys q).headD "" := by
    intro k hk
    obtain ⟨q, hq, ks, hks⟩ := exists_of_mem_quids hk
    exact List.mem_map.2 ⟨q, hq, by rw [hks]; rfl⟩
  exact ((nodup_getChildKeys hkeyed).subperm hsub).length_le.trans (List.length_map _).le

/-! ### All quiddities -/

/-- A quiddity is created with a key of a state. -/
def CreatedAt (f : Factory) (state : InfoTree) (k : String) : Prop :=
  k ∈ getChildKeys "." (getTree ".quiddities" state) ∧
    kindAt (getTree ".quiddities" state) k ∈ f.kinds

/-- Loading the state of a switcher makes the quiddities of its keys. -/
theorem exists_loadState (hsave : ∀ q ∈ qs, Saveable f q) (hle : qs.length ≤ Ids.kMaxNumOfIds) :
    ∃ c keys ι, Holds c keys (loaded f (stateOf f qs)) ι ∧
      (∀ k, k ∈ keys ↔ CreatedAt f (stateOf f qs) k) ∧
      (∀ c', loadState f (stateOf f qs) Container.empty = some c' → c' = c) ∧
      (ReadersAnswer f (stateOf f qs) → loadState f (stateOf f qs) Container.empty = some c) :=
  have hmade : ∀ q ∈ qs, Made q := fun q hq => (hsave q hq).made
  holds_loadState (reachable_stateOf hmade).wellKeyed (namesFit_stateOf hmade)
    ((length_quids_le hmade).trans hle)

/-- Where every quiddity is made again, their nicknames have one key each, and no two the
same. -/
theorem oneKey_of_restores (hsave : ∀ q ∈ qs, Saveable f q) (hle : qs.length ≤ Ids.kMaxNumOfIds)
    (hnodup : (qs.map Quiddity.nickname).Nodup)
    (h : ∀ q ∈ qs, ∃ k, CreatedAt f (stateOf f qs) k ∧ Restores f q (loaded f (stateOf f qs) k)) :
    OneKey qs ∧ ∀ q ∈ qs, ∃ k, nickKeys q = [k] ∧ Restores f q (loaded f (stateOf f qs) k) := by
  obtain ⟨c, keys, ι, hholds, hkeys, -⟩ := exists_loadState hsave hle
  have hempty : components "" = [] := by decide
  have hnames : ∀ q ∈ qs, ∃ k, CreatedAt f (stateOf f qs) k ∧ Named k q.nickname ∧
      Restores f q (loaded f (stateOf f qs) k) := by
    intro q hq
    obtain ⟨k, hk, hrestores⟩ := h q hq
    have hnamed := hholds.named k ((hkeys k).2 hk)
    exact ⟨k, hk, hrestores.nickname ▸ hnamed, hrestores⟩
  have hsingle : ∀ q ∈ qs, ∃ k, nickKeys q = [k] ∧ Restores f q (loaded f (stateOf f qs) k) := by
    intro q hq
    obtain ⟨k, hk, hnone | hkey, hrestores⟩ := hnames q hq
    · -- The key is that of a nickname, and its quiddity would have no other nickname.
      obtain ⟨q', hq', ks, hks⟩ := exists_of_mem_quids hk.1
      obtain ⟨k', -, hnone' | hkey', hrestores'⟩ := hnames q' hq'
      · rw [nickKeys, hnone', hempty] at hks
        cases hks
      · obtain ⟨rfl, -⟩ := List.cons.inj (hkey'.symm.trans hks)
        have hnick := hrestores'.nickname.symm.trans hrestores.nickname
        rw [hnick, hnone, hempty] at hkey'
        cases hkey'
    · exact ⟨k, hkey, hrestores⟩
  refine ⟨⟨fun q hq => ?_, ?_⟩, hsingle⟩
  · obtain ⟨k, hk, -⟩ := hsingle q hq
    exact ⟨k, hk⟩
  · refine hnodup.of_map.map_on fun q hq q' hq' heq => ?_
    obtain ⟨k, hk, hrestores⟩ := hsingle q hq
    obtain ⟨k', hk', hrestores'⟩ := hsingle q' hq'
    obtain ⟨rfl, -⟩ := List.cons.inj (hk.symm.trans (heq.trans hk'))
    exact List.inj_on_of_nodup_map hnodup hq hq'
      (hrestores.nickname.symm.trans hrestores'.nickname)

/-- The quiddities of the container can be saved. -/
theorem saveable_savedQuiddities (hc : c.Consistent)
    (hsave : ∀ e ∈ c.quiddities.entries, Saveable f e.2) :
    ∀ q ∈ savedQuiddities c, Saveable f q := by
  intro q hq
  obtain ⟨id, hid⟩ := (mem_savedQuiddities hc).1 hq
  exact hsave _ hid

/-- Where the state of a switcher is loaded as it has been saved, every quiddity is made again
with some key. -/
theorem restores_of_roundTrips (hc : c.Consistent)
    (hsave : ∀ e ∈ c.quiddities.entries, Saveable f e.2)
    (hreset : ∀ id ∈ quidditiesAtReset, id ∉ c.ids.ids) (h : RoundTrips f quidditiesAtReset c) :
    ∀ q ∈ savedQuiddities c, ∃ k, CreatedAt f (stateOf f (savedQuiddities c)) k ∧
      Restores f q (loaded f (stateOf f (savedQuiddities c)) k) := by
  obtain ⟨c', keys, ι, hholds, hkeys, hload, -⟩ :=
    exists_loadState (saveable_savedQuiddities hc hsave) (length_savedQuiddities_le c)
  have hstate := getState_eq (f := f) hc (fun e he => (hsave e he).made) hreset
  obtain ⟨state, hget, c'', hload', h⟩ := h
  obtain rfl := Option.some.inj (hstate.symm.trans hget)
  obtain rfl := hload c'' hload'
  intro q hq
  obtain ⟨id, hid⟩ := (mem_savedQuiddities hc).1 hq
  obtain ⟨⟨id', q'⟩, he', hrestores⟩ := h _ hid
  obtain ⟨k, hk, -, rfl⟩ := (hholds.mem_entries id').1 he'
  exact ⟨k, (hkeys k).1 hk, hrestores⟩

/-- The state of a switcher is loaded as it has been saved if every quiddity is made again
with some key, and has the methods that connect it. -/
theorem roundTrips_of_restores (hc : c.Consistent)
    (hsave : ∀ e ∈ c.quiddities.entries, Saveable f e.2)
    (hreset : ∀ id ∈ quidditiesAtReset, id ∉ c.ids.ids)
    (hanswer : ReadersAnswer f (stateOf f (savedQuiddities c)))
    (h : ∀ q ∈ savedQuiddities c, ∃ k, CreatedAt f (stateOf f (savedQuiddities c)) k ∧
      Restores f q (loaded f (stateOf f (savedQuiddities c)) k)) :
    RoundTrips f quidditiesAtReset c := by
  obtain ⟨c', keys, ι, hholds, hkeys, -, hload⟩ :=
    exists_loadState (saveable_savedQuiddities hc hsave) (length_savedQuiddities_le c)
  refine ⟨_, getState_eq (f := f) hc (fun e he => (hsave e he).made) hreset, c', hload hanswer, ?_⟩
  rintro ⟨id, q⟩ he
  obtain ⟨k, hk, hrestores⟩ := h q ((mem_savedQuiddities hc).2 ⟨id, he⟩)
  exact ⟨_, (hholds.mem_entries (ι k)).2 ⟨k, (hkeys k).2 hk, rfl, rfl⟩, hrestores⟩

/-- The methods that connect the saved readers of quiddities that load back are there. -/
theorem OneKey.readersAnswer (h : OneKey qs) (hback : ∀ q ∈ qs, LoadsBack f q) :
    ReadersAnswer f (stateOf f qs) := by
  intro r hr hkey
  obtain ⟨quid, -, hcall⟩ := List.mem_flatMap.1 hr
  have hquid : ∀ {meth : String} {call : Call}, r = (quid, meth, call) →
      ∃ q ∈ qs, nickKeys q = [quid] ∧
        kindAt (getTree ".quiddities" (stateOf f qs)) r.1 = q.kind := by
    rintro meth call rfl
    obtain ⟨q, hq, ks, hks⟩ := exists_of_mem_quids hkey
    obtain ⟨k, hk⟩ := h.single q hq
    obtain ⟨rfl, -⟩ := List.cons.inj (hk.symm.trans hks)
    exact ⟨q, hq, hk, h.kindAt_eq hq hk⟩
  rcases List.mem_append.1 hcall with hcall | hcall
  · obtain ⟨reader, hreader, rfl⟩ := List.mem_map.1 hcall
    obtain ⟨q, hq, hk, hkind⟩ := hquid rfl
    have hmem := List.mem_map_of_mem (f := fromQuidCall (getTree ".readers" (stateOf f qs)) quid)
      hreader
    rw [h.fromQuidCalls_eq hq hk] at hmem
    obtain ⟨saved, hsaved, -⟩ := List.mem_filterMap.1 hmem
    rw [hkind]
    exact connectQuid_mem_of_savedReaders hsaved
  · obtain ⟨reader, hreader, rfl⟩ := List.mem_map.1 hcall
    obtain ⟨q, hq, hk, hkind⟩ := hquid rfl
    have hmem := List.mem_map_of_mem (f := rawCall (getTree ".readers" (stateOf f qs)) quid) hreader
    rw [h.rawCalls_eq hq hk] at hmem
    obtain ⟨saved, hsaved, hnone⟩ := List.mem_filterMap.1 hmem
    have hraw : saved.2 = none := by
      by_contra hwriter
      rw [if_neg hwriter] at hnone
      cases hnone
    rw [hkind]
    rcases hback q hq with hplain | hnew
    · exact (hplain.readers saved hsaved hraw).2
    · rw [hnew.readers] at hsaved
      cases hsaved

/-- A state that is loaded as it has been saved is that of a loadable switcher. -/
theorem loadable_of_roundTrips (hc : c.Consistent)
    (hsave : ∀ e ∈ c.quiddities.entries, Saveable f e.2)
    (hreset : ∀ id ∈ quidditiesAtReset, id ∉ c.ids.ids) (h : RoundTrips f quidditiesAtReset c) :
    Loadable f c := by
  have hsave' := saveable_savedQuiddities hc hsave
  obtain ⟨hone, hall⟩ := oneKey_of_restores hsave' (length_savedQuiddities_le c)
    (nodup_nicknames hc) (restores_of_roundTrips hc hsave hreset h)
  have hmem : ∀ e ∈ c.quiddities.entries, e.2 ∈ savedQuiddities c := fun e he =>
    (mem_savedQuiddities hc).2 ⟨e.1, he⟩
  exact {
    key := fun e he => hone.single e.2 (hmem e he)
    distinct := fun e he e' he' heq =>
      congrArg Quiddity.nickname (hone.eq_of_nickKeys (hmem e he) (hmem e' he') heq)
    loadsBack := fun e he => by
      obtain ⟨k, hk, hrestores⟩ := hall e.2 (hmem e he)
      exact (hone.restores_loaded_iff hsave' (hmem e he) hk).1 hrestores }

/-- The state of a loadable switcher is loaded as it has been saved. -/
theorem roundTrips_of_loadable (hc : c.Consistent)
    (hsave : ∀ e ∈ c.quiddities.entries, Saveable f e.2)
    (hreset : ∀ id ∈ quidditiesAtReset, id ∉ c.ids.ids) (h : Loadable f c) :
    RoundTrips f quidditiesAtReset c := by
  have hsave' := saveable_savedQuiddities hc hsave
  have hnicks := nodup_nicknames hc
  have hone : OneKey (savedQuiddities c) := by
    constructor
    · intro q hq
      obtain ⟨id, hid⟩ := (mem_savedQuiddities hc).1 hq
      exact h.key _ hid
    · refine hnicks.of_map.map_on fun q hq q' hq' heq => ?_
      obtain ⟨id, hid⟩ := (mem_savedQuiddities hc).1 hq
      obtain ⟨id', hid'⟩ := (mem_savedQuiddities hc).1 hq'
      exact List.inj_on_of_nodup_map hnicks hq hq' (h.distinct _ hid _ hid' heq)
  have hback : ∀ q ∈ savedQuiddities c, LoadsBack f q := by
    intro q hq
    obtain ⟨id, hid⟩ := (mem_savedQuiddities hc).1 hq
    exact h.loadsBack _ hid
  refine roundTrips_of_restores hc hsave hreset (hone.readersAnswer hback) fun q hq => ?_
  obtain ⟨k, hk⟩ := hone.single q hq
  refine ⟨k, ⟨hone.mem_quids hq hk, ?_⟩, ?_⟩
  · rw [hone.kindAt_eq hq hk]
    exact (hsave' q hq).kind
  · exact (hone.restores_loaded_iff hsave' hq hk).2 (hback q hq)

/-- Loading the state of a switcher makes its quiddities again exactly if it is loadable. -/
theorem roundTrips_iff_loadable (hc : c.Consistent)
    (hsave : ∀ e ∈ c.quiddities.entries, Saveable f e.2)
    (hreset : ∀ id ∈ quidditiesAtReset, id ∉ c.ids.ids) :
    RoundTrips f quidditiesAtReset c ↔ Loadable f c :=
  ⟨loadable_of_roundTrips hc hsave hreset, roundTrips_of_loadable hc hsave hreset⟩

/-! ### Switchers of one quiddity -/

/-- A switcher of one quiddity. -/
def oneQuiddity (q : Quiddity Body) : Container Body where
  ids :=
    { ids := [1]
      curId := 1
      nodup := List.nodup_singleton 1
      valid := by decide
      length_le := by decide
      curId_le := by decide }
  quiddities := AList.singleton 1 q

theorem mem_oneQuiddity {e : Sigma fun _ : ℕ => Quiddity Body}
    (he : e ∈ (oneQuiddity q).quiddities.entries) : e = ⟨1, q⟩ := List.mem_singleton.1 he

theorem consistent_oneQuiddity (q : Quiddity Body) : (oneQuiddity q).Consistent :=
  Container.Tidy.consistent {
    mem_iff := fun id => (or_iff_left List.not_mem_nil).symm
    disjoint := fun id hid => by cases hid
    nickname_inj := fun e he e' he' _ => by rw [mem_oneQuiddity he, mem_oneQuiddity he'] }

/-- A property that can be written, in a tree. -/
def titled (title : String) : InfoTree :=
  vgraft "property.title.value" (.str title)
    (vgraft "property.title.writable" (.bool true) InfoTree.make)

/-- Quiddities of one kind, which have a title and can be connected. -/
def dummysinks : Factory where
  kinds := ["dummysink"]
  tree := fun _ => titled "dummysink"
  customState := fun _ => none
  propertiesBlacklist := fun _ => []
  methods := fun _ => ["connect", "connect-quid"]
  setStr := fun _ _ text => some (.str text)

theorem reachable_vgraft (path : String) (v : Any) {t : InfoTree} (ht : Reachable t) :
    Reachable (vgraft path v t) :=
  Reachable.graft path (.makeValue v) ht

theorem reachable_titled (title : String) : Reachable (titled title) :=
  reachable_vgraft _ _ (reachable_vgraft _ _ .make)

/-- A quiddity with a title, user data and a reader that has a writer. -/
def connected : Quiddity Body where
  nickname := "sink"
  kind := "dummysink"
  body :=
    { dummysinks.make "dummysink" with
      tree := vgraft "shmdata.reader./tmp/video.writer.name" (.str "cam") (titled "live")
      userData := vgraft "color" (.str "red") InfoTree.make }

/-- The title, the user data and the connection are there again. -/
theorem roundTrips_connected : RoundTrips dummysinks [] (oneQuiddity connected) := by
  have hsave : Saveable dummysinks connected := {
    made := {
      tree := reachable_vgraft "shmdata.reader./tmp/video.writer.name" (.str "cam")
        (reachable_titled "live")
      userData := reachable_vgraft "color" (.str "red") .make
      customState := fun tree htree => by cases htree }
    kind := by decide
    property := by decide +kernel }
  have hload : LoadsPlain dummysinks connected := {
    nickname := by decide +kernel
    userData := by decide +kernel
    readers := by decide +kernel }
  refine (roundTrips_iff_loadable (consistent_oneQuiddity connected) (fun e he => ?_)
    (fun id hid => by cases hid)).2 ⟨fun e he => ?_, fun e he e' he' _ => ?_, fun e he => ?_⟩
  · rw [mem_oneQuiddity he]
    exact hsave
  · rw [mem_oneQuiddity he]
    exact ⟨_, hload.nickname⟩
  · rw [mem_oneQuiddity he, mem_oneQuiddity he']
  · rw [mem_oneQuiddity he]
    exact Or.inl hload

/-- A quiddity whose nickname is read as two keys. -/
def dotted : Quiddity Body := ⟨"studio.cam", "dummysink", dummysinks.make "dummysink"⟩

/-- A quiddity with a reader that has no writer. -/
def rawReader : Quiddity Body where
  nickname := "sink"
  kind := "dummysink"
  body := { dummysinks.make "dummysink" with
    tree := vgraft "shmdata.reader./tmp/video.uri" (.str "/tmp/video") (titled "dummysink") }

/-- A quiddity whose nickname has a dot is not made again, and the path of a reader that has
no writer is lost. -/
theorem not_roundTrips_dotted_rawReader :
    (∀ e ∈ (oneQuiddity dotted).quiddities.entries, Saveable dummysinks e.2) ∧
      ¬RoundTrips dummysinks [] (oneQuiddity dotted) ∧
      (∀ e ∈ (oneQuiddity rawReader).quiddities.entries, Saveable dummysinks e.2) ∧
      ¬RoundTrips dummysinks [] (oneQuiddity rawReader) := by
  have hdotted : ∀ e ∈ (oneQuiddity dotted).quiddities.entries, Saveable dummysinks e.2 := by
    intro e he
    rw [mem_oneQuiddity he]
    exact {
      made := {
        tree := reachable_titled "dummysink"
        userData := .make
        customState := fun tree htree => by cases htree }
      kind := by decide
      property := by decide +kernel }
  have hraw : ∀ e ∈ (oneQuiddity rawReader).quiddities.entries, Saveable dummysinks e.2 := by
    intro e he
    rw [mem_oneQuiddity he]
    exact {
      made := {
        tree := reachable_vgraft "shmdata.reader./tmp/video.uri" (.str "/tmp/video")
          (reachable_titled "dummysink")
        userData := .make
        customState := fun tree htree => by cases htree }
      kind := by decide
      property := by decide +kernel }
  refine ⟨hdotted, fun h => ?_, hraw, fun h => ?_⟩
  · have hload := loadable_of_roundTrips (consistent_oneQuiddity dotted) hdotted
      (fun id hid => by cases hid) h
    obtain ⟨k, hk⟩ := hload.key _ (List.mem_singleton_self _)
    have hkeys : nickKeys dotted = ["studio", "cam"] := by decide +kernel
    rw [hkeys] at hk
    cases hk
  · have hload := loadable_of_roundTrips (consistent_oneQuiddity rawReader) hraw
      (fun id hid => by cases hid) h
    have hreader : ∃ r ∈ savedReaders dummysinks rawReader, r.1 = "/tmp/video" ∧ r.2 = none := by
      decide +kernel
    obtain ⟨r, hr, hpath, hnone⟩ := hreader
    rcases hload.loadsBack _ (List.mem_singleton_self _) with hplain | hnew
    · have hnull := (hplain.readers r hr hnone).1
      rw [hpath] at hnull
      exact absurd hnull (by decide)
    · rw [hnew.readers] at hr
      cases hr

end Switcher
end LibSwitcher
