/-
# The wiring over the events of the writers

What a loop over the sinks does is said by what it does to the claw of each sink
(`connectSinks_spec`, `disconnectSinks_spec`).  From this, a writer event that meets its condition
leaves the wiring as it should be (`follows_step`), and so does every event of a run in which
all of them do (`follows_of_fits`).
-/

import LibSwitcher.Quiddity.Bundle.Wiring
import LibSwitcher.Quiddity.Claw.ClawCompleteness

namespace LibSwitcher
namespace Bundle
namespace Wiring

open Claw

variable {τ : Type} {x : Externals τ} {caps : Caps x} {s s' s'' : Wiring τ}
variable {src it shmpath path : String} {shmtype : τ} {cb : ℕ → Bool} {l : List String}

/-- The claws are steady, and a sink for which a connection is recorded has a follower. -/
structure Sound (s : Wiring τ) : Prop where
  steady : ∀ it, (s.claws it).Steady
  recorded : ∀ c ∈ s.connectedShms, 1 ∈ (s.claws c.1).connectionSpec.follower.ids

theorem canDo_iff (h : s.Sound) : s.CanDo caps it shmtype ↔
    1 ∈ (s.claws it).connectionSpec.follower.ids ∧
      sfidCanDoShmtype caps (s.claws it) 1 shmtype = true := by
  constructor
  · rintro ⟨sfid, hsfid, hdo⟩
    obtain ⟨rfl, hmem⟩ := (head?_getSfids_eq_some_iff (h.steady it)).1 hsfid
    exact ⟨hmem, hdo⟩
  · rintro ⟨hmem, hdo⟩
    exact ⟨1, head?_getSfids hmem, hdo⟩

/-! ### Connecting -/

/-- Some first followers have been connected to a path. -/
structure Connects (shmpath : String) (s s' : Wiring τ) : Prop where
  sound : s'.Sound
  joins : ∀ it, Joins shmpath (s.claws it) (s'.claws it)
  connectsTo : s'.connectsTo = s.connectsTo
  connectedTo : s'.connectedTo = s.connectedTo
  writers : s'.writers = s.writers

theorem Connects.refl (h : s.Sound) (shmpath : String) : Connects shmpath s s :=
  ⟨h, fun _ => .refl _ _, rfl, rfl, rfl⟩

theorem Connects.trans (h : Connects shmpath s s') (h' : Connects shmpath s' s'') :
    Connects shmpath s s'' :=
  ⟨h'.sound, fun it => (h.joins it).trans (h'.joins it), h'.connectsTo.trans h.connectsTo,
    h'.connectedTo.trans h.connectedTo, h'.writers.trans h.writers⟩

variable (caps) in
/-- What a sink can do stays so. -/
theorem Connects.canDo_iff (h : Connects shmpath s s') (hs : s.Sound) (it : String) (shmtype : τ) :
    s'.CanDo caps it shmtype ↔ s.CanDo caps it shmtype := by
  rw [Wiring.canDo_iff hs, Wiring.canDo_iff h.sound, (h.joins it).mem, sfidCanDoShmtype,
    sfidCanDoShmtype, (h.joins it).types]

theorem Connects.held (h : Connects shmpath s s') (hheld : s.Held it path) : s'.Held it path := by
  obtain ⟨sfid, hsfid⟩ := hheld
  exact ⟨sfid, (h.joins it).kept sfid path hsfid⟩

theorem Connects.served (h : Connects shmpath s s') (hserved : s.Served src it) :
    s'.Served src it := by
  obtain ⟨path, hlive, hheld⟩ := hserved
  exact ⟨path, h.writers ▸ hlive, h.held hheld⟩

/-- One turn of the loop: a sink that can do the type has its first follower connected, or not. -/
theorem connectSink_spec (h : s.Sound) (shmpath : String) (shmtype : τ) (cb : Bool) (it : String) :
    ∃ s', s.connectSink caps shmpath shmtype cb it = some s' ∧ Connects shmpath s s' ∧
      (∀ it' ≠ it, s'.claws it' = s.claws it') ∧
      (s.CanDo caps it shmtype → Tries shmpath cb (s.claws it) (s'.claws it)) ∧
      (¬s.CanDo caps it shmtype → s'.claws it = s.claws it) := by
  rw [canDo_iff h]
  unfold connectSink
  cases hsfids : (s.claws it).getSfids with
  | nil =>
      have hnot : 1 ∉ (s.claws it).connectionSpec.follower.ids := fun hmem => by
        have hhead := head?_getSfids hmem
        rw [hsfids] at hhead
        cases hhead
      exact ⟨s, rfl, .refl h _, fun _ _ => rfl, fun hdo => absurd hdo.1 hnot, fun _ => rfl⟩
  | cons sfid rest =>
      have hhead : (s.claws it).getSfids.head? = some sfid := by rw [hsfids]; rfl
      obtain ⟨rfl, hmem⟩ := (head?_getSfids_eq_some_iff (h.steady it)).1 hhead
      dsimp only
      split_ifs with hdo
      · refine ⟨s, rfl, .refl h _, fun _ _ => rfl, fun hdo' => ?_, fun _ => rfl⟩
        exact Bool.noConfusion (hdo.symm.trans hdo'.2)
      · obtain ⟨r, hr, htries⟩ := tries_connectRaw (h.steady it) hmem shmpath cb
        rw [hr]
        have hother : ∀ it' ≠ it, (s.setClaw it r.1).claws it' = s.claws it' := fun it' hne =>
          Function.update_of_ne hne _ _
        have hself : (s.setClaw it r.1).claws it = r.1 := Function.update_self _ _ _
        have hjoins : ∀ it', Joins shmpath (s.claws it') ((s.setClaw it r.1).claws it') :=
          (Function.forall_update_iff s.claws fun it' c => Joins shmpath (s.claws it') c).2
            ⟨htries.joins, fun _ _ => .refl _ _⟩
        have hsteady : ∀ it', ((s.setClaw it r.1).claws it').Steady :=
          (Function.forall_update_iff s.claws fun _ c => Steady c).2
            ⟨htries.steady, fun it' _ => h.steady it'⟩
        refine ⟨_, rfl, ⟨⟨hsteady, fun c hc => ?_⟩, hjoins, rfl, rfl, rfl⟩, hother,
          fun _ => hself.symm ▸ htries, fun hnot => absurd ⟨hmem, by simpa using hdo⟩ hnot⟩
        refine (hjoins c.1).mem.2 ?_
        rcases List.mem_append.1 hc with hc | hc
        · exact h.recorded c hc
        · rw [List.mem_singleton.1 hc]
          exact hmem

variable (caps) in
/-- The loop connects each sink that can do the type, if a callback succeeds and its first follower
can be connected, and no sink twice if a meta follower is asked for once. -/
theorem connectSinks_spec (h : s.Sound) (shmpath : String) (shmtype : τ) (l : List String)
    (cb : ℕ → Bool) :
    ∃ s', connectSinks caps shmpath shmtype l cb s = some s' ∧ Connects shmpath s s' ∧
      (∀ i it, l[i]? = some it → cb i = true → s.CanDo caps it shmtype → (s.claws it).Open →
        (s.IsMeta it → l.count it ≤ 1) → s'.Held it shmpath) ∧
      ((∀ it, (s.claws it).Once) →
        (∀ it ∈ l, s.CanDo caps it shmtype → s.IsMeta it → l.count it ≤ 1 ∧
          ∀ i, l[i]? = some it → cb i = true → ¬s.Held it shmpath) →
        ∀ it, (s'.claws it).Once) := by
  induction l generalizing s cb with
  | nil =>
      exact ⟨s, rfl, .refl h _, fun i it hi => (by cases hi), fun honce _ => honce⟩
  | cons it rest ih =>
      obtain ⟨s₁, hs₁, hconnects, hother, hdo, hnot⟩ := connectSink_spec h shmpath shmtype (cb 0) it
      obtain ⟨s', hs', hconnects', hheld, honce⟩ := ih hconnects.sound fun n => cb (n + 1)
      have hcan := fun it' => hconnects.canDo_iff caps h it' shmtype
      have hmeta : ∀ it', s₁.IsMeta it' ↔ s.IsMeta it' := fun it' => (hconnects.joins it').isMeta
      have hrun : connectSinks caps shmpath shmtype (it :: rest) cb s = some s' := by
        rw [connectSinks, hs₁, Option.bind_some, hs']
      refine ⟨s', hrun, hconnects.trans hconnects', ?_, ?_⟩
      · intro i it' hi hcb hdo' hopen hcount
        cases i with
        | zero =>
            obtain rfl := Option.some.inj hi
            exact hconnects'.held ((hdo hdo').succeeds hcb hopen)
        | succ i =>
            have hmem : it' ∈ rest := List.mem_of_getElem? hi
            have hsame : s₁.claws it' = s.claws it' → s'.Held it' shmpath := by
              intro hsame
              refine hheld i it' hi hcb ((hcan it').2 hdo') (hsame ▸ hopen) fun hm => ?_
              exact (List.count_le_count_cons).trans (hcount ((hmeta it').1 hm))
            by_cases heq : it' = it
            · subst heq
              have hnotMeta : ¬s.IsMeta it' := fun hm => by
                have hle := hcount hm
                rw [List.count_cons_self] at hle
                exact absurd hmem (List.count_eq_zero.1 (by omega))
              cases hzero : cb 0 with
              | true => exact hconnects'.held ((hdo hdo').succeeds hzero hopen)
              | false => exact hsame ((hdo hdo').fails hnotMeta hzero)
            · exact hsame (hother it' heq)
      · intro honce' hsingle
        refine honce (fun it' => ?_) fun it' hit' hdo' hm => ?_
        · by_cases heq : it' = it
          · subst heq
            by_cases hdo' : s.CanDo caps it' shmtype
            · refine (hdo hdo').once (honce' it') fun hm hcb id hid => ?_
              exact (hsingle it' List.mem_cons_self hdo' hm).2 0 rfl hcb ⟨id, hid⟩
            · rw [hnot hdo']
              exact honce' it'
          · rw [hother it' heq]
            exact honce' it'
        · obtain ⟨hcount, hnotHeld⟩ := hsingle it' (List.mem_cons_of_mem _ hit') ((hcan it').1 hdo')
            ((hmeta it').1 hm)
          have hne : it' ≠ it := by
            rintro rfl
            rw [List.count_cons_self] at hcount
            exact absurd hit' (List.count_eq_zero.1 (by omega))
          refine ⟨List.count_le_count_cons.trans hcount, fun i hi hcb => ?_⟩
          rw [Held, hother it' hne]
          exact hnotHeld (i + 1) hi hcb

/-! ### Disconnecting -/

/-- The first followers of some sinks have been disconnected. -/
def Frees (released : String → Prop) (s s' : Wiring τ) : Prop :=
  ∀ it, (s'.claws it).connectionSpec = (s.claws it).connectionSpec ∧
    ∀ (sfid : ℕ) path, (s'.claws it).followerShmpaths[sfid]? = some path ↔
      (s.claws it).followerShmpaths[sfid]? = some path ∧ ¬(released it ∧ sfid = 1)

/-- One turn of the loop: the connection of the first follower goes if the callback succeeds. -/
theorem disconnectSink_spec (h : s.Sound) (cb : Bool)
    (hmem : 1 ∈ (s.claws it).connectionSpec.follower.ids) :
    ∃ s', s.disconnectSink cb it = some s' ∧ s'.Sound ∧
      (s'.connectsTo = s.connectsTo ∧ s'.connectedTo = s.connectedTo ∧ s'.writers = s.writers) ∧
      Frees (fun it' => it' = it ∧ cb = true) s s' := by
  obtain ⟨hspec, hpaths⟩ := disconnect_first (h.steady it) hmem cb
  have hfrees : Frees (fun it' => it' = it ∧ cb = true) s
      (s.setClaw it ((s.claws it).disconnect 1 cb).1) := by
    refine (Function.forall_update_iff s.claws fun it' (c : Claw τ) =>
      c.connectionSpec = (s.claws it').connectionSpec ∧
        ∀ (sfid : ℕ) path, c.followerShmpaths[sfid]? = some path ↔
          (s.claws it').followerShmpaths[sfid]? = some path ∧
            ¬((it' = it ∧ cb = true) ∧ sfid = 1)).2
      ⟨⟨hspec, fun sfid path => ?_⟩, fun it' hne => ⟨rfl, fun sfid path => ?_⟩⟩
    · rw [hpaths]
      split_ifs with hcb
      · exact iff_of_false (fun hnone => by cases hnone) fun hboth => hboth.2 ⟨⟨rfl, hcb.1⟩, hcb.2⟩
      · exact (and_iff_left fun hboth => hcb ⟨hboth.1.2, hboth.2⟩).symm
    · exact (and_iff_left fun hboth => hne hboth.1.1).symm
  refine ⟨s.setClaw it ((s.claws it).disconnect 1 cb).1, ?_, ⟨fun it' => ?_, fun c hc => ?_⟩,
    ⟨rfl, rfl, rfl⟩, hfrees⟩
  · unfold disconnectSink
    have hhead := head?_getSfids hmem
    cases hsfids : (s.claws it).getSfids with
    | nil =>
        rw [hsfids] at hhead
        cases hhead
    | cons sfid rest =>
        rw [hsfids] at hhead
        obtain rfl := Option.some.inj hhead
        rfl
  · obtain ⟨hspec', hpaths'⟩ := hfrees it'
    refine (h.steady it').of_subset hspec' fun id hid => ?_
    rw [Std.ExtTreeMap.mem_iff_isSome_getElem?, Option.isSome_iff_exists] at hid ⊢
    obtain ⟨path, hpath⟩ := hid
    exact ⟨path, ((hpaths' id path).1 hpath).1⟩
  · rw [(hfrees c.1).1]
    exact h.recorded c hc

/-- The loop takes the connection of the first follower of each sink for which a callback
succeeds. -/
theorem disconnectSinks_spec (h : s.Sound) (l : List String) (cb : ℕ → Bool)
    (hl : ∀ it ∈ l, 1 ∈ (s.claws it).connectionSpec.follower.ids) :
    ∃ s', disconnectSinks l cb s = some s' ∧ s'.Sound ∧
      (s'.connectsTo = s.connectsTo ∧ s'.connectedTo = s.connectedTo ∧ s'.writers = s.writers) ∧
      Frees (fun it => ∃ i, l[i]? = some it ∧ cb i = true) s s' := by
  induction l generalizing s cb with
  | nil =>
      refine ⟨s, rfl, h, ⟨rfl, rfl, rfl⟩, fun it => ⟨rfl, fun sfid path => ?_⟩⟩
      exact (and_iff_left fun hboth => by obtain ⟨⟨i, hi, -⟩, -⟩ := hboth; cases hi).symm
  | cons it rest ih =>
      obtain ⟨s₁, hs₁, hsound, ⟨hto, hfrom, hwriters⟩, hfrees⟩ :=
        disconnectSink_spec h (cb 0) (hl it List.mem_cons_self)
      obtain ⟨s', hs', hsound', ⟨hto', hfrom', hwriters'⟩, hfrees'⟩ :=
        ih hsound (fun n => cb (n + 1)) fun it' hit' => by
          rw [(hfrees it').1]
          exact hl it' (List.mem_cons_of_mem _ hit')
      refine ⟨s', by rw [disconnectSinks, hs₁, Option.bind_some, hs'], hsound',
        ⟨hto'.trans hto, hfrom'.trans hfrom, hwriters'.trans hwriters⟩, fun it' => ?_⟩
      refine ⟨(hfrees' it').1.trans (hfrees it').1, fun sfid path => ?_⟩
      rw [(hfrees' it').2, (hfrees it').2, and_assoc, ← not_or, ← or_and_right]
      refine and_congr_right fun _ => not_congr (and_congr_left fun _ => ?_)
      constructor
      · rintro (⟨rfl, hcb⟩ | ⟨i, hi, hcb⟩)
        · exact ⟨0, rfl, hcb⟩
        · exact ⟨i + 1, hi, hcb⟩
      · rintro ⟨i, hi, hcb⟩
        cases i with
        | zero => exact .inl ⟨(Option.some.inj hi).symm, hcb⟩
        | succ i => exact .inr ⟨i, hi, hcb⟩

/-! ### The events -/

variable {sinks : String → List String}

/-- What holds in the states of a run that is as it should be: a quiddity has all its sinks to
connect, or all of them connected. -/
structure Inv (caps : Caps x) (sinks : String → List String) (s : Wiring τ) : Prop where
  sound : s.Sound
  targets : ∀ src, (s.connectsTo src = sinks src ∧ s.connectedTo src = []) ∨
    (s.connectsTo src = [] ∧ s.connectedTo src = sinks src)
  wired : s.Wired caps sinks

theorem inv_make (tree : String → InfoTree) :
    Inv caps sinks (make sinks fun name => ConnectionSpec.ofTree x (tree name)) where
  sound := ⟨fun it => steady_make (tree it), fun c hc => absurd hc List.not_mem_nil⟩
  targets _ := .inl ⟨rfl, rfl⟩
  wired := by
    refine ⟨fun src it hit path shmtype hlive => (by cases hlive), fun it path id id' hid => ?_⟩
    have hnone : (∅ : IdMap String)[id]? = none := Std.ExtTreeMap.getElem?_empty
    cases hnone.symm.trans hid

/-- The exchange keeps the sinks of a quiddity together. -/
theorem targets_swap {sinks : String → List String}
    (h : ∀ src, (s.connectsTo src = sinks src ∧ s.connectedTo src = []) ∨
      (s.connectsTo src = [] ∧ s.connectedTo src = sinks src)) (src src' : String) :
    ((s.swapSinks src).connectsTo src' = sinks src' ∧ (s.swapSinks src).connectedTo src' = []) ∨
      ((s.swapSinks src).connectsTo src' = [] ∧ (s.swapSinks src).connectedTo src' = sinks src') := by
  change (Function.update s.connectsTo src (s.connectedTo src) src' = _ ∧
    Function.update s.connectedTo src (s.connectsTo src) src' = _) ∨
    (Function.update s.connectsTo src (s.connectedTo src) src' = _ ∧
      Function.update s.connectedTo src (s.connectsTo src) src' = _)
  rw [Function.update_apply, Function.update_apply]
  split_ifs with heq
  · rw [heq]
    exact (h src).symm.imp And.symm And.symm
  · exact h src'

/-- The caps of the writers after one has changed. -/
theorem writers_setWriter (s : Wiring τ) (src shmpath : String) (t : Option τ) (src' path : String) :
    (s.setWriter src shmpath t).writers src' path =
      if src' = src ∧ path = shmpath then t else s.writers src' path := by
  change Function.update s.writers src (Function.update (s.writers src) shmpath t) src' path = _
  rw [Function.update_apply]
  by_cases hsrc : src' = src
  · rw [if_pos hsrc, Function.update_apply]
    simp only [hsrc, true_and]
  · rw [if_neg hsrc, if_neg fun h => hsrc h.1]

/-- A key below a writer is grafted, in a state in which all sinks are served but for this writer. -/
theorem inv_onTreeGrafted (hsound : s.Sound)
    (htargets : ∀ src, (s.connectsTo src = sinks src ∧ s.connectedTo src = []) ∨
      (s.connectsTo src = [] ∧ s.connectedTo src = sinks src))
    (honce : ∀ it, (s.claws it).Once)
    (hserved : ∀ src', ∀ it ∈ sinks src', ∀ path shmtype, s.writers src' path = some shmtype →
      ¬(src' = src ∧ path = shmpath) → s.CanDo caps it shmtype → s.Served src' it)
    (hfit : ∀ shmtype, s.writers src shmpath = some shmtype →
      s.FitsGraft caps src shmpath shmtype cb) :
    ∃ s', s.onTreeGrafted caps src shmpath cb = some s' ∧ Inv caps sinks s' := by
  have hstays : (∀ it ∈ sinks src, ∀ shmtype, s.writers src shmpath = some shmtype →
      s.CanDo caps it shmtype → s.Served src it) → Inv caps sinks s := by
    refine fun h => ⟨hsound, htargets, fun src' it hit path shmtype hlive hdo => ?_, honce⟩
    by_cases hsame : src' = src ∧ path = shmpath
    · obtain ⟨rfl, rfl⟩ := hsame
      exact h it hit shmtype hlive hdo
    · exact hserved src' it hit path shmtype hlive hsame hdo
  unfold onTreeGrafted
  split_ifs with hnil
  · refine ⟨s, rfl, hstays fun it hit shmtype hlive hdo => ?_⟩
    refine (hfit shmtype hlive).counted hnil it ?_ hdo
    rcases htargets src with ⟨hto, -⟩ | ⟨-, hfrom⟩
    · rw [← hto, hnil] at hit
      exact absurd hit List.not_mem_nil
    · rwa [hfrom]
  · cases hwriter : s.writers src shmpath with
    | none => exact ⟨s, rfl, hstays fun it _ shmtype hlive => by cases hwriter.symm.trans hlive⟩
    | some shmtype =>
        have hto : s.connectsTo src = sinks src := ((htargets src).resolve_right fun h => hnil h.1).1
        obtain ⟨hcounted, hconnects, hsingle⟩ := hfit shmtype hwriter
        obtain ⟨s', hs', hjoined, hheld, honce'⟩ :=
          connectSinks_spec caps hsound shmpath shmtype (s.connectsTo src) cb
        dsimp only
        rw [hs']
        have htargets' : ∀ src, (s'.connectsTo src = sinks src ∧ s'.connectedTo src = []) ∨
            (s'.connectsTo src = [] ∧ s'.connectedTo src = sinks src) := by
          rw [hjoined.connectsTo, hjoined.connectedTo]
          exact htargets
        refine ⟨_, rfl, ⟨hjoined.sound.steady, hjoined.sound.recorded⟩, targets_swap htargets' src,
          fun src' it hit path shmtype' hlive hdo => ?_, honce' honce hsingle⟩
        have hlive' : s.writers src' path = some shmtype' := hjoined.writers ▸ hlive
        have hdo' : s.CanDo caps it shmtype' := (hjoined.canDo_iff caps hsound it shmtype').1 hdo
        by_cases hsame : src' = src ∧ path = shmpath
        · obtain ⟨rfl, rfl⟩ := hsame
          obtain rfl := Option.some.inj (hwriter.symm.trans hlive')
          rw [← hto] at hit
          rcases hconnects it hit hdo' with hserved' | ⟨i, hi, hcb, hopen⟩
          · exact hjoined.served hserved'
          · refine ⟨path, hlive.symm ▸ (Option.some_ne_none _), ?_⟩
            exact hheld i it hi hcb hdo' hopen fun hm => (hsingle it hit hdo' hm).1
        · exact hjoined.served (hserved src' it hit path shmtype' hlive' hsame hdo')

/-- A writer goes. -/
theorem inv_onTreePruned (h : Inv caps sinks s) (hfit : s.FitsPrune caps sinks src shmpath cb) :
    ∃ s', (s.setWriter src shmpath none).onTreePruned src shmpath cb = some s' ∧
      Inv caps sinks s' ∧ s.Disconnects shmpath s' := by
  obtain ⟨hrecorded, hreleased, hothers⟩ := hfit
  obtain ⟨s', hs', hsound, ⟨hto, hfrom, hwriters⟩, hfrees⟩ := disconnectSinks_spec
    (s := swapSinks { s.setWriter src shmpath none with
      connectedShms := s.connectedShms.filter fun c => c.2 ≠ shmpath } src)
    ⟨h.sound.steady, fun c hc => h.sound.recorded c (List.mem_of_mem_filter hc)⟩
    (s.toDisconnect shmpath) cb fun it hit => by
      obtain ⟨c, hc, rfl⟩ := List.mem_map.1 hit
      exact h.sound.recorded c (List.mem_of_mem_filter hc)
  have hdisconnects : s.Disconnects shmpath s' := by
    refine fun it sfid path => ((hfrees it).2 sfid path).trans (and_congr_right fun hpath => ?_)
    constructor
    · rintro hnot rfl
      exact hnot (hrecorded it sfid hpath)
    · rintro hne ⟨hrel, rfl⟩
      exact hne (hreleased it hrel path hpath)
  have htargets' : ∀ src, (s'.connectsTo src = sinks src ∧ s'.connectedTo src = []) ∨
      (s'.connectsTo src = [] ∧ s'.connectedTo src = sinks src) := by
    rw [hto, hfrom]
    exact targets_swap h.targets src
  refine ⟨s', hs', ⟨hsound, htargets', fun src' it hit path shmtype hlive hdo => ?_, ?_⟩,
    hdisconnects⟩
  · have hdo' : s.CanDo caps it shmtype := by
      obtain ⟨sfid, hsfid, hdo⟩ := hdo
      refine ⟨sfid, ?_, ?_⟩
      · rw [getSfids, (hfrees it).1] at hsfid
        exact hsfid
      · rw [sfidCanDoShmtype, (hfrees it).1] at hdo
        exact hdo
    rw [hwriters] at hlive
    obtain ⟨path', hlive', hne, sfid, hheld⟩ := hothers src' it hit path shmtype hlive hdo'
    refine ⟨path', ?_, sfid, (hdisconnects it sfid path').2 ⟨hheld, hne⟩⟩
    rw [hwriters]
    exact hlive'
  · intro it path id id' hid hid'
    exact h.wired.once it path id id' ((hdisconnects it id path).1 hid).1
      ((hdisconnects it id' path).1 hid').1

/-- A writer event that meets its condition leaves the wiring as it should be. -/
theorem follows_step (h : Inv caps sinks s) (e : WriterEvent τ) (hfit : Fits caps sinks s e) :
    ∃ r, step caps s e = some r ∧ Follows caps sinks s e r ∧ Inv caps sinks r.1 := by
  cases e with
  | graft src shmpath shmtype cb =>
      have hlive : ∀ {src' path} , s.writers src' path ≠ none →
          (s.setWriter src shmpath (some shmtype)).writers src' path ≠ none := by
        intro src' path hne
        rw [writers_setWriter]
        split_ifs
        · exact Option.some_ne_none _
        · exact hne
      have hserved : ∀ src', ∀ it ∈ sinks src', ∀ path shmtype',
          (s.setWriter src shmpath (some shmtype)).writers src' path = some shmtype' →
          ¬(src' = src ∧ path = shmpath) → s.CanDo caps it shmtype' →
          (s.setWriter src shmpath (some shmtype)).Served src' it := by
        intro src' it hit path shmtype' hpath hne hdo
        rw [writers_setWriter, if_neg hne] at hpath
        obtain ⟨path', hpath', hheld⟩ := h.wired.served src' it hit path shmtype' hpath hdo
        exact ⟨path', hlive hpath', hheld⟩
      have hfit' : ∀ shmtype',
          (s.setWriter src shmpath (some shmtype)).writers src shmpath = some shmtype' →
          (s.setWriter src shmpath (some shmtype)).FitsGraft caps src shmpath shmtype' cb := by
        intro shmtype' hshmtype'
        rw [writers_setWriter, if_pos ⟨rfl, rfl⟩] at hshmtype'
        obtain rfl := Option.some.inj hshmtype'
        exact hfit
      obtain ⟨s', hs', hinv⟩ := inv_onTreeGrafted (s := s.setWriter src shmpath (some shmtype))
        ⟨h.sound.steady, h.sound.recorded⟩ h.targets h.wired.once hserved hfit'
      rw [step, hs']
      exact ⟨_, rfl, hinv.wired, hinv⟩
  | stat src shmpath cb =>
      obtain ⟨s', hs', hinv⟩ := inv_onTreeGrafted h.sound h.targets h.wired.once
        (fun src' it hit path shmtype hpath _ => h.wired.served src' it hit path shmtype hpath) hfit
      rw [step, hs']
      exact ⟨_, rfl, hinv.wired, hinv⟩
  | prune src shmpath cb =>
      obtain ⟨s', hs', hinv, hdisconnects⟩ := inv_onTreePruned h hfit
      rw [step, hs']
      exact ⟨_, rfl, ⟨hinv.wired, hdisconnects⟩, hinv⟩

/-- **The wiring of a bundle follows the writers** of its quiddities, in every run of writer events
that meet their conditions. -/
theorem follows_of_fits (quids : List QuiddSpec) (tree : String → InfoTree)
    (es : List (WriterEvent τ))
    (hfits : Machine.Admits (step caps) (Fits caps (sinksOf quids))
      (make (sinksOf quids) fun name => ConnectionSpec.ofTree x (tree name)) es) :
    Machine.Meets (step caps) (Follows caps (sinksOf quids))
      (make (sinksOf quids) fun name => ConnectionSpec.ofTree x (tree name)) es :=
  Machine.Admits.meets (I := Inv caps (sinksOf quids)) (fun _ e hinv hfit => follows_step hinv e hfit)
    (inv_make tree) hfits

/-! ### A source and a viewer -/

/-- `source ! viewer`. -/
def viewerPipeline : List QuiddSpec :=
  [{ name := "source", connectsTo := ["viewer"] }, { name := "viewer" }]

/-- The viewer has one follower, for all types. -/
def viewerTree (name : String) : InfoTree :=
  (labelsDoc (if name = "viewer" then ["video"] else []) []).toTree

/-- The bundle before there are writers. -/
def viewerBundle : Wiring String :=
  make (sinksOf viewerPipeline) fun name => ConnectionSpec.ofTree plainText (viewerTree name)

theorem not_isMeta_viewer : ¬viewerBundle.IsMeta "viewer" := by
  rw [IsMeta]
  decide +kernel

theorem open_viewer : (viewerBundle.claws "viewer").Open := by
  rw [Open]
  decide +kernel

/-- A writer comes and goes. -/
theorem follows_viewer :
    Machine.Meets (step plainCaps) (Follows plainCaps (sinksOf viewerPipeline)) viewerBundle
      [.graft "source" "/tmp/video" "video/x-raw" fun _ => true,
        .prune "source" "/tmp/video" fun _ => true] := by
  refine follows_of_fits viewerPipeline viewerTree _ ⟨⟨fun hnil => ?_, fun it hit _ => ?_,
    fun it hit _ hmeta => ?_⟩, fun r hr => ⟨?_, fun _ _ => trivial⟩⟩
  · cases hnil
  · rw [List.mem_singleton.1 hit]
    exact .inr ⟨0, rfl, rfl, open_viewer⟩
  · rw [List.mem_singleton.1 hit] at hmeta
    exact absurd hmeta not_isMeta_viewer
  · obtain rfl := Option.some.inj hr
    have hpaths : ∀ it (sfid : ℕ) path, ((Function.update viewerBundle.claws "viewer"
        { viewerBundle.claws "viewer" with
          followerShmpaths := (∅ : IdMap String).insertIfNew 1 "/tmp/video" })
        it).followerShmpaths[sfid]? = some path →
        it = "viewer" ∧ sfid = 1 ∧ path = "/tmp/video" := by
      refine (Function.forall_update_iff viewerBundle.claws fun it c => ∀ (sfid : ℕ) path,
        c.followerShmpaths[sfid]? = some path → it = "viewer" ∧ sfid = 1 ∧ path = "/tmp/video").2
        ⟨fun sfid path hsfid => ?_, fun it _ sfid path hsfid => ?_⟩
      · rw [IdMap.getElem?_emplace Std.ExtTreeMap.not_mem_empty] at hsfid
        split_ifs at hsfid with hone
        · exact ⟨rfl, hone, (Option.some.inj hsfid).symm⟩
        · cases Std.ExtTreeMap.getElem?_empty.symm.trans hsfid
      · cases (Std.ExtTreeMap.getElem?_empty (α := ℕ)).symm.trans hsfid
    refine ⟨fun it sfid hsfid => ?_, fun it _ path hpath => (hpaths it 1 path hpath).2.2,
      fun src it _ path shmtype hlive => ?_⟩
    · obtain ⟨rfl, hone, -⟩ := hpaths it sfid _ hsfid
      exact ⟨⟨0, rfl, rfl⟩, hone⟩
    · change ((viewerBundle.setWriter "source" "/tmp/video" (some "video/x-raw")).setWriter
        "source" "/tmp/video" none).writers src path = some shmtype at hlive
      rw [writers_setWriter, writers_setWriter] at hlive
      split_ifs at hlive
      cases hlive

/-- When the first of two writers goes, the viewer is connected to none. -/
theorem not_follows_second_writer :
    ¬Machine.Meets (step plainCaps) (Follows plainCaps (sinksOf viewerPipeline)) viewerBundle
      [.graft "source" "/tmp/first" "video/x-raw" fun _ => true,
        .graft "source" "/tmp/second" "video/x-raw" fun _ => true,
        .prune "source" "/tmp/first" fun _ => true] := by
  rintro ⟨r₁, h₁, -, r₂, h₂, -, r₃, h₃, ⟨hwired, -⟩, -⟩
  obtain rfl := Option.some.inj h₁
  obtain rfl := Option.some.inj h₂
  obtain rfl := Option.some.inj h₃
  have hdo : sfidCanDoShmtype plainCaps (viewerBundle.claws "viewer") 1 "video/x-raw" = true := by
    decide +kernel
  obtain ⟨path, -, sfid, hsfid⟩ := hwired.served "source" "viewer" (List.mem_singleton.2 rfl)
    "/tmp/second" "video/x-raw" rfl ⟨1, by decide +kernel, hdo⟩
  change (((∅ : IdMap String).insertIfNew 1 "/tmp/first").erase 1)[sfid]? = some path at hsfid
  rw [IdMap.erase_emplace Std.ExtTreeMap.not_mem_empty] at hsfid
  cases Std.ExtTreeMap.getElem?_empty.symm.trans hsfid

end Wiring
end Bundle
end LibSwitcher
