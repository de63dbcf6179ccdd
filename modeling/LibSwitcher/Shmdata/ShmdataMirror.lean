/-
# What the subscribers of a quiddity know of its shmdata

A subscriber of `on-tree-grafted` and `on-tree-pruned` that reads the tree at the paths it is told
keeps a mirror of the information tree.  Any number of threads construct, update and destroy
writers, followers and updaters of one quiddity; the mirror follows if every change is announced.
Two things are not: what readers keep in their entries before or beside the announcement of the
type of the data (`Call.Unannounced`), and, for good, a statistic that is grafted while the
destructor prunes the entry.

The destructors prune the entry before they stop the task that grafts the statistics:
`destroy_leaves_nothing_iff` tells when this leaves an entry of a shmdata that is gone.
-/

import LibSwitcher.Shmdata.ShmdataTree

namespace LibSwitcher
namespace ShmdataTree

open InfoTree

variable {rate : ℕ → Any} {q : List String} {path key caps : String} {tree : Option InfoTree}
  {doSignal : Bool} {next : Program}

/-! ### Paths -/

/-- A key after a dot comes last. -/
theorem components_append_key (path : String) {k : String} (hk : Components.Plain '.' k) :
    components (path ++ ("." ++ k)) = components path ++ [k] := by
  rw [← String.append_assoc, components, Components.components_append_sep path rfl,
    Components.components_of_plain hk]
  rfl

theorem components_stat (path : String) :
    components (path ++ ".stat") = components path ++ ["stat"] :=
  components_append_key path (k := "stat") (by decide)

theorem components_caps (path : String) :
    components (path ++ ".caps") = components path ++ ["caps"] :=
  components_append_key path (k := "caps") (by decide)

theorem components_category (path : String) :
    components (path ++ ".category") = components path ++ ["category"] :=
  components_append_key path (k := "category") (by decide)

/-- The children of an entry are below it. -/
theorem prefix_components_child (path it : String) :
    components path <+: components (path ++ "." ++ it) :=
  ⟨components it, (Components.components_append_sep path rfl it).symm⟩

/-- The name of the section of a direction. -/
def Direction.name : Direction → String
  | .writer => "writer"
  | .reader => "reader"

theorem components_entry (dir : Direction) (path : String) :
    components (dir.key ++ path) = ["shmdata", dir.name] ++ components path := by
  have hkey : dir.key = ".shmdata." ++ dir.name ++ "." := by cases dir <;> decide
  have hname : Components.components '.' (".shmdata." ++ dir.name) = ["shmdata", dir.name] := by
    cases dir <;> decide
  rw [hkey, components, Components.components_append_sep _ rfl, hname]
  rfl

theorem components_entry_ne_nil (dir : Direction) (path : String) :
    components (dir.key ++ path) ≠ [] := by
  rw [components_entry]
  simp

/-! ### What is owed and covered -/

theorem owes_graftTree {next : Bool → Program} (h : ∀ b, (next b).Owes q) :
    (graftTree path tree doSignal next).Owes q := by
  unfold graftTree
  cases tree with
  | none => exact h false
  | some leaf =>
      dsimp only
      split_ifs with hpath
      · exact h false
      · exact Or.inr (h true)
      · exact h true

theorem covers_graftTree {next : Bool → Program} (h : ∀ b, (next b).Covers q)
    (hsignal : doSignal = true ∨ (components path <+: q → (next true).Owes q)) :
    (graftTree path tree doSignal next).Covers q := by
  unfold graftTree
  cases tree with
  | none => exact h false
  | some leaf =>
      dsimp only
      split_ifs with hpath hdo
      · exact h false
      · exact ⟨fun hq => Or.inl hq, h true⟩
      · exact ⟨hsignal.resolve_left hdo, h true⟩

theorem owes_notifyTreeUpdated (hpath : components path ≠ [])
    (h : components path <+: q ∨ next.Owes q) : (notifyTreeUpdated path next).Owes q := by
  rw [notifyTreeUpdated, if_neg hpath]
  exact h

theorem covers_notifyTreeUpdated (h : next.Covers q) : (notifyTreeUpdated path next).Covers q := by
  unfold notifyTreeUpdated
  split_ifs <;> exact h

theorem owes_pruneTree {next : Option InfoTree → Program} (h : ∀ o, (next o).Owes q) :
    (pruneTree path doSignal next).Owes q := by
  unfold pruneTree
  split_ifs with hpath
  · exact h none
  · intro o
    dsimp only
    split_ifs
    · exact Or.inr (h o)
    · exact h o

theorem covers_pruneTree {next : Option InfoTree → Program} (h : ∀ o, (next o).Covers q)
    (hsignal : doSignal = true ∨ (components path <+: q → ∀ o, (next o).Owes q)) :
    (pruneTree path doSignal next).Covers q := by
  unfold pruneTree
  split_ifs with hpath
  · exact h none
  · intro o
    dsimp only
    split_ifs with hdo
    · exact ⟨fun hq _ => Or.inl hq, h o⟩
    · refine ⟨fun hq ho => ?_, h o⟩
      refine (hsignal.resolve_left fun hs => hdo ?_) hq o
      rw [hs, Bool.and_true]
      exact Option.isSome_iff_ne_none.2 ho

theorem owes_regraft (its : List String) (t : InfoTree) (h : next.Owes q) :
    (regraft path its t next).Owes q := by
  induction its generalizing t with
  | nil => exact h
  | cons it its ih => exact owes_graftTree fun _ => ih _

theorem covers_regraft (its : List String) (t : InfoTree) (h : next.Covers q)
    (howes : components path <+: q → next.Owes q) : (regraft path its t next).Covers q := by
  induction its generalizing t with
  | nil => exact h
  | cons it its ih =>
      refine covers_graftTree (fun _ => ih _) (Or.inr fun hq => owes_regraft its _ (howes ?_))
      exact (prefix_components_child path it).trans hq

/-- The entry is made again under an announcement that follows, or where it is not read. -/
theorem covers_initializeTree (h : next.Covers q) (howes : components path <+: q → next.Owes q) :
    (initializeTree rate path next).Covers q := by
  refine covers_pruneTree (fun o => covers_graftTree (fun _ => ?_) (Or.inr fun hq => ?_))
    (Or.inr fun hq o => owes_graftTree fun _ => ?_)
  · cases o with
    | none => exact h
    | some t => exact covers_regraft _ t h howes
  · cases o with
    | none => exact howes hq
    | some t => exact owes_regraft _ t (howes hq)
  · cases o with
    | none => exact howes hq
    | some t => exact owes_regraft _ t (howes hq)

theorem owes_updateCaps (hpath : components path ≠ [])
    (h : components path <+: q ∨ next.Owes q) : (updateCaps path caps next).Owes q :=
  owes_graftTree fun _ => owes_graftTree fun _ => owes_notifyTreeUpdated hpath h

/-- The type of the data is announced with the entry. -/
theorem covers_updateCaps (hpath : components path ≠ []) (h : next.Covers q) :
    (updateCaps path caps next).Covers q := by
  have habove : ∀ {k : String}, components (path ++ k) = components path ++ components k →
      components (path ++ k) <+: q → components path <+: q :=
    fun hk hq => (List.prefix_append _ _).trans (hk ▸ hq)
  refine covers_graftTree (fun _ => covers_graftTree (fun _ => covers_notifyTreeUpdated h)
    (Or.inr fun hq => ?_)) (Or.inr fun hq => owes_graftTree fun _ => ?_)
  · refine owes_notifyTreeUpdated hpath (Or.inl (habove ?_ hq))
    rw [components_category]
    rfl
  · refine owes_notifyTreeUpdated hpath (Or.inl (habove ?_ hq))
    rw [components_caps]
    rfl

theorem covers_makeTreeUpdater {s : Stat} (h : next.Covers q)
    (hsignal : doSignal = true ∨ ¬components (key ++ ".stat") <+: q) :
    (s.makeTreeUpdater rate key doSignal next).Covers q :=
  covers_graftTree (fun _ => h) (hsignal.imp id fun hnot hq => absurd hq hnot)

theorem covers_makeWriter {quiddityCaps : String} {w : Writer} (h : next.Covers q) :
    (w.make rate quiddityCaps next).Covers q := by
  have hnamed := components_entry_ne_nil .writer w.shmpath
  unfold Writer.make
  split_ifs
  · exact covers_initializeTree (covers_updateCaps hnamed h)
      fun hq => owes_updateCaps hnamed (Or.inl hq)
  · exact h

theorem covers_destroyWriter {w : Writer} (h : next.Covers q) : (w.destroy next).Covers q := by
  unfold Writer.destroy
  split_ifs
  · exact covers_pruneTree (fun _ => h) (Or.inl rfl)
  · exact h

theorem covers_makeFollower {f : Follower} (h : next.Covers q)
    (hquiet : f.getShmdataOnConnect = true ∨ ¬components f.treePath <+: q) :
    (f.make rate next).Covers q := by
  unfold Follower.make
  split_ifs with hget
  · exact h
  · exact covers_initializeTree h fun hq => absurd hq (hquiet.resolve_left hget)

/-- A follower that connects again to the same type of data makes its entry again unannounced. -/
theorem covers_followerConnected {f : Follower} {dataType : String} (h : next.Covers q)
    (hquiet : f.getShmdataOnConnect = true → dataType = f.dataType →
      ¬components f.treePath <+: q) :
    (f.onServerConnected rate dataType fun _ => next).Covers q := by
  have hnamed := components_entry_ne_nil f.dir f.path
  unfold Follower.onServerConnected
  dsimp only
  split_ifs with hget htype htype
  · exact covers_initializeTree (covers_updateCaps hnamed h)
      fun hq => owes_updateCaps hnamed (Or.inl hq)
  · exact covers_initializeTree h fun hq => absurd hq (hquiet hget (not_not.1 htype))
  · exact covers_updateCaps hnamed h
  · exact h

theorem covers_destroyFollower {f : Follower} (h : next.Covers q) : (f.destroy next).Covers q := by
  unfold Follower.destroy
  split_ifs
  · exact covers_pruneTree (fun _ => h) (Or.inl rfl)
  · exact h

/-! ### Trees with different keys for siblings -/

/-- The keys of a program and of what it grafts. -/
abbrev Tidy (next : Program) : Prop := next.Tidy (Components.Plain '.')

theorem tidy_graftTree {next : Bool → Program} (h : ∀ b, Tidy (next b))
    (htree : ∀ t ∈ tree, t.WellKeyed) : Tidy (graftTree path tree doSignal next) := by
  unfold graftTree
  cases tree with
  | none => exact h false
  | some leaf =>
      dsimp only
      split_ifs with hpath
      · exact h false
      · exact ⟨fun k hk => plain_of_mem_components hk, htree leaf rfl,
          fun k hk => plain_of_mem_components hk, h true⟩
      · exact ⟨fun k hk => plain_of_mem_components hk, htree leaf rfl, h true⟩

theorem tidy_notifyTreeUpdated (h : Tidy next) : Tidy (notifyTreeUpdated path next) := by
  unfold notifyTreeUpdated
  split_ifs
  · exact h
  · exact ⟨fun k hk => plain_of_mem_components hk, h⟩

theorem tidy_pruneTree {next : Option InfoTree → Program}
    (h : ∀ o, (∀ t ∈ o, t.WellKeyed) → Tidy (next o)) : Tidy (pruneTree path doSignal next) := by
  unfold pruneTree
  split_ifs with hpath
  · exact h none fun _ ht => by cases ht
  · intro o ho
    dsimp only
    split_ifs
    · exact h o ho
    · exact h o ho

theorem tidy_regraft (its : List String) {t : InfoTree} (ht : t.WellKeyed) (h : Tidy next) :
    Tidy (regraft path its t next) := by
  induction its generalizing t with
  | nil => exact h
  | cons it its ih =>
      refine tidy_graftTree (fun _ => ih (wellKeyed_prune ht)) fun c hc => ?_
      unfold pruned getNode at hc
      split_ifs at hc
      · cases hc
      · exact ht.get hc

theorem wellKeyed_updateTree {s : Stat} {t : InfoTree} (ht : t.WellKeyed) :
    (s.updateTree rate key t).WellKeyed :=
  wellKeyed_graft (wellKeyed_graft ht (wellKeyed_makeValue _)) (wellKeyed_makeValue _)

theorem wellKeyed_template : (getShmInformationTemplate rate).WellKeyed :=
  wellKeyed_updateTree (wellKeyed_graft (wellKeyed_graft (wellKeyed_makeValue _)
    (wellKeyed_makeValue _)) (wellKeyed_makeValue _))

theorem tidy_initializeTree (h : Tidy next) : Tidy (initializeTree rate path next) := by
  refine tidy_pruneTree fun o ho => tidy_graftTree (fun _ => ?_) fun t ht => ?_
  · cases o with
    | none => exact h
    | some t => exact tidy_regraft _ (ho t rfl) h
  · exact Option.some.inj ht ▸ wellKeyed_template

theorem tidy_graftValue {next : Bool → Program} (h : ∀ b, Tidy (next b)) (v : Any) :
    Tidy (graftTree path (some (makeValue v)) doSignal next) :=
  tidy_graftTree h fun _ ht => Option.some.inj ht ▸ wellKeyed_makeValue v

theorem tidy_updateCaps (h : Tidy next) : Tidy (updateCaps path caps next) :=
  tidy_graftValue (fun _ => tidy_graftValue (fun _ => tidy_notifyTreeUpdated h) _) _

theorem tidy_makeTreeUpdater {s : Stat} (h : Tidy next) :
    Tidy (s.makeTreeUpdater rate key doSignal next) :=
  tidy_graftTree (fun _ => h) fun _ ht => Option.some.inj ht ▸
    wellKeyed_graft (wellKeyed_graft (wellKeyed_makeValue _) (wellKeyed_makeValue _))
      (wellKeyed_makeValue _)

theorem tidy_makeWriter {quiddityCaps : String} {w : Writer} (h : Tidy next) :
    Tidy (w.make rate quiddityCaps next) := by
  unfold Writer.make
  split_ifs
  · exact tidy_initializeTree (tidy_updateCaps h)
  · exact h

theorem tidy_destroyWriter {w : Writer} (h : Tidy next) : Tidy (w.destroy next) := by
  unfold Writer.destroy
  split_ifs
  · exact tidy_pruneTree fun _ _ => h
  · exact h

theorem tidy_makeFollower {f : Follower} (h : Tidy next) : Tidy (f.make rate next) := by
  unfold Follower.make
  split_ifs
  · exact h
  · exact tidy_initializeTree h

theorem tidy_followerConnected {f : Follower} {dataType : String} (h : Tidy next) :
    Tidy (f.onServerConnected rate dataType fun _ => next) := by
  unfold Follower.onServerConnected
  dsimp only
  split_ifs
  · exact tidy_initializeTree (tidy_updateCaps h)
  · exact tidy_initializeTree h
  · exact tidy_updateCaps h
  · exact h

theorem tidy_destroyFollower {f : Follower} (h : Tidy next) : Tidy (f.destroy next) := by
  unfold Follower.destroy
  split_ifs
  · exact tidy_pruneTree fun _ _ => h
  · exact h

/-! ### Calls -/

/-- What a thread calls on the shmdata objects of a quiddity, or on the quiddity itself. -/
inductive Call
  | makeWriter (quiddityCaps : String) (w : Writer)
  | writerStats (w : Writer) (s : Stat)
  | destroyWriter (w : Writer)
  | makeFollower (f : Follower)
  | followerConnected (f : Follower) (dataType : String)
  | followerStats (f : Follower) (s : Stat)
  | destroyFollower (f : Follower)
  | makeUpdater (u : GstTreeUpdater)
  | updaterCaps (u : GstTreeUpdater) (caps : String)
  | updaterStats (u : GstTreeUpdater) (s : Stat)
  | destroyUpdater (u : GstTreeUpdater)
  | graftTree (path : String) (tree : InfoTree) (doSignal : Bool)
  | pruneTree (path : String) (doSignal : Bool)

namespace Call

/-- What a call does, before the rest of its thread. -/
def program (rate : ℕ → Any) : Call → Program → Program
  | makeWriter quiddityCaps w => w.make rate quiddityCaps
  | writerStats w s => w.updateQuidStats rate s
  | destroyWriter w => w.destroy
  | makeFollower f => f.make rate
  | followerConnected f dataType => fun next => f.onServerConnected rate dataType fun _ => next
  | followerStats f s => f.updateQuidStats rate s
  | destroyFollower f => f.destroy
  | makeUpdater u => u.make rate
  | updaterCaps u caps => u.onCaps caps
  | updaterStats u s => u.onStat rate s
  | destroyUpdater u => u.destroy
  | graftTree path tree doSignal => fun next =>
      ShmdataTree.graftTree path (some tree) doSignal fun _ => next
  | pruneTree path doSignal => fun next => ShmdataTree.pruneTree path doSignal fun _ => next

/-- The path may read differently after the call without an announcement. -/
def Unannounced (q : List String) : Call → Prop
  | makeFollower f => f.getShmdataOnConnect = false ∧ components f.treePath <+: q
  | followerConnected f dataType =>
      f.getShmdataOnConnect = true ∧ dataType = f.dataType ∧ components f.treePath <+: q
  | followerStats f _ => f.dir = .reader ∧ components (f.treePath ++ ".stat") <+: q
  | makeUpdater u => components u.treePath <+: q
  | updaterStats u _ => u.dir = .reader ∧ components (u.treePath ++ ".stat") <+: q
  | graftTree path _ doSignal => doSignal = false ∧ components path <+: q
  | pruneTree path doSignal => doSignal = false ∧ components path <+: q
  | _ => False

/-- The trees that are grafted from outside have different keys for siblings. -/
def Sound : Call → Prop
  | graftTree _ tree _ => tree.WellKeyed
  | _ => True

end Call

/-- The program of a thread. -/
def thread (rate : ℕ → Any) (calls : List Call) : Program :=
  calls.foldr (fun c next => c.program rate next) .done

theorem Direction.eq_reader {d : Direction} (h : ¬d = .writer) : d = .reader := by
  cases d with
  | writer => exact absurd rfl h
  | reader => rfl

/-- The statistics of what is written are announced. -/
theorem signal_or_not {d : Direction} {C : Prop} (h : ¬(d = .reader ∧ C)) :
    decide (d = .writer) = true ∨ ¬C := by
  by_cases hd : d = .writer
  · exact Or.inl (decide_eq_true hd)
  · exact Or.inr fun hC => h ⟨Direction.eq_reader hd, hC⟩

theorem covers_call {c : Call} (hc : ¬c.Unannounced q) (h : next.Covers q) :
    (c.program rate next).Covers q := by
  cases c with
  | makeWriter quiddityCaps w => exact covers_makeWriter h
  | writerStats w s => exact covers_makeTreeUpdater h (Or.inl rfl)
  | destroyWriter w => exact covers_destroyWriter h
  | makeFollower f =>
      refine covers_makeFollower h ?_
      by_cases hget : f.getShmdataOnConnect = true
      · exact Or.inl hget
      · exact Or.inr fun hq => hc ⟨Bool.eq_false_iff.2 hget, hq⟩
  | followerConnected f dataType =>
      exact covers_followerConnected h fun hget htype hq => hc ⟨hget, htype, hq⟩
  | followerStats f s => exact covers_makeTreeUpdater h (signal_or_not hc)
  | destroyFollower f => exact covers_destroyFollower h
  | makeUpdater u => exact covers_initializeTree h fun hq => absurd hq hc
  | updaterCaps u caps => exact covers_updateCaps (components_entry_ne_nil u.dir u.shmpath) h
  | updaterStats u s => exact covers_makeTreeUpdater h (signal_or_not hc)
  | destroyUpdater u => exact covers_pruneTree (fun _ => h) (Or.inl rfl)
  | graftTree path tree doSignal =>
      change (ShmdataTree.graftTree path (some tree) doSignal fun _ => next).Covers q
      refine covers_graftTree (fun _ => h) ?_
      cases doSignal with
      | true => exact Or.inl rfl
      | false => exact Or.inr fun hq => absurd ⟨rfl, hq⟩ hc
  | pruneTree path doSignal =>
      change (ShmdataTree.pruneTree path doSignal fun _ => next).Covers q
      refine covers_pruneTree (fun _ => h) ?_
      cases doSignal with
      | true => exact Or.inl rfl
      | false => exact Or.inr fun hq => absurd ⟨rfl, hq⟩ hc

theorem covers_thread {calls : List Call} (h : ∀ c ∈ calls, ¬c.Unannounced q) :
    (thread rate calls).Covers q := by
  induction calls with
  | nil => trivial
  | cons c calls ih =>
      exact covers_call (h c (by simp)) (ih fun c' hc' => h c' (List.mem_cons_of_mem _ hc'))

theorem tidy_call {c : Call} (hc : c.Sound) (h : Tidy next) : Tidy (c.program rate next) := by
  cases c with
  | makeWriter quiddityCaps w => exact tidy_makeWriter h
  | writerStats w s => exact tidy_makeTreeUpdater h
  | destroyWriter w => exact tidy_destroyWriter h
  | makeFollower f => exact tidy_makeFollower h
  | followerConnected f dataType => exact tidy_followerConnected h
  | followerStats f s => exact tidy_makeTreeUpdater h
  | destroyFollower f => exact tidy_destroyFollower h
  | makeUpdater u => exact tidy_initializeTree h
  | updaterCaps u caps => exact tidy_updateCaps h
  | updaterStats u s => exact tidy_makeTreeUpdater h
  | destroyUpdater u => exact tidy_pruneTree fun _ _ => h
  | graftTree path tree doSignal =>
      change Tidy (ShmdataTree.graftTree path (some tree) doSignal fun _ => next)
      exact tidy_graftTree (fun _ => h) fun _ ht => Option.some.inj ht ▸ hc
  | pruneTree path doSignal => exact tidy_pruneTree fun _ _ => h

theorem tidy_thread {calls : List Call} (h : ∀ c ∈ calls, c.Sound) : Tidy (thread rate calls) := by
  induction calls with
  | nil => trivial
  | cons c calls ih =>
      exact tidy_call (h c (by simp)) (ih fun c' hc' => h c' (List.mem_cons_of_mem _ hc'))

/-! ### Subscribers -/

variable {ι : Type} [DecidableEq ι]

/-- A quiddity and a subscriber with the threads that call on its shmdata, before they start: the
subscriber starts from the tree as it is. -/
def quiddity (rate : ℕ → Any) (tree : InfoTree) (threads : ι → List Call) :
    KeyTree.Mirrored String NodeData ι :=
  ⟨tree, tree, fun i => thread rate (threads i)⟩

/-- A step of a thread. -/
abbrev step : KeyTree.Mirrored String NodeData ι → ι →
    Option (KeyTree.Mirrored String NodeData ι × Unit) :=
  KeyTree.Mirrored.step emptyNode

/-- In every run in which no announcement of a prune is overtaken by a graft, where no thread leaves
anything unannounced, a subscriber that reads something else than the tree has is about to be told,
and reads what the tree has when the threads have ended. -/
theorem subscriber_agrees (rate : ℕ → Any) {tree : InfoTree} (htree : tree.WellKeyed)
    {threads : ι → List Call} (hsound : ∀ i, ∀ c ∈ threads i, c.Sound) {q : List String}
    (hq : ∀ i, ∀ c ∈ threads i, ¬c.Unannounced q) {is : List ι}
    (hok : Machine.Admits step KeyTree.Mirrored.NotOvertaken (quiddity rate tree threads) is) :
    Machine.Always step
      (fun s => (s.Agrees emptyNode q ∨ s.Owed q) ∧ (s.Ended → s.Agrees emptyNode q))
      (quiddity rate tree threads) is :=
  KeyTree.Mirrored.agrees_of_covers (P := Components.Plain '.')
    ⟨htree, htree, fun i => tidy_thread (hsound i)⟩ (fun i => covers_thread (hq i)) rfl hok

/-- A writer of raw video. -/
def cameraWriter : Writer := ⟨"/tmp/switcher_camera_1_video", "video/x-raw", true⟩

/-- The threads of a writer that is made and destroyed, and of its task. -/
def cameraThreads : Bool → List Call
  | true => [.makeWriter "switcher-name=(string)camera,quiddity-id=(int)1" cameraWriter,
      .destroyWriter cameraWriter]
  | false => [.writerStats cameraWriter ⟨6220800, 1⟩]

/-- The text of a count. -/
def countText (n : ℕ) : Any := .double (toString n)

theorem subscriber_agrees_camera : Machine.Always step
    (fun s => (s.Agrees emptyNode (components (cameraWriter.parentPath ++ ".caps")) ∨
        s.Owed (components (cameraWriter.parentPath ++ ".caps"))) ∧
      (s.Ended → s.Agrees emptyNode (components (cameraWriter.parentPath ++ ".caps"))))
    (quiddity countText make cameraThreads)
    [true, true, true, false, true, true, false, true, true] := by
  refine subscriber_agrees countText (wellKeyed_makeValue .null) (fun i => ?_) (fun i => ?_)
    (by decide +kernel)
  · cases i <;> simp [cameraThreads, Call.Sound]
  · cases i <;> simp [cameraThreads, Call.Unannounced]

/-! ### Entries of shmdata that are gone -/

namespace Call

/-- The entry a call is about. -/
def entry : Call → String
  | makeWriter _ w => w.parentPath
  | writerStats w _ => w.parentPath
  | destroyWriter w => w.parentPath
  | makeFollower f => f.treePath
  | followerConnected f _ => f.treePath
  | followerStats f _ => f.treePath
  | destroyFollower f => f.treePath
  | makeUpdater u => u.treePath
  | updaterCaps u _ => u.treePath
  | updaterStats u _ => u.treePath
  | destroyUpdater u => u.treePath
  | graftTree path _ _ => path
  | pruneTree path _ => path

/-- The call grafts the statistics of an entry. -/
def UpdatesStats (entry : String) : Call → Prop
  | writerStats w _ => w.parentPath = entry
  | followerStats f _ => f.treePath = entry
  | updaterStats u _ => u.treePath = entry
  | _ => False

/-- The call destroys an object that has made an entry. -/
def Destroys (entry : String) : Call → Prop
  | destroyWriter w => w.attached = true ∧ w.parentPath = entry
  | destroyFollower f => f.dataType ≠ "" ∧ f.treePath = entry
  | destroyUpdater u => u.treePath = entry
  | _ => False

end Call

variable {S : List String → Prop}

theorem within_graftTree {next : Bool → Program} (h : ∀ b, (next b).Within S)
    (hS : S (components path)) : (graftTree path tree doSignal next).Within S := by
  unfold graftTree
  cases tree with
  | none => exact h false
  | some leaf =>
      dsimp only
      split_ifs
      · exact h false
      · exact ⟨hS, h true⟩
      · exact ⟨hS, h true⟩

theorem within_notifyTreeUpdated (h : next.Within S) : (notifyTreeUpdated path next).Within S := by
  unfold notifyTreeUpdated
  split_ifs <;> exact h

theorem within_pruneTree {next : Option InfoTree → Program} (h : ∀ o, (next o).Within S)
    (hS : S (components path)) : (pruneTree path doSignal next).Within S := by
  unfold pruneTree
  split_ifs
  · exact h none
  · refine ⟨hS, fun o => ?_⟩
    dsimp only
    split_ifs <;> exact h o

theorem within_initializeTree (h : next.Within S) (hS : ∀ q, components path <+: q → S q) :
    (initializeTree rate path next).Within S := by
  refine within_pruneTree (fun o => within_graftTree (fun _ => ?_) (hS _ List.prefix_rfl))
    (hS _ List.prefix_rfl)
  cases o with
  | none => exact h
  | some t =>
      dsimp only
      generalize getChildKeys "." t = its
      induction its generalizing t with
      | nil => exact h
      | cons it its ih =>
          exact within_graftTree (fun _ => ih _) (hS _ (prefix_components_child path it))

theorem within_updateCaps (h : next.Within S) (hS : ∀ q, components path <+: q → S q) :
    (updateCaps path caps next).Within S := by
  refine within_graftTree (fun _ => within_graftTree (fun _ => within_notifyTreeUpdated h) ?_) ?_
  · exact hS _ (by rw [components_category]; exact List.prefix_append _ _)
  · exact hS _ (by rw [components_caps]; exact List.prefix_append _ _)

theorem within_makeTreeUpdater {s : Stat} (h : next.Within S)
    (hS : ∀ q, components key <+: q → S q) :
    (s.makeTreeUpdater rate key doSignal next).Within S :=
  within_graftTree (fun _ => h) (hS _ (by rw [components_stat]; exact List.prefix_append _ _))

/-- A call edits its entry only. -/
theorem within_call {c : Call} (h : next.Within S) (hS : ∀ q, components c.entry <+: q → S q) :
    (c.program rate next).Within S := by
  cases c with
  | makeWriter quiddityCaps w =>
      unfold Call.program
      dsimp only [Writer.make]
      split_ifs
      · exact within_initializeTree (within_updateCaps h hS) hS
      · exact h
  | writerStats w s => exact within_makeTreeUpdater h hS
  | destroyWriter w =>
      unfold Call.program
      dsimp only [Writer.destroy]
      split_ifs
      · exact within_pruneTree (fun _ => h) (hS _ List.prefix_rfl)
      · exact h
  | makeFollower f =>
      unfold Call.program
      dsimp only [Follower.make]
      split_ifs
      · exact h
      · exact within_initializeTree h hS
  | followerConnected f dataType =>
      unfold Call.program
      dsimp only [Follower.onServerConnected]
      split_ifs
      · exact within_initializeTree (within_updateCaps h hS) hS
      · exact within_initializeTree h hS
      · exact within_updateCaps h hS
      · exact h
  | followerStats f s => exact within_makeTreeUpdater h hS
  | destroyFollower f =>
      unfold Call.program
      dsimp only [Follower.destroy]
      split_ifs
      · exact within_pruneTree (fun _ => h) (hS _ List.prefix_rfl)
      · exact h
  | makeUpdater u => exact within_initializeTree h hS
  | updaterCaps u caps => exact within_updateCaps h hS
  | updaterStats u s => exact within_makeTreeUpdater h hS
  | destroyUpdater u => exact within_pruneTree (fun _ => h) (hS _ List.prefix_rfl)
  | graftTree path tree doSignal =>
      change (ShmdataTree.graftTree path (some tree) doSignal fun _ => next).Within S
      exact within_graftTree (fun _ => h) (hS _ List.prefix_rfl)
  | pruneTree path doSignal =>
      change (ShmdataTree.pruneTree path doSignal fun _ => next).Within S
      exact within_pruneTree (fun _ => h) (hS _ List.prefix_rfl)

theorem within_thread {calls : List Call}
    (hS : ∀ c ∈ calls, ∀ q, components c.entry <+: q → S q) : (thread rate calls).Within S := by
  induction calls with
  | nil => trivial
  | cons c calls ih =>
      exact within_call (ih fun c' hc' => hS c' (List.mem_cons_of_mem _ hc')) (hS c (by simp))

theorem graftsAt_makeTreeUpdater {s : Stat} (h : next.GraftsAt (components key)) :
    (s.makeTreeUpdater rate key doSignal next).GraftsAt (components key) := by
  unfold Stat.makeTreeUpdater graftTree
  dsimp only
  split_ifs
  · exact h
  · exact ⟨by rw [components_stat]; exact List.prefix_append _ _, h⟩
  · exact ⟨by rw [components_stat]; exact List.prefix_append _ _, h⟩

/-- The task of an object does nothing to the tree but to graft statistics. -/
theorem graftsAt_thread {entry : String} {calls : List Call}
    (h : ∀ c ∈ calls, c.UpdatesStats entry) :
    (thread rate calls).GraftsAt (components entry) := by
  induction calls with
  | nil => trivial
  | cons c calls ih =>
      have hrest := ih fun c' hc' => h c' (List.mem_cons_of_mem _ hc')
      have hc := h c (by simp)
      cases c with
      | writerStats w s =>
          obtain rfl := hc
          exact graftsAt_makeTreeUpdater hrest
      | followerStats f s =>
          obtain rfl := hc
          exact graftsAt_makeTreeUpdater hrest
      | updaterStats u s =>
          obtain rfl := hc
          exact graftsAt_makeTreeUpdater hrest
      | _ => exact hc.elim

theorem components_of_destroys {d : Call} {entry : String} (h : d.Destroys entry) :
    components entry ≠ [] := by
  cases d with
  | destroyWriter w => exact h.2 ▸ components_entry_ne_nil .writer w.shmpath
  | destroyFollower f => exact h.2 ▸ components_entry_ne_nil f.dir f.path
  | destroyUpdater u => exact h ▸ components_entry_ne_nil u.dir u.shmpath
  | _ => exact h.elim

/-- The destructors prune the entry. -/
theorem thread_of_destroys {d : Call} {entry : String} (h : d.Destroys entry) :
    thread rate [d] = pruneTree entry true fun _ => .done := by
  cases d with
  | destroyWriter w =>
      obtain ⟨hattached, rfl⟩ := h
      exact if_pos hattached
  | destroyFollower f =>
      obtain ⟨htype, rfl⟩ := h
      exact if_pos htype
  | destroyUpdater u =>
      obtain rfl := h
      rfl
  | _ => exact h.elim

/-- When an object is destroyed while its task is running, and the other threads keep to other
entries, the entry is gone in the end exactly if the task has no statistics left to graft
at the moment the destructor prunes the entry. -/
theorem entry_gone_iff (rate : ℕ → Any) {tree : InfoTree} (htree : tree.WellKeyed)
    (threads : ι → List Call) (hsound : ∀ i, ∀ c ∈ threads i, c.Sound) (d : Call) {entry : String}
    (hd : d.Destroys entry) (main task : ι) (hne : task ≠ main)
    (htask : ∀ c ∈ threads task, c.UpdatesStats entry)
    (hothers : ∀ i, i ≠ main → i ≠ task → ∀ c ∈ threads i,
      KeyTree.Parted (components entry) (components c.entry))
    {before after : List ι} {os os' : List Unit} {s s' : KeyTree.Mirrored String NodeData ι}
    (hbefore : Machine.run step (quiddity rate tree threads) before = some (s, os))
    (hmain : s.programs main = thread rate [d])
    (hafter : Machine.run step s (main :: after) = some (s', os')) (hended : s'.Ended) :
    s'.tree.get (components entry) = none ↔ ¬(s.programs task).Fills (components entry) := by
  have htidy : s.Tidy (Components.Plain '.') :=
    KeyTree.Mirrored.Tidy.run ⟨htree, htree, fun i => tidy_thread (hsound i)⟩ hbefore
  have hgrafts : (s.programs task).GraftsAt (components entry) :=
    KeyTree.Mirrored.programs_run (fun _ _ h hnext => h.next hnext) (graftsAt_thread htask) hbefore
  have hwithin : ∀ i, i ≠ main → i ≠ task →
      (s.programs i).Within (KeyTree.Parted (components entry)) := by
    intro i hi hi'
    refine KeyTree.Mirrored.programs_run (fun _ _ h hnext => h.next hnext) ?_ hbefore
    exact within_thread fun c hc q hq => (hothers i hi hi' c hc).mono hq
  rw [thread_of_destroys hd, pruneTree, if_neg (components_of_destroys hd)] at hmain
  rw [KeyTree.Mirrored.get_eq_none_iff_of_prune htidy (components_of_destroys hd) hmain ?_ ?_ hafter
    hended]
  · constructor
    · exact fun h => (h task hne).not_fills
    · intro h i hi
      by_cases hi' : i = task
      · rw [hi']
        exact hgrafts.avoids_or_fills.resolve_right h
      · exact (hwithin i hi hi').avoids
  · intro o
    split_ifs <;> trivial
  · intro i hi
    by_cases hi' : i = task
    · rw [hi']
      exact ⟨hgrafts.spares, hgrafts.avoids_or_fills⟩
    · exact ⟨(hwithin i hi hi').spares, Or.inl (hwithin i hi hi').avoids⟩

/-- The threads of a writer that is destroyed, and of its task. -/
def lateThreads : Bool → List Call
  | true => [.destroyWriter cameraWriter]
  | false => [.writerStats cameraWriter ⟨0, 0⟩]

/-- The state when the threads have ended, after the destructor has pruned first. -/
def afterLateStats : Option (KeyTree.Mirrored String NodeData Bool × List Unit) :=
  Machine.run step (quiddity countText make lateThreads) [true, false, false]

theorem isSome_afterLateStats : afterLateStats.isSome = true := by decide +kernel

theorem entry_gone_iff_camera : ∃ s' os',
    afterLateStats = some (s', os') ∧ s'.Ended ∧
      (s'.tree.get (components cameraWriter.parentPath) = none ↔
        ¬(thread countText (lateThreads false)).Fills (components cameraWriter.parentPath)) := by
  have hrun : afterLateStats = some (afterLateStats.get isSome_afterLateStats) :=
    (Option.some_get isSome_afterLateStats).symm
  have hended : (afterLateStats.get isSome_afterLateStats).1.Ended := by
    intro i
    cases i <;> decide +kernel
  refine ⟨_, _, hrun, hended, ?_⟩
  refine entry_gone_iff countText (wellKeyed_makeValue .null) lateThreads (fun i => ?_)
    (.destroyWriter cameraWriter) ⟨rfl, rfl⟩ true false (by decide) ?_ ?_ (Machine.run_nil _) rfl
    hrun hended
  · cases i <;> simp [lateThreads, Call.Sound]
  · simp [lateThreads, Call.UpdatesStats]
  · intro i hi hi'
    cases i
    · exact absurd rfl hi'
    · exact absurd rfl hi

end ShmdataTree
end LibSwitcher
