/-
# When registering bundles is local

`register_bundle` puts the tree of the caller in the place of all the bundles of the
configuration, so that the bundles it does not name are lost, and `unregister_bundle` leaves
what is then there (`not_stepsCorrect_camera_screen`).  `load_bundle_from_config` adds the bundles of
its text to those there are, but its merge loses the bundles without any value, and what
`kept` says of the others.

An operation is correct where none of this happens (`stepCorrect_of_stepOk`), and so are the
operations of every run (`stepsCorrect_of_admits`).
-/

import LibSwitcher.Lib.Machine
import LibSwitcher.Switcher.Bundles

namespace LibSwitcher
namespace Bundles

open InfoTree (branchGetCopy branchGetValue getChildKeys getTree graft merge prune pruned vgraft)

variable {conf tree bundles new : InfoTree} {s s' : Switcher} {env : Environment} {op : Op}
  {bundleTree : BundleTree} {accepts : String → InfoTree → Bool} {b k name : String}
  {names : List String}

/-! ### Entries -/

theorem plain_bundle : Components.Plain '.' "bundle" := by decide

theorem components_bundle (hb : Components.Plain '.' b) :
    InfoTree.components ("bundle." ++ b) = ["bundle", b] := by
  have hpath : ("bundle." : String) = "bundle" ++ "." := by decide
  rw [hpath]
  exact InfoTree.components_pair plain_bundle hb

/-- The path at which a bundle is looked for when a text is loaded. -/
theorem components_dot_bundle (hb : Components.Plain '.' b) :
    InfoTree.components (".bundle." ++ b) = ["bundle", b] := by
  have hpath : (".bundle." : String) = ".bundle" ++ "." := by decide
  have hcomps : Components.components '.' ".bundle" = ["bundle"] := by decide
  rw [hpath, InfoTree.components, Components.components_append_sep _ rfl,
    Components.components_of_plain hb, hcomps, List.singleton_append]

/-- The path at which a bundle is then grafted. -/
theorem components_dot_bundle_dot (hb : Components.Plain '.' b) :
    InfoTree.components (".bundle." ++ b ++ ".") = ["bundle", b] :=
  (Components.components_append_sep_empty (".bundle." ++ b) rfl).trans (components_dot_bundle hb)

theorem entry_eq_bind (b : String) (conf : InfoTree) :
    entry b conf = (conf.child "bundle").bind fun n => n.child b := by
  rw [entry, KeyTree.get_cons]
  cases conf.child "bundle" with
  | none => rfl
  | some n => exact KeyTree.get_singleton b n

/-- The names that are listed are those of the entries. -/
theorem mem_getChildKeys_bundle : b ∈ getChildKeys "bundle" conf ↔ entry b conf ≠ none := by
  rw [getChildKeys, InfoTree.branch_of_plain plain_bundle, entry_eq_bind]
  cases conf.child "bundle" with
  | none => simp
  | some n =>
      rw [Option.bind_some, Ne, KeyTree.child_eq_none_iff, not_not]
      exact Iff.rfl

theorem mem_getChildKeys_root : b ∈ getChildKeys "." tree ↔ tree.child b ≠ none := by
  rw [InfoTree.getChildKeys_root, Ne, KeyTree.child_eq_none_iff, not_not]

/-- The configuration of a kind is under its own name, or else it is that of the bundle. -/
theorem configFor_eq (hb : OwnConfig b) (conf : InfoTree) : configFor b conf =
    if InfoTree.isEmpty ((conf.child b).getD InfoTree.make) then
      (entry b conf).getD InfoTree.make
    else (conf.child b).getD InfoTree.make := by
  have hcomps := components_bundle hb.1
  rw [configFor, getTree, InfoTree.branch_of_plain hb.1, getTree,
    InfoTree.branch_eq_get (by rw [hcomps]; simp), hcomps]
  rfl

theorem creatable_of_eq (hb : OwnConfig b) (hkinds : ∀ b ∈ s.kinds, b ∈ s'.kinds)
    (hchild : s'.conf.child b = s.conf.child b) (hentry : entry b s'.conf = entry b s.conf)
    (h : s.Creatable accepts b) : s'.Creatable accepts b := by
  refine ⟨hkinds b h.1, ?_⟩
  rw [configFor_eq hb, hchild, hentry, ← configFor_eq hb]
  exact h.2

/-! ### Registering -/

theorem graft_bundle (tree conf : InfoTree) :
    graft "bundle" tree conf = KeyTree.graft InfoTree.emptyNode ["bundle"] conf tree := by
  rw [graft, InfoTree.components_of_plain plain_bundle, if_neg (by simp)]

/-- The bundles are those of the tree that has been registered. -/
theorem entry_graft (b : String) (tree conf : InfoTree) :
    entry b (graft "bundle" tree conf) = tree.child b := by
  rw [entry_eq_bind, graft_bundle, KeyTree.child_graft_self]
  rfl

/-- What registering does. -/
theorem registerBundle_of_ne (h : getChildKeys "." bundleTree.tree ≠ []) (s : Switcher) :
    ∃ r, registerBundle bundleTree s = some r ∧
      r.1.conf = graft "bundle" bundleTree.tree s.conf ∧ r.1.kinds = s.kinds := by
  rw [registerBundle]
  cases hkeys : getChildKeys "." bundleTree.tree with
  | nil => exact absurd hkeys h
  | cons name names => exact ⟨_, rfl, rfl, rfl⟩

theorem exists_cons_of_getChildKeys_ne (h : getChildKeys "." tree ≠ []) :
    ∃ e cs, tree.children = e :: cs := by
  refine List.exists_cons_of_ne_nil fun hnil => h ?_
  rw [InfoTree.getChildKeys_root, hnil, List.map_nil]

/-- What unregistering does: the first name of the tree is the one that counts. -/
theorem unregisterBundle_of_cons {c : InfoTree} {cs : List (String × InfoTree)}
    (h : bundleTree.tree.children = (name, c) :: cs) (s : Switcher) :
    ∃ r, unregisterBundle bundleTree s = some r ∧
      r.1.conf = KeyTree.prune ["bundle", name] s.conf ∧ r.1.kinds = s.kinds := by
  have hname : Components.Plain '.' name :=
    bundleTree.made.wellKeyed.keys (name, c) (by rw [h]; exact List.mem_cons_self)
  rw [unregisterBundle, InfoTree.getChildKeys_root, h]
  exact ⟨_, rfl, congrArg (KeyTree.prune · s.conf) (components_bundle hname), rfl⟩

/-- Pruning the first bundle of the tree that has been grafted leaves the others. -/
theorem prune_graft {c : InfoTree} {cs : List (String × InfoTree)}
    (h : tree.children = (name, c) :: cs) (conf : InfoTree) :
    KeyTree.prune ["bundle", name] (graft "bundle" tree conf) =
      graft "bundle" (tree.setChildren tree.children.tail) conf := by
  have hchild : (graft "bundle" tree conf).child "bundle" = some tree := by
    rw [graft_bundle]
    exact KeyTree.child_graft_self
  have hprune : KeyTree.prune [name] tree = tree.setChildren tree.children.tail := by
    rw [KeyTree.prune, h, KeyTree.eraseKey, if_pos rfl, List.tail_cons]
  have hgraft : ∀ t n : InfoTree, t.setChildren (KeyTree.setKey "bundle" n t.children) =
      graft "bundle" n t := fun t n => (graft_bundle n t).symm
  rw [KeyTree.prune_cons_of_child hchild (by simp), hprune, hgraft, graft_bundle, graft_bundle,
    KeyTree.graft_graft, graft_bundle]

theorem correct_register (h : RegisterOk bundleTree.tree s) :
    StepCorrect accepts env s (.register bundleTree) := by
  obtain ⟨hne, hnames, hkinds, hundone⟩ := h
  obtain ⟨r, hr, hconf, hsame⟩ := registerBundle_of_ne hne s
  have hentry : ∀ b, b ∉ getChildKeys "." bundleTree.tree →
      entry b r.1.conf = entry b s.conf := by
    intro b hb
    have hnew : entry b s.conf = none :=
      not_not.1 fun hold => hb (hnames b (mem_getChildKeys_bundle.2 hold))
    rw [hconf, entry_graft, hnew]
    exact not_not.1 fun hchild => hb (mem_getChildKeys_root.2 hchild)
  have hgrow : ∀ b ∈ s.kinds, b ∈ r.1.kinds := fun b hb => hsame ▸ hb
  refine ⟨r, hr, hentry, hgrow, ?_, ?_, ?_⟩
  · intro b hb hcreatable
    have hown := hkinds b hcreatable.1 hb
    refine creatable_of_eq hown hgrow ?_ (hentry b hb) hcreatable
    rw [hconf]
    exact InfoTree.child_graft_ne plain_bundle hown.2
  · intro _ _ b hb
    rw [hconf, entry_graft]
    exact mem_getChildKeys_root.1 hb
  · intro bundleTree' heq name hname hnew
    obtain rfl := Op.register.inj heq
    obtain ⟨⟨k, c⟩, cs, hcs⟩ := exists_cons_of_getChildKeys_ne hne
    have hhead : k = name := by
      have hname : name ∈ (getChildKeys "." bundleTree.tree).head? := hname
      rw [InfoTree.getChildKeys_root, hcs] at hname
      exact Option.some.inj hname
    subst hhead
    obtain ⟨r', hr', hconf', -⟩ := unregisterBundle_of_cons hcs r.1
    have hplace := hundone k hname hnew
    rw [step, hr', Option.map_some, hconf', hconf, prune_graft hcs, graft_bundle,
      KeyTree.graft_get (by rw [KeyTree.get_singleton, hplace])]

/-! ### Unregistering -/

/-- Pruning a bundle leaves the others. -/
theorem entry_prune_ne (h : b ≠ name) (conf : InfoTree) :
    entry b (KeyTree.prune ["bundle", name] conf) = entry b conf :=
  KeyTree.get_prune_of_parted (Or.inr (Or.inl h))

theorem child_prune_ne (h : k ≠ "bundle") (conf : InfoTree) :
    (KeyTree.prune ["bundle", name] conf).child k = conf.child k := by
  rw [← KeyTree.get_singleton, ← KeyTree.get_singleton]
  exact KeyTree.get_prune_of_parted (Or.inl h)

theorem correct_unregister (h : UnregisterOk bundleTree.tree s) :
    StepCorrect accepts env s (.unregister bundleTree) := by
  obtain ⟨hne, hkinds⟩ := h
  obtain ⟨⟨name, c⟩, cs, hcs⟩ := exists_cons_of_getChildKeys_ne hne
  obtain ⟨r, hr, hconf, hsame⟩ := unregisterBundle_of_cons hcs s
  have hentry : ∀ b, b ∉ getChildKeys "." bundleTree.tree →
      entry b r.1.conf = entry b s.conf := by
    intro b hb
    have hb : b ≠ name := by
      rintro rfl
      exact hb (by rw [InfoTree.getChildKeys_root, hcs]; exact List.mem_cons_self)
    rw [hconf, entry_prune_ne hb]
  have hgrow : ∀ b ∈ s.kinds, b ∈ r.1.kinds := fun b hb => hsame ▸ hb
  refine ⟨r, hr, hentry, hgrow, ?_, fun hop => absurd rfl (hop bundleTree), ?_⟩
  · intro b hb hcreatable
    have hown := hkinds b hcreatable.1 hb
    refine creatable_of_eq hown hgrow ?_ (hentry b hb) hcreatable
    rw [hconf, child_prune_ne hown.2]
  · intro bundleTree' heq
    cases heq

/-! ### The bundles of a text -/

theorem branchGetCopy_bundle (hb : Components.Plain '.' b) (t : InfoTree) :
    branchGetCopy ("bundle." ++ b) t = (entry b t).map InfoTree.copy := by
  have hcomps := components_bundle hb
  rw [branchGetCopy, InfoTree.branch_eq_get (by rw [hcomps]; simp), hcomps, entry]

theorem branchGetCopy_dot_bundle (hb : Components.Plain '.' b) (t : InfoTree) :
    branchGetCopy (".bundle." ++ b) t = (entry b t).map InfoTree.copy := by
  have hcomps := components_dot_bundle hb
  rw [branchGetCopy, InfoTree.branch_eq_get (by rw [hcomps]; simp), hcomps, entry]

/-- A bundle that is there is skipped. -/
theorem addBundles_of_ne (hname : Components.Plain '.' name) (h : entry name new ≠ none) :
    addBundles bundles (name :: names) new = addBundles bundles names new := by
  rw [addBundles, if_pos]
  rw [branchGetCopy_dot_bundle hname, Option.isSome_map]
  exact Option.isSome_iff_ne_none.2 h

/-- A bundle that is not there is grafted. -/
theorem addBundles_of_eq {e : InfoTree} (hname : Components.Plain '.' name)
    (h : entry name new = none) (he : entry name bundles = some e) :
    addBundles bundles (name :: names) new =
      ((addBundles bundles names
        (KeyTree.graft InfoTree.emptyNode ["bundle", name] new (InfoTree.copy e))).1, true) := by
  have hcomps := components_dot_bundle_dot hname
  rw [addBundles, if_neg, branchGetCopy_bundle hname, he]
  · dsimp only [Option.map_some]
    rw [graft, hcomps, if_neg (by simp)]
  · rw [branchGetCopy_dot_bundle hname, h]
    exact Bool.false_ne_true

theorem entry_graft_ne {leaf : InfoTree} (h : b ≠ name) (t : InfoTree) :
    entry b (KeyTree.graft InfoTree.emptyNode ["bundle", name] t leaf) = entry b t :=
  KeyTree.get_graft_of_parted (Or.inr (Or.inl h))

/-- What the loop leaves: the rest of the configuration, the value at the bundles and the bundles
that are there or that the text does not name; those that it names and are not there are
copied. -/
structure Added (bundles : InfoTree) (names : List String) (new new' : InfoTree) : Prop where
  others : ∀ k, k ≠ "bundle" → new'.child k = new.child k
  value : InfoTree.valueAt ["bundle"] new' = InfoTree.valueAt ["bundle"] new
  old : ∀ b n, entry b new = some n → entry b new' = some n
  same : ∀ b ∉ names, entry b new' = entry b new
  copied : ∀ b ∈ names, entry b new = none → entry b new' = (entry b bundles).map InfoTree.copy

/-- One bundle is grafted. -/
theorem added_graft {e : InfoTree} (h : entry name new = none) (he : entry name bundles = some e) :
    Added bundles [name] new
      (KeyTree.graft InfoTree.emptyNode ["bundle", name] new (InfoTree.copy e)) where
  others k hk := KeyTree.child_graft_ne hk
  value := by
    rw [InfoTree.valueAt, InfoTree.valueAt, KeyTree.get_singleton, KeyTree.get_singleton,
      KeyTree.child_graft_self]
    cases new.child "bundle" <;> rfl
  old b n hn := by
    have hb : b ≠ name := by
      rintro rfl
      rw [h] at hn
      cases hn
    rw [entry_graft_ne hb, hn]
  same b hb := entry_graft_ne (fun heq => hb (List.mem_singleton.2 heq)) new
  copied b hb _ := by
    obtain rfl := List.mem_singleton.1 hb
    rw [he, Option.map_some]
    exact KeyTree.get_graft_self ["bundle", b] new _

theorem Added.trans {new' new'' : InfoTree} (h : Added bundles [name] new new')
    (h' : Added bundles names new' new'') : Added bundles (name :: names) new new'' where
  others k hk := (h'.others k hk).trans (h.others k hk)
  value := h'.value.trans h.value
  old b n hn := h'.old b n (h.old b n hn)
  same b hb := by
    rw [List.mem_cons, not_or] at hb
    rw [h'.same b hb.2, h.same b (by simpa using hb.1)]
  copied b hb hnew := by
    by_cases hname : b = name
    · subst hname
      have hcopy := h.copied b (by simp) hnew
      cases he : entry b bundles with
      | some e =>
          rw [he, Option.map_some] at hcopy
          rw [h'.old b _ hcopy, Option.map_some]
      | none =>
          rw [he, Option.map_none] at hcopy
          by_cases hmem : b ∈ names
          · rw [h'.copied b hmem hcopy, he]
          · rw [h'.same b hmem, hcopy, Option.map_none]
    · have hsame := h.same b (by simpa using hname)
      rw [hnew] at hsame
      exact h'.copied b ((List.mem_cons.1 hb).resolve_left hname) hsame

theorem Added.skip {new' : InfoTree} (hname : entry name new ≠ none)
    (h : Added bundles names new new') : Added bundles (name :: names) new new' where
  others := h.others
  value := h.value
  old := h.old
  same b hb := h.same b fun hmem => hb (List.mem_cons_of_mem _ hmem)
  copied b hb hnew := by
    have hne : b ≠ name := by
      rintro rfl
      exact hname hnew
    exact h.copied b ((List.mem_cons.1 hb).resolve_left hne) hnew

/-- The loop adds the bundles that the text names, and says whether there were any: by induction
on the names. -/
theorem added_addBundles (hnames : ∀ b ∈ names, Components.Plain '.' b ∧ entry b bundles ≠ none)
    (new : InfoTree) : Added bundles names new (addBundles bundles names new).1 ∧
      ((addBundles bundles names new).2 = false ↔ ∀ b ∈ names, entry b new ≠ none) := by
  induction names generalizing new with
  | nil => exact ⟨⟨fun _ _ => rfl, rfl, fun _ _ h => h, fun _ _ => rfl, by simp⟩, by
      simp [addBundles]⟩
  | cons name names ih =>
      rw [List.forall_mem_cons] at hnames
      obtain ⟨⟨hname, hmem⟩, hnames⟩ := hnames
      by_cases hnew : entry name new = none
      · obtain ⟨e, he⟩ := Option.ne_none_iff_exists'.1 hmem
        rw [addBundles_of_eq hname hnew he]
        refine ⟨(added_graft hnew he).trans (ih hnames _).1, ?_⟩
        exact iff_of_false (by simp) fun h => h name List.mem_cons_self hnew
      · rw [addBundles_of_ne hname hnew, List.forall_mem_cons]
        exact ⟨(ih hnames new).1.skip hnew, (ih hnames new).2.trans (and_iff_right hnew).symm⟩

/-! ### Merging the configuration with its extended copy -/

/-- The entry of a bundle after a merge. -/
theorem entry_merge (hconf : conf.WellKeyed) (hnew : new.WellKeyed) (b : String) :
    entry b (merge conf new) =
      match entry b new with
      | none => (if InfoTree.valueAt ["bundle"] new ≠ .null then
          some (InfoTree.makeValue (InfoTree.valueAt ["bundle"] new))
          else (conf.child "bundle").map InfoTree.settle).bind fun n => n.child b
      | some e => InfoTree.mergeInto e
          ((if InfoTree.valueAt ["bundle"] new ≠ .null then
            some (InfoTree.makeValue (InfoTree.valueAt ["bundle"] new))
            else (conf.child "bundle").map InfoTree.settle).bind fun n => n.child b) := by
  rw [entry_eq_bind, InfoTree.child_merge hconf hnew, entry_eq_bind, InfoTree.valueAt,
    KeyTree.get_singleton]
  cases hc : new.child "bundle" with
  | none => rw [Option.bind_none, Option.map_none, Option.getD_none, if_neg (not_not.2 rfl)]
  | some c => exact InfoTree.child_mergeInto (hnew.child hc) _ b

/-- The merge keeps the entries of the configuration, and makes those that have a value of the
entries that were added. -/
theorem entry_merge_of_added (hconf : conf.WellKeyed) (hnew : new.WellKeyed)
    (hadded : Added bundles names (InfoTree.copy conf) new)
    (hkept : ∀ n ∈ conf.child "bundle", InfoTree.kept n = true) (b : String) :
    (∀ n, entry b conf = some n → entry b (merge conf new) = some n) ∧
      (entry b conf = none → b ∉ names → entry b (merge conf new) = none) ∧
      (entry b conf = none → b ∈ names → ∀ e, entry b bundles = some e → e.WellKeyed →
        InfoTree.hasValue e = true → entry b (merge conf new) ≠ none) := by
  have hcopy : ∀ b, entry b (InfoTree.copy conf) = (entry b conf).map InfoTree.settle := fun b => by
    rw [InfoTree.copy_eq_settle hconf, entry, InfoTree.get_settle, entry]
  have hvalue : InfoTree.valueAt ["bundle"] new = InfoTree.valueAt ["bundle"] conf :=
    hadded.value.trans (InfoTree.valueAt_copy hconf _)
  have hnone : entry b conf = none →
      ((if InfoTree.valueAt ["bundle"] new ≠ .null then
        some (InfoTree.makeValue (InfoTree.valueAt ["bundle"] new))
        else (conf.child "bundle").map InfoTree.settle).bind fun n => n.child b) = none := by
    intro h
    split_ifs
    · rfl
    · rw [entry_eq_bind] at h
      cases hn : conf.child "bundle" with
      | none => rfl
      | some n =>
          rw [hn, Option.bind_some] at h
          rw [Option.map_some, Option.bind_some, InfoTree.child_settle, h, Option.map_none]
  refine ⟨fun c hc => ?_, fun h hb => ?_, fun h hb e he hwell hsome => ?_⟩
  · obtain ⟨n, hn, hnc⟩ := Option.bind_eq_some_iff.1 ((entry_eq_bind b conf).symm.trans hc)
    have hsettle := InfoTree.settle_of_kept n (hkept n hn)
    have hchild : InfoTree.settle c = c := by
      have h := InfoTree.child_settle n b
      rw [hsettle, hnc, Option.map_some] at h
      exact (Option.some.inj h).symm
    have hold := hadded.old b (InfoTree.settle c) (by rw [hcopy, hc, Option.map_some])
    have hdata : InfoTree.valueAt ["bundle"] conf = InfoTree.data n := by
      rw [InfoTree.valueAt, KeyTree.get_singleton, hn]
      rfl
    rw [entry_merge hconf hnew, hold, hchild, hvalue, hdata, hn, Option.map_some, hsettle]
    exact InfoTree.mergeInto_child_of_kept (hconf.child hn) (hkept n hn) hnc
  · have hsame := hadded.same b hb
    rw [hcopy, h, Option.map_none] at hsame
    rw [entry_merge hconf hnew, hsame]
    exact hnone h
  · have hcopied := hadded.copied b hb (by rw [hcopy, h, Option.map_none])
    rw [he, Option.map_some, InfoTree.copy_eq_settle hwell] at hcopied
    rw [entry_merge hconf hnew, hcopied]
    dsimp only
    rw [hnone h, ← Option.isSome_iff_ne_none, InfoTree.isSome_mergeInto, InfoTree.hasValue_settle,
      hsome, Bool.or_true]

/-- The default values are those of the shmdata. -/
theorem child_setDefaults (runtimeDir : Option String) (conf : InfoTree) (hk : k ≠ "shm") :
    (setDefaults runtimeDir conf).child k = conf.child k := by
  have hset : ∀ (p : Prop) [Decidable p] (path v key : String) (t : InfoTree),
      InfoTree.components path = ["shm", key] →
        (if p then vgraft path (.str v) t else t).child k = t.child k := by
    intro p _ path v key t hcomps
    split_ifs
    · rw [vgraft, graft, hcomps, if_neg (by simp), KeyTree.child_graft_ne hk]
    · rfl
  rw [setDefaults]
  exact (hset _ ".shm.prefix" "switcher_" "prefix" _ (by decide)).trans
    (hset _ ".shm.directory" _ "directory" conf (by decide))

theorem entry_setDefaults (runtimeDir : Option String) (conf : InfoTree) (b : String) :
    entry b (setDefaults runtimeDir conf) = entry b conf := by
  rw [entry_eq_bind, child_setDefaults runtimeDir conf (by decide), ← entry_eq_bind]

/-! ### Loading -/

/-- Kinds are only added. -/
theorem subset_registerKinds (its quidKinds kinds docs : List String) :
    kinds ⊆ (registerKinds conf its quidKinds kinds docs).1 := by
  induction its generalizing quidKinds kinds docs with
  | nil => exact List.Subset.refl _
  | cons it its ih =>
      rw [registerKinds]
      split_ifs
      · exact List.Subset.trans (fun b hb => List.mem_insert_of_mem hb) (ih _ _ _)
      · exact ih _ _ _

theorem conf_registerBundleFromConfiguration (s : Switcher) :
    (registerBundleFromConfiguration s).conf = s.conf := rfl

theorem subset_registerBundleFromConfiguration (s : Switcher) :
    s.kinds ⊆ (registerBundleFromConfiguration s).kinds :=
  subset_registerKinds _ _ _ _

/-- What the text of `bundles` adds to a copy of the configuration. -/
theorem added_copy (hbundles : bundles.Reachable) (s : Switcher) :
    Added bundles (getChildKeys "bundle" bundles) (InfoTree.copy s.conf)
        (addBundles bundles (getChildKeys "bundle" bundles) (InfoTree.copy s.conf)).1 ∧
      ((addBundles bundles (getChildKeys "bundle" bundles) (InfoTree.copy s.conf)).2 = false ↔
        ∀ b ∈ getChildKeys "bundle" bundles, entry b s.conf ≠ none) := by
  have hentry : ∀ b, entry b (InfoTree.copy s.conf) ≠ none ↔ entry b s.conf ≠ none := fun b => by
    rw [InfoTree.copy_eq_settle s.made.wellKeyed, entry, InfoTree.get_settle, entry, Ne,
      Option.map_eq_none_iff]
  have h := added_addBundles (fun b hb =>
    ⟨InfoTree.plain_of_mem_getChildKeys hbundles.wellKeyed hb, mem_getChildKeys_bundle.1 hb⟩)
    (InfoTree.copy s.conf)
  exact ⟨h.1, h.2.trans (forall₂_congr fun b _ => hentry b)⟩

/-- Nothing is done with a text all of whose bundles are there. -/
theorem loadBundleFromConfig_of_present (runtimeDir : Option String) (hbundles : bundles.Reachable)
    (h : ∀ b ∈ getChildKeys "bundle" bundles, entry b s.conf ≠ none) :
    loadBundleFromConfig runtimeDir bundles s = (s, true) := by
  have hfalse := (added_copy hbundles s).2.2 h
  rw [loadBundleFromConfig]
  dsimp only
  rw [hfalse]
  rfl

/-- What loading does where a bundle of the text is new. -/
theorem loadBundleFromConfig_of_new (runtimeDir : Option String) (hbundles : bundles.Reachable)
    (h : ¬∀ b ∈ getChildKeys "bundle" bundles, entry b s.conf ≠ none) :
    ∃ s', loadBundleFromConfig runtimeDir bundles s = (s', true) ∧ s.kinds ⊆ s'.kinds ∧
      s'.conf = fromTree runtimeDir s.conf
        (addBundles bundles (getChildKeys "bundle" bundles) (InfoTree.copy s.conf)).1 := by
  have htrue : (addBundles bundles (getChildKeys "bundle" bundles) (InfoTree.copy s.conf)).2 =
      true := by
    rw [← Bool.not_eq_false, (added_copy hbundles s).2]
    exact h
  obtain ⟨loaded, hloaded⟩ : ∃ loaded : Switcher, loaded = { s with
    conf := fromTree runtimeDir s.conf
      (addBundles bundles (getChildKeys "bundle" bundles) (InfoTree.copy s.conf)).1
    made := reachable_fromTree runtimeDir s.conf _ } := ⟨_, rfl⟩
  refine ⟨registerBundleFromConfiguration (registerBundleFromConfiguration loaded), ?_, ?_, ?_⟩
  · rw [loadBundleFromConfig, hloaded]
    dsimp only
    rw [if_pos htrue]
  · have hkinds : s.kinds = loaded.kinds := by rw [hloaded]
    rw [hkinds]
    exact List.Subset.trans (subset_registerBundleFromConfiguration loaded)
      (subset_registerBundleFromConfiguration _)
  · rw [conf_registerBundleFromConfiguration, conf_registerBundleFromConfiguration, hloaded]

theorem correct_load {text : String} (h : LoadOk (env.deserialize text).tree s) :
    StepCorrect accepts env s (.load text) := by
  have hmade := (env.deserialize text).made
  by_cases hall : ∀ b ∈ getChildKeys "bundle" (env.deserialize text).tree, entry b s.conf ≠ none
  · refine ⟨(s, true), congrArg some (loadBundleFromConfig_of_present _ hmade hall),
      fun _ _ => rfl, fun _ hb => hb, fun _ _ h => h, fun _ _ => hall, ?_⟩
    intro bundleTree heq
    cases heq
  · obtain ⟨hvalues, hkept, hkinds⟩ := h.resolve_left hall
    obtain ⟨s', hs', hgrow, hconf'⟩ := loadBundleFromConfig_of_new env.runtimeDir hmade hall
    have hconf := s.made.wellKeyed
    have hadded := (added_copy hmade s).1
    have hwell := (reachable_addBundles (env.deserialize text).tree
      (getChildKeys "bundle" (env.deserialize text).tree)
      (InfoTree.reachable_copy s.conf)).wellKeyed
    have hmerged := entry_merge_of_added hconf hwell hadded hkept
    have hentry : ∀ b, entry b s'.conf = entry b (merge s.conf _) := fun b => by
      rw [hconf', fromTree, entry_setDefaults]
    have hsame : ∀ b, b ∉ getChildKeys "bundle" (env.deserialize text).tree →
        entry b s'.conf = entry b s.conf := by
      intro b hb
      rw [hentry]
      cases hold : entry b s.conf with
      | none => exact (hmerged b).2.1 hold hb
      | some n => exact (hmerged b).1 n hold
    refine ⟨(s', true), congrArg some hs', hsame, fun b hb => hgrow hb, ?_, ?_, ?_⟩
    · intro b hb hcreatable
      obtain ⟨hown, hshm, hkept⟩ := hkinds b hcreatable.1 hb
      refine creatable_of_eq hown (fun b hb => hgrow hb) ?_ (hsame b hb) hcreatable
      have hsettle : (InfoTree.copy s.conf).child b = (s.conf.child b).map InfoTree.settle := by
        rw [InfoTree.copy_eq_settle hconf, InfoTree.child_settle]
      have hcopy := (hadded.others b hown.2).trans hsettle
      rw [hconf', fromTree, child_setDefaults _ _ hshm,
        InfoTree.child_merge_of_kept hconf hwell hcopy hkept]
    · intro _ _ b hb
      change entry b s'.conf ≠ none
      rw [hentry]
      cases hold : entry b s.conf with
      | some n =>
          rw [(hmerged b).1 n hold]
          exact Option.some_ne_none n
      | none =>
          have hmem : entry b (env.deserialize text).tree ≠ none := mem_getChildKeys_bundle.1 hb
          obtain ⟨e, he⟩ := Option.ne_none_iff_exists'.1 hmem
          exact (hmerged b).2.2 hold hb e he (KeyTree.WellKeyed.get hmade.wellKeyed he)
            (hvalues b hb hold e he)
    · intro bundleTree heq
      cases heq

/-! ### Runs -/

/-- An operation is correct where its condition is met. -/
theorem stepCorrect_of_stepOk (accepts : String → InfoTree → Bool) (h : StepOk env s op) :
    StepCorrect accepts env s op := by
  cases op with
  | load text => exact correct_load h
  | register bundleTree => exact correct_register h
  | unregister bundleTree => exact correct_unregister h

/-- **Registering bundles is local.**  In a run whose operations all meet the condition, every
operation leaves the bundles that it does not name, and the kinds that could be created. -/
theorem stepsCorrect_of_admits (accepts : String → InfoTree → Bool) (env : Environment)
    (s : Switcher) (ops : List Op) (h : Machine.Admits (step env) (StepOk env) s ops) :
    Machine.Admits (step env) (StepCorrect accepts env) s ops :=
  h.mono fun _ _ hok => stepCorrect_of_stepOk accepts hok

/-- The constructor of a bundle needs a pipeline. -/
def needsPipeline (_ : String) (config : InfoTree) : Bool :=
  InfoTree.branchHasData "pipeline" config

/-- A switcher with no bundle. -/
def withoutBundle : Switcher where
  conf := graft "bundle" InfoTree.make (setDefaults none InfoTree.make)
  made := InfoTree.Reachable.make.graft "bundle" (reachable_setDefaults none .make)
  kinds := ["dummysink"]
  docs := []

/-- The document of a bundle. -/
def document (name : String) : String × Json :=
  (name, .obj [("pipeline", .str "dummysink name=view"), ("doc", .obj
    [("long_name", .str name), ("description", .str "Shows a source")])])

/-- The tree of a bundle. -/
def treeOf (name : String) : BundleTree where
  tree := (InfoTree.addJsonNode (.obj [document name])).getD InfoTree.make
  made := by
    cases h : InfoTree.addJsonNode (.obj [document name]) with
    | none => exact .make
    | some t => exact InfoTree.reachable_addJsonNode _ t h

/-- An environment where a text stands for the bundle it names. -/
def named : Environment where
  glib := ⟨fun _ => none, fun text => .ok (some (.obj [("bundle", .obj [document text])]))⟩
  lost _ := ⟨InfoTree.make, .make⟩
  runtimeDir := none

/-- A bundle is registered where there is none, unregistered and registered again, and another
one is loaded. -/
theorem stepsCorrect_screen_camera :
    Machine.Admits (step named) (StepCorrect needsPipeline named) withoutBundle
      [.register (treeOf "screen"), .unregister (treeOf "screen"), .register (treeOf "screen"),
        .load "camera"] := by
  refine stepsCorrect_of_admits needsPipeline named withoutBundle _ ?_
  refine ⟨⟨by decide +kernel, by decide +kernel, by decide +kernel, fun _ _ _ => rfl⟩, ?_⟩
  rintro _ ⟨⟩
  refine ⟨⟨by decide +kernel, by decide +kernel⟩, ?_⟩
  rintro _ ⟨⟩
  refine ⟨⟨by decide +kernel, by decide +kernel, by decide +kernel, fun _ _ _ => rfl⟩, ?_⟩
  rintro _ ⟨⟩
  refine ⟨Or.inr ⟨by decide +kernel, by decide +kernel, by decide +kernel⟩, ?_⟩
  exact fun _ _ => trivial

/-- Of two bundles that are registered one after the other, the first one is lost. -/
theorem not_stepsCorrect_camera_screen :
    ¬Machine.Admits (step named) (StepCorrect needsPipeline named) withoutBundle
      [.register (treeOf "camera"), .register (treeOf "screen")] := by
  intro h
  obtain ⟨⟨r, hr, hcorrect⟩, -⟩ := h.2 _ rfl
  obtain rfl := Option.some.inj hr
  have hentry := congrArg Option.isSome (hcorrect.entries "camera" (by decide +kernel))
  exact absurd hentry (by decide +kernel)

end Bundles
end LibSwitcher
