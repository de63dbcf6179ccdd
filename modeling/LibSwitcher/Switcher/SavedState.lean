/-
# The tree of a saved state

`get_state` as a list of edits of a new tree (`saveEdits`), each at a path that starts
with the name of a section and goes on with the keys of a nickname.  When the nicknames
have one key each and no two of them the same, what is found under a section and the key
of a nickname is the product of the edits for this quiddity alone.  Whatever the
nicknames are, the keys of a section are those that nicknames start with, and the
nickname written at a key is read as that key.
-/

import LibSwitcher.Switcher.State

namespace LibSwitcher

open InfoTree

namespace Switcher

/-- An edit of an information tree. -/
abbrev TreeEdit := KeyTree.Edit String NodeData

/-- What `tag_as_array` makes of a node. -/
def tagged (d : NodeData) : NodeData := ⟨d.data, true⟩

/-- The keys of the nickname of a quiddity. -/
def nickKeys (q : Quiddity Body) : List String := components q.nickname

/-- The key of a saved reader. -/
def readerKey (nb : ℕ) : String := "reader_" ++ toString nb

/-- Where the readers of a quiddity that have a writer are saved. -/
def fromQuidPath (ks : List String) : List String := "readers" :: (ks ++ ["shm_from_quid"])

/-- Where the other readers of a quiddity are saved. -/
def rawPath (ks : List String) : List String := "readers" :: (ks ++ ["raw_shm"])

/-- What is saved of a reader. -/
def readerEdit (ks : List String) (r : (String × Option InfoTree) × ℕ) : TreeEdit :=
  match r.1.2 with
  | some info => .graft (fromQuidPath ks ++ [readerKey r.2]) info
  | none => .graft (rawPath ks ++ [readerKey r.2]) (makeValue (.str r.1.1))

/-- What is saved of a property. -/
def propertyEdit (q : Quiddity Body) (prop : String) : TreeEdit :=
  .graft ("properties" :: (nickKeys q ++ [prop])) (makeValue (q.body.value prop))

/-- The properties that are saved. -/
def savedProperties (q : Quiddity Body) : List String :=
  q.body.properties.filter fun prop => q.body.Saves prop

/-- Their values, with the names. -/
def propertyLeaves (q : Quiddity Body) : List (String × InfoTree) :=
  (savedProperties q).map fun prop => (prop, makeValue (q.body.value prop))

/-- The custom state that is saved. -/
def savedCustomState (q : Quiddity Body) : Option InfoTree :=
  q.body.customState.filter fun tree => !tree.isEmpty

/-- What is saved of the custom state. -/
def customEdits (q : Quiddity Body) : List TreeEdit :=
  (savedCustomState q).toList.map fun tree => .graft ("custom_states" :: nickKeys q) tree

/-- What is saved of the kind. -/
def kindEdits (q : Quiddity Body) : List TreeEdit :=
  [.graft ("quiddities" :: nickKeys q) (makeValue (.str q.kind))]

/-- What is saved of the nickname. -/
def nicknameEdits (q : Quiddity Body) : List TreeEdit :=
  [.graft ("nicknames" :: nickKeys q) (makeValue (.str q.nickname))]

/-- What is saved of the user data. -/
def userDataEdits (q : Quiddity Body) : List TreeEdit :=
  if q.body.userData.isEmpty then [] else [.graft ("userdata" :: nickKeys q) q.body.userData]

/-- What is saved of the connections. -/
def connectionEdits (f : Factory) (q : Quiddity Body) : List TreeEdit :=
  if "connect-quid" ∉ f.methods q.kind then []
  else ((savedReaders f q).zipIdx 1).map (readerEdit (nickKeys q)) ++
    [.relabel (fromQuidPath (nickKeys q)) tagged, .relabel (rawPath (nickKeys q)) tagged]

/-- The edits by which a quiddity is saved, with their sections. -/
def saveParts (f : Factory) (q : Quiddity Body) : List (String × List TreeEdit) :=
  [("custom_states", customEdits q), ("quiddities", kindEdits q), ("nicknames", nicknameEdits q),
    ("userdata", userDataEdits q), ("properties", (savedProperties q).map (propertyEdit q)),
    ("readers", connectionEdits f q)]

/-- The edits by which a quiddity is saved. -/
def saveEdits (f : Factory) (q : Quiddity Body) : List TreeEdit := (saveParts f q).flatMap Prod.snd

variable {f : Factory} {q : Quiddity Body} {k sec path : String} {ks p : List String}
  {t state leaf : InfoTree}

/-! ### The calls of `get_state` as edits -/

theorem graft_eq_apply (h : components path = k :: ks) :
    graft path leaf state = KeyTree.Edit.apply emptyNode (.graft (k :: ks) leaf) state := by
  rw [graft, h, if_neg (by simp)]
  rfl

theorem tagAsArray_eq_apply (h : components path = k :: ks) :
    tagAsArray path true state =
      KeyTree.Edit.apply emptyNode (.relabel (k :: ks) tagged) state := by
  have hne : components path ≠ [] := by rw [h]; simp
  rw [tagAsArray, pathIsRoot_of_components hne, if_neg (by simp), if_neg hne, h]
  rfl

/-- The keys of a path in a section. -/
theorem components_section (sec : String) (h : Components.Plain '.' sec) (s : String) :
    components ("." ++ sec ++ "." ++ s) = sec :: components s := by
  rw [components, Components.components_append_sep _ rfl]
  exact congrArg (· ++ components s) (components_dot h)

theorem plain_readerKey (nb : ℕ) : Components.Plain '.' (readerKey nb) := by
  have hnb : Components.Plain '.' (toString nb) := Components.plain_toString (by decide) nb
  constructor
  · intro h
    have hlist := congrArg String.toList h
    rw [readerKey, String.toList_append] at hlist
    exact absurd (List.append_eq_nil_iff.1 hlist).2 (by simpa using hnb.1)
  · rw [readerKey, String.toList_append, List.mem_append, not_or]
    exact ⟨by decide, hnb.2⟩

theorem readerKey_inj {m n : ℕ} : readerKey m = readerKey n ↔ m = n := by
  rw [readerKey, readerKey, ← Components.toString_inj (m := m)]
  refine ⟨fun h => ?_, congrArg _⟩
  have hlist := congrArg String.toList h
  rw [String.toList_append, String.toList_append] at hlist
  exact String.toList_inj.1 (List.append_cancel_left hlist)

/-- The key of a reader starts as no other key does. -/
theorem readerKey_ne (nb : ℕ) {s : String} (h : s.toList.take 2 ≠ ['r', 'e']) :
    readerKey nb ≠ s := by
  rintro rfl
  rw [readerKey, String.toList_append, List.take_append_of_le_length (by decide)] at h
  exact h (by decide)

theorem components_part (nick part : String) (hpart : Components.Plain '.' part) :
    components (".readers." ++ nick ++ ("." ++ part)) =
      "readers" :: (components nick ++ [part]) := by
  rw [← String.append_assoc, components, Components.components_append_sep _ rfl,
    Components.components_of_plain hpart]
  exact congrArg (· ++ [part]) (components_section "readers" (by decide) nick)

theorem components_reader (nick part : String) (hpart : Components.Plain '.' part)
    (nb : ℕ) : components (".readers." ++ nick ++ ("." ++ part ++ ".reader_") ++ toString nb) =
      "readers" :: (components nick ++ [part]) ++ [readerKey nb] := by
  have hsplit : ".readers." ++ nick ++ ("." ++ part ++ ".reader_") ++ toString nb =
      ".readers." ++ nick ++ ("." ++ part) ++ "." ++ readerKey nb := by
    rw [readerKey, show (".reader_" : String) = "." ++ "reader_" from rfl]
    simp only [String.append_assoc]
  rw [hsplit, components, Components.components_append_sep _ rfl,
    Components.components_of_plain (plain_readerKey nb)]
  exact congrArg (· ++ [readerKey nb]) (components_part nick part hpart)

theorem applyAll_append (es es' : List TreeEdit) (t : InfoTree) :
    KeyTree.applyAll emptyNode (es ++ es') t =
      KeyTree.applyAll emptyNode es' (KeyTree.applyAll emptyNode es t) :=
  List.foldl_append

theorem saveCustomState_eq (q : Quiddity Body) (state : InfoTree) :
    saveCustomState q state = KeyTree.applyAll emptyNode (customEdits q) state := by
  rw [saveCustomState, customEdits, savedCustomState]
  cases q.body.customState with
  | none => rfl
  | some tree =>
      dsimp only
      cases hempty : tree.isEmpty with
      | true => simp [hempty, Option.filter, KeyTree.applyAll]
      | false =>
          simpa [hempty, Option.filter, KeyTree.applyAll, nickKeys] using
            graft_eq_apply (components_section "custom_states" (by decide) _)

theorem saveNames_eq (q : Quiddity Body) (state : InfoTree) :
    saveNames false q state = KeyTree.applyAll emptyNode (kindEdits q ++ nicknameEdits q) state := by
  have hkinds := components_section "quiddities" (by decide) q.nickname
  have hnicks := components_section "nicknames" (by decide) q.nickname
  rw [saveNames, if_neg (by simp)]
  exact (graft_eq_apply hnicks).trans (congrArg _ (graft_eq_apply hkinds))

theorem saveUserData_eq (q : Quiddity Body) (state : InfoTree) :
    saveUserData q state = KeyTree.applyAll emptyNode (userDataEdits q) state := by
  rw [saveUserData, userDataEdits]
  split_ifs
  · rfl
  · exact graft_eq_apply (components_section "userdata" (by decide) _)

/-- The loop on the properties. -/
theorem saveProperties_eq (q : Quiddity Body) (props : List String) (state : InfoTree)
    (hprops : ∀ prop ∈ props, Components.Plain '.' prop) :
    props.foldl (saveProperty q) state =
      KeyTree.applyAll emptyNode
        ((props.filter fun prop => q.body.Saves prop).map (propertyEdit q)) state := by
  induction props generalizing state with
  | nil => rfl
  | cons prop props ih =>
      rw [List.foldl_cons, ih _ fun prop' h => hprops prop' (List.mem_cons_of_mem _ h), saveProperty]
      split_ifs with hsaves
      · have hpath : components (".properties." ++ q.nickname ++ "." ++ prop) =
            "properties" :: (nickKeys q ++ [prop]) := by
          rw [components, Components.components_append_sep _ rfl,
            Components.components_of_plain (hprops prop List.mem_cons_self)]
          exact congrArg (· ++ [prop]) (components_section "properties" (by decide) _)
        rw [List.filter_cons_of_pos (by simpa using hsaves), List.map_cons, KeyTree.applyAll,
          KeyTree.applyAll, List.foldl_cons, graft_eq_apply hpath]
        rfl
      · rw [List.filter_cons_of_neg (by simpa using hsaves)]

/-- The loop on the readers. -/
theorem saveReaders_eq (q : Quiddity Body) (nb : ℕ) (readers : List String) (state : InfoTree) :
    saveReaders q nb readers state = KeyTree.applyAll emptyNode
      (((readers.map fun r => (r, writerInfo q.body r)).zipIdx (nb + 1)).map
        (readerEdit (nickKeys q))) state := by
  induction readers generalizing nb state with
  | nil => rfl
  | cons reader readers ih =>
      rw [saveReaders, ih, List.map_cons, List.zipIdx_cons, List.map_cons, KeyTree.applyAll,
        KeyTree.applyAll, List.foldl_cons]
      refine congrArg (fun t => List.foldl _ t _) ?_
      cases hinfo : writerInfo q.body reader with
      | some info =>
          have hpath := components_reader q.nickname "shm_from_quid" (by decide) (nb + 1)
          exact (graft_eq_apply hpath).trans (by simp [readerEdit, fromQuidPath, nickKeys])
      | none =>
          have hpath := components_reader q.nickname "raw_shm" (by decide) (nb + 1)
          exact (graft_eq_apply hpath).trans (by simp [readerEdit, rawPath, nickKeys])

theorem saveConnections_eq (f : Factory) (q : Quiddity Body) (state : InfoTree) :
    saveConnections f q state = KeyTree.applyAll emptyNode (connectionEdits f q) state := by
  rw [saveConnections, connectionEdits]
  by_cases hmeth : "connect-quid" ∈ f.methods q.kind
  · have hfrom := components_part q.nickname "shm_from_quid" (by decide)
    have hraw := components_part q.nickname "raw_shm" (by decide)
    rw [if_neg (not_not.2 hmeth), if_neg (not_not.2 hmeth), savedReaders, if_pos hmeth,
      applyAll_append, saveReaders_eq]
    exact (tagAsArray_eq_apply hraw).trans (congrArg _ (tagAsArray_eq_apply hfrom))
  · rw [if_pos hmeth, if_pos hmeth]
    rfl

/-- What is saved of a quiddity that was made after the last reset. -/
theorem saveQuiddity_eq (hprops : ∀ prop ∈ q.body.properties, Components.Plain '.' prop)
    (state : InfoTree) :
    saveQuiddity f false q state = KeyTree.applyAll emptyNode (saveEdits f q) state := by
  rw [saveQuiddity, saveCustomState_eq, saveNames_eq, saveUserData_eq,
    saveProperties_eq q _ _ hprops, saveConnections_eq, saveEdits, saveParts, savedProperties]
  simp only [List.flatMap_cons, List.flatMap_nil, List.append_nil, applyAll_append]

/-! ### The quiddities that are saved -/

/-- The quiddities of a container, in the order in which they are saved. -/
def savedQuiddities (c : Container Body) : List (Quiddity Body) :=
  c.ids.ids.filterMap c.quiddities.lookup

/-- The tree in which quiddities are saved. -/
def stateOf (f : Factory) (qs : List (Quiddity Body)) : InfoTree :=
  KeyTree.applyAll emptyNode (qs.flatMap (saveEdits f)) InfoTree.make

theorem saveAll_eq {c : Container Body} {quidditiesAtReset : List ℕ} {ids : List ℕ}
    (hids : ∀ id ∈ ids, id ∉ quidditiesAtReset ∧ ∃ q, c.quiddities.lookup id = some q ∧
      ∀ prop ∈ q.body.properties, Components.Plain '.' prop) (state : InfoTree) :
    saveAll f quidditiesAtReset c ids state = some (KeyTree.applyAll emptyNode
      ((ids.filterMap c.quiddities.lookup).flatMap (saveEdits f)) state) := by
  induction ids generalizing state with
  | nil => rfl
  | cons id ids ih =>
      obtain ⟨hreset, q, hq, hprops⟩ := hids id List.mem_cons_self
      have hfalse : decide (id ∈ quidditiesAtReset) = false := decide_eq_false hreset
      rw [saveAll, hq, Option.bind_some, hfalse, saveQuiddity_eq hprops,
        ih fun id' h => hids id' (List.mem_cons_of_mem _ h),
        List.filterMap_cons_some (f := fun id => c.quiddities.lookup id) hq, List.flatMap_cons,
        applyAll_append]

/-- The trees of a quiddity are made by the functions of information trees. -/
structure Made (q : Quiddity Body) : Prop where
  tree : Reachable q.body.tree
  userData : Reachable q.body.userData
  customState : ∀ tree ∈ q.body.customState, Reachable tree

theorem Made.plain_properties (h : Made q) :
    ∀ prop ∈ q.body.properties, Components.Plain '.' prop :=
  fun _ hprop => plain_of_mem_getChildKeys h.tree.wellKeyed hprop

theorem Made.plain_savedProperties (h : Made q) :
    ∀ prop ∈ savedProperties q, Components.Plain '.' prop :=
  fun prop hprop => h.plain_properties prop (List.mem_of_mem_filter hprop)

theorem Made.nodup_savedProperties (h : Made q) : (savedProperties q).Nodup :=
  (nodup_getChildKeys h.tree.wellKeyed).filter _

/-- The quiddities are those of the container. -/
theorem mem_savedQuiddities {c : Container Body} (hc : c.Consistent) :
    q ∈ savedQuiddities c ↔ ∃ id, (⟨id, q⟩ : Sigma fun _ : ℕ => Quiddity Body) ∈
      c.quiddities.entries := by
  rw [savedQuiddities, List.mem_filterMap]
  refine exists_congr fun id => ?_
  rw [← AList.mem_lookup_iff]
  refine and_iff_right_iff_imp.2 fun hq => ?_
  exact (hc.mem_iff id).1 (AList.lookup_isSome.1 (Option.isSome_iff_exists.2 ⟨q, hq⟩))

/-- Their nicknames are different. -/
theorem nodup_nicknames {c : Container Body} (hc : c.Consistent) :
    ((savedQuiddities c).map Quiddity.nickname).Nodup := by
  rw [savedQuiddities, List.map_filterMap]
  exact c.ids.nodup.filterMap fun id id' nick hid hid' => hc.nickname_inj id id' nick hid hid'

theorem length_savedQuiddities_le (c : Container Body) :
    (savedQuiddities c).length ≤ Ids.kMaxNumOfIds :=
  Nat.le_trans (List.length_filterMap_le _ _) c.ids.length_le

/-- The state of a switcher without a quiddity of the last reset. -/
theorem getState_eq {c : Container Body} {quidditiesAtReset : List ℕ} (hc : c.Consistent)
    (hmade : ∀ e ∈ c.quiddities.entries, Made e.2)
    (hreset : ∀ id ∈ quidditiesAtReset, id ∉ c.ids.ids) :
    getState f quidditiesAtReset c = some (stateOf f (savedQuiddities c)) := by
  refine saveAll_eq (fun id hid => ⟨fun hmem => hreset id hmem hid, ?_⟩) _
  obtain ⟨q, hq⟩ := Option.isSome_iff_exists.1 (AList.lookup_isSome.2 ((hc.mem_iff id).2 hid))
  exact ⟨q, hq, (hmade _ (AList.mem_lookup_iff.1 hq)).plain_properties⟩

/-! ### The saved tree is well keyed -/

theorem reachable_saveReaders (q : Quiddity Body) (nb : ℕ) (readers : List String)
    (hstate : Reachable state) : Reachable (saveReaders q nb readers state) := by
  induction readers generalizing nb state with
  | nil => exact hstate
  | cons reader readers ih =>
      rw [saveReaders]
      refine ih _ ?_
      cases hinfo : writerInfo q.body reader with
      | some info =>
          obtain ⟨t, -, rfl⟩ := Option.map_eq_some_iff.1 hinfo
          exact Reachable.graft _ (reachable_copy t) hstate
      | none => exact Reachable.graft _ (Reachable.makeValue _) hstate

theorem reachable_saveQuiddity (h : Made q) (atReset : Bool) (hstate : Reachable state) :
    Reachable (saveQuiddity f atReset q state) := by
  have hcustom : Reachable (saveCustomState q state) := by
    rw [saveCustomState]
    cases htree : q.body.customState with
    | none => exact hstate
    | some tree =>
        dsimp only
        split_ifs
        · exact hstate
        · exact Reachable.graft _ (h.customState tree htree) hstate
  have hnames : Reachable (saveNames atReset q (saveCustomState q state)) := by
    rw [saveNames]
    split_ifs
    · exact hcustom
    · exact Reachable.graft _ (Reachable.makeValue _)
        (Reachable.graft _ (Reachable.makeValue _) hcustom)
  have huser : Reachable (saveUserData q (saveNames atReset q (saveCustomState q state))) := by
    rw [saveUserData]
    split_ifs
    · exact hnames
    · exact Reachable.graft _ h.userData hnames
  have hprops : ∀ (props : List String) (state : InfoTree), Reachable state →
      Reachable (props.foldl (saveProperty q) state) := by
    intro props
    induction props with
    | nil => exact fun state hstate => hstate
    | cons prop props ih =>
        intro state hstate
        refine ih _ ?_
        rw [saveProperty]
        split_ifs
        · exact Reachable.graft _ (Reachable.makeValue _) hstate
        · exact hstate
  rw [saveQuiddity, saveConnections]
  split_ifs
  · exact Reachable.tagAsArray _ _
      (Reachable.tagAsArray _ _ (reachable_saveReaders q _ _ (hprops _ _ huser)))
  · exact hprops _ _ huser

theorem reachable_stateOf {qs : List (Quiddity Body)} (h : ∀ q ∈ qs, Made q) :
    Reachable (stateOf f qs) := by
  have hall : ∀ state, Reachable state →
      Reachable (KeyTree.applyAll emptyNode (qs.flatMap (saveEdits f)) state) := by
    induction qs with
    | nil => exact fun state hstate => hstate
    | cons q qs ih =>
        intro state hstate
        have hq := h q List.mem_cons_self
        rw [List.flatMap_cons, applyAll_append, ← saveQuiddity_eq hq.plain_properties]
        exact ih (fun q' h' => h q' (List.mem_cons_of_mem _ h')) _
          (reachable_saveQuiddity hq false hstate)
  exact hall _ Reachable.make

/-! ### Sections -/

/-- Edits of a section, below the keys of a nickname. -/
def Within (sec : String) (ks : List String) (es : List TreeEdit) : Prop :=
  ∀ e ∈ es, ∃ rest, e.path = sec :: (ks ++ rest)

theorem within_customEdits (q : Quiddity Body) :
    Within "custom_states" (nickKeys q) (customEdits q) := by
  intro e he
  obtain ⟨tree, -, rfl⟩ := List.mem_map.1 he
  exact ⟨[], by rw [List.append_nil]; rfl⟩

theorem within_kindEdits (q : Quiddity Body) : Within "quiddities" (nickKeys q) (kindEdits q) := by
  intro e he
  obtain rfl := List.mem_singleton.1 he
  exact ⟨[], by rw [List.append_nil]; rfl⟩

theorem within_nicknameEdits (q : Quiddity Body) :
    Within "nicknames" (nickKeys q) (nicknameEdits q) := by
  intro e he
  obtain rfl := List.mem_singleton.1 he
  exact ⟨[], by rw [List.append_nil]; rfl⟩

theorem within_userDataEdits (q : Quiddity Body) :
    Within "userdata" (nickKeys q) (userDataEdits q) := by
  intro e he
  unfold userDataEdits at he
  split_ifs at he
  · cases he
  · obtain rfl := List.mem_singleton.1 he
    exact ⟨[], by rw [List.append_nil]; rfl⟩

theorem within_propertyEdits (q : Quiddity Body) (props : List String) :
    Within "properties" (nickKeys q) (props.map (propertyEdit q)) := by
  intro e he
  obtain ⟨prop, -, rfl⟩ := List.mem_map.1 he
  exact ⟨_, rfl⟩

/-- The edits for the connections are made in one of two parts. -/
theorem path_connectionEdits {e : TreeEdit} (he : e ∈ connectionEdits f q) :
    ∃ part rest, (part = "shm_from_quid" ∨ part = "raw_shm") ∧
      e.path = "readers" :: (nickKeys q ++ part :: rest) := by
  unfold connectionEdits at he
  split_ifs at he
  · rcases List.mem_append.1 he with he | he
    · obtain ⟨r, -, rfl⟩ := List.mem_map.1 he
      rw [readerEdit]
      split
      · exact ⟨_, _, Or.inl rfl, congrArg _ (List.append_assoc _ _ _)⟩
      · exact ⟨_, _, Or.inr rfl, congrArg _ (List.append_assoc _ _ _)⟩
    · rcases List.mem_cons.1 he with rfl | he
      · exact ⟨_, _, Or.inl rfl, rfl⟩
      · obtain rfl := List.mem_singleton.1 he
        exact ⟨_, _, Or.inr rfl, rfl⟩
  · cases he

theorem within_connectionEdits (f : Factory) (q : Quiddity Body) :
    Within "readers" (nickKeys q) (connectionEdits f q) := by
  intro e he
  obtain ⟨part, rest, -, hpath⟩ := path_connectionEdits he
  exact ⟨_, hpath⟩

theorem within_saveParts {part : String × List TreeEdit} (h : part ∈ saveParts f q) :
    Within part.1 (nickKeys q) part.2 := by
  simp only [saveParts, List.mem_cons, List.not_mem_nil, or_false] at h
  rcases h with rfl | rfl | rfl | rfl | rfl | rfl
  · exact within_customEdits q
  · exact within_kindEdits q
  · exact within_nicknameEdits q
  · exact within_userDataEdits q
  · exact within_propertyEdits q _
  · exact within_connectionEdits f q

/-- The edits for a quiddity are made below the keys of its nickname. -/
theorem path_saveEdits {e : TreeEdit} (he : e ∈ saveEdits f q) :
    ∃ sec rest, e.path = sec :: (nickKeys q ++ rest) := by
  obtain ⟨part, hpart, he⟩ := List.mem_flatMap.1 he
  exact ⟨part.1, within_saveParts hpart e he⟩

/-- Where one element of a list alone gives something. -/
theorem flatMap_eq_of_unique {α β : Type} {g : α → List β} {l : List α} {x : α} (hl : l.Nodup)
    (hx : x ∈ l) (h : ∀ y ∈ l, y ≠ x → g y = []) : l.flatMap g = g x := by
  induction l with
  | nil => cases hx
  | cons y l ih =>
      obtain ⟨hy, hl⟩ := List.nodup_cons.1 hl
      rw [List.flatMap_cons]
      by_cases hyx : y = x
      · subst hyx
        have hrest : l.flatMap g = [] := List.flatMap_eq_nil_iff.2 fun z hz =>
          h z (List.mem_cons_of_mem _ hz) fun hzy => hy (hzy ▸ hz)
        rw [hrest, List.append_nil]
      · rw [h y List.mem_cons_self hyx, List.nil_append]
        exact ih hl ((List.mem_cons.1 hx).resolve_left (Ne.symm hyx)) fun z hz =>
          h z (List.mem_cons_of_mem _ hz)

theorem saveParts_nodup (f : Factory) (q : Quiddity Body) :
    ((saveParts f q).map Prod.fst).Nodup :=
  show ["custom_states", "quiddities", "nicknames", "userdata", "properties", "readers"].Nodup by
    decide

theorem saveParts_inj {part part' : String × List TreeEdit} (h : part ∈ saveParts f q)
    (h' : part' ∈ saveParts f q) (heq : part.1 = part'.1) : part = part' :=
  List.inj_on_of_nodup_map (saveParts_nodup f q) h h' heq

/-- From a section only the edits made in it are seen. -/
theorem below_saveEdits {part : String × List TreeEdit} (h : part ∈ saveParts f q)
    (p : List String) : (saveEdits f q).filterMap (KeyTree.Edit.below (part.1 :: p)) =
      part.2.filterMap (KeyTree.Edit.below (part.1 :: p)) := by
  rw [saveEdits, List.filterMap_flatMap]
  refine flatMap_eq_of_unique (saveParts_nodup f q).of_map h fun part' h' hne => ?_
  refine List.filterMap_eq_nil_iff.2 fun e he => ?_
  obtain ⟨rest, hpath⟩ := within_saveParts h' e he
  refine KeyTree.Edit.below_of_parted ?_
  rw [hpath]
  exact Or.inl fun heq => hne (saveParts_inj h' h heq.symm)

/-- A section is the product of the edits made in it. -/
theorem get_stateOf_section (f : Factory) (qs : List (Quiddity Body)) (sec : String) :
    (stateOf f qs).get [sec] = KeyTree.applyAllAt emptyNode
      (qs.flatMap fun q => (saveEdits f q).filterMap (KeyTree.Edit.below [sec])) none := by
  rw [stateOf, KeyTree.get_applyAll, List.filterMap_flatMap, InfoTree.make,
    KeyTree.get_node_nil (by simp)]
  intro e he
  obtain ⟨q, -, he⟩ := List.mem_flatMap.1 he
  obtain ⟨sec', rest, hpath⟩ := path_saveEdits he
  by_cases hsec : sec = sec'
  · exact Or.inl ⟨_, by rw [hpath, hsec, List.singleton_append]⟩
  · exact Or.inr (by rw [hpath]; exact Or.inl hsec)

/-- What is seen of a graft. -/
theorem below_graft (sec : String) (p r : List String) (leaf : InfoTree) :
    KeyTree.Edit.below (sec :: p) (.graft (sec :: (p ++ r)) leaf) = some (.graft r leaf) :=
  KeyTree.Edit.below_of_append rfl

/-- The edits for a quiddity seen from the section of the kinds. -/
theorem below_quiddities {r : List String} (h : nickKeys q = p ++ r) :
    (saveEdits f q).filterMap (KeyTree.Edit.below ("quiddities" :: p)) =
      [.graft r (makeValue (.str q.kind))] := by
  have hpart : ("quiddities", kindEdits q) ∈ saveParts f q := by simp [saveParts]
  rw [below_saveEdits hpart, kindEdits, h, List.filterMap_cons_some (below_graft _ _ _ _),
    List.filterMap_nil]

/-- The edits for a quiddity seen from the section of the nicknames. -/
theorem below_nicknames {r : List String} (h : nickKeys q = p ++ r) :
    (saveEdits f q).filterMap (KeyTree.Edit.below ("nicknames" :: p)) =
      [.graft r (makeValue (.str q.nickname))] := by
  have hpart : ("nicknames", nicknameEdits q) ∈ saveParts f q := by simp [saveParts]
  rw [below_saveEdits hpart, nicknameEdits, h, List.filterMap_cons_some (below_graft _ _ _ _),
    List.filterMap_nil]

/-- A section as the code reads it. -/
theorem get_getTree {path : String} (h : components path = [sec]) (t : InfoTree) (hp : p ≠ []) :
    (getTree path t).get p = t.get (sec :: p) := by
  rw [getTree, branch_eq_get (by rw [h]; simp), h, InfoTree.make, KeyTree.get_getD _ hp,
    ← KeyTree.get_append, List.singleton_append]

/-- A section in which every quiddity has a leaf at the keys of its nickname: a key of it is
one that nicknames start with, and a value at a key that of a quiddity with this key. -/
theorem child_section {qs : List (Quiddity Body)} (value : Quiddity Body → Any) {c : InfoTree}
    (hpath : components path = [sec])
    (hbelow : ∀ q, (saveEdits f q).filterMap (KeyTree.Edit.below [sec]) =
      [.graft (nickKeys q) (makeValue (value q))])
    (h : (getTree path (stateOf f qs)).child k = some c) :
    (∃ q ∈ qs, ∃ ks, nickKeys q = k :: ks) ∧
      (c.data = .null ∨ ∃ q ∈ qs, nickKeys q = [k] ∧ c.data = value q) := by
  rw [← KeyTree.get_singleton, get_getTree hpath _ (by simp), ← List.singleton_append,
    KeyTree.get_append, get_stateOf_section] at h
  obtain ⟨t, ht, hc⟩ := Option.bind_eq_some_iff.1 h
  rw [KeyTree.get_singleton] at hc
  have hedits : (qs.flatMap fun q => (saveEdits f q).filterMap (KeyTree.Edit.below [sec])) =
      qs.map fun q => .graft (nickKeys q) (.node ⟨value q, false⟩ []) := by
    rw [List.map_eq_flatMap]
    exact congrArg (qs.flatMap ·) (funext hbelow)
  rw [hedits] at ht
  obtain ⟨hkey, hlabel⟩ := KeyTree.child_applyAllAt_leaves qs
    (A := fun k => ∃ q ∈ qs, ∃ ks, nickKeys q = k :: ks)
    (B := fun k d => ∃ q ∈ qs, nickKeys q = [k] ∧ d = ⟨value q, false⟩)
    (fun q hq k ks hks => ⟨q, hq, ks, hks⟩) (fun q hq k hk => ⟨q, hq, hk, rfl⟩)
    (fun t ht => by cases ht) t ht k c hc
  refine ⟨hkey, hlabel.imp (fun h => congrArg NodeData.data h) ?_⟩
  rintro ⟨q, hq, hk, hlabel⟩
  exact ⟨q, hq, hk, congrArg NodeData.data hlabel⟩

/-! ### Nicknames of one key -/

/-- The nicknames have one key each, and no two of them the same. -/
structure OneKey (qs : List (Quiddity Body)) : Prop where
  single : ∀ q ∈ qs, ∃ k, nickKeys q = [k]
  distinct : (qs.map nickKeys).Nodup

/-- What is saved of the readers in one of the two parts, with the keys. -/
def partReaders (leaf : String × Option InfoTree → Option InfoTree) (f : Factory)
    (q : Quiddity Body) : List (String × InfoTree) :=
  ((savedReaders f q).zipIdx 1).filterMap fun r => (leaf r.1).map fun t => (readerKey r.2, t)

/-- A reader that has a writer is saved with the description of the writer. -/
def fromQuidLeaf (r : String × Option InfoTree) : Option InfoTree := r.2

/-- Another reader is saved with its path. -/
def rawLeaf (r : String × Option InfoTree) : Option InfoTree :=
  if r.2 = none then some (makeValue (.str r.1)) else none

variable {qs : List (Quiddity Body)} {es : List TreeEdit}

theorem OneKey.nodup (h : OneKey qs) : qs.Nodup := h.distinct.of_map

theorem OneKey.eq_of_nickKeys (h : OneKey qs) {q' : Quiddity Body} (hq : q ∈ qs) (hq' : q' ∈ qs)
    (heq : nickKeys q = nickKeys q') : q = q' :=
  List.inj_on_of_nodup_map h.distinct hq hq' heq

/-- What is found in a section below the key of a nickname is the product of the edits for its
quiddity. -/
theorem OneKey.get_stateOf (h : OneKey qs) (hq : q ∈ qs) (hk : nickKeys q = [k])
    (hpart : (sec, es) ∈ saveParts f q)
    (hown : ∀ e ∈ es, (∃ r, e.path = sec :: k :: p ++ r) ∨ KeyTree.Parted (sec :: k :: p) e.path) :
    (stateOf f qs).get (sec :: k :: p) = KeyTree.applyAllAt emptyNode
      (es.filterMap (KeyTree.Edit.below (sec :: k :: p))) none := by
  have hother : ∀ q' ∈ qs, q' ≠ q → ∀ e ∈ saveEdits f q',
      KeyTree.Parted (sec :: k :: p) e.path := by
    intro q' hq' hne e he
    obtain ⟨k', hk'⟩ := h.single q' hq'
    obtain ⟨sec', rest, hpath⟩ := path_saveEdits he
    rw [hpath, hk']
    refine Or.inr (Or.inl fun heq => hne ?_)
    exact h.eq_of_nickKeys hq' hq (by rw [hk, hk', heq])
  have hsame : ∀ e ∈ saveEdits f q, (∃ r, e.path = sec :: k :: p ++ r) ∨
      KeyTree.Parted (sec :: k :: p) e.path := by
    intro e he
    obtain ⟨part, hpart', he⟩ := List.mem_flatMap.1 he
    obtain ⟨rest, hpath⟩ := within_saveParts hpart' e he
    by_cases hsec : part.1 = sec
    · obtain rfl := saveParts_inj hpart' hpart hsec
      exact hown e he
    · exact Or.inr (by rw [hpath]; exact Or.inl (Ne.symm hsec))
  rw [stateOf, KeyTree.get_applyAll, List.filterMap_flatMap, InfoTree.make,
    KeyTree.get_node_nil (by simp), flatMap_eq_of_unique h.nodup hq, below_saveEdits hpart]
  · intro q' hq' hne
    exact List.filterMap_eq_nil_iff.2 fun e he =>
      KeyTree.Edit.below_of_parted (hother q' hq' hne e he)
  · intro e he
    obtain ⟨q', hq', he⟩ := List.mem_flatMap.1 he
    by_cases heq : q' = q
    · exact hsame e (heq ▸ he)
    · exact Or.inr (hother q' hq' heq e he)

/-- All edits of a section for a quiddity are made below its key. -/
theorem OneKey.get_stateOf_key (h : OneKey qs) (hq : q ∈ qs) (hk : nickKeys q = [k])
    (hpart : (sec, es) ∈ saveParts f q) :
    (stateOf f qs).get [sec, k] =
      KeyTree.applyAllAt emptyNode (es.filterMap (KeyTree.Edit.below [sec, k])) none := by
  refine h.get_stateOf hq hk hpart fun e he => ?_
  obtain ⟨rest, hpath⟩ := within_saveParts hpart e he
  exact Or.inl ⟨rest, by rw [hpath, hk]; rfl⟩

/-- A leaf grafted at the key of a nickname is what is found there. -/
theorem applyAllAt_graft_key (sec k : String) (leaf : InfoTree) :
    KeyTree.applyAllAt emptyNode
      (List.filterMap (KeyTree.Edit.below [sec, k]) [.graft [sec, k] leaf]) none = some leaf := by
  have hbelow : KeyTree.Edit.below [sec, k] (.graft [sec, k] leaf) = some (.graft [] leaf) :=
    below_graft sec [k] [] leaf
  rw [List.filterMap_cons_some hbelow]
  rfl

theorem OneKey.get_quiddities (h : OneKey qs) (hq : q ∈ qs) (hk : nickKeys q = [k]) :
    (stateOf f qs).get ["quiddities", k] = some (makeValue (.str q.kind)) := by
  have hpart : ("quiddities", kindEdits q) ∈ saveParts f q := by simp [saveParts]
  rw [h.get_stateOf_key hq hk hpart, kindEdits, hk, applyAllAt_graft_key]

theorem OneKey.get_nicknames (h : OneKey qs) (hq : q ∈ qs) (hk : nickKeys q = [k]) :
    (stateOf f qs).get ["nicknames", k] = some (makeValue (.str q.nickname)) := by
  have hpart : ("nicknames", nicknameEdits q) ∈ saveParts f q := by simp [saveParts]
  rw [h.get_stateOf_key hq hk hpart, nicknameEdits, hk, applyAllAt_graft_key]

theorem OneKey.get_customStates (h : OneKey qs) (hq : q ∈ qs) (hk : nickKeys q = [k]) :
    (stateOf f qs).get ["custom_states", k] = savedCustomState q := by
  have hpart : ("custom_states", customEdits q) ∈ saveParts f q := by simp [saveParts]
  rw [h.get_stateOf_key hq hk hpart, customEdits, hk]
  cases savedCustomState q with
  | none => rfl
  | some tree => exact applyAllAt_graft_key _ _ _

theorem OneKey.get_userData (h : OneKey qs) (hq : q ∈ qs) (hk : nickKeys q = [k]) :
    (stateOf f qs).get ["userdata", k] =
      if q.body.userData.isEmpty then none else some q.body.userData := by
  have hpart : ("userdata", userDataEdits q) ∈ saveParts f q := by simp [saveParts]
  rw [h.get_stateOf_key hq hk hpart, userDataEdits, hk]
  split_ifs
  · rfl
  · exact applyAllAt_graft_key _ _ _

theorem map_fst_propertyLeaves (q : Quiddity Body) :
    (propertyLeaves q).map Prod.fst = savedProperties q := by
  rw [propertyLeaves, List.map_map]
  exact List.map_id _

/-- The saved properties of a quiddity, where there are any. -/
theorem OneKey.get_properties (h : OneKey qs) (hq : q ∈ qs) (hk : nickKeys q = [k])
    (hnodup : (savedProperties q).Nodup) :
    (stateOf f qs).get ["properties", k] =
      if savedProperties q = [] then none else some (.node emptyNode (propertyLeaves q)) := by
  have hpart : ("properties", (savedProperties q).map (propertyEdit q)) ∈ saveParts f q := by
    simp [saveParts]
  have hbelow : ((savedProperties q).map (propertyEdit q)).filterMap
      (KeyTree.Edit.below ["properties", k]) =
        (propertyLeaves q).map fun e => .graft [e.1] e.2 := by
    rw [propertyLeaves, List.filterMap_map, List.map_map, ← List.filterMap_eq_map]
    refine List.filterMap_congr fun prop _ => ?_
    rw [Function.comp_apply, propertyEdit, hk]
    exact below_graft "properties" [k] [prop] _
  rw [h.get_stateOf_key hq hk hpart, hbelow, KeyTree.applyAllAt_graft_none]
  · simp only [propertyLeaves, List.map_eq_nil_iff]
  · rwa [map_fst_propertyLeaves]

/-- The keys of the saved readers are different. -/
theorem nodup_partReaders (leaf : String × Option InfoTree → Option InfoTree) (f : Factory)
    (q : Quiddity Body) : ((partReaders leaf f q).map Prod.fst).Nodup := by
  have hnumbers : ((savedReaders f q).zipIdx 1).Pairwise fun r r' => r.2 ≠ r'.2 := by
    rw [← List.pairwise_map (f := Prod.snd), List.zipIdx_map_snd]
    exact List.nodup_range'
  rw [List.Nodup, List.pairwise_map, partReaders, List.pairwise_filterMap]
  refine hnumbers.imp fun {r r'} hne e he e' he' heq => hne ?_
  obtain ⟨t, -, rfl⟩ := Option.map_eq_some_iff.1 he
  obtain ⟨t', -, rfl⟩ := Option.map_eq_some_iff.1 he'
  exact readerKey_inj.1 heq

/-- What is seen of a saved reader from the part of those that have a writer. -/
theorem below_readerEdit_fromQuid (k : String) (r : (String × Option InfoTree) × ℕ) :
    KeyTree.Edit.below ["readers", k, "shm_from_quid"] (readerEdit [k] r) =
      (fromQuidLeaf r.1).map fun t => .graft [readerKey r.2] t := by
  rw [readerEdit, fromQuidLeaf]
  cases hwriter : r.1.2 with
  | some info => exact below_graft "readers" [k, "shm_from_quid"] [readerKey r.2] info
  | none => exact KeyTree.Edit.below_of_parted (Or.inr (Or.inr (Or.inl (by decide))))

/-- What is seen of a saved reader from the other part. -/
theorem below_readerEdit_raw (k : String) (r : (String × Option InfoTree) × ℕ) :
    KeyTree.Edit.below ["readers", k, "raw_shm"] (readerEdit [k] r) =
      (rawLeaf r.1).map fun t => .graft [readerKey r.2] t := by
  rw [readerEdit, rawLeaf]
  cases hwriter : r.1.2 with
  | some info =>
      rw [if_neg (by simp)]
      exact KeyTree.Edit.below_of_parted (Or.inr (Or.inr (Or.inl (by decide))))
  | none =>
      rw [if_pos rfl]
      exact below_graft "readers" [k, "raw_shm"] [readerKey r.2] _

/-- What is seen of the connections from one of the two parts. -/
theorem below_connectionEdits (hk : nickKeys q = [k]) {name : String}
    {leaf : String × Option InfoTree → Option InfoTree}
    (hleaf : ∀ r, KeyTree.Edit.below ["readers", k, name] (readerEdit [k] r) =
      (leaf r.1).map fun t => .graft [readerKey r.2] t)
    (hname : name = "shm_from_quid" ∨ name = "raw_shm") :
    (connectionEdits f q).filterMap (KeyTree.Edit.below ["readers", k, name]) =
      if "connect-quid" ∉ f.methods q.kind then []
      else (partReaders leaf f q).map (fun e => .graft [e.1] e.2) ++ [.relabel [] tagged] := by
  rw [connectionEdits]
  split_ifs with hmeth
  · have hreaders : (((savedReaders f q).zipIdx 1).map (readerEdit [k])).filterMap
        (KeyTree.Edit.below ["readers", k, name]) =
          (partReaders leaf f q).map fun e => .graft [e.1] e.2 := by
      rw [List.filterMap_map, partReaders, List.map_filterMap]
      refine List.filterMap_congr fun r _ => ?_
      rw [Function.comp_apply, hleaf, Option.map_map]
      rfl
    have hself : KeyTree.Edit.below ["readers", k, name]
        (.relabel ["readers", k, name] tagged) = some (.relabel [] tagged) :=
      KeyTree.Edit.below_of_append (List.append_nil _).symm
    have hother : ∀ name', name ≠ name' → KeyTree.Edit.below ["readers", k, name]
        (.relabel ["readers", k, name'] tagged) = none := fun name' hne =>
      KeyTree.Edit.below_of_parted (Or.inr (Or.inr (Or.inl hne)))
    rw [List.filterMap_append, hk, hreaders, fromQuidPath, rawPath]
    refine congrArg _ ?_
    rcases hname with rfl | rfl
    · exact (List.filterMap_cons_some hself).trans
        (congrArg _ (List.filterMap_cons_none (hother _ (by decide))))
    · exact (List.filterMap_cons_none (hother _ (by decide))).trans
        (List.filterMap_cons_some hself)
  · rfl

/-- A part of the saved readers of a quiddity, tagged as an array, where there are any. -/
theorem OneKey.get_readers (h : OneKey qs) (hq : q ∈ qs) (hk : nickKeys q = [k]) {name : String}
    {leaf : String × Option InfoTree → Option InfoTree}
    (hleaf : ∀ r, KeyTree.Edit.below ["readers", k, name] (readerEdit [k] r) =
      (leaf r.1).map fun t => .graft [readerKey r.2] t)
    (hname : name = "shm_from_quid" ∨ name = "raw_shm") :
    (stateOf f qs).get ["readers", k, name] = if partReaders leaf f q = [] then none
      else some (.node ⟨.null, true⟩ (partReaders leaf f q)) := by
  have hpart : ("readers", connectionEdits f q) ∈ saveParts f q := by simp [saveParts]
  rw [h.get_stateOf hq hk hpart (p := [name]), below_connectionEdits hk hleaf hname]
  · by_cases hmeth : "connect-quid" ∈ f.methods q.kind
    · rw [if_neg (not_not.2 hmeth), KeyTree.applyAllAt, List.foldl_append]
      change Option.map _ (KeyTree.applyAllAt emptyNode _ none) = _
      rw [KeyTree.applyAllAt_graft_none (nodup_partReaders leaf f q)]
      split_ifs <;> rfl
    · have hnil : partReaders leaf f q = [] := by
        rw [partReaders, savedReaders, if_neg hmeth]
        rfl
      rw [if_pos hmeth, if_pos hnil]
      rfl
  · intro e he
    obtain ⟨part, rest, -, hpath⟩ := path_connectionEdits he
    rw [hpath, hk]
    by_cases heq : name = part
    · exact Or.inl ⟨rest, by rw [heq]; rfl⟩
    · exact Or.inr (Or.inr (Or.inr (Or.inl heq)))

/-- Nothing is saved where the paths of the readers are looked for. -/
theorem OneKey.get_reader (h : OneKey qs) (hq : q ∈ qs) (hk : nickKeys q = [k]) (nb : ℕ) :
    (stateOf f qs).get ["readers", k, readerKey nb] = none := by
  have hpart : ("readers", connectionEdits f q) ∈ saveParts f q := by simp [saveParts]
  have hparted : ∀ e ∈ connectionEdits f q,
      KeyTree.Parted ["readers", k, readerKey nb] e.path := by
    intro e he
    obtain ⟨part, rest, hpart, hpath⟩ := path_connectionEdits he
    rw [hpath, hk]
    refine Or.inr (Or.inr (Or.inl ?_))
    rcases hpart with rfl | rfl
    · exact readerKey_ne nb (by decide)
    · exact readerKey_ne nb (by decide)
  rw [h.get_stateOf hq hk hpart (p := [readerKey nb]),
    List.filterMap_eq_nil_iff.2 fun e he => KeyTree.Edit.below_of_parted (hparted e he)]
  · rfl
  · exact fun e he => Or.inr (hparted e he)

end Switcher
end LibSwitcher
