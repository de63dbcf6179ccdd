/-
# The quiddities that loading makes

`load_state` creates a quiddity for every key of the section of the kinds, and from then
on acts on the quiddities by their nicknames: it is a list of actions (`perform`).  A
quiddity is renamed to a nickname that is read as its key, if as anything, so that an
action finds no quiddity but the one that was created with its key (`Holds.onNickname`),
and what becomes of each is computed on its own (`performAt`).
-/

import LibSwitcher.Switcher.SavedState

namespace LibSwitcher

open InfoTree

namespace Switcher

/-- An action on the quiddity of a nickname. -/
abbrev Action := String × (Quiddity Body → Quiddity Body)

/-- Actions on a container, one after the other. -/
def perform (acts : List Action) (c : Container Body) : Container Body :=
  acts.foldl (fun c a => onNickname a.1 a.2 c) c

/-- An action on a quiddity, if it is for its nickname. -/
def actAt (k : String) (a : Action) (q : Quiddity Body) : Quiddity Body :=
  if a.1 = k ∧ q.nickname = k then a.2 q else q

/-- Actions on the quiddity that was created with a key. -/
def performAt (k : String) (acts : List Action) (q : Quiddity Body) : Quiddity Body :=
  acts.foldl (fun q a => actAt k a q) q

/-- A nickname that is read as a key, or is empty. -/
def Named (k nick : String) : Prop := nick = "" ∨ components nick = [k]

/-- An action that gives no nickname but those that are read as its key. -/
def Fits (a : Action) : Prop :=
  Components.Plain '.' a.1 ∧ ∀ q, Named a.1 q.nickname → Named a.1 (a.2 q).nickname

/-- A container holds the quiddities `g k` that were created with the keys `k`, under the
identifiers `ι k`. -/
structure Holds (c : Container Body) (keys : List String) (g : String → Quiddity Body)
    (ι : String → ℕ) : Prop where
  lookup : ∀ id q, c.quiddities.lookup id = some q ↔ ∃ k ∈ keys, ι k = id ∧ g k = q
  inj : ∀ k ∈ keys, ∀ k' ∈ keys, ι k = ι k' → k = k'
  ne_zero : ∀ k ∈ keys, ι k ≠ 0
  named : ∀ k ∈ keys, Named k (g k).nickname

variable {c : Container Body} {keys : List String} {g : String → Quiddity Body} {ι : String → ℕ}
  {k nick : String} {a : Action} {q : Quiddity Body} {acts : List Action}

/-- A plain nickname that is read as a key is this key. -/
theorem Named.eq (h : Named k nick) (hnick : Components.Plain '.' nick) : nick = k := by
  rcases h with rfl | h
  · exact absurd rfl hnick.1
  · rw [components_of_plain hnick] at h
    exact (List.cons.inj h).1

/-- No quiddity has the identifier 0, which `get_id` returns when it finds none. -/
def Zeroless (c : Container Body) : Prop := c.quiddities.lookup 0 = none

/-! ### One action -/

theorem Holds.zeroless (h : Holds c keys g ι) : Zeroless c := by
  refine Option.eq_none_iff_forall_ne_some.2 fun q hq => ?_
  obtain ⟨k, hk, hid, -⟩ := (h.lookup 0 q).1 hq
  exact h.ne_zero k hk hid

theorem Holds.mem_entries (h : Holds c keys g ι) (id : ℕ) :
    (⟨id, q⟩ : Sigma fun _ : ℕ => Quiddity Body) ∈ c.quiddities.entries ↔
      ∃ k ∈ keys, ι k = id ∧ g k = q :=
  AList.mem_lookup_iff.symm.trans (h.lookup id q)

/-- The quiddity that is found by a nickname. -/
theorem Holds.getId (h : Holds c keys g ι) (hnick : Components.Plain '.' nick) :
    c.getId nick = if nick ∈ keys ∧ (g nick).nickname = nick then ι nick else 0 := by
  unfold Container.getId
  cases hfind : c.quiddities.entries.find? fun e => e.2.nickname = nick with
  | none =>
      rw [if_neg, Option.map_none, Option.getD_none]
      rintro ⟨hkey, heq⟩
      have hmem := (h.mem_entries (ι nick)).2 ⟨nick, hkey, rfl, rfl⟩
      exact absurd (List.find?_eq_none.1 hfind _ hmem) (by simpa using heq)
  | some e =>
      have heq : e.2.nickname = nick := by simpa using List.find?_some hfind
      obtain ⟨k, hk, hid, hq⟩ := (h.mem_entries e.1).1 (List.mem_of_find?_eq_some hfind)
      have hkey : nick = k := Named.eq (k := k) (by
        have hnamed := h.named k hk
        rwa [hq, heq] at hnamed) hnick
      subst hkey
      rw [if_pos ⟨hk, by rw [hq, heq]⟩, Option.map_some, Option.getD_some, hid]

/-- An action does what it does to the quiddity that was created with its key, if this one
has the nickname. -/
theorem Holds.onNickname (h : Holds c keys g ι) (ha : Fits a) :
    Holds (onNickname a.1 a.2 c) keys (fun k => actAt k a (g k)) ι where
  lookup := fun id q => by
    have hother : ∀ k ∈ keys, ¬(a.1 = k ∧ (g k).nickname = k) → actAt k a (g k) = g k :=
      fun k _ hk => if_neg hk
    by_cases hfound : a.1 ∈ keys ∧ (g a.1).nickname = a.1
    · have hgetId := (h.getId ha.1).trans (if_pos hfound)
      obtain ⟨hkey, hnick⟩ := hfound
      have hself := (h.lookup (ι a.1) (g a.1)).2 ⟨a.1, hkey, rfl, rfl⟩
      rw [Switcher.onNickname, hgetId, onQuiddity, hself]
      change (c.quiddities.replace (ι a.1) (a.2 (g a.1))).lookup id = some q ↔ _
      rw [Container.lookup_replace, hself, Option.map_some]
      split_ifs with hid
      · subst hid
        constructor
        · intro hq
          obtain rfl := Option.some.inj hq
          exact ⟨a.1, hkey, rfl, if_pos ⟨rfl, hnick⟩⟩
        · rintro ⟨k, hk, hid, rfl⟩
          obtain rfl := h.inj k hk a.1 hkey hid
          rw [actAt, if_pos ⟨rfl, hnick⟩]
      · rw [h.lookup]
        refine exists_congr fun k => and_congr_right fun hk => and_congr_right fun hkid => ?_
        rw [hother k hk fun hka => hid (by rw [← hkid, hka.1])]
    · rw [Switcher.onNickname, h.getId ha.1, if_neg hfound, onQuiddity, h.zeroless]
      change c.quiddities.lookup id = some q ↔ _
      rw [h.lookup]
      refine exists_congr fun k => and_congr_right fun hk => and_congr_right fun _ => ?_
      rw [hother k hk]
      rintro ⟨rfl, hnick⟩
      exact hfound ⟨hk, hnick⟩
  inj := h.inj
  ne_zero := h.ne_zero
  named := fun k hk => by
    rw [actAt]
    split_ifs with hka
    · rw [← hka.1]
      exact ha.2 _ (hka.1 ▸ h.named k hk)
    · exact h.named k hk

/-- Actions do what they do to each quiddity. -/
theorem Holds.perform (h : Holds c keys g ι) (hacts : ∀ a ∈ acts, Fits a) :
    Holds (perform acts c) keys (fun k => performAt k acts (g k)) ι := by
  induction acts generalizing c g with
  | nil => exact h
  | cons a acts ih =>
      exact ih (h.onNickname (hacts a List.mem_cons_self))
        fun a' ha' => hacts a' (List.mem_cons_of_mem _ ha')

/-! ### The actions of `load_state` -/

/-- The actions that load the custom states. -/
def customActions (customStates : InfoTree) (quids : List String) : List Action :=
  quids.map fun it =>
    (it, onLoading (if customStates.isEmpty then InfoTree.make else getTree it customStates))

/-- The actions that give the nicknames. -/
def nicknameActions (nicknames : InfoTree) : List Action :=
  (getChildKeys "." nicknames).map fun it =>
    (it, fun q => { q with nickname := (branchGetValue it nicknames).asString })

/-- A property that says that its quiddity is to be started later. -/
def Starts (properties : InfoTree) (name prop : String) : Prop :=
  prop = "started" ∧ (branchGetValue (name ++ ".started") properties).asBool = true

instance decidableStarts (properties : InfoTree) (name prop : String) :
    Decidable (Starts properties name prop) :=
  inferInstanceAs (Decidable (_ ∧ _))

/-- The actions that set the properties of a quiddity. -/
def propertyActions (f : Factory) (properties : InfoTree) (name : String) : List Action :=
  ((getChildKeys name properties).filter fun prop => ¬Starts properties name prop).map fun prop =>
    (name, setStr f prop (branchGetValue (name ++ "." ++ prop) properties).toString)

/-- The actions that start a quiddity. -/
def startActions (f : Factory) (properties : InfoTree) (name : String) : List Action :=
  ((getChildKeys name properties).filter fun prop => Starts properties name prop).map fun _ =>
    (name, setStr f "started" "true")

/-- The actions that graft the user data of a quiddity. -/
def userDataActions (userData : InfoTree) (it : String) : List Action :=
  (getChildKeys it userData).map fun kit =>
    (it, graftUserData kit (getTree (it ++ "." ++ kit) userData))

/-- The calls that connect a quiddity, with their methods. -/
def readerCalls (readers : InfoTree) (quid : String) : List (String × String × Call) :=
  (getChildKeys (quid ++ ".shm_from_quid") readers).map (fun reader =>
    (quid, "connect-quid", fromQuidCall readers quid reader)) ++
  (getChildKeys (quid ++ ".raw_shm") readers).map fun reader =>
    (quid, "connect", rawCall readers quid reader)

/-- The actions that connect a quiddity. -/
def readerActions (f : Factory) (readers : InfoTree) (quid : String) : List Action :=
  (getChildKeys (quid ++ ".shm_from_quid") readers).map (fun reader =>
    (quid, invoke f "connect-quid" (fromQuidCall readers quid reader))) ++
  (getChildKeys (quid ++ ".raw_shm") readers).map fun reader =>
    (quid, invoke f "connect" (rawCall readers quid reader))

/-- The actions of `load_state` once the nicknames are given. -/
def restActions (f : Factory) (state : InfoTree) : List Action :=
  let properties := getTree ".properties" state
  let userData := getTree "userdata." state
  let readers := getTree ".readers" state
  (getChildKeys "." properties).flatMap (propertyActions f properties) ++
  ((getChildKeys "." userData).flatMap (userDataActions userData) ++
  ((getChildKeys "." properties).flatMap (startActions f properties) ++
  (getChildKeys "." readers).flatMap (readerActions f readers)))

/-- The actions of `load_state`. -/
def loadActions (f : Factory) (state : InfoTree) : List Action :=
  customActions (getTree ".custom_states" state) (getChildKeys "." (getTree ".quiddities" state)) ++
  (nicknameActions (getTree ".nicknames" state) ++ restActions f state)

theorem name_propertyActions (f : Factory) (properties : InfoTree) (name : String) :
    ∀ a ∈ propertyActions f properties name, a.1 = name := by
  intro a ha
  obtain ⟨prop, -, rfl⟩ := List.mem_map.1 ha
  rfl

theorem name_startActions (f : Factory) (properties : InfoTree) (name : String) :
    ∀ a ∈ startActions f properties name, a.1 = name := by
  intro a ha
  obtain ⟨prop, -, rfl⟩ := List.mem_map.1 ha
  rfl

theorem name_userDataActions (userData : InfoTree) (it : String) :
    ∀ a ∈ userDataActions userData it, a.1 = it := by
  intro a ha
  obtain ⟨kit, -, rfl⟩ := List.mem_map.1 ha
  rfl

theorem name_readerActions (f : Factory) (readers : InfoTree) (quid : String) :
    ∀ a ∈ readerActions f readers quid, a.1 = quid := by
  intro a ha
  rcases List.mem_append.1 ha with ha | ha
  · obtain ⟨reader, -, rfl⟩ := List.mem_map.1 ha
    rfl
  · obtain ⟨reader, -, rfl⟩ := List.mem_map.1 ha
    rfl

theorem perform_append (acts acts' : List Action) (c : Container Body) :
    perform (acts ++ acts') c = perform acts' (perform acts c) :=
  List.foldl_append

theorem perform_map {α : Type} (l : List α) (act : α → Action) (c : Container Body) :
    perform (l.map act) c = l.foldl (fun c x => onNickname (act x).1 (act x).2 c) c :=
  List.foldl_map

theorem perform_flatMap {α : Type} (l : List α) (acts : α → List Action) (c : Container Body) :
    perform (l.flatMap acts) c = l.foldl (fun c x => perform (acts x) c) c :=
  List.foldl_flatMap

/-- An action enters no quiddity. -/
theorem Zeroless.onNickname (h : Zeroless c) (nick : String) (act : Quiddity Body → Quiddity Body) :
    Zeroless (onNickname nick act c) := by
  rw [Switcher.onNickname, onQuiddity]
  cases hq : c.quiddities.lookup (c.getId nick) with
  | none => exact h
  | some q =>
      change (c.quiddities.replace (c.getId nick) (act q)).lookup 0 = none
      rw [Container.lookup_replace]
      split_ifs with heq
      · rw [← heq, h]
        rfl
      · exact h

theorem Zeroless.perform (h : Zeroless c) (acts : List Action) : Zeroless (perform acts c) := by
  induction acts generalizing c with
  | nil => exact h
  | cons a acts ih => exact ih (h.onNickname a.1 a.2)

/-- The test that an identifier is not 0 leaves out what does nothing. -/
theorem Zeroless.onFound_eq (h : Zeroless c) (nick : String)
    (act : Quiddity Body → Quiddity Body) : onFound nick act c = Switcher.onNickname nick act c := by
  rw [onFound]
  split_ifs with hzero
  · rw [Switcher.onNickname, hzero, onQuiddity, h]
  · rfl

theorem Zeroless.foldl_onFound (h : Zeroless c) (acts : List Action) :
    acts.foldl (fun c a => onFound a.1 a.2 c) c = Switcher.perform acts c := by
  induction acts generalizing c with
  | nil => rfl
  | cons a acts ih =>
      rw [List.foldl_cons, h.onFound_eq, ih (h.onNickname a.1 a.2)]
      rfl

theorem setNickname_eq (id : ℕ) (nick : String) (c : Container Body) :
    (c.setNickname id nick).1 = onQuiddity id (fun q => { q with nickname := nick }) c := by
  rw [Container.setNickname, onQuiddity]
  cases c.quiddities.lookup id <;> rfl

/-- The loop on the properties of a quiddity. -/
theorem applyProperty_foldl (f : Factory) (properties : InfoTree) (name : String)
    (props : List String) (r : Container Body × List String) :
    props.foldl (applyProperty f properties name) r =
      (perform ((props.filter fun prop => ¬Starts properties name prop).map fun prop =>
        (name, setStr f prop (branchGetValue (name ++ "." ++ prop) properties).toString)) r.1,
        r.2 ++ (props.filter fun prop => Starts properties name prop).map fun _ => name) := by
  induction props generalizing r with
  | nil => exact Prod.ext rfl (List.append_nil _).symm
  | cons prop props ih =>
      rw [List.foldl_cons, ih]
      by_cases hstarts : Starts properties name prop
      · have hlater : applyProperty f properties name r prop = (r.1, r.2 ++ [name]) :=
          if_pos hstarts
        rw [hlater, List.filter_cons_of_neg (by simpa using hstarts),
          List.filter_cons_of_pos (by simpa using hstarts), List.map_cons, List.append_assoc,
          List.singleton_append]
      · have hset : applyProperty f properties name r prop = (onNickname name (setStr f prop
            (branchGetValue (name ++ "." ++ prop) properties).toString) r.1, r.2) := if_neg hstarts
        rw [hset, List.filter_cons_of_pos (by simpa using hstarts),
          List.filter_cons_of_neg (by simpa using hstarts), List.map_cons]
        rfl

/-- The loops on the properties. -/
theorem applyProperties_eq (f : Factory) (properties : InfoTree) (c : Container Body) :
    applyProperties f properties c =
      (perform ((getChildKeys "." properties).flatMap (propertyActions f properties)) c,
        (getChildKeys "." properties).flatMap fun name =>
          ((getChildKeys name properties).filter fun prop => Starts properties name prop).map
            fun _ => name) := by
  have hloop : ∀ (names : List String) (r : Container Body × List String),
      names.foldl (fun r name =>
        (getChildKeys name properties).foldl (applyProperty f properties name) r) r =
      (perform (names.flatMap (propertyActions f properties)) r.1,
        r.2 ++ names.flatMap fun name =>
          ((getChildKeys name properties).filter fun prop => Starts properties name prop).map
            fun _ => name) := by
    intro names
    induction names with
    | nil => exact fun r => Prod.ext rfl (List.append_nil _).symm
    | cons name names ih =>
        intro r
        rw [List.foldl_cons, applyProperty_foldl, ih, List.flatMap_cons, List.flatMap_cons,
          perform_append, List.append_assoc]
        rfl
  rw [applyProperties, hloop]
  rfl

/-- The actions of `load_state` before the readers. -/
def beforeReaders (f : Factory) (state : InfoTree) : List Action :=
  let properties := getTree ".properties" state
  let userData := getTree "userdata." state
  customActions (getTree ".custom_states" state) (getChildKeys "." (getTree ".quiddities" state)) ++
  (nicknameActions (getTree ".nicknames" state) ++
  ((getChildKeys "." properties).flatMap (propertyActions f properties) ++
  ((getChildKeys "." userData).flatMap (userDataActions userData) ++
  (getChildKeys "." properties).flatMap (startActions f properties))))

theorem loadActions_eq (f : Factory) (state : InfoTree) : loadActions f state =
    beforeReaders f state ++ (getChildKeys "." (getTree ".readers" state)).flatMap
      (readerActions f (getTree ".readers" state)) := by
  simp only [loadActions, restActions, beforeReaders, List.append_assoc]

/-! ### The calls that connect -/

/-- Calls of methods, one after the other. -/
def callAll (f : Factory) (calls : List (String × String × Call)) (c : Container Body) :
    Option (Container Body) :=
  calls.foldlM (fun c r => callMethod f r.1 r.2.1 r.2.2 c) c

/-- A call as an action. -/
def callAction (f : Factory) (r : String × String × Call) : Action := (r.1, invoke f r.2.1 r.2.2)

/-- An action keeps the nicknames. -/
def KeepsNickname (act : Quiddity Body → Quiddity Body) : Prop := ∀ q, (act q).nickname = q.nickname

theorem keepsNickname_setStr (f : Factory) (prop text : String) :
    KeepsNickname (setStr f prop text) := by
  intro q
  unfold setStr
  split_ifs
  · split <;> rfl
  · rfl

theorem keepsNickname_invoke (f : Factory) (meth : String) (call : Call) :
    KeepsNickname (invoke f meth call) := by
  intro q
  unfold invoke
  split_ifs <;> rfl

/-- An action keeps the kinds. -/
def KeepsKind (act : Quiddity Body → Quiddity Body) : Prop := ∀ q, (act q).kind = q.kind

theorem keepsKind_setStr (f : Factory) (prop text : String) : KeepsKind (setStr f prop text) := by
  intro q
  unfold setStr
  split_ifs
  · split <;> rfl
  · rfl

theorem keepsKind_invoke (f : Factory) (meth : String) (call : Call) :
    KeepsKind (invoke f meth call) := by
  intro q
  unfold invoke
  split_ifs <;> rfl

/-- Quiddities that keep their nicknames are found as before. -/
theorem getId_onQuiddity {act : Quiddity Body → Quiddity Body} (h : KeepsNickname act) (id : ℕ)
    (nick : String) (c : Container Body) : (onQuiddity id act c).getId nick = c.getId nick := by
  rw [onQuiddity]
  cases hq : c.quiddities.lookup id with
  | none => rfl
  | some q =>
      obtain ⟨ids, l, hl⟩ := c
      change l.dlookup id = some q at hq
      change (((l.kreplace id (act q)).find? fun e => e.2.nickname = nick).map Sigma.fst).getD 0 =
        ((l.find? fun e => e.2.nickname = nick).map Sigma.fst).getD 0
      refine congrArg (Option.getD · 0) ?_
      clear hl
      induction l with
      | nil => rfl
      | cons e l ih =>
          obtain ⟨i, x⟩ := e
          by_cases hi : id = i
          · subst hi
            rw [List.dlookup_cons_eq] at hq
            obtain rfl := Option.some.inj hq
            have hcons : List.kreplace id (act x) (⟨id, x⟩ :: l) = ⟨id, act x⟩ :: l :=
              List.lookmap_cons_some _ _ (if_pos rfl)
            rw [hcons, List.find?_cons, List.find?_cons, h x]
            cases decide (x.nickname = nick) <;> rfl
          · rw [List.dlookup_cons_ne l _ hi] at hq
            have hcons : List.kreplace id (act q) (⟨i, x⟩ :: l) = ⟨i, x⟩ :: l.kreplace id (act q) :=
              List.lookmap_cons_none _ _ (if_neg hi)
            rw [hcons, List.find?_cons, List.find?_cons]
            split
            · rfl
            · exact ih hq

/-- A call leaves the quiddities with the methods they have. -/
theorem answers_onNickname {act : Quiddity Body → Quiddity Body} (hnick : KeepsNickname act)
    (hkind : KeepsKind act) (f : Factory) (nick quid meth : String) (c : Container Body) :
    Answers f quid meth (onNickname nick act c) ↔ Answers f quid meth c := by
  rw [Answers, Answers, onNickname, getId_onQuiddity hnick, onQuiddity]
  cases hq : c.quiddities.lookup (c.getId nick) with
  | none => exact Iff.rfl
  | some q =>
      change (∀ q' ∈ (c.quiddities.replace (c.getId nick) (act q)).lookup (c.getId quid), _) ↔ _
      rw [Container.lookup_replace]
      split_ifs with heq
      · rw [heq, hq, Option.map_some]
        simp only [Option.mem_some_iff, forall_eq', hkind q]
      · exact Iff.rfl

/-- Calls are made where every quiddity that is found has the method, and then only. -/
theorem callAll_eq_some_iff (f : Factory) (calls : List (String × String × Call))
    (c c' : Container Body) : callAll f calls c = some c' ↔
      (∀ r ∈ calls, Answers f r.1 r.2.1 c) ∧ c' = perform (calls.map (callAction f)) c := by
  induction calls generalizing c with
  | nil =>
      rw [callAll, List.foldlM_nil, Option.pure_def, Option.some_inj, eq_comm]
      exact (and_iff_right fun r hr => absurd hr List.not_mem_nil).symm
  | cons r calls ih =>
      rw [callAll, List.foldlM_cons, List.forall_mem_cons, callMethod]
      by_cases hr : Answers f r.1 r.2.1 c
      · rw [if_pos hr]
        refine (ih _).trans ?_
        simp only [answers_onNickname (keepsNickname_invoke f r.2.1 r.2.2)
          (keepsKind_invoke f r.2.1 r.2.2), hr, true_and]
        rfl
      · rw [if_neg hr]
        exact iff_of_false (fun h => by cases h) fun h => hr h.1.1

theorem map_readerCalls (f : Factory) (readers : InfoTree) (quid : String) :
    (readerCalls readers quid).map (callAction f) = readerActions f readers quid := by
  rw [readerCalls, readerActions, List.map_append, List.map_map, List.map_map]
  rfl

theorem callAll_append (f : Factory) (calls calls' : List (String × String × Call))
    (c : Container Body) :
    callAll f (calls ++ calls') c = (callAll f calls c).bind (callAll f calls') :=
  List.foldlM_append

/-- The readers are connected by calls. -/
theorem connectReaders_eq (f : Factory) (readers : InfoTree) (c : Container Body) :
    connectReaders f readers c =
      callAll f ((getChildKeys "." readers).flatMap (readerCalls readers)) c := by
  rw [connectReaders]
  induction getChildKeys "." readers generalizing c with
  | nil => rfl
  | cons quid quids ih =>
      rw [List.foldlM_cons, List.flatMap_cons, callAll_append, readerCalls, callAll_append, callAll,
        List.foldlM_map]
      refine congrArg₂ Option.bind ?_ (funext ih)
      refine congrArg (Option.bind _) (funext fun c => ?_)
      rw [callAll, List.foldlM_map]

/-- The custom states are loaded by actions. -/
theorem Zeroless.loadCustomStates_eq (h : Zeroless c) (customStates : InfoTree)
    (quids : List String) :
    loadCustomStates customStates quids c = Switcher.perform (customActions customStates quids) c := by
  rw [← h.foldl_onFound, loadCustomStates, customActions, List.foldl_map]

/-- The user data are grafted by actions. -/
theorem Zeroless.applyUserData_eq (h : Zeroless c) (userData : InfoTree) :
    applyUserData userData c =
      Switcher.perform ((getChildKeys "." userData).flatMap (userDataActions userData)) c := by
  rw [← h.foldl_onFound, applyUserData, List.foldl_flatMap]
  simp only [userDataActions, List.foldl_map]

theorem applyNicknames_eq (nicknames : InfoTree) (c : Container Body) :
    applyNicknames nicknames c = perform (nicknameActions nicknames) c := by
  rw [applyNicknames, nicknameActions, perform_map]
  simp only [setNickname_eq, onNickname]

theorem startAll_eq (f : Factory) (properties : InfoTree) (c : Container Body) :
    startAll f ((getChildKeys "." properties).flatMap fun name =>
      ((getChildKeys name properties).filter fun prop => Starts properties name prop).map
        fun _ => name) c =
      perform ((getChildKeys "." properties).flatMap (startActions f properties)) c := by
  rw [startAll, List.foldl_flatMap, perform_flatMap]
  simp only [startActions, perform_map, List.foldl_map]

/-- A state is loaded by making its quiddities, acting on them and calling the methods that
connect them. -/
theorem loadState_eq {state : InfoTree} {c₁ : Container Body}
    (hcreate : createAll f (getTree ".quiddities" state)
      (getChildKeys "." (getTree ".quiddities" state)) c = some c₁) (hzero : Zeroless c₁) :
    loadState f state c = callAll f ((getChildKeys "." (getTree ".readers" state)).flatMap
      (readerCalls (getTree ".readers" state))) (perform (beforeReaders f state) c₁) := by
  rw [loadState]
  dsimp only
  rw [hcreate, Option.bind_some, connectReaders_eq, beforeReaders, perform_append, perform_append,
    perform_append, perform_append, hzero.loadCustomStates_eq, applyNicknames_eq,
    applyProperties_eq]
  dsimp only
  rw [Zeroless.applyUserData_eq (((hzero.perform _).perform _).perform _), startAll_eq]

/-! ### What becomes of one quiddity -/

theorem performAt_append (k : String) (acts acts' : List Action) (q : Quiddity Body) :
    performAt k (acts ++ acts') q = performAt k acts' (performAt k acts q) :=
  List.foldl_append

/-- Actions that keep the kinds. -/
theorem performAt_kind (h : ∀ a ∈ acts, KeepsKind a.2) : (performAt k acts q).kind = q.kind := by
  induction acts generalizing q with
  | nil => rfl
  | cons a acts ih =>
      have hfirst : (actAt k a q).kind = q.kind := by
        rw [actAt]
        split_ifs
        · exact h a List.mem_cons_self q
        · rfl
      exact (ih fun a' ha' => h a' (List.mem_cons_of_mem _ ha')).trans hfirst

/-- Nothing is done to a quiddity that has not the nickname. -/
theorem performAt_of_ne (h : q.nickname ≠ k) (acts : List Action) : performAt k acts q = q := by
  induction acts with
  | nil => rfl
  | cons a acts ih =>
      rw [performAt, List.foldl_cons, actAt, if_neg fun hka => h hka.2]
      exact ih

/-- Actions for another nickname. -/
theorem performAt_of_other (h : ∀ a ∈ acts, a.1 ≠ k) (q : Quiddity Body) :
    performAt k acts q = q := by
  induction acts with
  | nil => rfl
  | cons a acts ih =>
      rw [performAt, List.foldl_cons, actAt, if_neg fun hka => h a List.mem_cons_self hka.1]
      exact ih fun a' ha' => h a' (List.mem_cons_of_mem _ ha')

/-- Of the actions for several keys those for the key of the quiddity count. -/
theorem performAt_flatMap {names : List String} {acts : String → List Action}
    (hacts : ∀ name, ∀ a ∈ acts name, a.1 = name) (hnames : names.Nodup) (q : Quiddity Body) :
    performAt k (names.flatMap acts) q = if k ∈ names then performAt k (acts k) q else q := by
  induction names generalizing q with
  | nil => rfl
  | cons name names ih =>
      obtain ⟨hname, hnames⟩ := List.nodup_cons.1 hnames
      rw [List.flatMap_cons, performAt_append, ih hnames]
      by_cases hk : k = name
      · subst hk
        rw [if_neg hname, if_pos List.mem_cons_self]
      · rw [performAt_of_other fun a ha => (hacts name a ha).trans_ne (Ne.symm hk)]
        simp only [List.mem_cons, hk, false_or]

/-- Actions for the key of the quiddity that keep its nickname. -/
theorem performAt_map {α : Type} (act : α → Quiddity Body → Quiddity Body) (l : List α)
    (hact : ∀ x q, (act x q).nickname = q.nickname) (hq : q.nickname = k) :
    performAt k (l.map fun x => (k, act x)) q = l.foldl (fun q x => act x q) q := by
  induction l generalizing q with
  | nil => rfl
  | cons x l ih =>
      rw [List.map_cons, performAt, List.foldl_cons, actAt, if_pos ⟨rfl, hq⟩]
      exact ih ((hact x q).trans hq)

/-- One action for each of several keys. -/
theorem performAt_each {names : List String} (act : String → Quiddity Body → Quiddity Body)
    (hnames : names.Nodup) (hk : k ∈ names) (hq : q.nickname = k) :
    performAt k (names.map fun it => (it, act it)) q = act k q := by
  rw [List.map_eq_flatMap, performAt_flatMap (fun name a ha => by
    rw [List.mem_singleton.1 ha]) hnames, if_pos hk]
  exact if_pos ⟨rfl, hq⟩

/-- Keys at which there is no action do not count. -/
theorem performAt_flatMap_of_nil {names : List String} {acts : String → List Action}
    (hacts : ∀ name, ∀ a ∈ acts name, a.1 = name) (hnames : names.Nodup)
    (hnil : k ∉ names → acts k = []) (q : Quiddity Body) :
    performAt k (names.flatMap acts) q = performAt k (acts k) q := by
  rw [performAt_flatMap hacts hnames]
  split_ifs with hk
  · rfl
  · rw [hnil hk]
    rfl

/-! ### The creations -/

/-- The kind that is written at a key. -/
def kindAt (quiddities : InfoTree) (k : String) : String := (branchGetValue k quiddities).asString

/-- The quiddity that is created with a key. -/
def created (f : Factory) (quiddities : InfoTree) (k : String) : Quiddity Body :=
  ⟨k, kindAt quiddities k, f.make (kindAt quiddities k)⟩

variable {f : Factory} {quiddities state : InfoTree}

theorem holds_empty (f : Factory) (quiddities : InfoTree) :
    Holds Container.empty [] (created f quiddities) fun _ => 0 where
  lookup := fun id q => iff_of_false (fun h => by cases h) fun ⟨_, h, _⟩ => by cases h
  inj := fun _ h => by cases h
  ne_zero := fun _ h => by cases h
  named := fun _ h => by cases h

/-- A quiddity enters the container under a new identifier. -/
theorem Holds.insert (h : Holds c keys g ι) {id : ℕ} (hid : ∀ k' ∈ keys, ι k' ≠ id) (hzero : id ≠ 0)
    (hnew : k ∉ keys) (hnamed : Named k (g k).nickname) (ids : Ids) :
    Holds ⟨ids, c.quiddities.insert id (g k)⟩ (k :: keys) g (Function.update ι k id) := by
  have hself : Function.update ι k id k = id := Function.update_self ..
  have hold : ∀ k' ∈ keys, Function.update ι k id k' = ι k' := fun k' hk' =>
    Function.update_of_ne (ne_of_mem_of_not_mem hk' hnew) _ _
  refine ⟨fun id' q => ?_, fun k₁ h₁ k₂ h₂ heq => ?_, fun k' hk' => ?_, fun k' hk' => ?_⟩
  · change (c.quiddities.insert id (g k)).lookup id' = some q ↔ _
    rw [List.exists_mem_cons_iff, hself]
    by_cases heq : id' = id
    · subst heq
      rw [AList.lookup_insert, Option.some_inj]
      refine ⟨fun hq => Or.inl ⟨rfl, hq⟩, ?_⟩
      rintro (⟨-, hq⟩ | ⟨k', hk', hk'id, -⟩)
      · exact hq
      · exact absurd ((hold k' hk').symm.trans hk'id) (hid k' hk')
    · rw [AList.lookup_insert_ne heq, h.lookup]
      refine ⟨fun ⟨k', hk', hk'id, hq⟩ => Or.inr ⟨k', hk', (hold k' hk').trans hk'id, hq⟩, ?_⟩
      rintro (⟨hk, -⟩ | ⟨k', hk', hk'id, hq⟩)
      · exact absurd hk.symm heq
      · exact ⟨k', hk', (hold k' hk').symm.trans hk'id, hq⟩
  · rcases List.mem_cons.1 h₁ with hk₁ | h₁ <;> rcases List.mem_cons.1 h₂ with hk₂ | h₂
    · rw [hk₁, hk₂]
    · rw [hk₁, hself, hold k₂ h₂] at heq
      exact absurd heq.symm (hid k₂ h₂)
    · rw [hk₂, hself, hold k₁ h₁] at heq
      exact absurd heq (hid k₁ h₁)
    · rw [hold k₁ h₁, hold k₂ h₂] at heq
      exact h.inj k₁ h₁ k₂ h₂ heq
  · rcases List.mem_cons.1 hk' with rfl | hk'
    · rwa [hself]
    · rw [hold k' hk']
      exact h.ne_zero k' hk'
  · rcases List.mem_cons.1 hk' with rfl | hk'
    · exact hnamed
    · exact h.named k' hk'

/-- A container in which quiddities are created, with as many identifiers as keys. -/
structure Creating (f : Factory) (quiddities : InfoTree) (keys : List String) (c : Container Body) :
    Prop where
  holds : ∃ ι, Holds c keys (created f quiddities) ι ∧ ∀ k ∈ keys, ι k ∈ c.ids.ids
  length : c.ids.ids.length = keys.length

/-- A creation with a key that is not in use, when an identifier is left. -/
theorem Creating.create (h : Creating f quiddities keys c) (hk : Components.Plain '.' k)
    (hnew : k ∉ keys) (hkind : kindAt quiddities k ∈ f.kinds)
    (hleft : keys.length ≠ Ids.kMaxNumOfIds) :
    ∃ r, (c.quietCreate f.kinds (kindAt quiddities k) k fun c =>
        some (c, .valid (f.make (kindAt quiddities k)))) = some r ∧
      Creating f quiddities (k :: keys) r.1 := by
  obtain ⟨ι, hholds, hids⟩ := h.holds
  have hfree : ¬c.Refused k := by
    rintro ⟨-, e, he, heq⟩
    obtain ⟨k', hk', -, hq⟩ := (hholds.mem_entries e.1).1 he
    rw [← hq] at heq
    exact hnew (heq ▸ hk')
  obtain ⟨-, hid, hallocated⟩ := c.allocated_ids.resolve_left fun hfull =>
    hleft (h.length ▸ hfull.1)
  have hmem : c.ids.allocateId.1 ∈ c.allocated.ids.ids := by simp [hallocated]
  have hnick : Container.chooseNickname (kindAt quiddities k) k c.ids.allocateId.1 = k :=
    if_neg hk.1
  have hinserted := hholds.insert (fun k' hk' => ne_of_mem_of_not_mem (hids k' hk') hid)
    (c.allocated.ids.valid _ hmem) hnew (Or.inr (components_of_plain hk)) c.allocated.ids
  refine ⟨(⟨c.allocated.ids, c.quiddities.insert c.ids.allocateId.1 (created f quiddities k)⟩,
    ⟨true, k, c.ids.allocateId.1⟩), ?_, ⟨_, hinserted, ?_⟩, ?_⟩
  · rw [Container.quietCreate, if_neg (not_not.2 hkind), if_neg hfree, Option.bind_some, hnick]
    rfl
  · intro k' hk'
    rcases List.mem_cons.1 hk' with rfl | hk'
    · rwa [Function.update_self]
    · rw [Function.update_of_ne (ne_of_mem_of_not_mem hk' hnew), hallocated]
      exact List.mem_append_left _ (hids k' hk')
  · rw [hallocated, List.length_append, List.length_singleton, List.length_cons, h.length]

/-- The creations make a quiddity for each key at which a known kind is written. -/
theorem Creating.createAll {quids : List String} (h : Creating f quiddities keys c)
    (hplain : ∀ k ∈ quids, Components.Plain '.' k) (hnodup : quids.Nodup)
    (hnew : ∀ k ∈ quids, k ∉ keys) (hle : keys.length + quids.length ≤ Ids.kMaxNumOfIds) :
    ∃ c' keys', createAll f quiddities quids c = some c' ∧ Creating f quiddities keys' c' ∧
      ∀ k, k ∈ keys' ↔ k ∈ keys ∨ k ∈ quids ∧ kindAt quiddities k ∈ f.kinds := by
  induction quids generalizing keys c with
  | nil => exact ⟨c, keys, rfl, h, fun k => by simp⟩
  | cons it quids ih =>
      obtain ⟨hit, hnodup⟩ := List.nodup_cons.1 hnodup
      have hplain' : ∀ k ∈ quids, Components.Plain '.' k := fun k hk =>
        hplain k (List.mem_cons_of_mem _ hk)
      rw [List.length_cons] at hle
      by_cases hkind : kindAt quiddities it ∈ f.kinds
      · obtain ⟨r, hr, hcreating⟩ := h.create (hplain it List.mem_cons_self)
          (hnew it List.mem_cons_self) hkind (by omega)
        obtain ⟨c', keys', hall, hcreating', hkeys⟩ := ih hcreating hplain' hnodup
          (fun k hk hmem => by
            rcases List.mem_cons.1 hmem with rfl | hmem
            · exact hit hk
            · exact hnew k (List.mem_cons_of_mem _ hk) hmem)
          (by rw [List.length_cons]; omega)
        refine ⟨c', keys', ?_, hcreating', fun k => ?_⟩
        · rw [Switcher.createAll]
          exact (congrArg (Option.bind · _) hr).trans hall
        · rw [hkeys, List.mem_cons, List.mem_cons]
          by_cases heq : k = it
          · subst heq
            simp [hkind]
          · simp [heq]
      · obtain ⟨c', keys', hall, hcreating', hkeys⟩ := ih h hplain' hnodup
          (fun k hk => hnew k (List.mem_cons_of_mem _ hk)) (by omega)
        refine ⟨c', keys', ?_, hcreating', fun k => ?_⟩
        · have hfail : (c.quietCreate f.kinds (kindAt quiddities it) it fun c =>
              some (c, .valid (f.make (kindAt quiddities it)))) =
                some (c, Qrox.error "unknown Quiddity kind") := if_pos hkind
          rw [Switcher.createAll]
          exact (congrArg (Option.bind · _) hfail).trans hall
        · rw [hkeys, List.mem_cons]
          by_cases heq : k = it
          · subst heq
            simp [hkind, hit]
          · simp [heq]

/-! ### Loading -/

/-- What is made of the quiddity that is created with a key. -/
def loaded (f : Factory) (state : InfoTree) (k : String) : Quiddity Body :=
  performAt k (loadActions f state) (created f (getTree ".quiddities" state) k)

theorem fits_of_keepsNickname {act : Quiddity Body → Quiddity Body} (hk : Components.Plain '.' k)
    (h : KeepsNickname act) : Fits (k, act) :=
  ⟨hk, fun q hq => by rwa [h q]⟩

/-- The nicknames that are written are read as the keys they are written at. -/
def NamesFit (state : InfoTree) : Prop :=
  ∀ it ∈ getChildKeys "." (getTree ".nicknames" state),
    Named it (branchGetValue it (getTree ".nicknames" state)).asString

theorem fits_loadActions (hstate : state.WellKeyed) (hnames : NamesFit state) :
    ∀ a ∈ loadActions f state, Fits a := by
  have hplain : ∀ path k, k ∈ getChildKeys "." (getTree path state) → Components.Plain '.' k :=
    fun path k hk => plain_of_mem_getChildKeys (wellKeyed_getTree path hstate) hk
  intro a ha
  simp only [loadActions, restActions, List.mem_append] at ha
  rcases ha with ha | ha | ha | ha | ha | ha
  · obtain ⟨it, hit, rfl⟩ := List.mem_map.1 ha
    exact fits_of_keepsNickname (hplain _ it hit) fun q => rfl
  · obtain ⟨it, hit, rfl⟩ := List.mem_map.1 ha
    exact ⟨hplain _ it hit, fun q _ => hnames it hit⟩
  · obtain ⟨name, hname, ha⟩ := List.mem_flatMap.1 ha
    obtain ⟨prop, -, rfl⟩ := List.mem_map.1 ha
    exact fits_of_keepsNickname (hplain _ name hname) (keepsNickname_setStr _ _ _)
  · obtain ⟨it, hit, ha⟩ := List.mem_flatMap.1 ha
    obtain ⟨kit, -, rfl⟩ := List.mem_map.1 ha
    exact fits_of_keepsNickname (hplain _ it hit) fun q => rfl
  · obtain ⟨name, hname, ha⟩ := List.mem_flatMap.1 ha
    obtain ⟨prop, -, rfl⟩ := List.mem_map.1 ha
    exact fits_of_keepsNickname (hplain _ name hname) (keepsNickname_setStr _ _ _)
  · obtain ⟨quid, hquid, ha⟩ := List.mem_flatMap.1 ha
    rcases List.mem_append.1 ha with ha | ha
    · obtain ⟨reader, -, rfl⟩ := List.mem_map.1 ha
      exact fits_of_keepsNickname (hplain _ quid hquid) (keepsNickname_invoke _ _ _)
    · obtain ⟨reader, -, rfl⟩ := List.mem_map.1 ha
      exact fits_of_keepsNickname (hplain _ quid hquid) (keepsNickname_invoke _ _ _)

/-- No action of `load_state` changes a kind. -/
theorem keepsKind_beforeReaders (f : Factory) (state : InfoTree) :
    ∀ a ∈ beforeReaders f state, KeepsKind a.2 := by
  intro a ha
  simp only [beforeReaders, List.mem_append] at ha
  rcases ha with ha | ha | ha | ha | ha
  · obtain ⟨it, -, rfl⟩ := List.mem_map.1 ha
    exact fun q => rfl
  · obtain ⟨it, -, rfl⟩ := List.mem_map.1 ha
    exact fun q => rfl
  · obtain ⟨name, -, ha⟩ := List.mem_flatMap.1 ha
    obtain ⟨prop, -, rfl⟩ := List.mem_map.1 ha
    exact keepsKind_setStr _ _ _
  · obtain ⟨it, -, ha⟩ := List.mem_flatMap.1 ha
    obtain ⟨kit, -, rfl⟩ := List.mem_map.1 ha
    exact fun q => rfl
  · obtain ⟨name, -, ha⟩ := List.mem_flatMap.1 ha
    obtain ⟨prop, -, rfl⟩ := List.mem_map.1 ha
    exact keepsKind_setStr _ _ _

/-- The calls of `load_state`. -/
def loadCalls (state : InfoTree) : List (String × String × Call) :=
  (getChildKeys "." (getTree ".readers" state)).flatMap (readerCalls (getTree ".readers" state))

/-- Every quiddity that is created with the key of a reader has the method that connects it. -/
def ReadersAnswer (f : Factory) (state : InfoTree) : Prop :=
  ∀ r ∈ loadCalls state, r.1 ∈ getChildKeys "." (getTree ".quiddities" state) →
    r.2.1 ∈ f.methods (kindAt (getTree ".quiddities" state) r.1)

/-- The quiddities that are found have the methods of their kinds. -/
theorem ReadersAnswer.answers (h : ReadersAnswer f state) (hstate : state.WellKeyed)
    (hholds : Holds c keys (created f (getTree ".quiddities" state)) ι)
    (hkeys : ∀ k ∈ keys, k ∈ getChildKeys "." (getTree ".quiddities" state))
    (hacts : ∀ a ∈ beforeReaders f state, Fits a) :
    ∀ r ∈ loadCalls state, Answers f r.1 r.2.1 (perform (beforeReaders f state) c) := by
  intro r hr q hq
  obtain ⟨quid, hquid, hcall⟩ := List.mem_flatMap.1 hr
  have hname : r.1 = quid := by
    rcases List.mem_append.1 hcall with hcall | hcall
    · obtain ⟨reader, -, rfl⟩ := List.mem_map.1 hcall
      rfl
    · obtain ⟨reader, -, rfl⟩ := List.mem_map.1 hcall
      rfl
  have hplain : Components.Plain '.' r.1 := by
    rw [hname]
    exact plain_of_mem_getChildKeys (wellKeyed_getTree ".readers" hstate) hquid
  have hafter := hholds.perform hacts
  by_cases hfound : r.1 ∈ keys ∧ (performAt r.1 (beforeReaders f state)
      (created f (getTree ".quiddities" state) r.1)).nickname = r.1
  · rw [hafter.getId hplain, if_pos hfound] at hq
    obtain ⟨k, hk, hid, rfl⟩ := (hafter.lookup _ q).1 hq
    obtain rfl := hafter.inj k hk r.1 hfound.1 hid
    rw [performAt_kind (keepsKind_beforeReaders f state)]
    exact h r hr (hkeys r.1 hk)
  · rw [hafter.getId hplain, if_neg hfound, hafter.zeroless] at hq
    cases hq

/-- A state that is loaded into a new container makes the quiddities with a known kind, and it is
loaded where these have the methods that connect them. -/
theorem holds_loadState (hstate : state.WellKeyed) (hnames : NamesFit state)
    (hle : (getChildKeys "." (getTree ".quiddities" state)).length ≤ Ids.kMaxNumOfIds) :
    ∃ c keys ι, Holds c keys (loaded f state) ι ∧
      (∀ k, k ∈ keys ↔ k ∈ getChildKeys "." (getTree ".quiddities" state) ∧
        kindAt (getTree ".quiddities" state) k ∈ f.kinds) ∧
      (∀ c', loadState f state Container.empty = some c' → c' = c) ∧
      (ReadersAnswer f state → loadState f state Container.empty = some c) := by
  have hquids := wellKeyed_getTree ".quiddities" hstate
  have hempty : Creating f (getTree ".quiddities" state) [] Container.empty :=
    ⟨⟨_, holds_empty f _, fun k hk => by cases hk⟩, rfl⟩
  obtain ⟨c, keys, hall, ⟨⟨ι, hholds, -⟩, -⟩, hkeys⟩ := hempty.createAll
    (fun k hk => plain_of_mem_getChildKeys hquids hk) (nodup_getChildKeys hquids)
    (fun k _ => List.not_mem_nil) (by rwa [List.length_nil, Nat.zero_add])
  have hfits := fits_loadActions (f := f) hstate hnames
  have hbefore : ∀ a ∈ beforeReaders f state, Fits a := fun a ha =>
    hfits a (by rw [loadActions_eq]; exact List.mem_append_left _ ha)
  have hload : ∀ c', loadState f state Container.empty = some c' ↔
      (∀ r ∈ loadCalls state, Answers f r.1 r.2.1 (perform (beforeReaders f state) c)) ∧
        c' = perform (loadActions f state) c := fun c' => by
    rw [loadState_eq hall hholds.zeroless, callAll_eq_some_iff, loadActions_eq, perform_append,
      List.map_flatMap]
    simp only [map_readerCalls]
    rfl
  refine ⟨perform (loadActions f state) c, keys, ι, hholds.perform hfits, fun k => ?_,
    fun c' hc' => ((hload c').1 hc').2, fun hanswer => ?_⟩
  · rw [hkeys]
    simp
  · refine (hload _).2 ⟨hanswer.answers hstate hholds (fun k hk => ?_) hbefore, rfl⟩
    exact ((hkeys k).1 hk).elim (fun h => absurd h List.not_mem_nil) And.left

end Switcher
end LibSwitcher
