/-
# What the constructor makes of a section

The loop over a section registers its elements one after the other.  It leaves an
empty message exactly when every element passes `check_shmdata_spec` and there are
identifiers for all (`visit_registerPoint_iff`), and then the points are numbered
from `1` on, with the labels and the types of the elements in their order.
-/

import LibSwitcher.Quiddity.Claw.Listed

namespace LibSwitcher
namespace Claw

open InfoTree ConnectionSpec

variable {τ : Type}

/-- The points are those of the given labels and types, numbered from `1` on. -/
structure Registered (ls : List (String × List τ)) (p : Points τ) : Prop where
  generator : p.idGenerator.ids = List.range' 1 ls.length
  curId : p.idGenerator.curId = ls.length
  dynamic : p.dynamic = []
  ids : p.ids.Enumerates (ls.map Prod.fst)
  canDo : p.canDo.Enumerates (ls.map Prod.snd)

theorem registered_empty : Registered [] (Points.empty : Points τ) where
  generator := rfl
  curId := rfl
  dynamic := rfl
  ids := IdMap.enumerates_empty
  canDo := IdMap.enumerates_empty

namespace Registered

variable {ls : List (String × List τ)} {p : Points τ} {label : String} {types : List τ}

theorem length_le (h : Registered ls p) : ls.length ≤ Ids.kMaxNumOfIds := by
  have := p.idGenerator.length_le
  rwa [h.generator, List.length_range'] at this

theorem left_iff (h : Registered ls p) : p.Left ↔ ls.length < Ids.kMaxNumOfIds := by
  have := h.length_le
  rw [Points.Left, h.generator, List.length_range']
  omega

theorem nextId (h : Registered ls p) (hleft : p.Left) : p.nextId hleft = ls.length + 1 := by
  have hlt := h.left_iff.1 hleft
  have hcur := h.curId
  refine (p.idGenerator.free_eq_succ hleft ?_ ?_).trans (by rw [hcur])
  · rw [hcur]
    unfold Ids.kMaxNumOfIds at hlt
    omega
  · rw [hcur, h.generator, List.mem_range'_1]
    omega

/-- One more element is registered. -/
theorem add (h : Registered ls p) (hleft : p.Left) (label : String) (types : List τ) :
    Registered (ls ++ [(label, types)]) (p.add hleft label types) := by
  have hnext := h.nextId hleft
  constructor
  · change p.idGenerator.ids ++ [p.nextId hleft] = _
    rw [hnext, h.generator, List.length_append, List.length_singleton, List.range'_concat,
      Nat.one_mul, Nat.add_comm 1]
  · exact hnext.trans (by rw [List.length_append, List.length_singleton])
  · exact h.dynamic
  · have hids := h.ids.emplace label
    rw [List.length_map, ← hnext] at hids
    rw [List.map_append]
    exact hids
  · have hcanDo := h.canDo.emplace types
    rw [List.length_map, ← hnext] at hcanDo
    rw [List.map_append]
    exact hcanDo

theorem labelOf (h : Registered ls p) (i : ℕ) :
    p.labelOf (i + 1) = (ls[i]?.map Prod.fst).getD "" := by
  rw [Points.labelOf, h.ids.succ, List.getElem?_map]

theorem typesOf (h : Registered ls p) (i : ℕ) :
    p.typesOf (i + 1) = (ls[i]?.map Prod.snd).getD [] := by
  rw [Points.typesOf, h.canDo.succ, List.getElem?_map]

end Registered

variable {x : Externals τ} {role : Role}

/-! ### The elements -/

/-- A message is not empty. -/
theorem capsMessage_ne_empty (caps : InfoTree) : capsMessage x caps ≠ some "" := by
  unfold capsMessage
  split_ifs <;> simp

theorem checkCaps_ne_empty (l : List InfoTree) : checkCaps x l ≠ some "" := by
  induction l with
  | nil => simp [checkCaps]
  | cons caps rest ih =>
      rw [checkCaps]
      cases hrest : checkCaps x rest with
      | none => exact capsMessage_ne_empty caps
      | some msg =>
          rw [hrest] at ih
          exact ih

theorem checkShmdataSpec_ne_empty (tree : InfoTree) : checkShmdataSpec x tree ≠ some "" := by
  unfold checkShmdataSpec
  split_ifs
  any_goals simp
  exact checkCaps_ne_empty _

/-- A type is a string that is parsed without error. -/
theorem capsMessage_eq_none_iff {caps : InfoTree} : capsMessage x caps = none ↔
    caps.data.isString = true ∧ x.parsingErrors (x.ofString caps.data.asString) = "" := by
  unfold capsMessage
  constructor
  · intro h
    split_ifs at h with herr hstr
    exact ⟨by simpa using hstr, not_not.1 herr⟩
  · rintro ⟨hstr, herr⟩
    rw [if_neg (not_not.2 herr), if_neg (by simp [hstr])]

theorem checkCaps_eq_none_iff {l : List InfoTree} :
    checkCaps x l = none ↔ ∀ caps ∈ l, capsMessage x caps = none := by
  induction l with
  | nil => simp [checkCaps]
  | cons caps rest ih => rw [checkCaps, Option.or_eq_none_iff, ih, List.forall_mem_cons, and_comm]

/-- The elements that pass. -/
theorem checkShmdataSpec_eq_none_iff {tree : InfoTree} : checkShmdataSpec x tree = none ↔
    (tree.getChildKeys ".").length = 3 ∧
      ((tree.branchGetValue "label").isString = true ∧ (tree.branchGetValue "label").asString ≠ "") ∧
      (tree.branchGetValue "description").isString = true ∧ tree.branchIsArray "can_do" = true ∧
      tree.elements "can_do" ≠ [] ∧ ∀ caps ∈ tree.elements "can_do", capsMessage x caps = none := by
  rw [← checkCaps_eq_none_iff]
  unfold checkShmdataSpec
  constructor
  · intro h
    split_ifs at h with hkeys hlabel hempty hdescription harray hlength
    exact ⟨not_not.1 hkeys, ⟨by simpa using hlabel, hempty⟩, by simpa using hdescription,
      by simpa using harray, by simpa using hlength, h⟩
  · rintro ⟨hkeys, ⟨hlabel, hempty⟩, hdescription, harray, hne, hcaps⟩
    rw [if_neg (not_not.2 hkeys), if_neg (by simp [hlabel]), if_neg hempty,
      if_neg (by simp [hdescription]), if_neg (by simp [harray]), if_neg (by simpa using hne), hcaps]

/-- The identifiers the constructor adds are children besides those it checks. -/
theorem child_identify {k : String} {id fromId : ℕ} {e : InfoTree} (hk : k ≠ role.idKey)
    (hk' : k ≠ role.fromKey) : (identify role id fromId e).child k = e.child k := by
  rw [identify, child_vgraft_ne role.plain_fromKey hk', child_vgraft_ne role.plain_idKey hk]

/-- The identifier the constructor adds to an element. -/
theorem branchGetValue_identify (id fromId : ℕ) (e : InfoTree) :
    branchGetValue role.idKey (identify role id fromId e) = .id id := by
  rw [identify, branchGetValue_vgraft_ne role.plain_fromKey role.plain_idKey role.fromKey_ne.2.2.symm,
    branchGetValue_vgraft_self role.plain_idKey]

/-- A label and types read from an element. -/
def pointOf (x : Externals τ) (e : InfoTree) : String × List τ :=
  ((e.branchGetValue "label").asString, typesIn x e)

theorem typesIn_identify (id fromId : ℕ) (e : InfoTree) :
    typesIn x (identify role id fromId e) = typesIn x e := by
  have hplain : Components.Plain '.' "can_do" := by decide
  rw [typesIn, typesIn, elements, elements, branch_of_plain hplain, branch_of_plain hplain,
    child_identify role.idKey_ne.2.symm role.fromKey_ne.2.1.symm]

/-! ### The loop -/

/-- The elements of a section with the identifiers from `id` on. -/
def identified (role : Role) : ℕ → List (String × InfoTree) → List (String × InfoTree)
  | _, [] => []
  | id, (k, e) :: es => (k, identify role id Ids.kInvalid e) :: identified role (id + 1) es

variable {ls : List (String × List τ)} {p : Points τ} {msg : String} {e : InfoTree}

theorem registerPoint_of_some {err : String} (h : checkShmdataSpec x e = some err) :
    registerPoint x role (msg, p) e = ((err, p), e) := by
  rw [registerPoint, h]

theorem registerPoint_of_left (h : checkShmdataSpec x e = none) (hreg : Registered ls p)
    (hleft : p.Left) :
    registerPoint x role (msg, p) e =
      ((msg, p.add hleft (pointOf x e).1 (pointOf x e).2),
        identify role (ls.length + 1) Ids.kInvalid e) := by
  rw [registerPoint, h]
  simp only [dif_pos hleft, hreg.nextId hleft, typesIn_identify]
  rfl

theorem registerPoint_of_not_left (h : checkShmdataSpec x e = none) (hleft : ¬p.Left) :
    registerPoint x role (msg, p) e = ((role.tooMany, p), e) := by
  rw [registerPoint, h]
  exact dif_neg hleft

/-- Elements that pass are all registered when there are identifiers for them. -/
theorem visit_registerPoint (role : Role) (msg : String) {l : List (String × InfoTree)}
    (h : Registered ls p)
    (hpass : ∀ c ∈ l, checkShmdataSpec x c.2 = none)
    (hroom : ls.length + l.length ≤ Ids.kMaxNumOfIds) :
    ∃ p', Registered (ls ++ l.map fun c => pointOf x c.2) p' ∧
      visit (registerPoint x role) (msg, p) l = ((msg, p'), identified role (ls.length + 1) l) := by
  induction l generalizing ls p with
  | nil => exact ⟨p, by simpa using h, rfl⟩
  | cons c l ih =>
      obtain ⟨k, e⟩ := c
      rw [List.length_cons] at hroom
      have hleft : p.Left := h.left_iff.2 (by omega)
      obtain ⟨p', hp', hvisit⟩ := ih (h.add hleft (pointOf x e).1
        (pointOf x e).2) (fun c hc => hpass c (List.mem_cons_of_mem _ hc)) (by
          rw [List.length_append, List.length_singleton]
          omega)
      rw [List.length_append, List.length_singleton] at hvisit
      refine ⟨p', by simpa using hp', ?_⟩
      rw [visit, registerPoint_of_left (hpass (k, e) (by simp)) h hleft]
      simp only [hvisit]
      rfl

/-- The message stays empty only if all elements pass and there are identifiers for
them. -/
theorem visit_registerPoint_iff {l : List (String × InfoTree)} (h : Registered ls p) :
    (visit (registerPoint x role) (msg, p) l).1.1 = "" ↔
      msg = "" ∧ (∀ c ∈ l, checkShmdataSpec x c.2 = none) ∧
        ls.length + l.length ≤ Ids.kMaxNumOfIds := by
  constructor
  · intro hmsg
    induction l generalizing ls p msg with
    | nil => exact ⟨hmsg, by simp, h.length_le⟩
    | cons c l ih =>
        obtain ⟨k, e⟩ := c
        rw [visit] at hmsg
        cases hcheck : checkShmdataSpec x e with
        | some err =>
            simp only [registerPoint_of_some hcheck] at hmsg
            exact absurd ((ih h hmsg).1 ▸ hcheck) (checkShmdataSpec_ne_empty e)
        | none =>
            by_cases hleft : p.Left
            · simp only [registerPoint_of_left hcheck h hleft] at hmsg
              obtain ⟨hmsg, hpass, hroom⟩ := ih (h.add hleft _ _) hmsg
              refine ⟨hmsg, ?_, ?_⟩
              · rintro c hc
                rcases List.mem_cons.1 hc with rfl | hc
                · exact hcheck
                · exact hpass c hc
              · rw [List.length_append, List.length_singleton] at hroom
                rw [List.length_cons]
                omega
            · simp only [registerPoint_of_not_left hcheck hleft] at hmsg
              exact absurd (ih h hmsg).1 role.tooMany_ne
  · rintro ⟨rfl, hpass, hroom⟩
    obtain ⟨p', -, hvisit⟩ := visit_registerPoint (x := x) role "" h hpass hroom
    rw [hvisit]

/-! ### The sections -/

/-- A section the constructor accepts. -/
structure SectionAccepted (x : Externals τ) (role : Role) (tree : InfoTree) : Prop where
  pass : ∀ c ∈ sectionOf role tree, checkShmdataSpec x c.2 = none
  room : (sectionOf role tree).length ≤ Ids.kMaxNumOfIds
  labels : hasAdjacentEqual ((sectionOf role tree).map fun c => (pointOf x c.2).1) = false

variable {tree tree' : InfoTree}

theorem SectionAccepted.congr (h : sectionOf role tree' = sectionOf role tree) :
    SectionAccepted x role tree' ↔ SectionAccepted x role tree :=
  ⟨fun hacc => ⟨h ▸ hacc.pass, h ▸ hacc.room, h ▸ hacc.labels⟩,
    fun hacc => ⟨h ▸ hacc.pass, h ▸ hacc.room, h ▸ hacc.labels⟩⟩

theorem registerSection_section (role : Role) (tree : InfoTree) :
    (registerSection x role tree).1 =
        (visit (registerPoint x role) ("", Points.empty) (sectionOf role tree)).1 ∧
      sectionOf role (registerSection x role tree).2 =
        (visit (registerPoint x role) ("", Points.empty) (sectionOf role tree)).2 :=
  forEachInArray_section (components_dot role.plain_name) (branch_dot role.plain_name)

/-- The points and the elements after a loop without error. -/
theorem registerSection_spec (role : Role) (tree : InfoTree)
    (hpass : ∀ c ∈ sectionOf role tree, checkShmdataSpec x c.2 = none)
    (hroom : (sectionOf role tree).length ≤ Ids.kMaxNumOfIds) :
    Registered ((sectionOf role tree).map fun c => pointOf x c.2)
        (registerSection x role tree).1.2 ∧
      sectionOf role (registerSection x role tree).2 = identified role 1 (sectionOf role tree) := by
  obtain ⟨p, hp, hvisit⟩ := visit_registerPoint role "" registered_empty hpass
    (by rwa [List.length_nil, Nat.zero_add])
  obtain ⟨hstate, hsec⟩ := registerSection_section (x := x) role tree
  rw [hvisit] at hstate hsec
  rw [hstate, hsec]
  exact ⟨hp, rfl⟩

/-- A section has no error exactly when it is accepted. -/
theorem sectionError_eq_none_iff :
    sectionError role (registerSection x role tree).1 = none ↔ SectionAccepted x role tree := by
  have hmsg : (registerSection x role tree).1.1 = "" ↔
      (∀ c ∈ sectionOf role tree, checkShmdataSpec x c.2 = none) ∧
        (sectionOf role tree).length ≤ Ids.kMaxNumOfIds := by
    rw [(registerSection_section role tree).1, visit_registerPoint_iff registered_empty]
    simp
  have hlabels : (∀ c ∈ sectionOf role tree, checkShmdataSpec x c.2 = none) →
      (sectionOf role tree).length ≤ Ids.kMaxNumOfIds →
      (registerSection x role tree).1.2.labels =
        (sectionOf role tree).map fun c => (pointOf x c.2).1 := by
    intro hpass hroom
    have hids := (registerSection_spec role tree hpass hroom).1.ids.values
    rw [List.map_map] at hids
    exact hids
  rw [sectionError]
  constructor
  · intro h
    split_ifs at h with hne hadj
    obtain ⟨hpass, hroom⟩ := hmsg.1 (not_not.1 hne)
    exact ⟨hpass, hroom, by simpa [hlabels hpass hroom] using hadj⟩
  · intro h
    rw [if_neg (not_not.2 (hmsg.2 ⟨h.pass, h.room⟩)), hlabels h.pass h.room, h.labels]
    rfl

theorem sectionOf_registerSection_ne {role' : Role} (h : role'.name ≠ role.name)
    (tree : InfoTree) :
    sectionOf role' (registerSection x role tree).2 = sectionOf role' tree :=
  sectionOf_forEachInArray_ne (components_dot role.plain_name) h

/-! ### The constructor -/

theorem writer_ne_follower : writerRole.name ≠ followerRole.name := by decide

/-- What the constructor requires of the tree of a specification. -/
structure Accepted (x : Externals τ) (tree : InfoTree) : Prop where
  parsed : branchHasData ".parsing_error" tree = false
  keys : checkKeys tree (getChildKeys "." tree) = none
  follower : SectionAccepted x followerRole tree
  writer : SectionAccepted x writerRole tree

/-- The specification the constructor makes of an accepted tree. -/
def registered (x : Externals τ) (tree : InfoTree) : ConnectionSpec τ :=
  ⟨true, "", (registerSection x followerRole tree).1.2,
    (registerSection x writerRole (registerSection x followerRole tree).2).1.2,
    (registerSection x writerRole (registerSection x followerRole tree).2).2⟩

theorem ofTree_of_accepted (h : Accepted x tree) : ofTree x tree = registered x tree := by
  have hwriter := (SectionAccepted.congr
    (sectionOf_registerSection_ne (x := x) writer_ne_follower _)).2 h.writer
  rw [ofTree, h.parsed, h.keys]
  simp only [Bool.false_eq_true, if_false, sectionError_eq_none_iff.2 h.follower,
    sectionError_eq_none_iff.2 hwriter]
  rfl

/-- The constructor accepts exactly these trees. -/
theorem isValid_ofTree_iff : (ofTree x tree).isValid = true ↔ Accepted x tree := by
  refine ⟨fun h => ?_, fun h => by rw [ofTree_of_accepted h]; rfl⟩
  unfold ofTree at h
  split_ifs at h with hparsed
  cases hkeys : checkKeys tree (getChildKeys "." tree) with
  | some msg =>
      simp only [hkeys] at h
      cases h
  | none =>
      simp only [hkeys] at h
      cases hf : sectionError followerRole (registerSection x followerRole tree).1 with
      | some msg =>
          simp only [hf] at h
          cases h
      | none =>
          simp only [hf] at h
          cases hw : sectionError writerRole (registerSection x writerRole
              (registerSection x followerRole tree).2).1 with
          | some msg =>
              simp only [hw] at h
              cases h
          | none =>
              exact ⟨by simpa using hparsed, hkeys, sectionError_eq_none_iff.1 hf,
                (SectionAccepted.congr (sectionOf_registerSection_ne writer_ne_follower _)).1
                  (sectionError_eq_none_iff.1 hw)⟩

/-! ### The invariant at the start -/

/-- The elements of a section are keyed by their positions. -/
def Positional (role : Role) (tree : InfoTree) : Prop :=
  (sectionOf role tree).map Prod.fst = (List.range (sectionOf role tree).length).map toString

/-- What holds of each position holds along the section. -/
theorem forall₂_identified {R : ℕ → String × InfoTree → Prop} {l : List (String × InfoTree)}
    (k : ℕ) (h : ∀ i c, l[i]? = some c → R (k + i) (c.1, identify role (k + i) Ids.kInvalid c.2)) :
    List.Forall₂ R (List.range' k l.length) (identified role k l) := by
  induction l generalizing k with
  | nil => exact List.Forall₂.nil
  | cons c l ih =>
      refine List.Forall₂.cons (h 0 c rfl) (ih (k + 1) fun i c' hc' => ?_)
      rw [show k + 1 + i = k + (i + 1) by omega]
      exact h (i + 1) c' hc'

/-- What the constructor has registered is listed. -/
theorem Registered.listed {shows : InfoTree → String → List τ → Prop}
    {l : List (String × InfoTree)} (hreg : Registered (l.map fun c => pointOf x c.2) p)
    (hsec : sectionOf role tree = identified role 1 l)
    (hkeys : l.map Prod.fst = (List.range l.length).map toString)
    (hshown : ∀ c ∈ l, ∀ id, shows (identify role id Ids.kInvalid c.2) (pointOf x c.2).1
      (pointOf x c.2).2) :
    Listed shows role l.length p tree := by
  have hlisted : p.listed l.length = List.range' 1 l.length := by
    rw [Points.listed, hreg.dynamic, List.append_nil]
  constructor
  · intro id
    rw [hlisted, hreg.ids.mem_iff, List.length_map, List.length_map]
  · rw [hreg.dynamic]
    simp
  · rw [hlisted, hsec]
    refine forall₂_identified 1 fun i c hc => ⟨?_, branchGetValue_identify _ _ _, ?_⟩
    · have hi := (List.getElem?_eq_some_iff.1 hc).1
      have hkey := congrArg (fun keys : List String => keys[i]?) hkeys
      rw [List.getElem?_map, hc, List.getElem?_map, List.getElem?_range hi] at hkey
      rw [elementKey, if_pos (by omega), Nat.add_sub_cancel_left]
      exact Option.some.inj hkey
    · rw [Nat.add_comm 1 i, hreg.labelOf, hreg.typesOf, List.getElem?_map, hc]
      exact hshown c (List.mem_of_getElem? hc) (i + 1)

variable {shows : InfoTree → String → List τ → Prop}

/-- The followers of a new specification are listed. -/
theorem Accepted.listed_follower (h : Accepted x tree) (hkeys : Positional followerRole tree)
    (hshown : ∀ c ∈ sectionOf followerRole tree, ∀ id,
      shows (identify followerRole id Ids.kInvalid c.2) (pointOf x c.2).1 (pointOf x c.2).2) :
    Listed shows followerRole (sectionOf followerRole tree).length (registered x tree).follower
      (registered x tree).tree := by
  obtain ⟨hreg, hsec⟩ := registerSection_spec _ _ h.follower.pass h.follower.room
  exact hreg.listed ((sectionOf_registerSection_ne writer_ne_follower.symm _).trans hsec) hkeys hshown

/-- The writers of a new specification are listed. -/
theorem Accepted.listed_writer (h : Accepted x tree) (hkeys : Positional writerRole tree)
    (hshown : ∀ c ∈ sectionOf writerRole tree, ∀ id,
      shows (identify writerRole id Ids.kInvalid c.2) (pointOf x c.2).1 (pointOf x c.2).2) :
    Listed shows writerRole (sectionOf writerRole tree).length (registered x tree).writer
      (registered x tree).tree := by
  have hsame := sectionOf_registerSection_ne (x := x) writer_ne_follower tree
  obtain ⟨hreg, hsec⟩ := registerSection_spec (x := x) writerRole
    (registerSection x followerRole tree).2 (hsame ▸ h.writer.pass)
    (hsame ▸ h.writer.room)
  rw [hsame] at hreg hsec
  exact hreg.listed hsec hkeys hshown

/-! ### Points of any specification -/

variable {P : Points τ → Prop}

/-- What is true without points and kept when an element is registered is true of the points of a
section, even where the constructor stops at an error. -/
theorem registerSection_points (hempty : P Points.empty)
    (hadd : ∀ p (hleft : p.Left) label types, types ≠ [] → P p → P (p.add hleft label types))
    (role : Role) (tree : InfoTree) : P (registerSection x role tree).1.2 := by
  rw [(registerSection_section role tree).1]
  have hvisit : ∀ (l : List (String × InfoTree)) (s : String × Points τ), P s.2 →
      P (visit (registerPoint x role) s l).1.2 := by
    intro l
    induction l with
    | nil => exact fun s hs => hs
    | cons c l ih =>
        refine fun s hs => ih _ ?_
        rw [registerPoint]
        cases hcheck : checkShmdataSpec x c.2 with
        | some msg => exact hs
        | none =>
            by_cases hleft : s.2.Left
            · obtain ⟨-, -, -, -, hne, -⟩ := checkShmdataSpec_eq_none_iff.1 hcheck
              simp only [dif_pos hleft]
              refine hadd _ hleft _ _ ?_ hs
              rw [typesIn_identify, typesIn]
              exact fun h => hne (List.map_eq_nil_iff.1 h)
            · simp only [dif_neg hleft]
              exact hs
  exact hvisit _ _ hempty

/-- So it is of the points of a specification, valid or not. -/
theorem ofTree_points (hempty : P Points.empty)
    (hadd : ∀ p (hleft : p.Left) label types, types ≠ [] → P p → P (p.add hleft label types))
    (tree : InfoTree) : P (ofTree x tree).follower ∧ P (ofTree x tree).writer := by
  have hsection := registerSection_points (x := x) hempty hadd
  unfold ofTree
  split_ifs
  · exact ⟨hempty, hempty⟩
  · cases checkKeys tree (tree.getChildKeys ".") with
    | some msg => exact ⟨hempty, hempty⟩
    | none =>
        dsimp only
        cases sectionError followerRole (registerSection x followerRole tree).1 with
        | some msg => exact ⟨hsection _ _, hempty⟩
        | none =>
            dsimp only
            cases sectionError writerRole (registerSection x writerRole
                (registerSection x followerRole tree).2).1 with
            | some msg => exact ⟨hsection _ _, hsection _ _⟩
            | none => exact ⟨hsection _ _, hsection _ _⟩

end Claw
end LibSwitcher
