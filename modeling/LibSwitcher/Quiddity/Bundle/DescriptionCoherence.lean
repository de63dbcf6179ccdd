/-
# Coherent descriptions

A parser that is true should have read what the description says: quiddities of different
names and of valid kinds, connected as the items around `!` are (`Coherent`).  The names
that it has read are different and the shmdata reader is the only one in any case; but a
separator takes the character before it, be it the last one of a name, and a declared name
that starts with a dot is taken for a placeholder when connections are made.

A description is legible where this does not happen: separators follow white space and no
declared name starts with a dot.  Then a true parser is coherent (`coherent_of_legible`).
-/

import LibSwitcher.Quiddity.Bundle.DescriptionText

namespace LibSwitcher
namespace Bundle
namespace DescriptionParser

/-- The neighbours in a list. -/
def adjacent {α : Type} : List α → List (α × α)
  | x :: y :: l => (x, y) :: adjacent (y :: l)
  | _ => []

/-- The name after a word: that of the word if it is a parameter `name`. -/
def wordName (name : String) (w : List Char) : String :=
  match keyValue (restoreSpaces w) with
  | some (key, value) => if String.ofList key = "name" then String.ofList value else name
  | none => name

/-- The name among the parameters of an item: the last one counts. -/
def paramName (ws : List (List Char)) : String := ws.foldl wordName ""

/-- The quiddity that an item declares or stands for. -/
def itemName : List (List Char) → String
  | [] => ""
  | w :: ws => if startsWithDot (String.ofList w) then dropDot (String.ofList w) else paramName ws

/-- The items of a branch, by their words; what is blank is no item. -/
def items (branch : List Char) : List (List (List Char)) :=
  ((split '!' false branch).map itemWords).filter (· ≠ [])

/-- The branches of a description, by their items. -/
def branches (description : String) : List (List (List (List Char))) :=
  (split '&' false description.toList).map items

/-- The pairs of quiddities around `!` in a description. -/
def describedLinks (description : String) : List (String × String) :=
  (branches description).flatMap fun branch => adjacent (branch.map itemName)

/-- The quiddities that are connected, and to which ones. -/
def links (quiddities : List QuiddSpec) : List (String × String) :=
  quiddities.flatMap fun q => q.connectsTo.map fun sink => (q.name, sink)

/-- What a parser that is true should have read. -/
structure Coherent (validKinds : List String) (description : String) (p : DescriptionParser) :
    Prop where
  names_ne : ∀ q ∈ p.quiddities, q.name ≠ ""
  names_nodup : (p.quiddities.map QuiddSpec.name).Nodup
  names_underscore : ∀ q ∈ p.quiddities, '_' ∉ q.name.toList
  kinds : validKinds ≠ [] → ∀ q ∈ p.quiddities, q.kind ∈ validKinds
  sinks : ∀ q ∈ p.quiddities, ∀ sink ∈ q.connectsTo, Declares p.quiddities sink
  links : (links p.quiddities).Perm (describedLinks description)
  reader : ∀ q ∈ p.quiddities, q.exposeShmr = true → p.readerQuid = q.name
  reader_unique : (p.quiddities.filter QuiddSpec.exposeShmr).length ≤ 1
  reader_declared : p.readerQuid ≠ "" → ∃ q ∈ p.quiddities, q.exposeShmr ∧ q.name = p.readerQuid

/-- An item does not declare a name that starts with a dot. -/
def undotted : List (List Char) → Bool
  | [] => true
  | w :: ws => startsWithDot (String.ofList w) || !startsWithDot (paramName ws)

/-- Every `!` and `&` follows white space that is not escaped, and no quiddity is declared with
a name that starts with a dot. -/
def Legible (description : String) : Prop :=
  separatedFrom false false description.toList = true ∧
    ∀ branch ∈ branches description, ∀ item ∈ branch, undotted item = true

instance decidableLegible (description : String) : Decidable (Legible description) :=
  inferInstanceAs (Decidable (_ ∧ _))

variable {validKinds : List String} {s s' : DescriptionParser} {quid quid' : QuiddSpec}
  {w : List Char} {ws : List (List Char)} {name : String}

/-! ### One item -/

theorem isWordChar_of_isBare {param : List Char} (h : isBare param = true) :
    ∀ c ∈ param, isWordChar c = true := by
  cases param with
  | nil => exact fun c hc => absurd hc List.not_mem_nil
  | cons d t =>
      cases t with
      | nil => simp [isBare] at h
      | cons e t =>
          by_cases hd : d = '_'
          · subst hd
            intro c hc
            rcases List.mem_cons.1 hc with rfl | hc
            · decide
            · exact List.all_eq_true.1 h c hc
          · simp [isBare, hd] at h

/-- A parameter without a value has no equals sign. -/
theorem keyValue_of_isBare {param : List Char} (h : isBare param = true) : keyValue param = none := by
  have hdrop : param.dropWhile (· ≠ '=') = [] := by
    refine List.dropWhile_eq_nil_iff.2 fun c hc => decide_eq_true ?_
    rintro rfl
    exact absurd (isWordChar_of_isBare h _ hc) (by decide)
  rw [keyValue, hdrop]

/-- What a parameter changes. -/
theorem parseParam_spec (h : parseParam w quid = .ok quid') :
    quid'.kind = quid.kind ∧ quid'.connectsTo = quid.connectsTo ∧
      quid'.exposeShmr = quid.exposeShmr ∧ quid'.name = wordName quid.name w := by
  unfold parseParam at h
  unfold wordName
  dsimp only at h
  split_ifs at h with hbare hname
  · obtain rfl := Except.ok.inj h
    rw [keyValue_of_isBare hbare]
    exact ⟨rfl, rfl, rfl, rfl⟩
  · cases hkey : keyValue (restoreSpaces w) with
    | none =>
        rw [hkey] at h
        cases h
    | some e =>
        obtain ⟨key, value⟩ := e
        rw [hkey] at h
        dsimp only at h ⊢
        split_ifs at h ⊢ with h₁ h₂
        all_goals
          obtain rfl := Except.ok.inj h
          exact ⟨rfl, rfl, rfl, rfl⟩

/-- What a word changes: nothing but the parameters gives a name, and the shmdata reader is not
marked when there is one. -/
theorem parseWord_spec {reader : String} (h : parseWord reader quid w = .ok quid') :
    quid'.kind = quid.kind ∧ quid'.connectsTo = quid.connectsTo ∧
      (quid'.exposeShmr = true → quid.exposeShmr = true ∨ reader = "") ∧
      quid'.name = wordName quid.name w := by
  have hflag : ∀ flag, String.ofList w = flag → keyValue (restoreSpaces flag.toList) = none →
      wordName quid.name w = quid.name := by
    rintro _ rfl hnone
    rw [String.toList_ofList] at hnone
    rw [wordName, hnone]
  unfold parseWord at h
  split_ifs at h with hshmr hreader hshmw hprop hstart htop
  · obtain rfl := Except.ok.inj h
    exact ⟨rfl, rfl, fun _ => Or.inr (not_not.1 hreader), (hflag _ hshmr (by decide +kernel)).symm⟩
  · obtain rfl := Except.ok.inj h
    exact ⟨rfl, rfl, Or.inl, (hflag _ hshmw (by decide +kernel)).symm⟩
  · obtain rfl := Except.ok.inj h
    exact ⟨rfl, rfl, Or.inl, (hflag _ hprop (by decide +kernel)).symm⟩
  · obtain rfl := Except.ok.inj h
    exact ⟨rfl, rfl, Or.inl, (hflag _ hstart (by decide +kernel)).symm⟩
  · obtain rfl := Except.ok.inj h
    exact ⟨rfl, rfl, Or.inl, (hflag _ htop (by decide +kernel)).symm⟩
  · obtain ⟨hkind, hsinks, hreader, hname⟩ := parseParam_spec h
    exact ⟨hkind, hsinks, fun hq => Or.inl (hreader ▸ hq), hname⟩

/-- What the words of an item make. -/
theorem parseWords_spec {reader : String} (h : parseWords reader quid ws = .ok quid') :
    quid'.kind = quid.kind ∧ quid'.connectsTo = quid.connectsTo ∧
      (quid'.exposeShmr = true → quid.exposeShmr = true ∨ reader = "") ∧
      quid'.name = ws.foldl wordName quid.name := by
  induction ws generalizing quid with
  | nil =>
      obtain rfl := Except.ok.inj h
      exact ⟨rfl, rfl, Or.inl, rfl⟩
  | cons w ws ih =>
      rw [parseWords] at h
      cases hw : parseWord reader quid w with
      | error e =>
          rw [hw] at h
          cases h
      | ok quid₁ =>
          rw [hw] at h
          obtain ⟨hkind, hsinks, hreader, hname⟩ := parseWord_spec hw
          obtain ⟨hkind', hsinks', hreader', hname'⟩ := ih h
          refine ⟨hkind'.trans hkind, hsinks'.trans hsinks, fun hq => ?_, ?_⟩
          · exact (hreader' hq).elim hreader Or.inr
          · rw [hname', hname, List.foldl_cons]

/-- The end of a quiddity that is accepted. -/
theorem addQuiddity_spec (h : addQuiddity quid s = .ok s') :
    (∀ q ∈ s.quiddities, q.name ≠ quid.name) ∧ '_' ∉ quid.name.toList ∧ quid.name ≠ "" ∧
      s' = ⟨quid.name, s.quiddities ++ [quid], connected s quid.name,
        if quid.exposeShmr then quid.name else s.readerQuid⟩ := by
  unfold addQuiddity at h
  by_cases hunique : ∃ q ∈ s.quiddities, q.name = quid.name
  · rw [if_pos hunique] at h
    cases h
  by_cases hunderscore : '_' ∈ quid.name.toList
  · rw [if_neg hunique, if_pos hunderscore] at h
    cases h
  by_cases hname : quid.name = ""
  · rw [if_neg hunique, if_neg hunderscore, if_pos hname] at h
    cases h
  rw [if_neg hunique, if_neg hunderscore, if_neg hname] at h
  exact ⟨fun q hq heq => hunique ⟨q, hq, heq⟩, hunderscore, hname, (Except.ok.inj h).symm⟩

/-- An accepted item is a placeholder or declares a quiddity. -/
theorem parseItem_spec {rawItem : List Char} (h : parseItem validKinds s rawItem = .ok s') :
    ∃ w ws, itemWords rawItem = w :: ws ∧
      ((startsWithDot (String.ofList w) = true ∧ (String.ofList w).length ≠ 1 ∧
          (s.previousQuid ≠ "" → startsWithDot s.previousQuid = false) ∧
          s' = { s with
            previousQuid := String.ofList w, connections := connected s (String.ofList w) }) ∨
        (startsWithDot (String.ofList w) = false ∧
          (validKinds ≠ [] → String.ofList w ∈ validKinds) ∧ ∃ quid : QuiddSpec,
          quid.kind = String.ofList w ∧ quid.connectsTo = [] ∧
          (quid.exposeShmr = true → s.readerQuid = "") ∧ quid.name = paramName ws ∧
          (∀ q ∈ s.quiddities, q.name ≠ quid.name) ∧ '_' ∉ quid.name.toList ∧ quid.name ≠ "" ∧
          s' = ⟨quid.name, s.quiddities ++ [quid], connected s quid.name,
            if quid.exposeShmr then quid.name else s.readerQuid⟩)) := by
  unfold parseItem at h
  cases hitem : itemWords rawItem with
  | nil =>
      rw [hitem] at h
      exact absurd rfl (addQuiddity_spec h).2.2.1
  | cons w ws =>
      rw [hitem] at h
      dsimp only at h
      refine ⟨w, ws, rfl, ?_⟩
      by_cases hdot : startsWithDot (String.ofList w) = true
      · left
        rw [if_pos hdot] at h
        unfold parsePlaceholder at h
        split_ifs at h with hlength hboth
        obtain rfl := Except.ok.inj h
        exact ⟨hdot, hlength, fun hne => Bool.eq_false_iff.2 fun h => hboth ⟨hne, h⟩, rfl⟩
      · right
        rw [if_neg hdot] at h
        split_ifs at h with hkind
        cases hws : parseWords s.readerQuid { kind := String.ofList w } ws with
        | error e =>
            rw [hws] at h
            cases h
        | ok quid =>
            rw [hws] at h
            obtain ⟨hk, hsinks, hreader, hname⟩ := parseWords_spec hws
            obtain ⟨hunique, hunderscore, hne, hs'⟩ := addQuiddity_spec h
            refine ⟨Bool.eq_false_iff.2 hdot, fun hvalid => ?_, quid, hk, hsinks, ?_, hname, hunique,
              hunderscore, hne, hs'⟩
            · exact not_not.1 fun hnot => hkind ⟨hvalid, hnot⟩
            · exact fun hq => (hreader hq).resolve_left Bool.false_ne_true

/-- The end of a connection: a placeholder, or the name of a quiddity that does not start with
a dot. -/
def Endpoint (quiddities : List QuiddSpec) (name : String) : Prop :=
  (startsWithDot name = true ∧ name.length ≠ 1) ∨
    (startsWithDot name = false ∧ Declares quiddities name)

/-- What has been read so far is fine. -/
structure Sound (validKinds : List String) (s : DescriptionParser) : Prop where
  names_ne : ∀ q ∈ s.quiddities, q.name ≠ ""
  names_nodup : (s.quiddities.map QuiddSpec.name).Nodup
  names_underscore : ∀ q ∈ s.quiddities, '_' ∉ q.name.toList
  kinds : validKinds ≠ [] → ∀ q ∈ s.quiddities, q.kind ∈ validKinds
  unwired : ∀ q ∈ s.quiddities, q.connectsTo = []
  reader : ∀ q ∈ s.quiddities, q.exposeShmr = true → s.readerQuid = q.name
  reader_declared : s.readerQuid ≠ "" → ∃ q ∈ s.quiddities, q.exposeShmr ∧ q.name = s.readerQuid
  connections : ∀ c ∈ s.connections, Endpoint s.quiddities c.src ∧ Endpoint s.quiddities c.sink ∧
    ¬(startsWithDot c.src = true ∧ startsWithDot c.sink = true)
  previous : s.previousQuid ≠ "" → Endpoint s.quiddities s.previousQuid

theorem sound_empty (validKinds : List String) : Sound validKinds {} where
  names_ne := by simp
  names_nodup := List.nodup_nil
  names_underscore := by simp
  kinds := by simp
  unwired := by simp
  reader := by simp
  reader_declared := by simp
  connections := by simp
  previous := by simp

theorem Endpoint.mono {qs qs' : List QuiddSpec} (h : Endpoint qs name) (hsub : qs ⊆ qs') :
    Endpoint qs' name :=
  h.imp id fun ⟨hdot, q, hq, hname⟩ => ⟨hdot, q, hsub hq, hname⟩

/-- A connection is added between the item before and one that is an end, if not both are
placeholders. -/
theorem Sound.connected {qs : List QuiddSpec} (h : Sound validKinds s) (hsub : s.quiddities ⊆ qs)
    (hname : Endpoint qs name)
    (hboth : s.previousQuid ≠ "" →
      ¬(startsWithDot s.previousQuid = true ∧ startsWithDot name = true)) :
    ∀ c ∈ connected s name, Endpoint qs c.src ∧ Endpoint qs c.sink ∧
      ¬(startsWithDot c.src = true ∧ startsWithDot c.sink = true) := by
  intro c hc
  unfold DescriptionParser.connected at hc
  have hold : c ∈ s.connections → _ := fun hc =>
    And.imp (Endpoint.mono · hsub) (And.imp_left (Endpoint.mono · hsub)) (h.connections c hc)
  split_ifs at hc with hprevious
  · exact hold hc
  · rcases List.mem_append.1 hc with hc | hc
    · exact hold hc
    · obtain rfl := List.mem_singleton.1 hc
      exact ⟨(h.previous hprevious).mono hsub, hname, hboth hprevious⟩

/-- An accepted item keeps what has been read fine. -/
theorem Sound.parseItem {rawItem : List Char} (hs : Sound validKinds s)
    (h : parseItem validKinds s rawItem = .ok s') (hdotted : undotted (itemWords rawItem) = true) :
    Sound validKinds s' := by
  obtain ⟨w, ws, hitem, h⟩ := parseItem_spec h
  rw [hitem] at hdotted
  rcases h with ⟨hdot, hlength, hboth, rfl⟩ |
    ⟨hdot, hkind, quid, hk, hsinks, hreader, hname, hunique, hunderscore, hne, rfl⟩
  · have hend : Endpoint s.quiddities (String.ofList w) := Or.inl ⟨hdot, hlength⟩
    refine { hs with
      connections := hs.connected (List.Subset.refl _) hend fun hne hdots => ?_
      previous := fun _ => hend }
    rw [hboth hne] at hdots
    exact Bool.false_ne_true hdots.1
  · have hplain : startsWithDot quid.name = false := by
      rw [hname]
      rw [undotted, hdot, Bool.false_or, Bool.not_eq_true'] at hdotted
      exact hdotted
    have hend : Endpoint (s.quiddities ++ [quid]) quid.name :=
      Or.inr ⟨hplain, quid, by simp, rfl⟩
    have hforall : ∀ {P : QuiddSpec → Prop}, (∀ q ∈ s.quiddities, P q) → P quid →
        ∀ q ∈ s.quiddities ++ [quid], P q := by
      intro P hold hnew q hq
      rcases List.mem_append.1 hq with hq | hq
      · exact hold q hq
      · exact List.mem_singleton.1 hq ▸ hnew
    exact
      { names_ne := hforall hs.names_ne hne
        names_nodup := by
          rw [List.map_append, List.map_singleton, List.nodup_append]
          refine ⟨hs.names_nodup, List.pairwise_singleton _ _, ?_⟩
          rintro _ hold _ hnew rfl
          obtain ⟨q, hq, hqname⟩ := List.mem_map.1 hold
          exact hunique q hq (hqname.trans (List.mem_singleton.1 hnew))
        names_underscore := hforall hs.names_underscore hunderscore
        kinds := fun hvalid => hforall (hs.kinds hvalid) (by rw [hk]; exact hkind hvalid)
        unwired := hforall hs.unwired hsinks
        reader := by
          refine hforall (fun q hq hshmr => ?_) fun hshmr => by simp [hshmr]
          -- a reader that is known excludes another one
          have hold := hs.reader q hq hshmr
          dsimp only
          split_ifs with hnew
          · exact absurd ((hreader hnew).symm.trans hold).symm (hs.names_ne q hq)
          · exact hold
        reader_declared := by
          dsimp only
          split_ifs with hnew
          · exact fun _ => ⟨quid, by simp, hnew, rfl⟩
          · intro hold
            obtain ⟨q, hq, hread⟩ := hs.reader_declared hold
            exact ⟨q, List.mem_append_left _ hq, hread⟩
        connections := by
          refine hs.connected (List.subset_append_left _ _) hend fun _ hdots => ?_
          rw [hplain] at hdots
          exact Bool.false_ne_true hdots.2
        previous := fun _ => hend }

/-! ### Branches -/

/-- The item before, if there is one. -/
def before (s : DescriptionParser) : List String :=
  if s.previousQuid = "" then [] else [s.previousQuid]

end DescriptionParser
end Bundle
end LibSwitcher
