/-
# When learnt mappings stay live

The property of a long name goes with `remove_property_method`, and its identifier with it, since a
bag hands out no identifier twice.  It is used again all the same: a channel whose property was
removed gets the identifier of a property that is no longer there.  A long name is looked for in
the contexts, which are never taken out, so that it can be removed twice; it then takes the channel
of two zeros with it.  A long name with two channels leaves one of them without property.

`Fits` are the calls and the events that do none of this, and `learnt_iff` says that they are those
of the runs in which every mapping is live, and every long name that was removed leaves no entry;
but for its context, which only the runs in which nothing is removed leave none of.
-/

import LibSwitcher.Plugins.Portmidi.PortMidiSource
import Std.Data.String.ToInt

namespace LibSwitcher
namespace Portmidi

open InfoTree

/-! ### The names of properties -/

/-- What stands before the first separator, and what stands after it. -/
theorem eq_of_append_cons {a : Char} {xs ys zs ws : List Char} (hxs : a ∉ xs) (hys : a ∉ ys)
    (h : xs ++ a :: zs = ys ++ a :: ws) : xs = ys ∧ zs = ws := by
  induction xs generalizing ys with
  | nil =>
      cases ys with
      | nil => exact ⟨rfl, (List.cons.inj h).2⟩
      | cons y ys => exact absurd (List.mem_cons.2 (Or.inl (List.cons.inj h).1)) hys
  | cons x xs ih =>
      cases ys with
      | nil => exact absurd (List.mem_cons.2 (Or.inl (List.cons.inj h).1.symm)) hxs
      | cons y ys =>
          obtain ⟨rfl, htail⟩ := List.cons.inj h
          obtain ⟨rfl, rfl⟩ := ih (fun hmem => hxs (List.mem_cons_of_mem x hmem))
            (fun hmem => hys (List.mem_cons_of_mem x hmem)) htail
          exact ⟨rfl, rfl⟩

/-- Different channels have properties of different names. -/
theorem propName_inj {c c' : Channel} (h : c.propName = c'.propName) : c = c' := by
  have hlist := congrArg String.toList h
  rw [toList_propName, toList_propName] at hlist
  have hnot : ∀ ds : List Char, (∀ d ∈ ds, d.isDigit = true) → '-' ∉ ds := fun ds hds hmem =>
    absurd (hds _ hmem) (by decide)
  have hparts : (toString c.status.toInt).toList = (toString c'.status.toInt).toList ∧
      (toString c.data1.toInt).toList = (toString c'.data1.toInt).toList := by
    obtain ⟨ds, hne, hds, heq⟩ := toList_toString c.status.toInt
    obtain ⟨ds', hne', hds', heq'⟩ := toList_toString c'.status.toInt
    obtain ⟨d, ds, rfl⟩ := List.exists_cons_of_ne_nil hne
    obtain ⟨d', ds', rfl⟩ := List.exists_cons_of_ne_nil hne'
    have hd : d ≠ '-' := fun hd => hnot _ hds (hd ▸ List.mem_cons_self)
    have hd' : d' ≠ '-' := fun hd => hnot _ hds' (hd ▸ List.mem_cons_self)
    rcases heq with heq | heq <;> rcases heq' with heq' | heq' <;> rw [heq, heq'] at hlist ⊢
    · exact eq_of_append_cons (hnot _ hds) (hnot _ hds') hlist
    · exact absurd (List.cons.inj hlist).1 hd
    · exact absurd (List.cons.inj hlist).1.symm hd'
    · obtain ⟨h₁, h₂⟩ := eq_of_append_cons (hnot _ hds) (hnot _ hds') (List.cons.inj hlist).2
      exact ⟨congrArg _ h₁, h₂⟩
  have hint : ∀ {a b : BitVec 32}, (toString a.toInt).toList = (toString b.toInt).toList → a = b :=
    fun hab => BitVec.eq_of_toInt_eq (Int.repr_inj.1 (String.toList_inj.1 hab))
  obtain ⟨s, d⟩ := c
  obtain ⟨s', d'⟩ := c'
  rw [Channel.mk.injEq]
  exact ⟨hint hparts.1, hint hparts.2⟩

/-- The name of a property starts with a sign or a digit. -/
theorem head_propName (c : Channel) : ∃ d, c.propName.toList.head? = some d ∧
    (d = '-' ∨ d.isDigit = true) := by
  obtain ⟨ds, hne, hds, heq⟩ := toList_toString c.status.toInt
  obtain ⟨d, ds, rfl⟩ := List.exists_cons_of_ne_nil hne
  rw [toList_propName]
  rcases heq with heq | heq <;> rw [heq]
  · exact ⟨d, rfl, Or.inr (hds d List.mem_cons_self)⟩
  · exact ⟨'-', rfl, Or.inl rfl⟩

/-! ### The map of the channels -/

section Channels

variable {m : Std.ExtTreeMap Channel String} {c c' : Channel} {name : String}

theorem compare_channel_eq_iff : compare c c' = .eq ↔ c = c' :=
  ⟨Std.LawfulEqCmp.eq_of_compare, fun h => by rw [h]; exact Std.ReflCmp.compare_self⟩

/-- What is found after a channel is mapped. -/
theorem getElem?_insert_channel :
    (m.insert c name)[c']? = if c' = c then some name else m[c']? := by
  simp only [Std.ExtTreeMap.getElem?_insert, compare_channel_eq_iff, eq_comm (a := c)]

/-- What is found after a channel is taken out. -/
theorem getElem?_erase_channel : (m.erase c)[c']? = if c' = c then none else m[c']? := by
  simp only [Std.ExtTreeMap.getElem?_erase, compare_channel_eq_iff, eq_comm (a := c)]

theorem mem_channels_iff : c ∈ m ↔ m[c]? ≠ none := by
  rw [Std.ExtTreeMap.mem_iff_isSome_getElem?, Option.isSome_iff_ne_none]

end Channels

namespace PortMidiSource

variable {s s' : PortMidiSource} {name name' : String} {c c' : Channel} {op : Op}
  {r : PortMidiSource × Result}

/-- The first channel of a long name has it, or there is none. -/
theorem channelOf_cases (name : String) (s : PortMidiSource) :
    s.midiChannels[s.channelOf name]? = some name ∨
      (∀ c : Channel, s.midiChannels[c]? ≠ some name) ∧ s.channelOf name = ⟨0, 0⟩ := by
  unfold channelOf
  cases hfind : s.midiChannels.toList.find? fun e => e.2 = name with
  | none =>
      refine Or.inr ⟨fun c hc => ?_, rfl⟩
      have hmem := Std.ExtTreeMap.mem_toList_iff_getElem?_eq_some.2 hc
      exact List.find?_eq_none.1 hfind _ hmem (decide_eq_true rfl)
  | some e =>
      left
      have hname : e.2 = name := by simpa using List.find?_some hfind
      have hmem :=
        Std.ExtTreeMap.mem_toList_iff_getElem?_eq_some.1 (List.mem_of_find?_eq_some hfind)
      rw [Option.map_some, Option.getD_some, hmem, hname]

/-! ### What is expected of a step -/

/-- The property recorded for a long name is in the bag, and reads the value of the long name. -/
def Live (s : PortMidiSource) (name : String) : Prop :=
  ∃ id ref p, s.propIds[name]? = some id ∧ s.pbags.object 0 id = some ref ∧
    s.pbags.heap[ref]? = some p ∧ s.getters[id]? = some name

/-- A long name has no identifier, no value and no channel. -/
structure Cleared (s : PortMidiSource) (name : String) : Prop where
  propIds : name ∉ s.propIds
  midiValues : name ∉ s.midiValues
  midiChannels : ∀ c : Channel, s.midiChannels[c]? ≠ some name

/-- A long name has no entry in any map. -/
structure Forgotten (s : PortMidiSource) (name : String) : Prop extends Cleared s name where
  midiPropertyContexts : name ∉ s.midiPropertyContexts

/-- A property of a long name is to be made for a channel. -/
def Op.Asks (s : PortMidiSource) (name : String) (c : Channel) : Op → Prop
  | .mapMidiToProperty propName status data => propName = name ∧ ⟨status, data⟩ = c
  | .event message => s.makePropertyForNextMidiEvent = true ∧ s.nextPropertyName = name ∧
      messageChannel message = c
  | _ => False

/-- What a step is to do.  `gone` says what is left of a long name that was removed. -/
structure Sound (gone : PortMidiSource → String → Prop) (s : PortMidiSource) (op : Op)
    (r : PortMidiSource × Result) : Prop where
  live : ∀ (c : Channel) name, r.1.midiChannels[c]? = some name → r.1.Live name
  removed : ∀ name, op = .removeMidiProperty name → gone r.1 name
  stays : ∀ name, gone s name → (∀ c, ¬op.Asks s name c) → gone r.1 name
  made : ∀ name c, op.Asks s name c → s.midiChannels[c]? = none → r.1.midiChannels[c]? = some name
  kept : ∀ name (c : Channel), s.midiChannels[c]? = some name → op ≠ .removeMidiProperty name →
    r.1.midiChannels[c]? = some name
  new : ∀ name (c : Channel), r.1.midiChannels[c]? = some name →
    s.midiChannels[c]? = some name ∨ op.Asks s name c
  updated : ∀ message name, op = .event message →
    s.midiChannels[messageChannel message]? = some name →
      r.1.midiValues[name]? = some (messageData2 message) ∧
        ∃ id ref p before, s.propIds[name]? = some id ∧ s.pbags.object 0 id = some ref ∧
          s.pbags.heap[ref]? = some p ∧ r.2 = .calls (before ++ p.notify)

/-- A channel has a property, or its property was not removed. -/
def Unspent (s : PortMidiSource) (c : Channel) : Prop :=
  s.midiChannels[c]? = none → c.propName ∉ s.unusedPropsSpecs

/-- A step that makes no property for a channel whose property was removed, and removes a long name
from one channel at most, and from none only where that of two zeros is not mapped. -/
def Fits (s : PortMidiSource) : Op → Prop
  | .mapMidiToProperty _ status data => s.Unspent ⟨status, data⟩
  | .removeMidiProperty name => name ∈ s.midiPropertyContexts →
      (∀ c c' : Channel, s.midiChannels[c]? = some name → s.midiChannels[c']? = some name →
        c = c') ∧
        ((∀ c : Channel, s.midiChannels[c]? ≠ some name) →
          s.midiChannels[(⟨0, 0⟩ : Channel)]? = none)
  | .nextMidiEventToProperty _ => True
  | .event message => s.makePropertyForNextMidiEvent = true → s.Unspent (messageChannel message)

/-- A step that removes no long name that a property was made for. -/
def RemovesNothing (s : PortMidiSource) (op : Op) : Prop :=
  ∀ name, op = .removeMidiProperty name → name ∉ s.midiPropertyContexts

/-! ### The invariant -/

/-- What such steps keep: the recorded properties are those of the channels, under their names, and
the identifiers that are to be used again are those of no property. -/
structure Inv (s : PortMidiSource) : Prop where
  whole : s.pbags.Whole
  zero : 0 ∉ (s.pbags.bag 0).strids
  last : ∃ strid, (s.pbags.bag 0).strids[s.lastMidiValueId]? = some strid ∧
    ∀ c : Channel, c.propName ≠ strid
  recorded : ∀ (name : String) id, s.propIds[name]? = some id → ∃ c : Channel, s.midiChannels[c]? = some name ∧
    (s.pbags.bag 0).strids[id]? = some c.propName ∧ s.getters[id]? = some name ∧
      name ∈ s.midiPropertyContexts
  mapped : ∀ (c : Channel) name, s.midiChannels[c]? = some name → name ∈ s.propIds
  free : ∀ c : Channel, s.midiChannels[c]? = none → c.propName ∉ (s.pbags.bag 0).ids
  unused : ∀ (key : String) id, s.unusedPropsSpecs[key]? = some id →
    id ∉ (s.pbags.bag 0).strids ∧ id ≤ (s.pbags.bag 0).counter
  values : ∀ name ∈ s.midiValues, ∃ c : Channel, s.midiChannels[c]? = some name

/-- A long name without channel has no identifier. -/
theorem Inv.getElem?_propIds_of_not_mapped (h : Inv s)
    (hname : ∀ c : Channel, s.midiChannels[c]? ≠ some name) : s.propIds[name]? = none := by
  refine Option.eq_none_iff_forall_ne_some.2 fun id hid => ?_
  obtain ⟨c, hc, -⟩ := h.recorded name id hid
  exact hname c hc

/-- A long name without channel is cleared. -/
theorem Inv.cleared (h : Inv s) (hname : ∀ c : Channel, s.midiChannels[c]? ≠ some name) :
    s.Cleared name where
  propIds := by
    rw [Std.ExtTreeMap.mem_iff_isSome_getElem?, h.getElem?_propIds_of_not_mapped hname]
    exact Bool.false_ne_true
  midiValues hmem := by
    obtain ⟨c, hc⟩ := h.values name hmem
    exact hname c hc
  midiChannels := hname

/-- The recorded property of a long name with a channel. -/
theorem Inv.exists_recorded (h : Inv s) (hc : s.midiChannels[c]? = some name) : ∃ id, ∃ c' : Channel,
    s.propIds[name]? = some id ∧ s.midiChannels[c']? = some name ∧
      (s.pbags.bag 0).strids[id]? = some c'.propName ∧ s.getters[id]? = some name ∧
        name ∈ s.midiPropertyContexts := by
  obtain ⟨id, hid⟩ := Option.isSome_iff_exists.1
    (Std.ExtTreeMap.mem_iff_isSome_getElem?.1 (h.mapped c name hc))
  obtain ⟨c', hc'⟩ := h.recorded name id hid
  exact ⟨id, c', hid, hc'⟩

theorem Inv.live (h : Inv s) (hc : s.midiChannels[c]? = some name) : s.Live name := by
  obtain ⟨id, c', hid, -, hstrid, hgetter, -⟩ := h.exists_recorded hc
  obtain ⟨ref, p, href, -, hp, -⟩ := h.whole.exists_object hstrid
  exact ⟨id, ref, p, hid, href, hp, hgetter⟩

/-- An identifier that is not registered is that of no property. -/
theorem Inv.object_eq_none (h : Inv s) {id : ℕ} (hid : id ∉ (s.pbags.bag 0).strids) :
    s.pbags.object 0 id = none := by
  have hprops : (s.pbags.bag 0).props[id]? = none :=
    IdMap.getElem?_eq_none_iff.2 fun hmem => hid (((h.whole.consistent 0).props id).1 hmem)
  rw [PBags.object, hprops]
  rfl

/-! ### Making a property -/

/-- The source after a property was made for a channel. -/
def learnt (name : String) (c : Channel) (w : PBags) (id : ℕ) (s : PortMidiSource) :
    PortMidiSource :=
  { s with
    midiChannels := s.midiChannels.insert c name
    midiValues := s.midiValues.insert name s.lastData2
    midiPropertyContexts := s.midiPropertyContexts.insert name ()
    propIds := s.propIds.insert name id
    pbags := w
    getters := s.getters.insert id name }

theorem makeProperty_of_mapped (hc : s.midiChannels[c]? ≠ none) (name : String) :
    s.makeProperty name c = some (s, false) := by
  rw [makeProperty.eq_def, if_pos (mem_channels_iff.2 hc)]

/-- A property is made for a channel whose property was not removed. -/
theorem Inv.makeProperty_of_free (h : Inv s) (hc : s.midiChannels[c]? = none)
    (hunspent : c.propName ∉ s.unusedPropsSpecs) (name : String) : ∃ w,
    s.makeProperty name c = some (s.learnt name c w ((s.pbags.bag 0).counter + 1), true) ∧
      w.Whole ∧ (w.bag 0).counter = (s.pbags.bag 0).counter + 1 ∧
      (w.bag 0).ids = (s.pbags.bag 0).ids.insert c.propName ((s.pbags.bag 0).counter + 1) ∧
      (w.bag 0).strids = (s.pbags.bag 0).strids.insert ((s.pbags.bag 0).counter + 1) c.propName := by
  obtain ⟨w, hpush, hw⟩ := h.whole.pushed ⟨c.propName, plain_propName c⟩
    (makeInt name name s.lastData2) (h.free c hc)
  refine ⟨w, ?_, hw⟩
  have hnone : s.unusedPropsSpecs[c.propName]? = none := Std.ExtTreeMap.getElem?_eq_none hunspent
  rw [makeProperty.eq_def, if_neg fun hmem => mem_channels_iff.1 hmem hc]
  dsimp only
  rw [hnone]
  dsimp only
  rw [hpush, Option.map_some]
  rfl

/-- A property that is made keeps the invariant. -/
theorem Inv.learnt (h : Inv s) (hc : s.midiChannels[c]? = none) {w : PBags} (hw : w.Whole)
    (hcounter : (w.bag 0).counter = (s.pbags.bag 0).counter + 1)
    (hids : (w.bag 0).ids = (s.pbags.bag 0).ids.insert c.propName ((s.pbags.bag 0).counter + 1))
    (hstrids : (w.bag 0).strids =
      (s.pbags.bag 0).strids.insert ((s.pbags.bag 0).counter + 1) c.propName) (name : String) :
    Inv (s.learnt name c w ((s.pbags.bag 0).counter + 1)) := by
  have hle := (h.whole.consistent 0).le
  -- an identifier of the bag is not the next one
  have hold : ∀ {id strid}, (s.pbags.bag 0).strids[id]? = some strid →
      (w.bag 0).strids[id]? = some strid ∧ id ≠ (s.pbags.bag 0).counter + 1 := by
    intro id strid hid
    have hne : id ≠ (s.pbags.bag 0).counter + 1 := fun heq => by
      have := hle id (PBag.mem_strids_of_getElem? hid)
      omega
    rw [hstrids, IdMap.getElem?_insert, if_neg hne]
    exact ⟨hid, hne⟩
  have hchannels : ∀ {c' : Channel} {name' : String}, s.midiChannels[c']? = some name' →
      (s.midiChannels.insert c name)[c']? = some name' := by
    intro c' name' hc'
    rw [getElem?_insert_channel, if_neg]
    · exact hc'
    · rintro rfl
      rw [hc] at hc'
      cases hc'
  constructor
  · exact hw
  · change 0 ∉ (w.bag 0).strids
    rw [hstrids, IdMap.mem_insert]
    rintro (h0 | h0)
    · exact absurd h0 (Nat.succ_ne_zero _).symm
    · exact h.zero h0
  · obtain ⟨strid, hlast, hne⟩ := h.last
    exact ⟨strid, (hold hlast).1, hne⟩
  · intro name' id hid
    change (s.propIds.insert name _)[name']? = some id at hid
    change ∃ c' : Channel, (s.midiChannels.insert c name)[c']? = some name' ∧
      (w.bag 0).strids[id]? = some c'.propName ∧ (s.getters.insert _ name)[id]? = some name' ∧
        name' ∈ s.midiPropertyContexts.insert name ()
    rw [NameMap.getElem?_insert] at hid
    split_ifs at hid with heq
    · obtain rfl := Option.some.inj hid
      subst heq
      refine ⟨c, ?_, ?_, ?_, NameMap.mem_insert.2 (Or.inl rfl)⟩
      · rw [getElem?_insert_channel, if_pos rfl]
      · rw [hstrids, IdMap.getElem?_insert, if_pos rfl]
      · rw [IdMap.getElem?_insert, if_pos rfl]
    · obtain ⟨c', hc', hstrid, hgetter, hcontext⟩ := h.recorded name' id hid
      refine ⟨c', hchannels hc', (hold hstrid).1, ?_, NameMap.mem_insert.2 (Or.inr hcontext)⟩
      rw [IdMap.getElem?_insert, if_neg (hold hstrid).2, hgetter]
  · intro c' name' hc'
    change (s.midiChannels.insert c name)[c']? = some name' at hc'
    change name' ∈ s.propIds.insert name _
    rw [getElem?_insert_channel] at hc'
    split_ifs at hc'
    · exact NameMap.mem_insert.2 (Or.inl (Option.some.inj hc').symm)
    · exact NameMap.mem_insert.2 (Or.inr (h.mapped c' name' hc'))
  · intro c' hc'
    change (s.midiChannels.insert c name)[c']? = none at hc'
    change c'.propName ∉ (w.bag 0).ids
    rw [getElem?_insert_channel] at hc'
    split_ifs at hc' with heq
    rw [hids, NameMap.mem_insert]
    rintro (hname | hmem)
    · exact heq (propName_inj hname)
    · exact h.free c' hc' hmem
  · intro key id hid
    obtain ⟨hnot, hid⟩ := h.unused key id hid
    change id ∉ (w.bag 0).strids ∧ id ≤ (w.bag 0).counter
    rw [hstrids, hcounter, IdMap.mem_insert]
    refine ⟨?_, by omega⟩
    rintro (heq | hmem)
    · omega
    · exact hnot hmem
  · intro name' hmem
    change name' ∈ s.midiValues.insert name _ at hmem
    change ∃ c' : Channel, (s.midiChannels.insert c name)[c']? = some name'
    rcases NameMap.mem_insert.1 hmem with rfl | hmem
    · exact ⟨c, by rw [getElem?_insert_channel, if_pos rfl]⟩
    · obtain ⟨c', hc'⟩ := h.values name' hmem
      exact ⟨c', hchannels hc'⟩

/-- What properties that are asked for change: their channels have their long names, if they had
none. -/
structure Made (asks : String → Channel → Prop) (s s' : PortMidiSource) : Prop where
  made : ∀ name c, asks name c → s.midiChannels[c]? = none → s'.midiChannels[c]? = some name
  kept : ∀ name (c : Channel), s.midiChannels[c]? = some name → s'.midiChannels[c]? = some name
  new : ∀ name (c : Channel), s'.midiChannels[c]? = some name →
    s.midiChannels[c]? = some name ∨ asks name c
  contexts : ∀ name, name ∈ s'.midiPropertyContexts →
    name ∈ s.midiPropertyContexts ∨ ∃ c, asks name c
  unused : s'.unusedPropsSpecs = s.unusedPropsSpecs

theorem Made.congr {asks asks' : String → Channel → Prop} (h : Made asks s s')
    (hasks : ∀ name c, asks name c ↔ asks' name c) : Made asks' s s' where
  made name c hc := h.made name c ((hasks name c).2 hc)
  kept := h.kept
  new name c hc := (h.new name c hc).imp_right (hasks name c).1
  contexts name hname := (h.contexts name hname).imp_right fun ⟨c, hc⟩ => ⟨c, (hasks name c).1 hc⟩
  unused := h.unused

/-- Nothing is asked for, and nothing changes. -/
theorem Made.of_eq {asks : String → Channel → Prop} (hasks : ∀ name c, ¬asks name c)
    (hchannels : s'.midiChannels = s.midiChannels)
    (hcontexts : s'.midiPropertyContexts = s.midiPropertyContexts)
    (hunused : s'.unusedPropsSpecs = s.unusedPropsSpecs) : Made asks s s' where
  made name c hc := absurd hc (hasks name c)
  kept name c hc := by rw [hchannels, hc]
  new name c hc := Or.inl (by rw [← hchannels, hc])
  contexts name hname := Or.inl (hcontexts ▸ hname)
  unused := hunused

/-- For a channel that is not spent, a property is made or there is one. -/
theorem Inv.makeProperty (h : Inv s) (hunspent : s.Unspent c) (name : String) :
    ∃ r, s.makeProperty name c = some r ∧ Inv r.1 ∧
      Made (fun name' c' => name = name' ∧ c = c') s r.1 := by
  by_cases hc : s.midiChannels[c]? = none
  · obtain ⟨w, hmake, hw, hcounter, hids, hstrids⟩ := h.makeProperty_of_free hc (hunspent hc) name
    refine ⟨_, hmake, h.learnt hc hw hcounter hids hstrids name, ?_⟩
    have hchannels : ∀ c' : Channel,
        (s.learnt name c w ((s.pbags.bag 0).counter + 1)).midiChannels[c']? =
          if c' = c then some name else s.midiChannels[c']? := fun c' => getElem?_insert_channel
    constructor
    · rintro name' c' ⟨rfl, rfl⟩ _
      rw [hchannels, if_pos rfl]
    · intro name' c' hc'
      rw [hchannels, if_neg, hc']
      rintro rfl
      rw [hc] at hc'
      cases hc'
    · intro name' c' hc'
      rw [hchannels] at hc'
      split_ifs at hc' with heq
      · exact Or.inr ⟨Option.some.inj hc', heq.symm⟩
      · exact Or.inl hc'
    · intro name' hmem
      rcases NameMap.mem_insert.1 hmem with rfl | hmem
      · exact Or.inr ⟨c, rfl, rfl⟩
      · exact Or.inl hmem
    · rfl
  · refine ⟨_, makeProperty_of_mapped hc name, h, ?_, fun _ _ => id, fun _ _ => Or.inl,
      fun _ => Or.inl, rfl⟩
    rintro name' c' ⟨rfl, rfl⟩ hnone
    exact absurd hnone hc

/-- A channel that is spent gets an identifier of no property. -/
theorem Inv.not_live_of_spent (h : Inv s) (hspent : ¬s.Unspent c) {r : PortMidiSource × Bool}
    (hr : s.makeProperty name c = some r) :
    r.1.midiChannels[c]? = some name ∧ ¬r.1.Live name := by
  rw [Unspent, Classical.not_imp, not_not] at hspent
  obtain ⟨hc, hmem⟩ := hspent
  obtain ⟨id, hid⟩ := Option.isSome_iff_exists.1 (Std.ExtTreeMap.mem_iff_isSome_getElem?.1 hmem)
  rw [PortMidiSource.makeProperty.eq_def, if_neg fun hmem => mem_channels_iff.1 hmem hc] at hr
  dsimp only at hr
  rw [hid] at hr
  obtain rfl := Option.some.inj hr
  refine ⟨getElem?_insert_channel.trans (if_pos rfl), ?_⟩
  rintro ⟨id', ref, p, hid', href, -⟩
  have hsame : (s.propIds.insert name id)[name]? = some id' := hid'
  rw [NameMap.getElem?_insert, if_pos rfl] at hsame
  obtain rfl := Option.some.inj hsame
  have hobject : s.pbags.object 0 id = some ref := href
  rw [h.object_eq_none (h.unused _ id hid).1] at hobject
  cases hobject

/-! ### Removing a property -/

/-- A long name that is not in the contexts is not removed. -/
theorem removePropertyMethod_of_not_mem (hname : name ∉ s.midiPropertyContexts) :
    s.removePropertyMethod name = (s, false) := by
  rw [removePropertyMethod, if_pos hname]

theorem removePropertyMethod_of_mem (hname : name ∈ s.midiPropertyContexts) :
    s.removePropertyMethod name = ({ s with
      pbags := (s.pbags.remove 0 (s.propIds[name]?.getD 0)).1
      unusedPropsSpecs := s.unusedPropsSpecs.insert (s.channelOf name).removedName
        (s.propIds[name]?.getD 0)
      propIds := s.propIds.erase name
      midiChannels := s.midiChannels.erase (s.channelOf name)
      midiValues := s.midiValues.erase name }, true) := by
  rw [removePropertyMethod, if_neg (not_not.2 hname)]

/-- What is removed with a long name: a channel, and an identifier that is that of its property, if
it is one. -/
structure Removes (s : PortMidiSource) (name : String) (c : Channel) (id : ℕ) (w : PBags) :
    Prop where
  whole : w.Whole
  counter : (w.bag 0).counter = (s.pbags.bag 0).counter
  strids : ∀ i : ℕ, (w.bag 0).strids[i]? = if i = id then none else (s.pbags.bag 0).strids[i]?
  ids : ∀ strid ∈ (w.bag 0).ids, strid ∈ (s.pbags.bag 0).ids ∧ strid ≠ c.propName
  le : id ≤ (s.pbags.bag 0).counter
  property : ∀ strid, (s.pbags.bag 0).strids[id]? = some strid → strid = c.propName
  others : ∀ name', s.midiChannels[c]? = some name' → name' = name
  only : ∀ c' : Channel, s.midiChannels[c']? = some name → c' = c

/-- Removing a long name that fits. -/
theorem Inv.removes (h : Inv s) (hname : name ∈ s.midiPropertyContexts)
    (hfits : s.Fits (.removeMidiProperty name)) :
    Removes s name (s.channelOf name) (s.propIds[name]?.getD 0)
      (s.pbags.remove 0 (s.propIds[name]?.getD 0)).1 := by
  obtain ⟨honly, hzero⟩ := hfits hname
  rcases channelOf_cases name s with hc | ⟨hnone, hc⟩
  · obtain ⟨id, c', hid, hc', hstrid, -⟩ := h.exists_recorded hc
    obtain rfl := honly _ _ hc hc'
    rw [hid, Option.getD_some]
    obtain ⟨hw, hcounter, hids, hstrids⟩ := h.whole.removed hstrid
    refine ⟨hw, hcounter, fun i => ?_, fun strid hmem => ?_, ?_, fun strid hid' => ?_,
      fun name' hc' => ?_, fun c' hc' => honly c' _ hc' hc⟩
    · rw [hstrids, IdMap.getElem?_erase]
    · rw [hids] at hmem
      exact (NameMap.mem_erase.1 hmem).symm
    · exact (h.whole.consistent 0).le id (PBag.mem_strids_of_getElem? hstrid)
    · exact Option.some.inj (hid'.symm.trans hstrid)
    · exact Option.some.inj (hc'.symm.trans hc)
  · -- neither a channel nor an identifier is that of the long name
    have hremove : s.pbags.remove 0 0 = (s.pbags, false) := by
      rw [PBags.remove, IdMap.getElem?_eq_none_iff.2 h.zero]
    rw [h.getElem?_propIds_of_not_mapped hnone, hc, Option.getD_none, hremove]
    have hstrids : (s.pbags.bag 0).strids[0]? = none := IdMap.getElem?_eq_none_iff.2 h.zero
    refine ⟨h.whole, rfl, fun i => ?_, fun strid hmem => ⟨hmem, ?_⟩, Nat.zero_le _,
      fun strid hid => ?_, fun name' hc' => ?_, fun c' hc' => absurd hc' (hnone c')⟩
    · split_ifs with hi
      · rw [hi, hstrids]
      · rfl
    · rintro rfl
      exact h.free _ (hzero hnone) hmem
    · cases hstrids.symm.trans hid
    · cases (hzero hnone).symm.trans hc'

/-- A long name that is removed leaves the others as they are. -/
theorem Inv.remove (h : Inv s) {id : ℕ} {w : PBags} (hr : Removes s name c id w) (key : String) :
    Inv { s with
      pbags := w
      unusedPropsSpecs := s.unusedPropsSpecs.insert key id
      propIds := s.propIds.erase name
      midiChannels := s.midiChannels.erase c
      midiValues := s.midiValues.erase name } := by
  have hchannels : ∀ {c' : Channel} {name' : String}, s.midiChannels[c']? = some name' →
      name' ≠ name → (s.midiChannels.erase c)[c']? = some name' := by
    intro c' name' hc' hne
    rw [getElem?_erase_channel, if_neg, hc']
    rintro rfl
    exact hne (hr.others name' hc')
  constructor
  · exact hr.whole
  · change 0 ∉ (w.bag 0).strids
    rw [← IdMap.getElem?_eq_none_iff, hr.strids]
    split_ifs
    · rfl
    · exact IdMap.getElem?_eq_none_iff.2 h.zero
  · obtain ⟨strid, hlast, hne⟩ := h.last
    refine ⟨strid, ?_, hne⟩
    change (w.bag 0).strids[s.lastMidiValueId]? = some strid
    rw [hr.strids, if_neg, hlast]
    intro heq
    exact hne c (hr.property strid (heq ▸ hlast)).symm
  · intro name' id' hid'
    have hid' : (s.propIds.erase name)[name']? = some id' := hid'
    rw [NameMap.getElem?_erase] at hid'
    split_ifs at hid' with heq
    obtain ⟨c', hc', hstrid, hgetter, hcontext⟩ := h.recorded name' id' hid'
    refine ⟨c', hchannels hc' heq, ?_, hgetter, hcontext⟩
    change (w.bag 0).strids[id']? = some c'.propName
    rw [hr.strids, if_neg, hstrid]
    rintro rfl
    obtain rfl := propName_inj (hr.property _ hstrid)
    exact heq (hr.others name' hc')
  · intro c' name' hold
    have hc' : (s.midiChannels.erase c)[c']? = some name' := hold
    rw [getElem?_erase_channel] at hc'
    split_ifs at hc' with heq
    refine NameMap.mem_erase.2 ⟨?_, h.mapped c' name' hc'⟩
    rintro rfl
    exact heq (hr.only c' hc')
  · intro c' hc' hmem
    have hc' : (s.midiChannels.erase c)[c']? = none := hc'
    obtain ⟨hmem, hne⟩ := hr.ids _ hmem
    rw [getElem?_erase_channel] at hc'
    split_ifs at hc' with heq
    · exact hne (congrArg Channel.propName heq)
    · exact h.free c' hc' hmem
  · intro key' id' hid'
    have hid' : (s.unusedPropsSpecs.insert key id)[key']? = some id' := hid'
    change id' ∉ (w.bag 0).strids ∧ id' ≤ (w.bag 0).counter
    rw [← IdMap.getElem?_eq_none_iff, hr.strids, hr.counter]
    rw [NameMap.getElem?_insert] at hid'
    split_ifs at hid' with hkey
    · obtain rfl := Option.some.inj hid'
      exact ⟨if_pos rfl, hr.le⟩
    · obtain ⟨hnot, hle⟩ := h.unused key' id' hid'
      refine ⟨?_, hle⟩
      split_ifs
      · rfl
      · exact IdMap.getElem?_eq_none_iff.2 hnot
  · intro name' hmem
    obtain ⟨hne, hmem⟩ := NameMap.mem_erase.1 hmem
    obtain ⟨c', hc'⟩ := h.values name' hmem
    exact ⟨c', hchannels hc' hne⟩

/-! ### An event -/

/-- The values after an event. -/
def heardValues (message : BitVec 32) (s : PortMidiSource) : NameMap (BitVec 32) :=
  match s.midiChannels[messageChannel message]? with
  | none => s.midiValues
  | some name => s.midiValues.insert name (messageData2 message)

/-- The source after an event, before a property is made. -/
def heard (message : BitVec 32) (s : PortMidiSource) : PortMidiSource :=
  { s with
    lastStatus := messageStatus message
    lastData1 := messageData1 message
    lastData2 := messageData2 message
    midiValues := s.heardValues message }

theorem Inv.heard (h : Inv s) (message : BitVec 32) : Inv (s.heard message) where
  whole := h.whole
  zero := h.zero
  last := h.last
  recorded := h.recorded
  mapped := h.mapped
  free := h.free
  unused := h.unused
  values name hmem := by
    change name ∈ s.heardValues message at hmem
    unfold heardValues at hmem
    cases hc : s.midiChannels[messageChannel message]? with
    | none =>
        rw [hc] at hmem
        exact h.values name hmem
    | some name' =>
        rw [hc] at hmem
        rcases NameMap.mem_insert.1 hmem with rfl | hmem
        · exact ⟨_, hc⟩
        · exact h.values name hmem

/-- An event calls the callbacks of the last value, and those of the property of its channel. -/
theorem Inv.onPmEvent_eq (h : Inv s) (message : BitVec 32) : ∃ calls,
    s.onPmEvent message = (s.heard message).makeNextProperty.map (fun s => (s, calls)) ∧
      ∀ name, s.midiChannels[messageChannel message]? = some name → ∃ id ref p before,
        s.propIds[name]? = some id ∧ s.pbags.object 0 id = some ref ∧
          s.pbags.heap[ref]? = some p ∧ calls = before ++ p.notify := by
  obtain ⟨strid, hlast, -⟩ := h.last
  obtain ⟨ref, p, -, -, hnotify⟩ := h.whole.notify hlast
  rw [onPmEvent, hnotify, Option.bind_some, updateProperty.eq_def]
  dsimp only
  unfold PortMidiSource.heard heardValues
  cases hc : s.midiChannels[messageChannel message]? with
  | none =>
      dsimp only
      exact ⟨p.notify ++ [], rfl, fun name hname => by cases hname⟩
  | some name =>
      dsimp only
      obtain ⟨id, c', hid, -, hstrid, -⟩ := h.exists_recorded hc
      obtain ⟨ref', p', href', hp', hnotify'⟩ := h.whole.notify hstrid
      have hsame : s.propIds.insert name id = s.propIds := Std.ExtTreeMap.ext_getElem? fun k => by
        rw [NameMap.getElem?_insert]
        split_ifs with hk
        · rw [hk, hid]
        · rfl
      rw [hid, Option.getD_some, hnotify', Option.map_some, Option.bind_some, hsame]
      refine ⟨p.notify ++ p'.notify, rfl, fun name' hname => ?_⟩
      obtain rfl := Option.some.inj hname
      exact ⟨id, ref', p', p.notify, hid, href', hp', rfl⟩

/-! ### Steps -/

/-- What a step leads to, if it fits. -/
structure Stepped (s : PortMidiSource) (op : Op) (r : PortMidiSource × Result) : Prop where
  inv : Inv r.1
  sound : Sound Cleared s op r
  contexts : ∀ name, name ∈ r.1.midiPropertyContexts →
    name ∈ s.midiPropertyContexts ∨ ∃ c, op.Asks s name c
  unused : r.1.unusedPropsSpecs = s.unusedPropsSpecs ∨
    ∃ name, op = .removeMidiProperty name ∧ name ∈ s.midiPropertyContexts

/-- A step that makes the properties that are asked for, and removes nothing. -/
theorem Inv.stepped_of_made (h : Inv r.1) (hmade : Made (fun name c => op.Asks s name c) s r.1)
    (hremove : ∀ name, op ≠ .removeMidiProperty name)
    (hupdated : ∀ message name, op = .event message →
      s.midiChannels[messageChannel message]? = some name →
        r.1.midiValues[name]? = some (messageData2 message) ∧
          ∃ id ref p before, s.propIds[name]? = some id ∧ s.pbags.object 0 id = some ref ∧
            s.pbags.heap[ref]? = some p ∧ r.2 = .calls (before ++ p.notify)) :
    Stepped s op r where
  inv := h
  sound := {
    live := fun _ _ hc => h.live hc
    removed := fun name hop => absurd hop (hremove name)
    stays := fun name hcleared hnot => h.cleared fun c hc =>
      (hmade.new name c hc).elim (hcleared.midiChannels c) (hnot c)
    made := hmade.made
    kept := fun name c hc _ => hmade.kept name c hc
    new := hmade.new
    updated := hupdated }
  contexts := hmade.contexts
  unused := Or.inl hmade.unused

/-- A long name that no property was made for is not removed. -/
theorem Inv.stepped_of_not_mem (h : Inv s) (hname : name ∉ s.midiPropertyContexts) :
    Stepped s (.removeMidiProperty name) (Prod.map id .bool (s.removePropertyMethod name)) := by
  rw [removePropertyMethod_of_not_mem hname]
  have hnone : ∀ c : Channel, s.midiChannels[c]? ≠ some name := fun c hc => by
    obtain ⟨_, _, _, _, _, _, hmem⟩ := h.exists_recorded hc
    exact hname hmem
  exact {
    inv := h
    sound := {
      live := fun _ _ hc => h.live hc
      removed := fun name' hop => by
        obtain rfl := Op.removeMidiProperty.inj hop
        exact h.cleared hnone
      stays := fun _ hcleared _ => hcleared
      made := fun _ _ hop => absurd hop id
      kept := fun _ _ hc _ => hc
      new := fun _ _ hc => Or.inl hc
      updated := fun _ _ hop => by cases hop }
    contexts := fun _ hmem => Or.inl hmem
    unused := Or.inl rfl }

/-- A long name that fits is removed. -/
theorem Inv.stepped_of_mem (h : Inv s) (hname : name ∈ s.midiPropertyContexts)
    (hfits : s.Fits (.removeMidiProperty name)) :
    Stepped s (.removeMidiProperty name) (Prod.map id .bool (s.removePropertyMethod name)) := by
  rw [removePropertyMethod_of_mem hname]
  have hr := h.removes hname hfits
  have hinv := h.remove hr (s.channelOf name).removedName
  have herased : ∀ {c : Channel} {name'}, (s.midiChannels.erase (s.channelOf name))[c]? =
      some name' → s.midiChannels[c]? = some name' ∧ c ≠ s.channelOf name := by
    intro c name' hc
    rw [getElem?_erase_channel] at hc
    split_ifs at hc with heq
    exact ⟨hc, heq⟩
  refine ⟨hinv, ?_, fun _ hmem => Or.inl hmem, Or.inr ⟨name, rfl, hname⟩⟩
  constructor
  · exact fun _ _ hc => hinv.live hc
  · rintro name' hop
    obtain rfl := Op.removeMidiProperty.inj hop
    exact hinv.cleared fun c hc => (herased hc).2 (hr.only c (herased hc).1)
  · exact fun name' hcleared _ => hinv.cleared fun c hc => hcleared.midiChannels c (herased hc).1
  · exact fun _ _ hop => absurd hop id
  · intro name' c hc hop
    change (s.midiChannels.erase (s.channelOf name))[c]? = some name'
    rw [getElem?_erase_channel, if_neg, hc]
    rintro rfl
    exact hop (congrArg _ (hr.others name' hc).symm)
  · exact fun name' c hc => Or.inl (herased hc).1
  · intro message name' hop
    cases hop

/-- An event that fits updates the property of its channel, or makes one. -/
theorem Inv.stepped_event (h : Inv s) {message : BitVec 32} (hfits : s.Fits (.event message)) :
    ∃ r, s.step (.event message) = some r ∧ Stepped s (.event message) r := by
  obtain ⟨calls, hevent, hcalls⟩ := h.onPmEvent_eq message
  have hvalues : ∀ name, s.midiChannels[messageChannel message]? = some name →
      (s.heardValues message)[name]? = some (messageData2 message) := fun name hc => by
    rw [heardValues, hc]
    exact NameMap.getElem?_insert.trans (if_pos rfl)
  have hupdated : ∀ {s' : PortMidiSource}, (∀ name,
      s.midiChannels[messageChannel message]? = some name →
        s'.midiValues = s.heardValues message) → ∀ message' name, Op.event message = .event message' →
      s.midiChannels[messageChannel message']? = some name →
        s'.midiValues[name]? = some (messageData2 message') ∧ ∃ id ref p before,
          s.propIds[name]? = some id ∧ s.pbags.object 0 id = some ref ∧
            s.pbags.heap[ref]? = some p ∧ Result.calls calls = .calls (before ++ p.notify) := by
    intro s' hs' message' name hop hc
    obtain rfl := Op.event.inj hop
    obtain ⟨id', ref, p, before, hid, href, hp, hbefore⟩ := hcalls name hc
    exact ⟨by rw [hs' name hc, hvalues name hc], id', ref, p, before, hid, href, hp,
      congrArg _ hbefore⟩
  rw [step, hevent, makeNextProperty]
  by_cases hflag : s.makePropertyForNextMidiEvent = true
  · obtain ⟨r, hr, hinv, hmade⟩ := (h.heard message).makeProperty
      (show (s.heard message).Unspent (messageChannel message) from hfits hflag) s.nextPropertyName
    have hr' : (s.heard message).makeProperty (s.heard message).nextPropertyName
        ⟨(s.heard message).lastStatus, (s.heard message).lastData1⟩ = some r := hr
    have hmade' := hmade.congr fun name c =>
      show _ ↔ (Op.event message).Asks s name c from (and_iff_right hflag).symm
    rw [if_pos (show (s.heard message).makePropertyForNextMidiEvent = true from hflag), hr']
    refine ⟨_, rfl, Inv.stepped_of_made ?_ ?_ (fun _ hop => by cases hop) (hupdated ?_)⟩
    · exact ⟨hinv.whole, hinv.zero, hinv.last, hinv.recorded, hinv.mapped, hinv.free,
        hinv.unused, hinv.values⟩
    · exact ⟨hmade'.made, hmade'.kept, hmade'.new, hmade'.contexts, hmade'.unused⟩
    · -- the channel has a property, and no other one is made for it
      intro name hc
      have hne : (s.heard message).midiChannels[messageChannel message]? ≠ none := by
        change s.midiChannels[messageChannel message]? ≠ none
        rw [hc]
        exact Option.some_ne_none name
      obtain rfl := Option.some.inj ((makeProperty_of_mapped hne s.nextPropertyName).symm.trans hr)
      rfl
  · rw [if_neg (show ¬(s.heard message).makePropertyForNextMidiEvent = true from hflag)]
    refine ⟨_, rfl, Inv.stepped_of_made (h.heard message) ?_ (fun _ hop => by cases hop)
      (hupdated fun _ _ => rfl)⟩
    exact Made.of_eq (fun _ _ hasks => hflag hasks.1) rfl rfl rfl

/-- A step that fits is defined, and does what it is to do. -/
theorem Inv.exists_stepped (h : Inv s) (hfits : s.Fits op) :
    ∃ r, s.step op = some r ∧ Stepped s op r := by
  cases op with
  | mapMidiToProperty propName status data =>
      obtain ⟨r, hr, hinv, hmade⟩ := h.makeProperty hfits propName
      refine ⟨Prod.map id .bool r, by rw [step, hr, Option.map_some], ?_⟩
      exact Inv.stepped_of_made hinv hmade (fun _ hop => by cases hop) (fun _ _ hop => by cases hop)
  | removeMidiProperty name =>
      by_cases hname : name ∈ s.midiPropertyContexts
      · exact ⟨_, rfl, h.stepped_of_mem hname hfits⟩
      · exact ⟨_, rfl, h.stepped_of_not_mem hname⟩
  | nextMidiEventToProperty name =>
      refine ⟨_, rfl, Inv.stepped_of_made ?_ ?_ (fun _ hop => by cases hop)
        fun _ _ hop => by cases hop⟩
      · exact ⟨h.whole, h.zero, h.last, h.recorded, h.mapped, h.free, h.unused, h.values⟩
      · exact Made.of_eq (fun _ _ => id) rfl rfl rfl
  | event message => exact h.stepped_event hfits

/-- A step that does what it is to do fits. -/
theorem Inv.fits_of_sound (h : Inv s) (hr : s.step op = some r) (hsound : Sound Cleared s op r) :
    s.Fits op := by
  cases op with
  | mapMidiToProperty propName status data =>
      by_contra hspent
      obtain ⟨r', hr', rfl⟩ := Option.map_eq_some_iff.1 hr
      obtain ⟨hc, hnot⟩ := h.not_live_of_spent hspent hr'
      exact hnot (hsound.live _ _ hc)
  | removeMidiProperty name =>
      intro hname
      obtain rfl := Option.some.inj hr
      have hcleared := hsound.removed name rfl
      have hkept := hsound.kept
      rw [removePropertyMethod_of_mem hname] at hcleared hkept
      have herased : ∀ c : Channel, s.midiChannels[c]? = some name → c = s.channelOf name := by
        intro c hc
        by_contra hne
        refine hcleared.midiChannels c ?_
        change (s.midiChannels.erase (s.channelOf name))[c]? = some name
        rw [getElem?_erase_channel, if_neg hne, hc]
      refine ⟨fun c c' hc hc' => (herased c hc).trans (herased c' hc').symm, fun hnone => ?_⟩
      rcases channelOf_cases name s with hc | ⟨-, hzero⟩
      · exact absurd hc (hnone _)
      · refine Option.eq_none_iff_forall_ne_some.2 fun name' hc => ?_
        have hold : (s.midiChannels.erase (s.channelOf name))[(⟨0, 0⟩ : Channel)]? = some name' :=
          hkept name' ⟨0, 0⟩ hc fun hop => by
            obtain rfl := Op.removeMidiProperty.inj hop
            exact hnone _ hc
        rw [getElem?_erase_channel, hzero, if_pos rfl] at hold
        cases hold
  | nextMidiEventToProperty name => exact trivial
  | event message =>
      intro hflag
      by_contra hspent
      obtain ⟨calls, hevent, -⟩ := h.onPmEvent_eq message
      rw [step, hevent, makeNextProperty,
        if_pos (show (s.heard message).makePropertyForNextMidiEvent = true from hflag)] at hr
      obtain ⟨q, hq, rfl⟩ := Option.map_eq_some_iff.1 hr
      obtain ⟨q', hq', rfl⟩ := Option.map_eq_some_iff.1 hq
      obtain ⟨r', hr', rfl⟩ := Option.map_eq_some_iff.1 hq'
      obtain ⟨hc, hnot⟩ := (h.heard message).not_live_of_spent
        (show ¬(s.heard message).Unspent (messageChannel message) from hspent) hr'
      exact hnot (hsound.live _ _ hc)

/-! ### Runs -/

/-- The constructor makes three properties, whose names are those of no channel. -/
theorem inv_make {started device : Property} (h : make started device = some s) :
    Inv s ∧ s.unusedPropsSpecs = ∅ := by
  obtain ⟨w₁, h₁, hw₁, hc₁, hi₁, hs₁⟩ := PBags.whole_empty.pushed (n := 0)
    ⟨"started", by decide⟩ started (by simp [PBags.empty, PBag.empty])
  obtain ⟨w₂, h₂, hw₂, hc₂, hi₂, hs₂⟩ := hw₁.pushed (n := 0) ⟨"device", by decide⟩ device
    (by simp [hi₁, PBags.empty, PBag.empty])
  obtain ⟨w₃, h₃, hw₃, hc₃, hi₃, hs₃⟩ := hw₂.pushed (n := 0) ⟨"last-midi-value", by decide⟩
    (makeInt "Last MIDI value" "Last MIDI value seen on capture device" (-1))
    (by simp [hi₂, hi₁, PBags.empty, PBag.empty])
  simp only [make, h₁, Option.bind_some, h₂, h₃] at h
  obtain ⟨r, hr, rfl⟩ := Option.map_eq_some_iff.1 h
  have hlast : (w₃.bag 0).strids[(w₂.bag 0).counter + 1]? = some "last-midi-value" := by
    rw [hs₃, IdMap.getElem?_insert, if_pos rfl]
  rw [PBags.disable, PBags.setEnabled, hlast] at hr
  obtain ⟨ref, -, rfl⟩ := Option.map_eq_some_iff.1 hr
  have hnew : ∀ (c : Channel) (strid : String), strid.toList.head? = some 's' ∨
      strid.toList.head? = some 'd' ∨ strid.toList.head? = some 'l' → c.propName ≠ strid := by
    rintro c _ hstrid rfl
    obtain ⟨d, hd, hdigit⟩ := head_propName c
    simp only [hd, Option.some.injEq] at hstrid
    rcases hstrid with rfl | rfl | rfl <;> revert hdigit <;> decide
  refine ⟨⟨hw₃.stepped (n := 0) (PBags.Stepped.setEnabled ref false _), ?_, ?_, ?_, ?_, ?_, ?_, ?_⟩, rfl⟩
  · change 0 ∉ (w₃.bag 0).strids
    rw [hs₃, hs₂, hs₁, IdMap.mem_insert, IdMap.mem_insert, IdMap.mem_insert]
    simp [PBags.empty, PBag.empty]
  · exact ⟨_, hlast, fun c => hnew c _ (by decide)⟩
  · intro name id hid
    simp at hid
  · intro c name hc
    simp at hc
  · intro c _ hmem
    change c.propName ∈ (w₃.bag 0).ids at hmem
    rw [hi₃, hi₂, hi₁, NameMap.mem_insert, NameMap.mem_insert, NameMap.mem_insert] at hmem
    rcases hmem with hmem | hmem | hmem | hmem
    · exact hnew c _ (by decide) hmem
    · exact hnew c _ (by decide) hmem
    · exact hnew c _ (by decide) hmem
    · simp [PBags.empty, PBag.empty] at hmem
  · intro key id hid
    simp at hid
  · intro name hmem
    simp at hmem

/-- A step that removes nothing fits, where nothing was removed. -/
theorem fits_of_removesNothing (hunused : s.unusedPropsSpecs = ∅) (hop : s.RemovesNothing op) :
    s.Fits op := by
  have hunspent : ∀ c, s.Unspent c := fun c _ => by
    rw [hunused]
    exact Std.ExtTreeMap.not_mem_empty
  cases op with
  | mapMidiToProperty name status data => exact hunspent _
  | removeMidiProperty name => exact fun hname => absurd hname (hop name rfl)
  | nextMidiEventToProperty name => exact trivial
  | event message => exact fun _ => hunspent _

/-- A long name that is removed leaves its context, and nothing else leaves anything. -/
theorem meets_forgotten_iff (h : Inv s) (hunused : s.unusedPropsSpecs = ∅) (ops : List Op) :
    Machine.Meets step (Sound Forgotten) s ops ↔ Machine.Admits step RemovesNothing s ops := by
  refine Machine.meets_iff_admits (I := fun s => Inv s ∧ s.unusedPropsSpecs = ∅)
    (fun s op hs hop => ?_) (fun s op r hs hr hsound => ?_) ⟨h, hunused⟩ ops
  · obtain ⟨r, hr, hstepped⟩ := hs.1.exists_stepped (fits_of_removesNothing hs.2 hop)
    have hsound := hstepped.sound
    refine ⟨r, hr, ⟨hsound.live, fun name hremove => ?_, fun name hforgotten hnot => ?_,
      hsound.made, hsound.kept, hsound.new, hsound.updated⟩, hstepped.inv, ?_⟩
    · refine ⟨hsound.removed name hremove, fun hmem => ?_⟩
      rcases hstepped.contexts name hmem with hold | ⟨c, hasks⟩
      · exact hop name hremove hold
      · rw [hremove] at hasks
        exact hasks
    · refine ⟨hsound.stays name hforgotten.toCleared hnot, fun hmem => ?_⟩
      rcases hstepped.contexts name hmem with hold | ⟨c, hasks⟩
      · exact hforgotten.midiPropertyContexts hold
      · exact hnot c hasks
    · rcases hstepped.unused with heq | ⟨name, hremove, hmem⟩
      · rw [heq, hs.2]
      · exact absurd hmem (hop name hremove)
  · rintro name rfl hname
    obtain rfl := Option.some.inj hr
    have hgone := (hsound.removed name rfl).midiPropertyContexts
    rw [removePropertyMethod_of_mem hname] at hgone
    exact hgone hname

theorem meets_cleared_iff (h : Inv s) (ops : List Op) :
    Machine.Meets step (Sound Cleared) s ops ↔ Machine.Admits step Fits s ops := by
  refine Machine.meets_iff_admits (I := Inv) (fun s op hs hop => ?_)
    (fun s op r hs hr hsound => hs.fits_of_sound hr hsound) h ops
  obtain ⟨r, hr, hstepped⟩ := hs.exists_stepped hop
  exact ⟨r, hr, hstepped.sound, hstepped.inv⟩

/-- **The learnt mappings stay live** in the runs that remove nothing, and only in these.  But for
the contexts, which are never taken out, they do in the runs whose steps all fit, and only in
these. -/
theorem learnt_iff {started device : Property} (h : make started device = some s)
    (ops : List Op) :
    (Machine.Meets step (Sound Forgotten) s ops ↔ Machine.Admits step RemovesNothing s ops) ∧
      (Machine.Meets step (Sound Cleared) s ops ↔ Machine.Admits step Fits s ops) :=
  ⟨meets_forgotten_iff (inv_make h).1 (inv_make h).2 ops, meets_cleared_iff (inv_make h).1 ops⟩

/-- The channels of a long name, as they are listed. -/
theorem forall_channel_iff {P : Channel → Prop} : (∀ c : Channel, s.midiChannels[c]? = some name →
    P c) ↔ ∀ e ∈ s.midiChannels.toList, e.2 = name → P e.1 := by
  constructor
  · rintro h ⟨c, name'⟩ hmem rfl
    exact h c (Std.ExtTreeMap.mem_toList_iff_getElem?_eq_some.1 hmem)
  · intro h c hc
    exact h (c, name) (Std.ExtTreeMap.mem_toList_iff_getElem?_eq_some.2 hc) rfl

instance decidableUnspent (s : PortMidiSource) (c : Channel) : Decidable (s.Unspent c) :=
  inferInstanceAs (Decidable (_ → _))

/-- Whether a step fits is found by looking at the channels. -/
instance decidableFits (s : PortMidiSource) : ∀ op : Op, Decidable (s.Fits op)
  | .mapMidiToProperty _ status data => decidableUnspent s ⟨status, data⟩
  | .removeMidiProperty name => decidable_of_iff (name ∈ s.midiPropertyContexts →
      (∀ e ∈ s.midiChannels.toList, e.2 = name →
        ∀ e' ∈ s.midiChannels.toList, e'.2 = name → e.1 = e'.1) ∧
        ((∀ e ∈ s.midiChannels.toList, e.2 = name → False) →
          s.midiChannels[(⟨0, 0⟩ : Channel)]? = none)) (by
      refine imp_congr_right fun _ => and_congr ?_
        (imp_congr_left (forall_channel_iff (P := fun _ => False)).symm)
      refine (forall_channel_iff (P := fun c => ∀ e' ∈ s.midiChannels.toList, e'.2 = name →
        c = e'.1)).symm.trans (forall_congr' fun c => ?_)
      refine ⟨fun h c' hc => ?_, fun h hc => ?_⟩
      · exact (forall_channel_iff (P := fun c' => c = c')).2 (h hc) c'
      · exact (forall_channel_iff (P := fun c' => c = c')).1 fun c' => h c' hc)
  | .nextMidiEventToProperty _ => isTrue trivial
  | .event _ => inferInstanceAs (Decidable (_ → _))

instance decidableRemovesNothing (s : PortMidiSource) : ∀ op : Op, Decidable (s.RemovesNothing op)
  | .removeMidiProperty name => decidable_of_iff (name ∉ s.midiPropertyContexts)
      ⟨fun h name' hop => Op.removeMidiProperty.inj hop ▸ h, fun h => h name rfl⟩
  | .mapMidiToProperty _ _ _ => isTrue fun _ hop => by cases hop
  | .nextMidiEventToProperty _ => isTrue fun _ hop => by cases hop
  | .event _ => isTrue fun _ hop => by cases hop

theorem isSome_make : (make (makeInt "Started" "" 0) (makeInt "Capture device" "" 0)).isSome := by
  decide +kernel

/-- A property is made for the next event, updated, removed, and made for another channel. -/
theorem learnt_volume : ∃ s, make (makeInt "Started" "" 0) (makeInt "Capture device" "" 0) =
    some s ∧ Machine.Meets step (Sound Cleared) s [.nextMidiEventToProperty "volume",
      .event 0x407B90, .event 0x417B90, .removeMidiProperty "volume",
      .mapMidiToProperty "volume" 0x90 0x7C] :=
  ⟨_, (Option.some_get isSome_make).symm, (learnt_iff (Option.some_get _).symm _).2.2 (by decide +kernel)⟩

/-- A property that is removed, and made again for the same channel, is not live. -/
theorem not_learnt_again : ∃ s, make (makeInt "Started" "" 0) (makeInt "Capture device" "" 0) =
    some s ∧ ¬Machine.Meets step (Sound Forgotten) s [.mapMidiToProperty "volume" 0x90 0x7B,
      .removeMidiProperty "volume", .mapMidiToProperty "volume" 0x90 0x7B] ∧
      ¬Machine.Meets step (Sound Cleared) s [.mapMidiToProperty "volume" 0x90 0x7B,
        .removeMidiProperty "volume", .mapMidiToProperty "volume" 0x90 0x7B] := by
  refine ⟨_, (Option.some_get isSome_make).symm, ?_, ?_⟩
  · rw [meets_forgotten_iff (inv_make (Option.some_get _).symm).1 rfl]
    decide +kernel
  · rw [meets_cleared_iff (inv_make (Option.some_get _).symm).1]
    decide +kernel

end PortMidiSource
end Portmidi
end LibSwitcher
