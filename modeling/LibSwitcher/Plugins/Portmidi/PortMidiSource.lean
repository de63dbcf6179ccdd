/-
# Properties learnt from MIDI events

`plugins/portmidi/portmidi-source.cpp`.  A `PortMidiSource` makes properties for pairs of a status
and a first data byte: on demand, or for the next event that comes in.  It keeps the long name of
each pair, and for each long name the identifier of the property, its value and a context.  The
identifiers of the properties that were removed are kept under their names, to be used again.

A property reads the value of the long name that its getter captures.  The words of a message are
those of `Pm_MessageStatus`, `Pm_MessageData1` and `Pm_MessageData2`.  The events come while the
source is started, and are also written to a shmdata, which is not part of the state.
-/

import LibSwitcher.Lib.Machine
import LibSwitcher.Quiddity.Property.PBagUse

namespace LibSwitcher
namespace Portmidi

open InfoTree

/-- A MIDI channel: a status and a first data byte, as `int` or as `unsigned int`. -/
structure Channel where
  status : BitVec 32
  data1 : BitVec 32
  deriving DecidableEq

namespace Channel

instance : Ord Channel where
  compare := compareLex (compareOn fun c => c.status.toNat) (compareOn fun c => c.data1.toNat)

instance : Std.TransOrd Channel :=
  inferInstanceAs (Std.TransCmp
    (compareLex (compareOn fun c : Channel => c.status.toNat) (compareOn fun c => c.data1.toNat)))

instance : Std.LawfulEqOrd Channel where
  compare_self := Std.ReflCmp.compare_self
  eq_of_compare {a b} h := by
    obtain ⟨hstatus, hdata1⟩ := compareLex_eq_eq.1 h
    obtain ⟨s, d⟩ := a
    obtain ⟨s', d'⟩ := b
    obtain rfl := BitVec.eq_of_toNat_eq (Nat.compare_eq_eq.1 hstatus)
    obtain rfl := BitVec.eq_of_toNat_eq (Nat.compare_eq_eq.1 hdata1)
    rfl

/-- The name of a property, as it is made. -/
def propName (c : Channel) : String := toString c.status.toInt ++ "-" ++ toString c.data1.toInt

/-- The name of a property, as it is removed: `%u-%u`. -/
def removedName (c : Channel) : String := toString c.status.toNat ++ "-" ++ toString c.data1.toNat

end Channel

/-- A `PortMidiSource`.  Its bag is the first one, and `getters` are the long names that the
getters of the properties capture. -/
structure PortMidiSource where
  lastStatus : BitVec 32
  lastData1 : BitVec 32
  lastData2 : BitVec 32
  lastMidiValueId : ℕ
  makePropertyForNextMidiEvent : Bool
  nextPropertyName : String
  propIds : NameMap ℕ
  midiPropertyContexts : NameMap Unit
  midiChannels : Std.ExtTreeMap Channel String
  midiValues : NameMap (BitVec 32)
  unusedPropsSpecs : NameMap ℕ
  pbags : PBags
  getters : IdMap String

/-- The specification of a read-only `Property<int>` from `0` to `127`. -/
def intSpec (label description : String) : InfoTree :=
  ((((((InfoTree.make.vgraft "label" (.str label)).vgraft "description"
    (.str description)).vgraft "type" (.str "int")).vgraft "writable" (.bool false)).vgraft
      "value" (.int 0)).vgraft "min" (.int 0)).vgraft "max" (.int 127)

/-- A read-only `Property<int>`, with the text of the value it has when it is made. -/
def makeInt (label description : String) (value : BitVec 32) : Property :=
  Property.make (intSpec label description) (toString value.toInt) fun _ => none

/-- The text of an integer: its digits, after a sign if it is negative. -/
theorem toList_toString (z : ℤ) : ∃ ds : List Char, ds ≠ [] ∧ (∀ d ∈ ds, d.isDigit = true) ∧
    ((toString z).toList = ds ∨ (toString z).toList = '-' :: ds) := by
  have hdigits : ∀ n : ℕ, Nat.toDigits 10 n ≠ [] ∧ ∀ d ∈ Nat.toDigits 10 n, d.isDigit = true :=
    fun n => ⟨Nat.toDigits_ne_nil,
      fun d hd => Nat.isDigit_of_mem_toDigits (by decide) (by decide) hd⟩
  change ∃ ds : List Char, _ ∧ _ ∧ ((Int.repr z).toList = ds ∨ (Int.repr z).toList = '-' :: ds)
  rw [Int.repr_eq_if]
  split_ifs
  · exact ⟨_, (hdigits z.toNat).1, (hdigits z.toNat).2, Or.inl Nat.toList_repr⟩
  · refine ⟨_, (hdigits (-z).toNat).1, (hdigits (-z).toNat).2, Or.inr ?_⟩
    rw [String.toList_append, Nat.toList_repr]
    rfl

/-- The text of an integer starts with a sign or a digit, and has no other sign. -/
theorem toList_propName (c : Channel) : c.propName.toList =
    (toString c.status.toInt).toList ++ '-' :: (toString c.data1.toInt).toList := by
  rw [Channel.propName, String.toList_append, String.toList_append, List.append_assoc]
  rfl

/-- The name of a property is a single key. -/
theorem plain_propName (c : Channel) : Components.Plain '.' c.propName := by
  have hint : ∀ z : ℤ, '.' ∉ (toString z).toList := fun z hz => by
    obtain ⟨ds, -, hds, heq | heq⟩ := toList_toString z
    · exact absurd (hds _ (heq ▸ hz)) (by decide)
    · rcases List.mem_cons.1 (heq ▸ hz) with h | h
      · exact absurd h (by decide)
      · exact absurd (hds _ h) (by decide)
  constructor
  · intro h
    have hlist := toList_propName c
    rw [h] at hlist
    simp at hlist
  · rw [toList_propName, List.mem_append, List.mem_cons]
    rintro (h | h | h)
    · exact hint _ h
    · exact absurd h (by decide)
    · exact hint _ h

namespace PortMidiSource

/-- The constructor, where there is a capture device: the properties that are always there. -/
def make (started device : Property) : Option PortMidiSource :=
  (PBags.empty.push 0 ⟨"started", by decide⟩ (some started)).bind fun r =>
    (r.1.push 0 ⟨"device", by decide⟩ (some device)).bind fun r =>
      (r.1.push 0 ⟨"last-midi-value", by decide⟩ (some (makeInt "Last MIDI value"
        "Last MIDI value seen on capture device" (-1)))).bind fun r =>
          (r.1.disable 0 r.2 "this property is disabled in stopped state").map fun r' =>
            ⟨-1, -1, -1, r.2, false, "", ∅, ∅, ∅, ∅, ∅, r'.1, ∅⟩

/-- `make_property`. -/
def makeProperty (propertyLongName : String) (c : Channel) (s : PortMidiSource) :
    Option (PortMidiSource × Bool) :=
  if c ∈ s.midiChannels then some (s, false)
  else
    let s' := { s with
      midiChannels := s.midiChannels.insert c propertyLongName
      midiValues := s.midiValues.insert propertyLongName s.lastData2 }
    match s.unusedPropsSpecs[c.propName]? with
    | none =>
        (s.pbags.push 0 ⟨c.propName, plain_propName c⟩
          (some (makeInt propertyLongName propertyLongName s.lastData2))).map fun r =>
            ({ s' with
              midiPropertyContexts := s.midiPropertyContexts.insert propertyLongName ()
              propIds := s.propIds.insert propertyLongName r.2
              pbags := r.1
              getters := s.getters.insert r.2 propertyLongName }, true)
    | some id =>
        some ({ s' with
          propIds := s.propIds.insert propertyLongName id
          unusedPropsSpecs := s.unusedPropsSpecs.erase c.propName }, true)

/-- The first channel of a long name, if there is one. -/
def channelOf (longName : String) (s : PortMidiSource) : Channel :=
  ((s.midiChannels.toList.find? fun e => e.2 = longName).map Prod.fst).getD ⟨0, 0⟩

/-- `remove_property_method`. -/
def removePropertyMethod (longName : String) (s : PortMidiSource) : PortMidiSource × Bool :=
  if longName ∉ s.midiPropertyContexts then (s, false)
  else
    let midiChannel := s.channelOf longName
    let id := s.propIds[longName]?.getD 0
    ({ s with
      pbags := (s.pbags.remove 0 id).1
      unusedPropsSpecs := s.unusedPropsSpecs.insert midiChannel.removedName id
      propIds := s.propIds.erase longName
      midiChannels := s.midiChannels.erase midiChannel
      midiValues := s.midiValues.erase longName }, true)

/-- `next_midi_event_to_property_method`. -/
def nextMidiEventToPropertyMethod (longName : String) (s : PortMidiSource) :
    PortMidiSource × Bool :=
  ({ s with makePropertyForNextMidiEvent := true, nextPropertyName := longName }, true)

/-- The part of `on_pm_event` that updates the property of a channel. -/
def updateProperty (c : Channel) (data2 : BitVec 32) (s : PortMidiSource) :
    Option (PortMidiSource × List Notified) :=
  match s.midiChannels[c]? with
  | none => some (s, [])
  | some propLongName =>
      let id := s.propIds[propLongName]?.getD 0
      (s.pbags.notify 0 id).map fun r =>
        ({ s with
          midiValues := s.midiValues.insert propLongName data2
          propIds := s.propIds.insert propLongName id
          pbags := r.1 }, r.2)

/-- The part of `on_pm_event` that makes a property. -/
def makeNextProperty (s : PortMidiSource) : Option PortMidiSource :=
  if s.makePropertyForNextMidiEvent then
    (s.makeProperty s.nextPropertyName ⟨s.lastStatus, s.lastData1⟩).map fun r =>
      { r.1 with makePropertyForNextMidiEvent := false }
  else some s

/-- The words of a message. -/
def messageStatus (message : BitVec 32) : BitVec 32 := message &&& 0xFF

def messageData1 (message : BitVec 32) : BitVec 32 := (message >>> 8) &&& 0xFF

def messageData2 (message : BitVec 32) : BitVec 32 := (message >>> 16) &&& 0xFF

/-- The channel of a message. -/
def messageChannel (message : BitVec 32) : Channel := ⟨messageStatus message, messageData1 message⟩

/-- `on_pm_event`, with the callbacks that are called. -/
def onPmEvent (message : BitVec 32) (s : PortMidiSource) :
    Option (PortMidiSource × List Notified) :=
  (s.pbags.notify 0 s.lastMidiValueId).bind fun r =>
    (updateProperty (messageChannel message) (messageData2 message) { s with
      lastStatus := messageStatus message
      lastData1 := messageData1 message
      lastData2 := messageData2 message
      pbags := r.1 }).bind fun r' => r'.1.makeNextProperty.map fun s => (s, r.2 ++ r'.2)

/-- A call of a method, or an event. -/
inductive Op
  | mapMidiToProperty (propName : String) (status data : BitVec 32)
  | removeMidiProperty (propName : String)
  | nextMidiEventToProperty (propName : String)
  | event (message : BitVec 32)
  deriving DecidableEq

/-- What they return, or call. -/
inductive Result
  | bool (b : Bool)
  | calls (calls : List Notified)
  deriving DecidableEq

/-- The machine of the calls and the events. -/
def step (s : PortMidiSource) : Op → Option (PortMidiSource × Result)
  | .mapMidiToProperty propName status data =>
      (s.makeProperty propName ⟨status, data⟩).map (Prod.map id .bool)
  | .removeMidiProperty propName => some (Prod.map id .bool (s.removePropertyMethod propName))
  | .nextMidiEventToProperty propName =>
      some (Prod.map id .bool (s.nextMidiEventToPropertyMethod propName))
  | .event message => (s.onPmEvent message).map (Prod.map id .calls)

end PortMidiSource
end Portmidi
end LibSwitcher
