/-
# Media labels

`PJCall::create_outgoing_sdp` writes the nickname of a quiddity into the caps of its stream, as
base64 without padding, and `PJCallUtils::get_media_label` reads it from the media section that is
made of them.  The label should be the nickname, whatever the other fields are.

Two things stand against it.  A group of the code that lacks its padding is not decoded, so the end
of most nicknames is lost.  And the label is cut out by a length that is the position of its end,
so that what follows the field is decoded too.  `media_label_iff` says when the nickname is read.

How caps are parsed and descriptions are printed and parsed is not modelled: the structure holds
the fields of the caps, in any order, and the attributes are those that are sent.
-/

import LibSwitcher.Gst.SDPMedia
import LibSwitcher.Lib.KeyTree
import LibSwitcher.Utils.Base64

namespace LibSwitcher
namespace PJCall

open Stringutils

/-- The name that a label is made of: the nickname, or else the name of the shmdata. -/
def quiddityName (nickname filename : List UInt8) : List UInt8 :=
  if nickname = [] then filename else nickname

/-- The value of the field `media-label`. -/
def mediaLabel (name : List UInt8) : String := replaceChar (base64Encode name) '=' ""

/-- The section of one stream, as `create_outgoing_sdp` makes it. -/
def outgoingMedia (caps : GstStructure) (port : ℕ) (candidates : List String) (index : ℕ) :
    Option GstSDPMedia :=
  let media := (SDPMedia.make.setMediaInfoFromCaps caps).1.setPort port
  (candidates.foldl (fun media candidate => media.addIceCandidate candidate) media).addToSdpDescription
    index

/-- What `get_media_label` looks for. -/
def labelKey : List Char := "media-label=".toList

/-- What it cuts out, from a position in the value of an attribute. -/
def labelText (value : List Char) (pos : ℕ) : List Char :=
  let index := pos + labelKey.length
  let rest := value.drop index
  match find [';'] rest with
  | some j => rest.take (index + j)
  | none => rest

/-- The label of a section without the key: the bytes of "media-label". -/
def defaultLabel : List UInt8 := [109, 101, 100, 105, 97, 45, 108, 97, 98, 101, 108]

/-- `get_media_label`. -/
def getMediaLabel : List (String × String) → List UInt8
  | [] => defaultLabel
  | a :: as =>
      match find labelKey a.2.toList with
      | some pos => base64Decode (String.ofList (labelText a.2.toList pos))
      | none => getMediaLabel as

/-! ### What is cut out -/

/-- The characters that are read as the label: those after the first key, and as many more after
the next semicolon as there are up to the key. -/
def CutOut (text t : List Char) : Prop :=
  ∃ a b, text = a ++ labelKey ++ b ∧
    (∀ a' b', text = a' ++ labelKey ++ b' → a.length ≤ a'.length) ∧
    ((';' ∉ b ∧ t = b) ∨
      ∃ l r, b = l ++ ';' :: r ∧ ';' ∉ l ∧ t = l ++ (';' :: r).take (a.length + labelKey.length))

/-- The text in which the label is looked for: that of the `rtpmap` if it has the key. -/
def LabelIn (s : GstStructure) (text : List Char) : Prop :=
  text = (SDPMedia.rtpmap s).toList ∧ labelKey <:+: text ∨
    text = (SDPMedia.fmtp s).toList ∧ ¬labelKey <:+: (SDPMedia.rtpmap s).toList

/-- The characters that are cut out are, in the alphabet, the code of the nickname, and what follows
it ends accordingly. -/
def ReadsLabel (s : GstStructure) (nickname : List UInt8) : Prop :=
  ∃ text t rest, LabelIn s text ∧ CutOut text t ∧
    base64Digits t = encodeDigits nickname ++ rest ∧ Ends nickname.length rest

theorem drop_labelKey (a b : List Char) :
    (a ++ labelKey ++ b).drop (a.length + labelKey.length) = b := by
  rw [← List.length_append, List.drop_left]

/-- Without a semicolon all that follows the key is cut out. -/
theorem labelText_of_not_mem {a b : List Char} (h : ';' ∉ b) :
    labelText (a ++ labelKey ++ b) a.length = b := by
  have hfind : find [';'] b = none :=
    find_eq_none_iff.2 fun hmem => h ((List.singleton_infix_iff _ _).1 hmem)
  rw [labelText, drop_labelKey, hfind]

/-- With a semicolon, what is cut out goes on behind it. -/
theorem labelText_of_mem {a l : List Char} (h : ';' ∉ l) (r : List Char) :
    labelText (a ++ labelKey ++ (l ++ ';' :: r)) a.length =
      l ++ (';' :: r).take (a.length + labelKey.length) := by
  have hfind : find [';'] (l ++ ';' :: r) = some l.length := by
    refine find_eq_some_iff.2 ⟨l, r, by simp, rfl, fun a' b' heq => ?_⟩
    by_contra hlt
    have hget : (l ++ ';' :: r)[a'.length]? = (a' ++ [';'] ++ b')[a'.length]? := by rw [heq]
    rw [List.getElem?_append_left (by omega), List.append_assoc,
      List.getElem?_append_right (Nat.le_refl _), Nat.sub_self] at hget
    exact h (List.mem_of_getElem? hget)
  rw [labelText, drop_labelKey, hfind]
  change (l ++ ';' :: r).take (a.length + labelKey.length + l.length) = _
  rw [Nat.add_comm, List.take_length_add_append]

/-- What `get_media_label` cuts out is what is cut out. -/
theorem cutOut_iff {text t : List Char} {pos : ℕ} (hpos : find labelKey text = some pos) :
    CutOut text t ↔ t = labelText text pos := by
  obtain ⟨a, b, rfl, rfl, hfirst⟩ := find_eq_some_iff.1 hpos
  constructor
  · rintro ⟨a', b', htext, hfirst', hcut⟩
    have hlength : a.length = a'.length := Nat.le_antisymm (hfirst a' b' htext) (hfirst' a b rfl)
    obtain ⟨hkey, rfl⟩ := List.append_inj htext (by rw [List.length_append, List.length_append, hlength])
    obtain ⟨rfl, -⟩ := List.append_inj hkey hlength
    obtain ⟨hnot, rfl⟩ | ⟨l, r, rfl, hnot, rfl⟩ := hcut
    · exact (labelText_of_not_mem hnot).symm
    · exact (labelText_of_mem hnot r).symm
  · rintro rfl
    refine ⟨a, b, rfl, hfirst, ?_⟩
    by_cases hmem : ';' ∈ b
    · obtain ⟨l, r, rfl, hnot⟩ := List.eq_append_cons_of_mem hmem
      exact Or.inr ⟨l, r, rfl, hnot, labelText_of_mem hnot r⟩
    · exact Or.inl ⟨hmem, labelText_of_not_mem hmem⟩

/-! ### The section of a stream -/

/-- The attributes of a section that is made: those that describe the stream, then the candidates. -/
theorem attributes_outgoingMedia {caps : GstStructure} {port index : ℕ} {candidates : List String}
    {media : GstSDPMedia} (h : outgoingMedia caps port candidates index = some media) :
    media.attributes = [("sendonly", ""), ("rtpmap", SDPMedia.rtpmap caps),
      ("control", "stream=" ++ toString index)] ++
      (if SDPMedia.params caps = [] then [] else [("fmtp", SDPMedia.fmtp caps)]) ++
      candidates.map ("candidate", ·) := by
  rw [outgoingMedia, SDPMedia.foldl_addIceCandidate] at h
  obtain ⟨s, hcaps, -, hattributes⟩ := SDPMedia.of_addToSdpDescription h
  obtain rfl : caps = s := by
    rw [SDPMedia.setMediaInfoFromCaps] at hcaps
    by_cases hmissing : ((caps.getString "media").isNone || (caps.getString "encoding-name").isNone ||
        (caps.getInt "payload").isNone || (caps.getInt "clock-rate").isNone) = true
    · rw [if_pos hmissing] at hcaps
      cases hcaps
    · rw [if_neg hmissing] at hcaps
      exact Option.some.inj hcaps
  have hnone : (SDPMedia.make.setMediaInfoFromCaps caps).1.iceCandidateValues = [] := by
    rw [SDPMedia.setMediaInfoFromCaps]
    split
    · rfl
    · rfl
  rw [hattributes, SDPMedia.setPort, hnone, List.nil_append]

/-- The parameter of the label is printed. -/
theorem labelKey_infix_fmtp {caps : GstStructure} {label : String}
    (h : caps.getString "media-label" = some label) : SDPMedia.params caps ≠ [] ∧
      labelKey <:+: (SDPMedia.fmtp caps).toList := by
  have hmem : "media-label=" ++ label ∈ SDPMedia.params caps := by
    refine List.mem_filterMap.2 ⟨"media-label", ?_, ?_⟩
    · rw [GstStructure.getString] at h
      cases hlookup : caps.fields.lookup "media-label" with
      | none => rw [hlookup] at h; cases h
      | some v => exact List.mem_map_of_mem (f := Prod.fst) (KeyTree.mem_of_lookup hlookup)
    · rw [SDPMedia.param, if_neg (by decide), h]
      rfl
  refine ⟨List.ne_nil_of_mem hmem, ?_⟩
  have hkey : labelKey <:+: ("media-label=" ++ label).toList := by
    rw [String.toList_append]
    exact (List.prefix_append _ _).isInfix
  rw [SDPMedia.fmtp, String.toList_append]
  exact hkey.trans ((infix_intercalate hmem).trans (List.suffix_append _ _).isInfix)

theorem getMediaLabel_cons_of_none {a : String × String} (h : find labelKey a.2.toList = none)
    (as : List (String × String)) : getMediaLabel (a :: as) = getMediaLabel as := by
  rw [getMediaLabel, h]

theorem getMediaLabel_cons_of_some {a : String × String} {pos : ℕ}
    (h : find labelKey a.2.toList = some pos) (as : List (String × String)) :
    getMediaLabel (a :: as) = base64Decode (String.ofList (labelText a.2.toList pos)) := by
  rw [getMediaLabel, h]

/-- The key is not in the attribute that numbers the stream. -/
theorem find_control (index : ℕ) : find labelKey ("stream=" ++ toString index).toList = none := by
  refine find_eq_none_iff.2 fun hkey => ?_
  have hd : 'd' ∈ "stream=".toList ++ (toString index).toList := by
    rw [← String.toList_append]
    exact hkey.subset (by decide)
  rcases List.mem_append.1 hd with hd | hd
  · exact absurd hd (by decide)
  · rw [show (toString index).toList = Nat.toDigits 10 index from Nat.toList_repr] at hd
    exact absurd (Nat.isDigit_of_mem_toDigits (by decide) (by decide) hd) (by decide)

/-- The first attribute with the key is that of the `rtpmap`, or else that of the parameters. -/
theorem getMediaLabel_outgoingMedia {caps : GstStructure} {port index : ℕ}
    {candidates : List String} {media : GstSDPMedia} {label : String}
    (h : outgoingMedia caps port candidates index = some media)
    (hlabel : caps.getString "media-label" = some label) :
    ∃ text pos, LabelIn caps text ∧ find labelKey text = some pos ∧
      getMediaLabel media.attributes = base64Decode (String.ofList (labelText text pos)) := by
  obtain ⟨hparams, hfmtp⟩ := labelKey_infix_fmtp hlabel
  have hattributes : media.attributes = ("sendonly", "") :: ("rtpmap", SDPMedia.rtpmap caps) ::
      ("control", "stream=" ++ toString index) :: ("fmtp", SDPMedia.fmtp caps) ::
        candidates.map ("candidate", ·) := by
    rw [attributes_outgoingMedia h, if_neg hparams]
    rfl
  have hsendonly : find labelKey "".toList = none := by decide
  rw [hattributes, getMediaLabel_cons_of_none (a := ("sendonly", "")) hsendonly]
  cases hrtpmap : find labelKey (SDPMedia.rtpmap caps).toList with
  | some pos =>
      have hkey : labelKey <:+: (SDPMedia.rtpmap caps).toList := by
        by_contra hkey
        cases (find_eq_none_iff.2 hkey).symm.trans hrtpmap
      exact ⟨_, pos, Or.inl ⟨rfl, hkey⟩, hrtpmap,
        getMediaLabel_cons_of_some (a := ("rtpmap", SDPMedia.rtpmap caps)) hrtpmap _⟩
  | none =>
      rw [getMediaLabel_cons_of_none (a := ("rtpmap", SDPMedia.rtpmap caps)) hrtpmap,
        getMediaLabel_cons_of_none (a := ("control", _ ++ toString index)) (find_control index)]
      cases hpos : find labelKey (SDPMedia.fmtp caps).toList with
      | none => exact absurd hfmtp (find_eq_none_iff.1 hpos)
      | some pos =>
          exact ⟨_, pos, Or.inr ⟨rfl, find_eq_none_iff.1 hrtpmap⟩, hpos,
            getMediaLabel_cons_of_some (a := ("fmtp", SDPMedia.fmtp caps)) hpos _⟩

/-! ### All labels -/

/-- The text in which the label is looked for is determined. -/
theorem labelIn_unique {s : GstStructure} {text text' : List Char} (h : LabelIn s text)
    (h' : LabelIn s text') : text = text' := by
  obtain ⟨rfl, hkey⟩ | ⟨rfl, hkey⟩ := h
  · obtain ⟨rfl, -⟩ | ⟨-, hkey'⟩ := h'
    · rfl
    · exact absurd hkey hkey'
  · obtain ⟨rfl, hkey'⟩ | ⟨rfl, -⟩ := h'
    · exact absurd hkey' hkey
    · rfl

/-- The label that is read from the section of a stream is the nickname exactly if what is cut out
starts with its code, and ends accordingly. -/
theorem media_label_iff (nickname filename : List UInt8) (caps : GstStructure) (port index : ℕ)
    (candidates : List String) (media : GstSDPMedia) (hzero : ∀ b ∈ nickname, b ≠ 0)
    (hlabel : caps.getString "media-label" = some (mediaLabel (quiddityName nickname filename)))
    (h : outgoingMedia caps port candidates index = some media) :
    getMediaLabel media.attributes = nickname ↔ ReadsLabel caps nickname := by
  obtain ⟨text, pos, hin, hpos, hget⟩ := getMediaLabel_outgoingMedia h hlabel
  rw [hget, base64Decode_eq_iff _ hzero, String.toList_ofList, ReadsLabel]
  constructor
  · rintro ⟨rest, hdigits, hends⟩
    exact ⟨text, _, rest, hin, (cutOut_iff hpos).2 rfl, hdigits, hends⟩
  · rintro ⟨text', t, rest, hin', hcut, hdigits, hends⟩
    obtain rfl := labelIn_unique hin hin'
    obtain rfl := (cutOut_iff hpos).1 hcut
    exact ⟨rest, hdigits, hends⟩

/-- The caps of a video with a label, and one more field that follows it. -/
def videoCaps (name : List UInt8) (profile : GValue) : GstStructure where
  fields := [("media", .str "video"), ("payload", .int 96), ("clock-rate", .int 90000),
    ("encoding-name", .str "H264"), ("media-label", .str (mediaLabel name)),
    ("profile-level-id", profile)]
  nodup := by
    change ["media", "payload", "clock-rate", "encoding-name", "media-label",
      "profile-level-id"].Nodup
    decide

/-- A nickname of three bytes, in the last parameter. -/
theorem media_label_abc : ∃ media, outgoingMedia (videoCaps [97, 98, 99] .other) 5000 [] 0 = some media ∧
    getMediaLabel media.attributes = [97, 98, 99] := by
  obtain ⟨media, hmedia⟩ := Option.isSome_iff_exists.1
    (show (outgoingMedia (videoCaps [97, 98, 99] .other) 5000 [] 0).isSome by decide +kernel)
  refine ⟨media, hmedia, (media_label_iff [97, 98, 99] [] _ _ _ _ media (by simp) (by decide +kernel)
    hmedia).2 ?_⟩
  have hpos : find labelKey (SDPMedia.fmtp (videoCaps [97, 98, 99] .other)).toList = some 3 := by
    decide +kernel
  refine ⟨_, _, [], Or.inr ⟨rfl, find_eq_none_iff.1 (by decide +kernel)⟩, (cutOut_iff hpos).2 rfl,
    by decide +kernel, Or.inl ⟨rfl, Or.inl (by decide)⟩⟩

/-- A nickname of one byte is lost, and what follows a nickname of three is added to it. -/
theorem not_media_label_a :
    (∃ media, outgoingMedia (videoCaps [97] .other) 5000 [] 0 = some media ∧
      getMediaLabel media.attributes ≠ [97]) ∧
    ∃ media, outgoingMedia (videoCaps [97, 98, 99] (.str "42e01f")) 5000 [] 0 = some media ∧
      getMediaLabel media.attributes ≠ [97, 98, 99] := by
  have hshort : ∀ media ∈ outgoingMedia (videoCaps [97] .other) 5000 [] 0,
      getMediaLabel media.attributes ≠ [97] := by decide +kernel
  have hbehind : ∀ media ∈ outgoingMedia (videoCaps [97, 98, 99] (.str "42e01f")) 5000 [] 0,
      getMediaLabel media.attributes ≠ [97, 98, 99] := by decide +kernel
  obtain ⟨media, hmedia⟩ := Option.isSome_iff_exists.1
    (show (outgoingMedia (videoCaps [97] .other) 5000 [] 0).isSome by decide +kernel)
  obtain ⟨media', hmedia'⟩ := Option.isSome_iff_exists.1
    (show (outgoingMedia (videoCaps [97, 98, 99] (.str "42e01f")) 5000 [] 0).isSome by decide +kernel)
  exact ⟨⟨media, hmedia, hshort media hmedia⟩, ⟨media', hmedia', hbehind media' hmedia'⟩⟩

end PJCall
end LibSwitcher
