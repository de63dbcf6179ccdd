/-
# Media sections and ICE components

`plugins/pjsip/pj-call.cpp`: `PJCall::create_outgoing_sdp` makes the offer for the paths that are
attached to a contact, `process_incoming_call` and `create_sdp_answer` the answer to an offer, and
`call_on_media_update` sends the data of the path `call->media[i]` on the component `i + 1`.  A
component has a default port and candidates (`plugins/pjsip/pj-ice-stream-trans.cpp`).

The offer takes the components from the back: the section of the last path gets the first
component.  So it is aligned only if no path but the last makes a section (`alignedOffer_iff`).
The answer takes them from the front, but has no section for a medium that is not received, so that
it is aligned only if no such medium comes before one that is (`alignedAnswer_iff`).
-/

import LibSwitcher.Plugins.Pjsip.IncomingMedia
import LibSwitcher.Plugins.Pjsip.MediaLabel

namespace LibSwitcher
namespace PJCall

/-- A component of an ICE transport: the port of its default candidate, and its candidates. -/
structure IceComponent where
  port : ℕ
  candidates : List String
  deriving DecidableEq

/-- An ICE transport, made for a number of components, that are all different. -/
structure PJICEStreamTrans (compCnt : ℕ) where
  components : List IceComponent
  length_components : components.length = compCnt
  nodup_components : components.Nodup

/-- An offer: its sections, and the paths that `call->media` has for them. -/
structure OutgoingOffer where
  sections : List GstSDPMedia
  media : List String

section offer

variable (caps : String → Option GstStructure)

/-- The loop of `create_outgoing_sdp` over the paths: the ports and the candidates are taken from
the back, which is undefined if nothing is left.  `caps` are those of the reader of a path, with
the label, if it has a reader. -/
def offerLoop : List String → List ℕ → List (List String) → OutgoingOffer → Option OutgoingOffer
  | [], _, _, offer => some offer
  | path :: paths, ports, candidates, offer =>
      match caps path with
      | none => some offer
      | some s =>
          ports.getLast?.bind fun port => candidates.getLast?.bind fun cands =>
            offerLoop paths ports.dropLast candidates.dropLast
              (match outgoingMedia s port cands offer.sections.length with
              | none => offer
              | some media => ⟨offer.sections ++ [media], offer.media ++ [path]⟩)

/-- The sections of `create_outgoing_sdp`, for the components of its transport. -/
def createOutgoingSdp (components : List IceComponent) (paths : List String) : Option OutgoingOffer :=
  offerLoop caps paths (components.map IceComponent.port) (components.map IceComponent.candidates)
    ⟨[], []⟩

/-- The candidates of a section. -/
def sectionCandidates (media : GstSDPMedia) : List String :=
  (media.attributes.filter (·.1 = "candidate")).map Prod.snd

/-- A section has the port and the candidates of a component. -/
def Advertises (media : GstSDPMedia) (c : IceComponent) : Prop :=
  media.port = c.port ∧ sectionCandidates media = c.candidates

/-- The offer is made, it has as many sections as paths that are sent, and each section has the port
and the candidates of the component that its path is sent on. -/
def AlignedOffer (components : List IceComponent) (paths : List String) : Prop :=
  ∃ offer, createOutgoingSdp caps components paths = some offer ∧
    offer.media.length = offer.sections.length ∧
    ∀ (i : ℕ) (media : GstSDPMedia), offer.sections[i]? = some media →
      ∃ c, components[i]? = some c ∧ Advertises media c

/-- The caps of a path make a section with the port of a component. -/
def makesSection (a : String × IceComponent) : Bool :=
  match caps a.1 with
  | none => false
  | some s => (SDPMedia.make.setMediaInfoFromCaps s).2 && a.2.port != 0

/-- A path, told by its place, makes a section: it and those in front of it have readers, and its
caps and the port it gets are accepted. -/
def MakesSection (components : List IceComponent) (paths : List String) (k : ℕ) : Prop :=
  (∀ path ∈ paths.take (k + 1), (caps path).isSome) ∧
    ∃ a, (paths.zip components.reverse)[k]? = some a ∧ makesSection caps a = true

/-- The paths that make sections, with the components that they get. -/
def sent (components : List IceComponent) (paths : List String) : List (String × IceComponent) :=
  ((paths.zip components.reverse).takeWhile fun a => (caps a.1).isSome).filter (makesSection caps)

end offer

/-- A writer of a received medium: the place of the medium in the offer, and its label. -/
structure RtpWriter where
  place : ℕ
  label : List UInt8

/-- An answer: its sections, and the writers that the data of the components are given to. -/
structure IncomingAnswer where
  sections : List GstSDPMedia
  dataCbs : List (Option RtpWriter)

/-- `PJICEStreamTrans::set_data_cb`. -/
def setDataCb (dataCbs : List (Option RtpWriter)) (compId : ℕ) (writer : RtpWriter) :
    List (Option RtpWriter) :=
  if compId > dataCbs.length then dataCbs else dataCbs.set (compId - 1) (some writer)

/-- The loop of `process_incoming_call` over the media to receive: a writer for each, fed by the
component with the number of the writers. -/
def writersLoop : List (ℕ × GstSDPMedia) → List RtpWriter → List (Option RtpWriter) →
    List (Option RtpWriter)
  | [], _, dataCbs => dataCbs
  | media :: rest, writers, dataCbs =>
      let writer : RtpWriter := ⟨media.1, getMediaLabel media.2.attributes⟩
      writersLoop rest (writers ++ [writer]) (setDataCb dataCbs (writers.length + 1) writer)

/-- The section of an answer for a component. -/
def answerSection (media : GstSDPMedia) (c : IceComponent) : GstSDPMedia :=
  { media with
    port := c.port
    attributes := media.attributes ++ c.candidates.map ("candidate", ·) }

/-- The loop of `create_sdp_answer`, undefined where a medium has no component. -/
def answerLoop : List (ℕ × GstSDPMedia) → List IceComponent → Option (List GstSDPMedia)
  | [], _ => some []
  | _ :: _, [] => none
  | media :: rest, c :: cs => (answerLoop rest cs).map (answerSection media.2 c :: ·)

/-- The answer to an offer, for the components of its transport. -/
def createSdpAnswer (components : List IceComponent) (offer : List GstSDPMedia) :
    Option IncomingAnswer :=
  let media := mediaToReceive offer
  (answerLoop media components).map fun sections =>
    ⟨sections, writersLoop media [] (List.replicate components.length none)⟩

/-- The answer is made, and for each section of the offer that is accepted it has, at its place, the
port and the candidates of the component that the data of that place are sent on and that
feeds the writer of the section. -/
def AlignedAnswer (components : List IceComponent) (offer : List GstSDPMedia) : Prop :=
  ∃ answer, createSdpAnswer components offer = some answer ∧
    ∀ (k : ℕ) (media received : GstSDPMedia), offer[k]? = some media →
      receiveMedia media = some received →
      ∃ c writer, components[k]? = some c ∧ answer.sections[k]? = some (answerSection received c) ∧
        answer.dataCbs[k]? = some (some writer) ∧ writer.place = k

/-! ### Facts on lists -/

section lists

variable {α : Type}

/-- The start of a list without repetitions is in the reversed list only if it has at most one
element. -/
theorem length_le_one_of_isPrefix {l p : List α} (hnodup : l.Nodup) (hp : p <+: l)
    (hr : p.Sublist l.reverse) : p.length ≤ 1 := by
  obtain ⟨rest, rfl⟩ := hp
  cases p with
  | nil => exact Nat.zero_le 1
  | cons a p =>
      obtain ⟨ha, -⟩ := List.nodup_cons.1 hnodup
      rw [List.cons_append, List.reverse_cons] at hr
      obtain ⟨front, back, happ, hfront, hback⟩ := List.sublist_append_iff.1 hr
      cases front with
      | nil =>
          have hlength := hback.length_le
          rw [← List.nil_append back, ← happ] at hlength
          exact hlength
      | cons b front =>
          obtain ⟨rfl, -⟩ := List.cons_eq_cons.1 happ
          exact absurd (List.mem_reverse.1 (hfront.subset List.mem_cons_self)) ha

/-- A list whose elements are the first one of another list, without repetitions, starts it. -/
theorem isPrefix_of_forall_eq {l p : List α} (hnodup : p.Nodup)
    (h : ∀ a ∈ p, l[0]? = some a) : p <+: l := by
  match p with
  | [] => exact List.nil_prefix
  | [a] =>
      cases l with
      | nil => cases h a List.mem_cons_self
      | cons b l =>
          obtain rfl := Option.some.inj (h a List.mem_cons_self)
          exact ⟨l, rfl⟩
  | a :: b :: p =>
      have hab : a = b := Option.some.inj
        ((h a List.mem_cons_self).symm.trans (h b (List.mem_cons_of_mem a List.mem_cons_self)))
      exact absurd (hab ▸ List.mem_cons_self) (List.nodup_cons.1 hnodup).1

/-- The elements that are taken are those at a place up to which the condition holds. -/
theorem mem_takeWhile_iff {p : α → Bool} {l : List α} {a : α} :
    a ∈ l.takeWhile p ↔ ∃ k, l[k]? = some a ∧ ∀ b ∈ l.take (k + 1), p b := by
  induction l with
  | nil =>
      constructor
      · rintro ⟨⟩
      · rintro ⟨k, hk, -⟩
        cases hk
  | cons x l ih =>
      cases hx : p x with
      | false =>
          rw [List.takeWhile_cons_of_neg (by rw [hx]; exact Bool.false_ne_true)]
          constructor
          · rintro ⟨⟩
          · rintro ⟨k, -, hall⟩
            exact absurd ((hx.symm.trans (hall x List.mem_cons_self))) Bool.false_ne_true
      | true =>
          rw [List.takeWhile_cons_of_pos hx, List.mem_cons, ih]
          constructor
          · rintro (rfl | ⟨k, hk, hall⟩)
            · refine ⟨0, rfl, fun b hb => ?_⟩
              obtain rfl := List.mem_singleton.1 hb
              exact hx
            · exact ⟨k + 1, hk, fun b hb => (List.mem_cons.1 hb).elim (fun h => h ▸ hx) (hall b)⟩
          · rintro ⟨k, hk, hall⟩
            cases k with
            | zero => exact Or.inl (Option.some.inj hk).symm
            | succ k => exact Or.inr ⟨k, hk, fun b hb => hall b (List.mem_cons_of_mem x hb)⟩

end lists

/-! ### The offer -/

section offer

variable {caps : String → Option GstStructure}

/-- A section that is made advertises the port and the candidates that are given for it. -/
theorem advertises_outgoingMedia {s : GstStructure} {c : IceComponent} {index : ℕ}
    {media : GstSDPMedia} (h : outgoingMedia s c.port c.candidates index = some media) :
    Advertises media c := by
  have hattributes := attributes_outgoingMedia h
  rw [outgoingMedia, SDPMedia.foldl_addIceCandidate] at h
  obtain ⟨-, -, hport, -⟩ := SDPMedia.of_addToSdpDescription h
  refine ⟨hport, ?_⟩
  have hown : ([("sendonly", ""), ("rtpmap", SDPMedia.rtpmap s),
      ("control", "stream=" ++ toString index)] ++
      (if SDPMedia.params s = [] then [] else [("fmtp", SDPMedia.fmtp s)])).filter
        (·.1 = "candidate") = [] := by
    split
    · rfl
    · rfl
  have hcandidates : (c.candidates.map ("candidate", ·)).filter (·.1 = "candidate") =
      c.candidates.map ("candidate", ·) := by
    refine List.filter_eq_self.2 fun a ha => ?_
    obtain ⟨value, -, rfl⟩ := List.mem_map.1 ha
    rfl
  rw [sectionCandidates, hattributes, List.filter_append, hown, List.nil_append, hcandidates,
    List.map_map]
  exact List.map_id _

/-- A path makes a section as `makesSection` tells. -/
theorem isSome_outgoingMedia {path : String} {s : GstStructure} (hs : caps path = some s)
    (c : IceComponent) (index : ℕ) :
    (outgoingMedia s c.port c.candidates index).isSome = makesSection caps (path, c) := by
  have hmakes : makesSection caps (path, c) =
      ((SDPMedia.make.setMediaInfoFromCaps s).2 && c.port != 0) := by
    rw [makesSection, hs]
  have hset : SDPMedia.make.setMediaInfoFromCaps s = (SDPMedia.make, false) ∨
      SDPMedia.make.setMediaInfoFromCaps s =
        ({ SDPMedia.make with capsStructure := some s }, true) := by
    rw [SDPMedia.setMediaInfoFromCaps]
    split
    · exact Or.inl rfl
    · exact Or.inr rfl
  rw [hmakes, outgoingMedia, SDPMedia.foldl_addIceCandidate]
  rcases hset with hset | hset
  · rw [hset]
    cases c.port with
    | zero => rfl
    | succ port => rfl
  · rw [hset]
    cases c.port with
    | zero => rfl
    | succ port => rfl

/-- The components are taken from the back, and each path that makes a section gets its own. -/
theorem offerLoop_eq (caps : String → Option GstStructure) {paths : List String} {components : List IceComponent}
    (h : paths.length ≤ components.length) (offer : OutgoingOffer) : ∃ sections,
      offerLoop caps paths (components.map IceComponent.port)
        (components.map IceComponent.candidates) offer =
          some ⟨offer.sections ++ sections,
            offer.media ++ (sent caps components paths).map Prod.fst⟩ ∧
      List.Forall₂ (fun media a => Advertises media a.2) sections (sent caps components paths) := by
  induction paths generalizing components offer with
  | nil =>
      refine ⟨[], ?_, List.Forall₂.nil⟩
      rw [offerLoop, List.append_nil, sent, List.zip_nil_left, List.takeWhile_nil, List.filter_nil,
        List.map_nil, List.append_nil]
  | cons path paths ih =>
      rcases List.eq_nil_or_concat components with rfl | ⟨components, c, rfl⟩
      · cases h
      rw [List.concat_eq_append] at h ⊢
      rw [List.length_append, List.length_cons] at h
      have hle : paths.length ≤ components.length := Nat.le_of_succ_le_succ h
      rw [offerLoop]
      cases hs : caps path with
      | none =>
          have hsent : sent caps (components ++ [c]) (path :: paths) = [] := by
            rw [sent, List.reverse_append, List.reverse_singleton, List.singleton_append,
              List.zip_cons_cons, List.takeWhile_cons_of_neg, List.filter_nil]
            rw [hs]
            exact Bool.false_ne_true
          exact ⟨[], by rw [hsent, List.append_nil, List.map_nil, List.append_nil],
            hsent ▸ List.Forall₂.nil⟩
      | some s =>
          have hsent : sent caps (components ++ [c]) (path :: paths) =
              if makesSection caps (path, c) then (path, c) :: sent caps components paths
              else sent caps components paths := by
            rw [sent, List.reverse_append, List.reverse_singleton, List.singleton_append,
              List.zip_cons_cons, List.takeWhile_cons_of_pos, List.filter_cons]
            · rfl
            · rw [hs]
              rfl
          have hmade := isSome_outgoingMedia hs c offer.sections.length
          rw [List.map_append, List.map_append, List.map_singleton, List.map_singleton,
            List.getLast?_concat, List.getLast?_concat, List.dropLast_concat, List.dropLast_concat,
            hsent]
          change ∃ sections, offerLoop caps paths _ _ _ = _ ∧ _
          cases hmedia : outgoingMedia s c.port c.candidates offer.sections.length with
          | none =>
              rw [hmedia] at hmade
              rw [← hmade, if_neg (by exact Bool.false_ne_true)]
              exact ih hle offer
          | some media =>
              rw [hmedia] at hmade
              rw [← hmade, if_pos (by rfl)]
              obtain ⟨sections, heq, hall⟩ :=
                ih hle ⟨offer.sections ++ [media], offer.media ++ [path]⟩
              refine ⟨media :: sections, ?_, List.Forall₂.cons (advertises_outgoingMedia hmedia) hall⟩
              rw [heq, List.append_assoc, List.append_assoc]
              rfl

/-- Components with the same port and candidates are the same. -/
theorem Advertises.unique {media : GstSDPMedia} {c c' : IceComponent} (h : Advertises media c)
    (h' : Advertises media c') : c = c' := by
  obtain ⟨port, candidates⟩ := c
  obtain ⟨port', candidates'⟩ := c'
  obtain ⟨rfl, rfl⟩ := h
  obtain ⟨rfl, rfl⟩ := h'
  rfl

/-- The offer is aligned if the components of the paths that are sent are the first ones. -/
theorem alignedOffer_iff_isPrefix {paths : List String} {components : List IceComponent}
    (h : paths.length ≤ components.length) :
    AlignedOffer caps components paths ↔
      (sent caps components paths).map Prod.snd <+: components := by
  obtain ⟨sections, heq, hall⟩ := offerLoop_eq caps h ⟨[], []⟩
  have hlength := hall.length_eq
  constructor
  · rintro ⟨offer, hoffer, -, haligned⟩
    obtain rfl := Option.some.inj (heq.symm.trans hoffer)
    refine List.prefix_iff_getElem?.2 fun i hi => ?_
    rw [List.length_map] at hi
    obtain ⟨c, hc, hadvertises⟩ := haligned i _ (List.getElem?_eq_getElem (hlength ▸ hi))
    have hadvertises' : Advertises _ ((sent caps components paths)[i]).2 :=
      hall.get (hlength ▸ hi) hi
    rw [hc, List.getElem_map, hadvertises.unique hadvertises']
  · intro hprefix
    refine ⟨_, heq, ?_, fun i media hmedia => ?_⟩
    · rw [List.nil_append, List.nil_append, List.length_map, hlength]
    · obtain ⟨hi, rfl⟩ := List.getElem?_eq_some_iff.1 hmedia
      have hi' : i < (sent caps components paths).length := hlength ▸ hi
      refine ⟨((sent caps components paths)[i]).2, ?_, hall.get hi hi'⟩
      have hget := List.prefix_iff_getElem?.1 hprefix i (by rwa [List.length_map])
      rw [hget, List.getElem_map]

/-- The paths that are sent are those that make sections. -/
theorem mem_sent_iff {paths : List String} {components : List IceComponent}
    (h : components.length = paths.length) {a : String × IceComponent} :
    a ∈ sent caps components paths ↔
      ∃ k, MakesSection caps components paths k ∧ (paths.zip components.reverse)[k]? = some a := by
  have hfst : (paths.zip components.reverse).map Prod.fst = paths :=
    List.map_fst_zip (by rw [List.length_reverse, h])
  have hreaders (k : ℕ) : (∀ path ∈ paths.take (k + 1), (caps path).isSome) ↔
      ∀ b ∈ (paths.zip components.reverse).take (k + 1), (caps b.1).isSome = true := by
    conv_lhs => rw [← hfst, ← List.map_take]
    exact List.forall_mem_map
  rw [sent, List.mem_filter, mem_takeWhile_iff]
  constructor
  · rintro ⟨⟨k, hk, hall⟩, hmakes⟩
    exact ⟨k, ⟨(hreaders k).2 hall, a, hk, hmakes⟩, hk⟩
  · rintro ⟨k, ⟨hall, b, hb, hmakes⟩, hk⟩
    obtain rfl := Option.some.inj (hb.symm.trans hk)
    exact ⟨⟨k, hk, (hreaders k).1 hall⟩, hmakes⟩

/-- The components of the paths that are sent are taken from the back. -/
theorem sublist_sent (caps : String → Option GstStructure) {paths : List String} {components : List IceComponent}
    (h : components.length = paths.length) :
    ((sent caps components paths).map Prod.snd).Sublist components.reverse := by
  have hsnd : (paths.zip components.reverse).map Prod.snd = components.reverse :=
    List.map_snd_zip (by rw [List.length_reverse, h])
  rw [← hsnd]
  exact (List.filter_sublist.trans (List.takeWhile_sublist _)).map Prod.snd

/-- The path at a place gets the component at the place that is as far from the end. -/
theorem component_of_zip {paths : List String} {components : List IceComponent} {k : ℕ}
    {a : String × IceComponent} (h : components.length = paths.length)
    (ha : (paths.zip components.reverse)[k]? = some a) : ∃ i, k + 1 + i = paths.length ∧
      components[i]? = some a.2 := by
  obtain ⟨-, hsnd⟩ := List.getElem?_zip_eq_some.1 ha
  obtain ⟨hk, -⟩ := List.getElem?_eq_some_iff.1 hsnd
  rw [List.length_reverse] at hk
  have hi : k + 1 + (components.length - 1 - k) = components.length := by omega
  exact ⟨components.length - 1 - k, hi.trans h, List.getElem?_reverse hk ▸ hsnd⟩

/-- The offer is aligned exactly if no path but the last makes a section. -/
theorem alignedOffer_iff {paths : List String} {components : List IceComponent}
    (h : components.length = paths.length) (hnodup : components.Nodup) :
    AlignedOffer caps components paths ↔
      ∀ k, MakesSection caps components paths k → k + 1 = paths.length := by
  have hsublist := sublist_sent caps h
  rw [alignedOffer_iff_isPrefix h.ge]
  constructor
  · intro hprefix k hk
    have hone := length_le_one_of_isPrefix hnodup hprefix hsublist
    obtain ⟨-, a, ha, -⟩ := id hk
    obtain ⟨i, hi, hcomponent⟩ := component_of_zip h ha
    have hmem : a.2 ∈ (sent caps components paths).map Prod.snd :=
      List.mem_map_of_mem ((mem_sent_iff h).2 ⟨k, hk, ha⟩)
    -- The one component that is sent on is the first.
    obtain ⟨j, hj, hget⟩ := List.getElem_of_mem hmem
    obtain rfl : j = 0 := by omega
    have hfirst := List.prefix_iff_getElem?.1 hprefix 0 hj
    rw [hget, ← hcomponent] at hfirst
    obtain ⟨hlt, -⟩ := List.getElem?_eq_some_iff.1 hcomponent
    have := (List.getElem?_inj (by omega) hnodup).1 hfirst
    omega
  · intro hlast
    refine isPrefix_of_forall_eq ((List.nodup_reverse.2 hnodup).sublist hsublist) fun c hc => ?_
    obtain ⟨a, ha, rfl⟩ := List.mem_map.1 hc
    obtain ⟨k, hk, hget⟩ := (mem_sent_iff h).1 ha
    obtain ⟨i, hi, hcomponent⟩ := component_of_zip h hget
    have hk' := hlast k hk
    obtain rfl : i = 0 := by omega
    exact hcomponent

end offer

/-! ### The answer -/

section answer

/-- The media to receive, from a place of the offer on. -/
def mediaToReceiveFrom (start : ℕ) (offer : List GstSDPMedia) : List (ℕ × GstSDPMedia) :=
  (offer.zipIdx start).filterMap fun m => (receiveMedia m.1).map (m.2, ·)

theorem mediaToReceiveFrom_cons (start : ℕ) (media : GstSDPMedia) (offer : List GstSDPMedia) :
    mediaToReceiveFrom start (media :: offer) = match receiveMedia media with
      | none => mediaToReceiveFrom (start + 1) offer
      | some received => (start, received) :: mediaToReceiveFrom (start + 1) offer := by
  rw [mediaToReceiveFrom, List.zipIdx_cons, List.filterMap_cons]
  cases receiveMedia media with
  | none => rfl
  | some received => rfl

/-- A medium is received at its own place if those before it are received. -/
theorem mediaToReceiveFrom_of_accepted (start : ℕ) {k : ℕ} {offer : List GstSDPMedia}
    {media received : GstSDPMedia} (hmedia : offer[k]? = some media)
    (hreceived : receiveMedia media = some received)
    (hall : ∀ j < k, ∀ m, offer[j]? = some m → (receiveMedia m).isSome) :
    (mediaToReceiveFrom start offer)[k]? = some (start + k, received) := by
  induction offer generalizing start k with
  | nil => cases hmedia
  | cons m offer ih =>
      rw [mediaToReceiveFrom_cons]
      cases k with
      | zero =>
          obtain rfl := Option.some.inj hmedia
          rw [hreceived]
          rfl
      | succ k =>
          obtain ⟨r, hr⟩ := Option.isSome_iff_exists.1 (hall 0 k.succ_pos m rfl)
          rw [hr]
          change (mediaToReceiveFrom (start + 1) offer)[k]? = _
          rw [ih (start + 1) hmedia fun j hj m hm => hall (j + 1) (Nat.succ_lt_succ hj) m hm, Nat.add_assoc,
            Nat.add_comm 1 k]

/-- A medium is not received before its own place, and there only if those before it are
received. -/
theorem place_of_mediaToReceiveFrom (start : ℕ) {k i : ℕ} {offer : List GstSDPMedia}
    {received : GstSDPMedia} (h : (mediaToReceiveFrom start offer)[k]? = some (i, received)) :
    start + k ≤ i ∧
      (i = start + k → ∀ j < k, ∀ m, offer[j]? = some m → (receiveMedia m).isSome) := by
  induction offer generalizing start k with
  | nil => cases h
  | cons m offer ih =>
      rw [mediaToReceiveFrom_cons] at h
      cases hm : receiveMedia m with
      | none =>
          rw [hm] at h
          obtain ⟨hle, -⟩ := ih (start + 1) h
          exact ⟨by omega, fun hi => absurd hi (by omega)⟩
      | some r =>
          rw [hm] at h
          cases k with
          | zero =>
              obtain ⟨rfl, -⟩ := Prod.mk.inj (Option.some.inj h)
              exact ⟨le_rfl, fun _ j hj => absurd hj j.not_lt_zero⟩
          | succ k =>
              rw [List.getElem?_cons_succ] at h
              obtain ⟨hle, hall⟩ := ih (start + 1) h
              refine ⟨by omega, fun hi j hj m' hm' => ?_⟩
              cases j with
              | zero =>
                  obtain rfl := Option.some.inj hm'
                  rw [hm]
                  rfl
              | succ j => exact hall (by omega) j (Nat.lt_of_succ_lt_succ hj) m' hm'

/-- The sections of the answer are those of the media to receive, each with its component. -/
theorem answerLoop_eq {media : List (ℕ × GstSDPMedia)} {components : List IceComponent}
    (h : components.length = media.length) :
    answerLoop media components =
      some (List.zipWith (fun m c => answerSection m.2 c) media components) := by
  induction media generalizing components with
  | nil => rfl
  | cons m media ih =>
      cases components with
      | nil => cases h
      | cons c components =>
          rw [answerLoop, ih (Nat.succ.inj h)]
          rfl

/-- The writers are fed by the components in their order. -/
theorem writersLoop_eq {media : List (ℕ × GstSDPMedia)} {writers : List RtpWriter}
    {dataCbs : List (Option RtpWriter)} (h : dataCbs.length = writers.length + media.length) :
    writersLoop media writers dataCbs = dataCbs.take writers.length ++
      media.map fun m => some ⟨m.1, getMediaLabel m.2.attributes⟩ := by
  induction media generalizing writers dataCbs with
  | nil =>
      rw [List.length_nil, Nat.add_zero] at h
      rw [writersLoop, ← h, List.take_length, List.map_nil, List.append_nil]
  | cons m media ih =>
      rw [List.length_cons] at h
      have hset : setDataCb dataCbs (writers.length + 1) ⟨m.1, getMediaLabel m.2.attributes⟩ =
          dataCbs.set writers.length (some ⟨m.1, getMediaLabel m.2.attributes⟩) := by
        rw [setDataCb, if_neg (by omega), Nat.add_sub_cancel]
      rw [writersLoop, ih, List.length_append, List.length_singleton, hset,
        List.take_add_one, List.take_set_of_le le_rfl, List.getElem?_set_self (by omega),
        List.append_assoc]
      · rfl
      · rw [hset, List.length_set, h, List.length_append, List.length_singleton]
        omega

/-- The answer is aligned exactly if no medium that is not received comes before one that is. -/
theorem alignedAnswer_iff {offer : List GstSDPMedia} {components : List IceComponent}
    (h : components.length = (mediaToReceive offer).length) :
    AlignedAnswer components offer ↔
      ∀ (k : ℕ) (media : GstSDPMedia), offer[k]? = some media → (receiveMedia media).isSome →
        ∀ j < k, ∀ m, offer[j]? = some m → (receiveMedia m).isSome := by
  have hanswer : createSdpAnswer components offer =
      some ⟨List.zipWith (fun m c => answerSection m.2 c) (mediaToReceive offer) components,
        (mediaToReceive offer).map fun m => some ⟨m.1, getMediaLabel m.2.attributes⟩⟩ := by
    rw [createSdpAnswer, answerLoop_eq h, writersLoop_eq]
    · rfl
    · rw [List.length_replicate, h, List.length_nil, Nat.zero_add]
  constructor
  · rintro ⟨answer, heq, haligned⟩ k media hmedia hreceived
    obtain rfl := Option.some.inj (hanswer.symm.trans heq)
    obtain ⟨received, hreceived⟩ := Option.isSome_iff_exists.1 hreceived
    obtain ⟨-, writer, -, -, hwriter, hplace⟩ := haligned k media received hmedia hreceived
    rw [List.getElem?_map] at hwriter
    obtain ⟨m, hm, hcb⟩ := Option.map_eq_some_iff.1 hwriter
    obtain rfl := Option.some.inj hcb
    exact (place_of_mediaToReceiveFrom 0 hm).2 (hplace.trans (Nat.zero_add k).symm)
  · intro hall
    refine ⟨_, hanswer, fun k media received hmedia hreceived => ?_⟩
    have hget : (mediaToReceive offer)[k]? = some (k, received) := by
      have := mediaToReceiveFrom_of_accepted 0 hmedia hreceived
        (hall k media hmedia (by rw [hreceived]; rfl))
      rwa [Nat.zero_add] at this
    obtain ⟨hk, -⟩ := List.getElem?_eq_some_iff.1 hget
    have hc : components[k]? = some (components[k]) := List.getElem?_eq_getElem (h ▸ hk)
    refine ⟨components[k], ⟨k, getMediaLabel received.attributes⟩, hc, ?_, ?_, rfl⟩
    · rw [List.getElem?_zipWith, hget, hc]
    · rw [List.getElem?_map, hget]
      rfl

end answer

/-! ### Alignment -/

/-- For the transports of an offer and of an answer: both are aligned exactly if no path but the
last makes a section of the offer, and each medium before one that is received is received. -/
theorem media_aligned_iff (caps : String → Option GstStructure) (paths : List String)
    (offer : List GstSDPMedia) (send : PJICEStreamTrans paths.length)
    (recv : PJICEStreamTrans (mediaToReceive offer).length) :
    (AlignedOffer caps send.components paths ∧ AlignedAnswer recv.components offer) ↔
      (∀ k, MakesSection caps send.components paths k → k + 1 = paths.length) ∧
        ∀ (k : ℕ) (media : GstSDPMedia), offer[k]? = some media → (receiveMedia media).isSome →
          ∀ j < k, ∀ m, offer[j]? = some m → (receiveMedia m).isSome :=
  and_congr (alignedOffer_iff send.length_components send.nodup_components)
    (alignedAnswer_iff recv.length_components)

/-- A medium of an offer with one attribute. -/
def audioMedia (direction : String) : GstSDPMedia :=
  ⟨"audio", 5000, "RTP/AVP", "96", [(direction, "")]⟩

/-- Two paths that make sections get each other's components, and a medium that is received behind
one that is not has no section at its place. -/
theorem not_media_aligned_two :
    (∃ send : PJICEStreamTrans 2,
      ¬AlignedOffer (fun _ => some (videoCaps [97, 98, 99] .other)) send.components
        ["/tmp/a", "/tmp/b"]) ∧
    ∃ recv : PJICEStreamTrans (mediaToReceive [audioMedia "recvonly", audioMedia "sendonly"]).length,
      ¬AlignedAnswer recv.components [audioMedia "recvonly", audioMedia "sendonly"] := by
  constructor
  · refine ⟨⟨[⟨5000, []⟩, ⟨5002, []⟩], rfl, by decide⟩, ?_⟩
    rintro ⟨offer, hoffer, -, haligned⟩
    have hfirst : ∀ o ∈ createOutgoingSdp (fun _ => some (videoCaps [97, 98, 99] .other))
        [⟨5000, []⟩, ⟨5002, []⟩] ["/tmp/a", "/tmp/b"],
        (o.sections[0]?).map GstSDPMedia.port = some 5002 := by decide +kernel
    obtain ⟨media, hmedia, hport⟩ := Option.map_eq_some_iff.1 (hfirst offer hoffer)
    obtain ⟨c, hc, hadvertises, -⟩ := haligned 0 media hmedia
    obtain rfl := Option.some.inj hc
    cases hport.symm.trans hadvertises
  · refine ⟨⟨[⟨5000, []⟩], rfl, by decide⟩, ?_⟩
    rintro ⟨answer, hanswer, haligned⟩
    obtain ⟨c, -, hc, -⟩ := haligned 1 _ _ rfl rfl
    cases hc

end PJCall
end LibSwitcher
