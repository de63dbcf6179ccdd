/-
# Trees as lines

`switcher/infotree/key-val-serializer.cpp`.  A tree is written as lines, one for each node
with a value below the root: the path of its keys, a space and the text of the value.  A line
is read as a word, a second one, and what follows the space behind it.

So a text comes back if it is what is read of itself (`Readable`): spaces at its begin belong
to those between the path and the value, and a space at its end is lost if it is the only
one, since nothing follows it.  A tree has the same texts at the same paths after it was
written and read exactly if its root has no value and all texts are of this kind
(`roundTrip_iff`).
-/

import LibSwitcher.InfoTree.Copy
import LibSwitcher.Lib.TreeEntries

namespace LibSwitcher
namespace InfoTree
namespace Keyval

/-! ### Writing -/

/-- `path_to_string`. -/
def pathToString (path : List String) : String := String.join (path.map (· ++ "."))

/-- `on_visiting_node`, with the path to the node. -/
def onVisitingNode (path : List String) (value : Any) (result : String) : String :=
  if value ≠ .null then
    result ++ ("." ++ pathToString path ++ " " ++ value.toString ++ "\n")
  else result

mutual

/-- `preorder_tree_walk` with the functions of `serialize`. -/
def walk (path : List String) : InfoTree → String → String
  | .node _ cs, result => walkChildren path cs result

/-- The loop of `preorder_tree_walk` on the children of a node. -/
def walkChildren (path : List String) : List (String × InfoTree) → String → String
  | [], result => result
  | (key, c) :: cs, result =>
      walkChildren path cs
        (walk (path ++ [key]) c (onVisitingNode (path ++ [key]) c.data result))

end

/-- `serialize`. -/
def serialize (tree : InfoTree) : String := walk [] tree ""

/-! ### Reading -/

/-- The lines that `std::getline` reads: what follows the last end of a line is one if there
is something. -/
def lines (text : List Char) : List (List Char) :=
  let parts := text.splitOn '\n'
  if parts.getLast? = some [] then parts.dropLast else parts

/-- The first word that `std::getline` reads between spaces, where empty ones are skipped,
and what follows the space behind it. -/
def nextWord : List Char → List Char × List Char
  | [] => ([], [])
  | c :: cs =>
      if c = ' ' then nextWord cs
      else ((c :: cs).takeWhile (· ≠ ' '), ((c :: cs).dropWhile (· ≠ ' ')).drop 1)

/-- The value: a word, and the rest of the line if there is one. -/
def readValue (rest : List Char) : List Char :=
  let (value, valCont) := nextWord rest
  if valCont ≠ [] then value ++ ' ' :: valCont else value

/-- What `deserialize` does with a line. -/
def readLine (tree : InfoTree) (line : List Char) : InfoTree :=
  let (absoluteKey, rest) := nextWord line
  let value := readValue rest
  if absoluteKey ≠ [] ∧ value ≠ [] then
    vgraft (String.ofList absoluteKey) (.str (String.ofList value)) tree
  else tree

/-- `deserialize`. -/
def deserialize (serialized : String) : InfoTree := (lines serialized.toList).foldl readLine make

/-! ### What comes back -/

/-- The text of the value at a path, if there is one. -/
def textAt (p : List String) (t : InfoTree) : Option String :=
  if valueAt p t = .null then none else some (valueAt p t).toString

/-- A tree has the same texts at the same paths after it was written and read. -/
def RoundTrip (t : InfoTree) : Prop := ∀ p, textAt p (deserialize (serialize t)) = textAt p t

/-- A key that can stand in a line. -/
def LineKey (k : String) : Prop := Components.Plain '.' k ∧ ' ' ∉ k.toList ∧ '\n' ∉ k.toList

instance decidableLineKey (k : String) : Decidable (LineKey k) :=
  inferInstanceAs (Decidable (_ ∧ _))

/-- A text that is read as it is: one line, not beginning with a space, and not ending with
one unless there is another one. -/
def Readable (s : String) : Prop :=
  s ≠ "" ∧ '\n' ∉ s.toList ∧ s.toList.head? ≠ some ' ' ∧
    (s.toList.getLast? = some ' ' → ' ' ∈ s.toList.dropLast)

instance decidableReadable (s : String) : Decidable (Readable s) :=
  inferInstanceAs (Decidable (_ ∧ _))

/-- The text of a node that has a value. -/
def textOf (e : List String × NodeData) : Option (List String × String) :=
  if e.2.data = .null then none else some (e.1, e.2.data.toString)

/-- The texts of a tree with their paths, in the order in which they are written. -/
def texts (t : InfoTree) : List (List String × String) := t.entries.filterMap textOf

/-- The line for a text. -/
def line (e : List String × String) : List Char :=
  ("." ++ pathToString e.1 ++ " " ++ e.2).toList

variable {t : InfoTree} {p path : List String} {s path' : String} {cs w rest : List Char}

/-! ### Texts and entries -/

theorem valueAt_eq_label (p : List String) (t : InfoTree) :
    valueAt p t = (((t.get p).map KeyTree.label).getD emptyNode).data := by
  rw [valueAt]
  cases t.get p <;> rfl

theorem textAt_eq_some_iff :
    textAt p t = some s ↔ valueAt p t ≠ .null ∧ (valueAt p t).toString = s := by
  rw [textAt]
  by_cases h : valueAt p t = .null
  · rw [if_pos h]
    exact iff_of_false (Option.some_ne_none s).symm fun hs => hs.1 h
  · rw [if_neg h, Option.some.injEq]
    exact (and_iff_right h).symm

/-- The texts are those at their paths, but for that of the root. -/
theorem mem_texts_iff {P : String → Prop} (ht : KeyTree.WellKeyed P t) :
    (p, s) ∈ texts t ↔ p ≠ [] ∧ textAt p t = some s := by
  rw [texts, List.mem_filterMap, textAt_eq_some_iff, valueAt_eq_label]
  constructor
  · rintro ⟨⟨p', d⟩, hmem, h⟩
    rw [textOf] at h
    split_ifs at h with hnull
    obtain ⟨rfl, rfl⟩ := Prod.mk.inj (Option.some.inj h)
    obtain ⟨hp, hlabel⟩ := (KeyTree.mem_entries_iff ht).1 hmem
    rw [hlabel]
    exact ⟨hp, hnull, rfl⟩
  · rintro ⟨hp, hnull, rfl⟩
    cases hlabel : (t.get p).map KeyTree.label with
    | none =>
        rw [hlabel] at hnull
        exact absurd rfl hnull
    | some d =>
        rw [hlabel] at hnull
        exact ⟨(p, d), (KeyTree.mem_entries_iff ht).2 ⟨hp, hlabel⟩, if_neg hnull⟩

/-! ### The lines that are written -/

theorem onVisitingNode_eq (path : List String) (value : Any) (result : String) :
    onVisitingNode path value result = result ++ onVisitingNode path value "" := by
  rw [onVisitingNode, onVisitingNode]
  split_ifs
  · rw [String.empty_append]
  · rw [String.append_empty]

/-- What is written for the labels of a tree that stands at a path. -/
def written (path : List String) (es : List (List String × NodeData)) : String :=
  String.join (es.map fun e => onVisitingNode (path ++ e.1) e.2.data "")

mutual

/-- The walk writes the labels below a node, one after the other. -/
theorem walk_eq (path : List String) : (t : InfoTree) → (result : String) →
    walk path t result = result ++ written path t.entries
  | .node _ cs, result => by
      rw [walk, KeyTree.entries]
      exact walkChildren_eq path cs result

theorem walkChildren_eq (path : List String) : (cs : List (String × InfoTree)) →
    (result : String) → walkChildren path cs result = result ++ written path (KeyTree.entriesOf cs)
  | [], result => by
      rw [walkChildren, KeyTree.entriesOf, written, List.map_nil, String.join_nil,
        String.append_empty]
  | (key, c) :: cs, result => by
      have hbelow : (c.entries.map fun e => (key :: e.1, e.2)).map
          (fun e => onVisitingNode (path ++ e.1) e.2.data "") =
            c.entries.map fun e => onVisitingNode (path ++ [key] ++ e.1) e.2.data "" := by
        rw [List.map_map]
        refine List.map_congr_left fun e _ => ?_
        rw [List.append_assoc]
        rfl
      rw [walkChildren, walk_eq (path ++ [key]) c, onVisitingNode_eq, walkChildren_eq path cs,
        KeyTree.entriesOf, written, written, written, List.cons_append, List.map_cons,
        List.map_append, hbelow, String.join_cons, String.join_append, String.append_assoc,
        String.append_assoc]
      rfl

end

theorem line_eq (e : List String × String) :
    line e = '.' :: (pathToString e.1).toList ++ ' ' :: e.2.toList := by
  rw [line, String.toList_append, String.toList_append, String.toList_append, List.append_assoc]
  rfl

/-- A tree is written as the lines for its texts. -/
theorem toList_serialize (t : InfoTree) :
    (serialize t).toList = (texts t).flatMap fun e => line e ++ ['\n'] := by
  rw [serialize, walk_eq, String.empty_append, written, String.toList_join, List.flatMap_map, texts]
  induction t.entries with
  | nil => rfl
  | cons e es ih =>
      rw [List.flatMap_cons, ih, List.nil_append, onVisitingNode]
      by_cases h : e.2.data = .null
      · have hnone : textOf e = none := if_pos h
        rw [if_neg (not_not.2 h), List.filterMap_cons_none hnone]
        rfl
      · have hsome : textOf e = some (e.1, e.2.data.toString) := if_neg h
        rw [if_pos h, List.filterMap_cons_some hsome, List.flatMap_cons, String.empty_append,
          String.toList_append]
        rfl

/-! ### The lines that are read -/

theorem lines_append (rest : List Char) (h : '\n' ∉ w) :
    lines (w ++ '\n' :: rest) = w :: lines rest := by
  have hne : rest.splitOn '\n' ≠ [] := List.splitOn_ne_nil _ _
  rw [lines, lines, List.splitOn_append_cons_self_of_not_mem h]
  rw [List.getLast?_cons_of_ne_nil hne, List.dropLast_cons_of_ne_nil hne]
  split_ifs <;> rfl

/-- The lines that are written are read again. -/
theorem lines_flatMap {ls : List (List Char)} (h : ∀ l ∈ ls, '\n' ∉ l) :
    lines (ls.flatMap (· ++ ['\n'])) = ls := by
  induction ls with
  | nil => rfl
  | cons l ls ih =>
      have happend : (l :: ls).flatMap (· ++ ['\n']) = l ++ '\n' :: ls.flatMap (· ++ ['\n']) := by
        rw [List.flatMap_cons, List.append_assoc]
        rfl
      rw [happend, lines_append _ (h l List.mem_cons_self),
        ih fun l' hl' => h l' (List.mem_cons_of_mem _ hl')]

theorem not_mem_of_mem_lines (h : w ∈ lines cs) : '\n' ∉ w := by
  rw [lines] at h
  split_ifs at h
  · exact Components.not_mem_of_mem_splitOn (List.mem_of_mem_dropLast h)
  · exact Components.not_mem_of_mem_splitOn h

/-- A word up to the next space. -/
theorem nextWord_append (hne : w ≠ []) (h : ' ' ∉ w) (rest : List Char) :
    nextWord (w ++ ' ' :: rest) = (w, rest) := by
  obtain ⟨c, cs, rfl⟩ := List.exists_cons_of_ne_nil hne
  have hc : c ≠ ' ' := fun hc => h (hc ▸ List.mem_cons_self)
  have hall : ∀ d ∈ c :: cs, decide (d ≠ ' ') = true := fun d hd =>
    decide_eq_true fun heq => h (heq ▸ hd)
  have hdrop : ((c :: cs) ++ ' ' :: rest).dropWhile (· ≠ ' ') = ' ' :: rest := by
    rw [List.dropWhile_append_of_pos hall]
    rfl
  have htake : ((c :: cs) ++ ' ' :: rest).takeWhile (· ≠ ' ') = c :: cs := by
    rw [List.takeWhile_append_of_pos hall, List.takeWhile_cons_of_neg (by simp), List.append_nil]
  rw [List.cons_append, nextWord, if_neg hc, ← List.cons_append, htake, hdrop]
  rfl

/-- The last word of a line. -/
theorem nextWord_of_not_mem (h : ' ' ∉ w) : nextWord w = (w, []) := by
  cases w with
  | nil => rfl
  | cons c cs =>
      have hc : c ≠ ' ' := fun hc => h (hc ▸ List.mem_cons_self)
      have hall : ∀ d ∈ c :: cs, decide (d ≠ ' ') = true := fun d hd =>
        decide_eq_true fun heq => h (heq ▸ hd)
      rw [nextWord, if_neg hc, List.takeWhile_eq_self_iff.2 hall,
        List.dropWhile_eq_nil_iff.2 hall]
      rfl

/-- What a word is: it has no space, and is empty only at the end of the line. -/
theorem nextWord_spec (cs : List Char) : ' ' ∉ (nextWord cs).1 ∧
    ((nextWord cs).1 = [] → (nextWord cs).2 = []) ∧
      (∀ c ∈ (nextWord cs).1, c ∈ cs) ∧ ∀ c ∈ (nextWord cs).2, c ∈ cs := by
  induction cs with
  | nil => exact ⟨List.not_mem_nil, fun _ => rfl, fun _ h => h, fun _ h => h⟩
  | cons c cs ih =>
      rw [nextWord]
      split_ifs with hc
      · obtain ⟨hspace, hempty, hword, hrest⟩ := ih
        exact ⟨hspace, hempty, fun d hd => List.mem_cons_of_mem _ (hword d hd),
          fun d hd => List.mem_cons_of_mem _ (hrest d hd)⟩
      · refine ⟨fun h => ?_, fun h => ?_, fun d hd => ?_, fun d hd => ?_⟩
        · simpa using List.mem_takeWhile_imp h
        · rw [List.takeWhile_cons_of_pos (by simpa using hc)] at h
          exact absurd h (List.cons_ne_nil _ _)
        · exact (List.takeWhile_sublist fun x => decide (x ≠ ' ')).subset hd
        · exact (List.dropWhile_sublist fun x => decide (x ≠ ' ')).subset (List.mem_of_mem_drop hd)

theorem readValue_append (hne : w ≠ []) (h : ' ' ∉ w) (hrest : rest ≠ []) :
    readValue (w ++ ' ' :: rest) = w ++ ' ' :: rest := by
  rw [readValue, nextWord_append hne h]
  exact if_pos hrest

/-- A text is read as it is, if it can be. -/
theorem readValue_of_readable (h : Readable s) : readValue s.toList = s.toList := by
  obtain ⟨-, -, hhead, hlast⟩ := h
  by_cases hspace : ' ' ∈ s.toList
  · obtain ⟨w, rest, hs, hw⟩ := List.eq_append_cons_of_mem hspace
    have hne : w ≠ [] := by
      rintro rfl
      exact hhead (by rw [hs]; rfl)
    have hrest : rest ≠ [] := by
      rintro rfl
      have hmem := hlast (by rw [hs, List.getLast?_concat])
      rw [hs, List.dropLast_concat] at hmem
      exact hw hmem
    rw [hs]
    exact readValue_append hne hw hrest
  · rw [readValue, nextWord_of_not_mem hspace]
    rfl

/-- All texts that are read can be. -/
theorem readable_readValue (hline : '\n' ∉ cs) (h : readValue cs ≠ []) :
    Readable (String.ofList (readValue cs)) := by
  obtain ⟨hspace, hempty, hword, hrest⟩ := nextWord_spec cs
  have hvalue : readValue cs = if (nextWord cs).2 ≠ [] then
      (nextWord cs).1 ++ ' ' :: (nextWord cs).2 else (nextWord cs).1 := rfl
  rw [Readable, String.toList_ofList]
  have hne : (nextWord cs).1 ≠ [] := by
    intro hnil
    rw [hvalue, hempty hnil, if_neg (not_not.2 rfl)] at h
    exact h hnil
  have hhead : (nextWord cs).1.head? ≠ some ' ' := fun hh => hspace (List.mem_of_mem_head? hh)
  refine ⟨fun heq => h ?_, ?_, ?_, ?_⟩
  · rwa [← String.toList_inj, String.toList_ofList] at heq
  · rw [hvalue]
    split_ifs
    · intro hmem
      obtain hmem | hmem := List.mem_append.1 hmem
      · exact hline (hword _ hmem)
      · obtain heq | hmem := List.mem_cons.1 hmem
        · exact absurd heq (by decide)
        · exact hline (hrest _ hmem)
    · exact fun hmem => hline (hword _ hmem)
  · rw [hvalue]
    split_ifs
    · rwa [List.head?_append_of_ne_nil _ hne]
    · exact hhead
  · rw [hvalue]
    split_ifs with hrest
    · intro _
      rw [List.dropLast_append_of_ne_nil (List.cons_ne_nil _ _), List.dropLast_cons_of_ne_nil hrest]
      exact List.mem_append_right _ List.mem_cons_self
    · exact fun hlast => absurd (List.mem_of_getLast? hlast) hspace

/-! ### Reading what was written -/

theorem keyPath_eq (path : List String) : keyPath path = "." ++ pathToString path := by
  have hfold : ∀ (ks : List String) (b : String), ks.foldl (fun key it => key ++ it ++ ".") b =
      b ++ pathToString ks := by
    intro ks
    induction ks with
    | nil => exact fun b => String.append_empty.symm
    | cons k ks ih =>
        intro b
        rw [List.foldl_cons, ih, pathToString, pathToString, List.map_cons, String.join_cons,
          String.append_assoc, String.append_assoc, String.append_assoc]
  exact hfold path "."

theorem components_pathToString (h : ∀ k ∈ path, LineKey k) :
    components ("." ++ pathToString path) = path := by
  rw [← keyPath_eq]
  exact components_keyPath fun k hk => (h k hk).1

/-- The path in a line has neither spaces nor ends of lines. -/
theorem not_mem_pathToString {c : Char} (hc : c ≠ '.') (h : ∀ k ∈ path, c ∉ k.toList) :
    c ∉ '.' :: (pathToString path).toList := by
  rw [pathToString, String.toList_join, List.flatMap_map, List.mem_cons, not_or]
  refine ⟨hc, fun hmem => ?_⟩
  obtain ⟨k, hk, hmem⟩ := List.mem_flatMap.1 hmem
  rw [String.toList_append, List.mem_append] at hmem
  exact hmem.elim (h k hk) fun hmem => hc (List.mem_singleton.1 hmem)

/-- A line is one. -/
theorem not_mem_line {e : List String × String} (hkeys : ∀ k ∈ e.1, LineKey k)
    (hs : Readable e.2) : '\n' ∉ line e := by
  have hpath := not_mem_pathToString (c := '\n') (by decide) fun k hk => (hkeys k hk).2.2
  rw [line_eq, List.mem_append]
  rintro (hmem | hmem)
  · exact hpath hmem
  · exact hs.2.1 ((List.mem_cons.1 hmem).resolve_left (by decide))

/-- A line is read as the graft of a text. -/
theorem readLine_line {e : List String × String} (hne : e.1 ≠ []) (hkeys : ∀ k ∈ e.1, LineKey k)
    (hs : Readable e.2) (tree : InfoTree) :
    readLine tree (line e) = KeyTree.graft emptyNode e.1 tree (makeValue (.str e.2)) := by
  have hspace := not_mem_pathToString (c := ' ') (by decide) fun k hk => (hkeys k hk).2.1
  have hword := nextWord_append (List.cons_ne_nil _ _) hspace e.2.toList
  have hvalue := readValue_of_readable hs
  have hnil : e.2.toList ≠ [] := mt String.toList_eq_nil_iff.1 hs.1
  have hpath : String.ofList ('.' :: (pathToString e.1).toList) = "." ++ pathToString e.1 := by
    rw [← String.toList_inj, String.toList_ofList, String.toList_append]
    rfl
  rw [readLine, line_eq, hword]
  dsimp only
  rw [hvalue, if_pos ⟨List.cons_ne_nil _ _, hnil⟩, hpath, String.ofList_toList, vgraft, graft,
    components_pathToString hkeys, if_neg hne]

/-- The label of a node that is made for a text. -/
def textLabel (e : List String × String) : List String × NodeData := (e.1, ⟨.str e.2, false⟩)

/-- Trees with keys and texts that lines can have are read as their texts, each as a leaf. -/
theorem deserialize_serialize_eq (ht : KeyTree.WellKeyed LineKey t)
    (hs : ∀ e ∈ texts t, Readable e.2) : deserialize (serialize t) =
      KeyTree.graftAll emptyNode ((texts t).map textLabel) make := by
  have hkeys : ∀ e ∈ texts t, e.1 ≠ [] ∧ ∀ k ∈ e.1, LineKey k := by
    intro e he
    obtain ⟨d, hd, hsome⟩ := List.mem_filterMap.1 he
    obtain ⟨hne, hlabel⟩ := (KeyTree.mem_entries_iff ht).1 hd
    obtain ⟨n, hn, -⟩ := Option.map_eq_some_iff.1 hlabel
    rw [textOf] at hsome
    split_ifs at hsome
    obtain rfl := Option.some.inj hsome
    exact ⟨hne, ht.mem_path hn⟩
  have hlines : ∀ l ∈ (texts t).map line, '\n' ∉ l := by
    intro l hl
    obtain ⟨e, he, rfl⟩ := List.mem_map.1 hl
    exact not_mem_line (hkeys e he).2 (hs e he)
  rw [deserialize, toList_serialize, ← List.flatMap_map line (· ++ ['\n']), lines_flatMap hlines,
    List.foldl_map, KeyTree.graftAll, List.foldl_map]
  exact List.foldl_ext _ _ _ fun tree e he => readLine_line (hkeys e he).1 (hkeys e he).2 (hs e he) tree

/-- What is read of the texts that were written. -/
theorem roundTrip_of_readable (ht : KeyTree.WellKeyed LineKey t)
    (h : ∀ p s, textAt p t = some s → p ≠ [] ∧ Readable s) : RoundTrip t := by
  have hread : ∀ e ∈ texts t, Readable e.2 := fun e he =>
    (h e.1 e.2 ((mem_texts_iff ht).1 he).2).2
  have hpairwise : ((texts t).map textLabel).Pairwise fun e e' => ¬e'.1 <+: e.1 := by
    refine List.pairwise_map.2 ((KeyTree.pairwise_entries ht).filterMap textOf ?_)
    intro e e' hne d hd d' hd'
    rw [textOf] at hd hd'
    split_ifs at hd hd'
    obtain rfl := Option.some.inj hd
    obtain rfl := Option.some.inj hd'
    exact hne
  intro p
  rw [deserialize_serialize_eq ht hread]
  cases htext : textAt p t with
  | none =>
      have hnot : p ∉ ((texts t).map textLabel).map Prod.fst := by
        rw [List.map_map]
        rintro hmem
        obtain ⟨⟨p, s⟩, he, rfl⟩ := List.mem_map.1 hmem
        exact absurd (htext.symm.trans ((mem_texts_iff ht).1 he).2) (Option.some_ne_none s).symm
      have hlabel := KeyTree.label_graftAll_of_not_mem emptyNode hnot
      rw [textAt, valueAt_eq_label, make, hlabel]
      exact if_pos rfl
  | some s =>
      have hmem : (p, s) ∈ texts t := (mem_texts_iff ht).2 ⟨(h p s htext).1, htext⟩
      have hlabel := KeyTree.label_graftAll_of_mem emptyNode hpairwise
        (List.mem_map.2 ⟨(p, s), hmem, rfl⟩) make
      rw [textAt, valueAt_eq_label, hlabel]
      exact if_neg (by simp)

/-! ### What is read -/

/-- The texts of a tree in which one is grafted. -/
theorem textAt_vgraft {s' : String} (h : textAt p (vgraft path' (.str s) t) = some s') :
    p ≠ [] ∧ s' = s ∨ textAt p t = some s' := by
  rw [vgraft, graft] at h
  split_ifs at h with hcomps
  · exact .inr h
  · have hlabel := KeyTree.label_graft_leaf emptyNode p (components path') t
      ⟨.str s, false⟩
    rw [textAt, valueAt_eq_label, makeValue, hlabel] at h
    by_cases hpre : components path' <+: p
    · rw [if_pos hpre] at h
      by_cases hp : p = components path'
      · rw [if_pos hp] at h
        exact .inl ⟨hp ▸ hcomps, (Option.some.inj h).symm⟩
      · rw [if_neg hp] at h
        exact absurd h (Option.some_ne_none s').symm
    · rw [if_neg hpre, ← valueAt_eq_label] at h
      exact .inr h

/-- All texts of a tree that is read are below the root and can be read again. -/
theorem readable_of_textAt_deserialize (text : String) (h : textAt p (deserialize text) = some s) :
    p ≠ [] ∧ Readable s := by
  have hfold : ∀ (ls : List (List Char)) (tree : InfoTree), (∀ l ∈ ls, '\n' ∉ l) →
      (∀ p s, textAt p tree = some s → p ≠ [] ∧ Readable s) →
      ∀ p s, textAt p (ls.foldl readLine tree) = some s → p ≠ [] ∧ Readable s := by
    intro ls
    induction ls with
    | nil => exact fun _ _ htree => htree
    | cons l ls ih =>
        intro tree hls htree
        refine ih _ (fun l' hl' => hls l' (List.mem_cons_of_mem _ hl')) fun p s h => ?_
        have hl := hls l List.mem_cons_self
        rw [readLine] at h
        dsimp only at h
        split_ifs at h with hsome
        · obtain ⟨hp, rfl⟩ | h := textAt_vgraft h
          · exact ⟨hp, readable_readValue (fun hmem => hl ((nextWord_spec l).2.2.2 _ hmem)) hsome.2⟩
          · exact htree p s h
        · exact htree p s h
  refine hfold (lines text.toList) make (fun l hl => not_mem_of_mem_lines hl) (fun p s h => ?_) p s h
  have hnull : valueAt p make = .null := by
    cases p with
    | nil => rfl
    | cons k ks => rw [valueAt, make, KeyTree.get_node_nil (List.cons_ne_nil k ks)]; rfl
  rw [textAt, if_pos hnull] at h
  exact absurd h (Option.some_ne_none s).symm

/-- **A tree comes back from its lines** exactly if its root has no value and each of its texts can
be read. -/
theorem roundTrip_iff (ht : KeyTree.WellKeyed LineKey t) :
    RoundTrip t ↔ ∀ p s, textAt p t = some s → p ≠ [] ∧ Readable s := by
  refine ⟨fun h p s hs => ?_, roundTrip_of_readable ht⟩
  exact readable_of_textAt_deserialize (serialize t) ((h p).trans hs)

theorem wellKeyed_vgraft (ht : KeyTree.WellKeyed LineKey t)
    (hpath : ∀ k ∈ components path', LineKey k) (v : Any) :
    KeyTree.WellKeyed LineKey (vgraft path' v t) := by
  rw [vgraft, graft]
  split_ifs
  · exact ht
  · exact ht.graft hpath (KeyTree.wellKeyed_nil _)

/-- A tree with a value at an inner node. -/
def oscillator : InfoTree :=
  vgraft "osc.name" (.str "my oscillator") (vgraft "osc" (.str "on") make)

theorem roundTrip_oscillator : KeyTree.WellKeyed LineKey oscillator ∧ RoundTrip oscillator := by
  have ht : KeyTree.WellKeyed LineKey oscillator :=
    wellKeyed_vgraft (wellKeyed_vgraft (KeyTree.wellKeyed_nil _) (by decide) _) (by decide) _
  have htexts : texts oscillator = [(["osc"], "on"), (["osc", "name"], "my oscillator")] := by
    decide +kernel
  refine ⟨ht, (roundTrip_iff ht).2 fun p s hs => ?_⟩
  have hp : p ≠ [] := by
    rintro rfl
    have hroot : textAt [] oscillator = none := by decide +kernel
    exact absurd (hroot.symm.trans hs) (Option.some_ne_none s).symm
  have hmem := (mem_texts_iff ht).2 ⟨hp, hs⟩
  rw [htexts] at hmem
  refine ⟨hp, ?_⟩
  obtain heq | heq := List.mem_cons.1 hmem
  · obtain ⟨-, rfl⟩ := Prod.mk.inj heq
    decide
  · obtain ⟨-, rfl⟩ := Prod.mk.inj (List.mem_singleton.1 heq)
    decide

/-- A space at the end of a word is lost. -/
theorem not_roundTrip_trailing : ¬(∀ t : InfoTree, KeyTree.WellKeyed LineKey t →
    (∀ e ∈ texts t, e.2 ≠ "" ∧ '\n' ∉ e.2.toList) → RoundTrip t) := by
  intro h
  have ht : KeyTree.WellKeyed LineKey (vgraft "name" (.str "osc ") make) :=
    wellKeyed_vgraft (KeyTree.wellKeyed_nil _) (by decide) _
  have htexts : texts (vgraft "name" (.str "osc ") make) = [(["name"], "osc ")] := by
    decide +kernel
  refine absurd (h _ ht ?_ ["name"]) (by decide +kernel)
  rw [htexts]
  exact List.forall_mem_singleton.2 (by decide)

end Keyval
end InfoTree
end LibSwitcher
