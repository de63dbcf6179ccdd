/-
# Quoted parameters

White space in the value of a parameter is written behind a backslash, or the value is put in
quotes, where `protect_space_in_quote` of `switcher/quiddity/bundle/description-parser.cpp`
replaces it.  The two spellings are meant to be read alike (`SameMeaning`).  But none of the
rewritings of an item takes a quote away (`count_flatten_itemWords`), and `parse_param` takes
all that follows the equals sign, so a quoted value is read with its quotes and never is the
value that is meant (`not_sameMeaning`).
-/

import LibSwitcher.Quiddity.Bundle.DescriptionText

namespace LibSwitcher
namespace Bundle
namespace DescriptionParser

open Stringutils (replaceGo)

/-- A value in quotes. -/
def quoted (v : List Char) : List Char := '"' :: (v ++ ['"'])

/-- A value with a backslash before each space. -/
def escaped (v : List Char) : List Char := v.flatMap fun c => if c = ' ' then ['\\', ' '] else [c]

/-- The text of a parameter. -/
def paramText (name value : List Char) : List Char := name ++ '=' :: value

/-- A quiddity with a parameter, as `parse_param` stores it. -/
def withParam (name value : List Char) (quid : QuiddSpec) : QuiddSpec :=
  if String.ofList name = "name" then { quid with name := String.ofList value }
  else if String.ofList name = "group" then { quid with groupName := String.ofList value }
  else { quid with params := quid.params ++ [(String.ofList name, String.ofList value)] }

/-- In the item `before`, `after` a parameter with a quoted value is read as the one with the
spaces escaped: as one word more between the words of the item, that gives the parameter the
value. -/
def SameMeaning (before name v after : List Char) : Prop :=
  ∃ ws ws' wordQuoted wordEscaped,
    itemWords (before ++ after) = ws ++ ws' ∧
    itemWords (before ++ (paramText name (quoted v) ++ after)) = ws ++ wordQuoted :: ws' ∧
    itemWords (before ++ (paramText name (escaped v) ++ after)) = ws ++ wordEscaped :: ws' ∧
    ∀ quid, parseParam wordQuoted quid = .ok (withParam name v quid) ∧
      parseParam wordEscaped quid = .ok (withParam name v quid)

variable {s v name value word : List Char}

/-! ### The quotes of an item -/

/-- Only white space is dropped. -/
theorem count_prepareFrom (afterEqual : Bool) (s : List Char) :
    (prepareFrom afterEqual s).count '"' = s.count '"' := by
  induction s generalizing afterEqual with
  | nil => rfl
  | cons c s ih =>
      rw [prepareFrom]
      split_ifs with h
      · have hc : c ≠ '"' := by
          rintro rfl
          exact absurd h.1 (by decide)
        rw [ih, List.count_cons_of_ne hc]
      · rw [List.count_cons, List.count_cons, ih]

theorem count_protectLast (s : List Char) : (protectLast s).count '"' = s.count '"' := by
  induction s with
  | nil => rfl
  | cons c s ih =>
      rw [protectLast]
      split_ifs with hs hc
      · rw [List.count_cons, List.count_cons, ih]
      · have hquote : c ≠ '"' := by
          rintro rfl
          exact absurd hc (by decide)
        rw [List.count_append, List.count_cons_of_ne hquote]
        exact Nat.zero_add _
      · rfl

/-- The quotes between parts are those between the rewritten parts. -/
theorem count_intercalate_protectParts (s : List Char) (ss : List (List Char)) :
    (['"'].intercalate (s :: protectParts ss)).count '"' =
      (['"'].intercalate (s :: ss)).count '"' := by
  have hcons : ∀ s t : List Char, ∀ ts : List (List Char),
      (['"'].intercalate (s :: t :: ts)).count '"' =
        s.count '"' + 1 + (['"'].intercalate (t :: ts)).count '"' := by
    intro s t ts
    rw [List.intercalate_cons_cons, List.count_append, List.count_append]
    rfl
  fun_induction protectParts ss generalizing s with
  | case1 t t' ts ht ih => rw [hcons, hcons, hcons, hcons, ih, count_protectLast]
  | case2 t t' ts ht ih => rw [hcons, hcons, ih]
  | case3 ts => rfl

theorem count_protectQuoted (s : List Char) : (protectQuoted s).count '"' = s.count '"' := by
  have hjoin : ['"'].intercalate (s.splitOn '"') = s := List.intercalate_splitOn '"'
  obtain ⟨p, ps, hsplit⟩ := List.exists_cons_of_ne_nil (List.splitOn_ne_nil '"' s)
  rw [hsplit] at hjoin
  rw [protectQuoted, hsplit]
  exact (count_intercalate_protectParts p ps).trans (congrArg _ hjoin)

theorem count_protectSpaceInQuote (s : List Char) :
    (protectSpaceInQuote s).count '"' = s.count '"' := by
  unfold protectSpaceInQuote
  generalize s.countP isSpace = n
  induction n with
  | zero => rfl
  | succ n ih => rw [Function.iterate_succ_apply', count_protectQuoted, ih]

/-- A backslash and white space are replaced. -/
theorem count_protectEscapedSpaces (s : List Char) :
    (protectEscapedSpaces s).count '"' = s.count '"' := by
  fun_induction protectEscapedSpaces s with
  | case1 c s hc ih =>
      have hquote : c ≠ '"' := by
        rintro rfl
        exact absurd hc (by decide)
      rw [List.count_append, ih, List.count_cons_of_ne (by decide : '\\' ≠ '"'),
        List.count_cons_of_ne hquote]
      exact Nat.zero_add _
  | case2 c s hc ih => rw [List.count_cons, ih, ← List.count_cons]
  | case3 c s hne ih => rw [List.count_cons, ih, ← List.count_cons]
  | case4 => rfl

/-- White space between the words is dropped. -/
theorem flatten_words (s : List Char) : (words s).flatten = s.filter fun c => !isSpace c := by
  have hfilter : ∀ ss : List (List Char), (ss.filter (· ≠ [])).flatten = ss.flatten := by
    intro ss
    induction ss with
    | nil => rfl
    | cons s ss ih =>
        by_cases hs : s = []
        · rw [List.filter_cons_of_neg (by simpa using hs), ih, hs]
          rfl
        · rw [List.filter_cons_of_pos (by simpa using hs), List.flatten_cons, ih, List.flatten_cons]
  rw [words, hfilter]
  induction s with
  | nil => rfl
  | cons c s ih =>
      rw [List.splitOnP_cons_eq_if_modifyHead]
      obtain ⟨t, ts, ht⟩ := List.exists_cons_of_ne_nil (List.splitOnP_ne_nil isSpace s)
      rw [ht] at ih ⊢
      cases hc : isSpace c with
      | true =>
          rw [if_pos rfl, List.flatten_cons, List.nil_append, ih,
            List.filter_cons_of_neg (by simp [hc])]
      | false =>
          rw [if_neg Bool.false_ne_true, List.modifyHead_cons, List.flatten_cons, List.cons_append,
            ← List.flatten_cons, ih, List.filter_cons_of_pos (by simp [hc])]

/-- **No quote is taken away**: the words of an item have the quotes of the item. -/
theorem count_flatten_itemWords (item : List Char) :
    (itemWords item).flatten.count '"' = item.count '"' := by
  rw [itemWords, flatten_words, List.count_filter (by decide), count_protectEscapedSpaces,
    count_protectSpaceInQuote, prepareItem, count_prepareFrom]

/-! ### The value of a word -/

/-- A replacement that leaves a character alone leaves as many of it. -/
theorem count_replaceGo {c d : Char} {pat rep : List Char} (hpat : c ∉ d :: pat) (hrep : c ∉ rep)
    {skip : ℕ} {cs : List Char} (hskip : c ∉ cs.take skip) :
    (replaceGo (d :: pat) rep skip cs).count c = cs.count c := by
  induction cs generalizing skip with
  | nil => cases skip <;> rfl
  | cons e cs ih =>
      cases skip with
      | succ skip =>
          rw [List.take_succ_cons, List.mem_cons, not_or] at hskip
          rw [replaceGo, ih hskip.2, List.count_cons_of_ne (Ne.symm hskip.1)]
      | zero =>
          rw [replaceGo]
          split_ifs with hpre
          · obtain ⟨rest, hrest⟩ := List.isPrefixOf_iff_prefix.1 hpre
            obtain ⟨rfl, rfl⟩ := List.cons.inj hrest
            rw [List.mem_cons, not_or] at hpat
            rw [List.count_append, List.count_eq_zero_of_not_mem hrep, Nat.zero_add,
              List.count_cons_of_ne (Ne.symm hpat.1), ih]
            have htake : (pat.append rest).take pat.length = pat := List.take_left
            rw [List.length_cons, Nat.add_sub_cancel, htake]
            exact hpat.2
          · rw [List.count_cons, ih (by rw [List.take_zero]; exact List.not_mem_nil),
              List.count_cons]

theorem count_restoreSpaces (s : List Char) : (restoreSpaces s).count '"' = s.count '"' :=
  count_replaceGo (by decide) (by decide) (by rw [List.take_zero]; exact List.not_mem_nil)

/-- A parameter that is matched is the text of its name and its value. -/
theorem keyValue_eq_some (h : keyValue s = some (name, value)) :
    s = paramText name value ∧ value ≠ [] := by
  rw [keyValue] at h
  have hsplit := List.takeWhile_append_dropWhile (p := (· ≠ '=')) (l := s)
  cases hdrop : s.dropWhile (· ≠ '=') with
  | nil =>
      rw [hdrop] at h
      exact absurd h (Option.some_ne_none _).symm
  | cons d rest =>
      have hd : d = '=' := by
        have hhead := List.head?_dropWhile_not (· ≠ '=') s
        rw [hdrop] at hhead
        simpa using hhead
      rw [hdrop] at h hsplit
      dsimp only at h
      split_ifs at h with hmatch
      obtain ⟨rfl, rfl⟩ := Prod.mk.inj (Option.some.inj h)
      rw [hd] at hsplit
      exact ⟨hsplit.symm, hmatch.2.2.1⟩

theorem ofList_ne_empty (h : value ≠ []) : String.ofList value ≠ "" := fun heq =>
  h (String.ofList_injective heq)

/-- The parameter of a quiddity without others. -/
theorem withParam_inj {name' value' : List Char} (hvalue : value ≠ [])
    (h : withParam name value {} = withParam name' value' {}) : name = name' ∧ value = value' := by
  have hname := congrArg QuiddSpec.name h
  have hgroup := congrArg QuiddSpec.groupName h
  have hparams := congrArg QuiddSpec.params h
  have hne := ofList_ne_empty hvalue
  unfold withParam at hname hgroup hparams
  split_ifs at hname hgroup hparams with h₁ h₂ _ h₃ _ h₄
  · exact ⟨String.ofList_injective (h₁.trans h₂.symm), String.ofList_injective hname⟩
  · exact absurd hname hne
  · exact absurd hname hne
  · exact absurd hgroup hne
  · exact ⟨String.ofList_injective (h₃.trans h₄.symm), String.ofList_injective hgroup⟩
  · exact absurd hgroup hne
  · exact absurd hparams (List.cons_ne_nil _ _)
  · exact absurd hparams (List.cons_ne_nil _ _)
  · have hpair := Prod.mk.inj (List.cons.inj hparams).1
    exact ⟨String.ofList_injective hpair.1, String.ofList_injective hpair.2⟩

/-- A word that only names a parameter gives it no value. -/
theorem eq_nil_of_bare {param : List Char}
    (h : ({ params := [(String.ofList param, "")] } : QuiddSpec) = withParam name v {}) :
    param = name ∧ v = [] := by
  have hparams := congrArg QuiddSpec.params h
  unfold withParam at hparams
  split_ifs at hparams
  have hpair := Prod.mk.inj (List.cons.inj hparams).1
  exact ⟨String.ofList_injective hpair.1, (String.ofList_injective hpair.2).symm⟩

/-- A word that gives a parameter has the quotes of the name and of the value. -/
theorem count_of_parseParam (h : parseParam word {} = .ok (withParam name v {})) :
    word.count '"' = name.count '"' + v.count '"' := by
  rw [← count_restoreSpaces]
  unfold parseParam at h
  dsimp only at h
  split_ifs at h with hbare
  · obtain ⟨rfl, rfl⟩ := eq_nil_of_bare (Except.ok.inj h)
    rfl
  · cases hkey : keyValue (restoreSpaces word) with
    | none =>
        rw [hkey] at h
        cases h
    | some p =>
        obtain ⟨key, value⟩ := p
        obtain ⟨hword, hvalue⟩ := keyValue_eq_some hkey
        have hparam : withParam key value {} = withParam name v {} := by
          rw [hkey] at h
          refine Except.ok.inj (Eq.trans ?_ h)
          dsimp only [withParam]
          split_ifs <;> rfl
        obtain ⟨rfl, rfl⟩ := withParam_inj hvalue hparam
        rw [hword, paramText, List.count_append, List.count_cons_of_ne (by decide)]

theorem count_escaped (v : List Char) : (escaped v).count '"' = v.count '"' := by
  induction v with
  | nil => rfl
  | cons c v ih =>
      rw [escaped, List.flatMap_cons, List.count_append, ← escaped, ih]
      split_ifs with hc
      · rw [hc, List.count_cons_of_ne (by decide)]
        exact Nat.zero_add _
      · rw [← List.count_append, List.singleton_append]

/-! ### The spellings -/

/-- Spellings that are read alike have as many quotes. -/
theorem SameMeaning.count_eq {before after : List Char} (h : SameMeaning before name v after) :
    (quoted v).count '"' = (escaped v).count '"' := by
  obtain ⟨ws, ws', wordQuoted, wordEscaped, -, hquoted, hescaped, hparse⟩ := h
  have hcount : ∀ value word, itemWords (before ++ (paramText name value ++ after)) =
      ws ++ word :: ws' → parseParam word {} = .ok (withParam name v {}) →
      value.count '"' + ((before.count '"' + name.count '"') + after.count '"') =
        v.count '"' + name.count '"' + (ws ++ ws').flatten.count '"' := by
    intro value word hwords hword
    have hitem := count_flatten_itemWords (before ++ (paramText name value ++ after))
    rw [hwords] at hitem
    simp only [List.flatten_append, List.flatten_cons, List.count_append, paramText,
      count_of_parseParam hword, List.count_cons_of_ne (by decide : '=' ≠ '"')] at hitem ⊢
    omega
  have hq := hcount _ _ hquoted (hparse {}).1
  have he := hcount _ _ hescaped (hparse {}).2
  omega

/-- **A quoted value is never read as the value it quotes.** -/
theorem not_sameMeaning (before name v after : List Char) : ¬SameMeaning before name v after := by
  intro h
  have hcount := h.count_eq
  rw [count_escaped, quoted, List.count_cons_self, List.count_append, List.count_singleton_self]
    at hcount
  omega

/-- The value of the command line of the documentation, and what is read. -/
theorem not_sameMeaning_executor : ¬SameMeaning "executor name=Test ".toList "command_line".toList
    "shmdata2ndi -v".toList " autostart=false".toList := fun h =>
  absurd h.count_eq (by decide)

example : (parse "executor name=Test command_line=\"shmdata2ndi -v\"" []).map
    (fun s => s.quiddities.map QuiddSpec.params) =
      .ok [[("command_line", "\"shmdata2ndi -v\"")]] := by
  decide +kernel

end DescriptionParser
end Bundle
end LibSwitcher
