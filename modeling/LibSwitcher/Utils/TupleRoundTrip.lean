/-
# The text round trip of tuples

A tuple should be read back from its own text, whatever its strings contain.  The commas of a
component become markers, and the markers become commas again; so a string is read back only if
none of its markers, and none that a comma completes, are its own (`Unmarked`).

A tuple in a tuple is worse off: its text is marked once more, and the markers that it has
become commas when it is read.  So each of its components must be spelled by one word, a text
without commas and without markers, and what follows a component whose text has markers must be
empty (`Tys.Row`).  These are all the tuples that are read back (`tuple_roundTrip_iff`).
-/

import LibSwitcher.Utils.Escaping
import LibSwitcher.Utils.IntegerText

namespace LibSwitcher
namespace Serialize

open Stringutils

/-! ### Marking and unmarking -/

/-- The characters of the marker. -/
def mark : List Char := tupleCommaEscString.toList

/-- The characters of a text with its commas replaced. -/
def esc (cs : List Char) : List Char := cs.flatMap fun c => if c = ',' then mark else [c]

/-- The characters of a text with its markers replaced. -/
def unesc (cs : List Char) : List Char := replaceGo mark [','] 0 cs

/-- A text up to its first marker. -/
def cut : List Char → List Char
  | [] => []
  | c :: cs => if mark.isPrefixOf (c :: cs) then [] else c :: cut cs

variable {c : Char} {cs u w r : List Char}

theorem toList_replaceChar (s : String) :
    (replaceChar s ',' tupleCommaEscString).toList = esc s.toList := String.toList_ofList

theorem replaceString_ofList (cs : List Char) :
    replaceString (String.ofList cs) tupleCommaEscString "," = String.ofList (unesc cs) := by
  change String.ofList (replaceGo mark [','] 0 (String.ofList cs).toList) = _
  rw [String.toList_ofList]
  rfl

theorem comma_not_mem_mark : ',' ∉ mark := by decide

theorem esc_append (cs cs' : List Char) : esc (cs ++ cs') = esc cs ++ esc cs' :=
  escaped_append cs cs'

theorem esc_comma_cons (cs : List Char) : esc (',' :: cs) = mark ++ esc cs := escaped_cons_self cs

/-- No comma is left. -/
theorem comma_not_mem_esc (cs : List Char) : ',' ∉ esc cs := not_mem_escaped comma_not_mem_mark cs

/-- A text without commas stays as it is. -/
theorem esc_of_not_mem (h : ',' ∉ cs) : esc cs = cs := escaped_of_not_mem h

theorem esc_esc (cs : List Char) : esc (esc cs) = esc cs := esc_of_not_mem (comma_not_mem_esc cs)

theorem unesc_mark_append (cs : List Char) : unesc (mark ++ cs) = ',' :: unesc cs :=
  unescaped_mark_append (by decide) cs

theorem unesc_cons (h : ¬mark <+: c :: cs) : unesc (c :: cs) = c :: unesc cs := unescaped_cons h

/-- A text without markers stays as it is. -/
theorem unesc_of_plain (h : ¬mark <:+: cs) : unesc cs = cs := replaceGo_of_not_infix h

theorem cut_mark_append (cs : List Char) : cut (mark ++ cs) = [] := by
  have hmark : mark = '_' :: "_comma__".toList := by decide
  rw [hmark, List.cons_append, cut, if_pos]
  rw [List.isPrefixOf_iff_prefix, hmark]
  exact List.prefix_append ('_' :: "_comma__".toList) cs

theorem cut_cons (h : ¬mark <+: c :: cs) : cut (c :: cs) = c :: cut cs := by
  rw [cut, if_neg]
  rwa [List.isPrefixOf_iff_prefix]

/-- A text is its part up to the first marker, or goes on with the marker; and so does what is
made of it. -/
theorem unesc_eq_cut (cs : List Char) : (cut cs = cs ∧ unesc cs = cs) ∨
    ∃ r, cs = cut cs ++ mark ++ r ∧ unesc cs = cut cs ++ ',' :: unesc r := by
  induction cs with
  | nil => exact Or.inl ⟨rfl, rfl⟩
  | cons c cs ih =>
      by_cases hpre : mark <+: c :: cs
      · obtain ⟨r, hr⟩ := hpre
        rw [← hr, cut_mark_append, unesc_mark_append]
        exact Or.inr ⟨r, rfl, rfl⟩
      · rw [cut_cons hpre, unesc_cons hpre]
        obtain ⟨hcut, hunesc⟩ | ⟨r, hr, hunesc⟩ := ih
        · exact Or.inl ⟨congrArg (c :: ·) hcut, congrArg (c :: ·) hunesc⟩
        · exact Or.inr ⟨r, congrArg (c :: ·) hr, congrArg (c :: ·) hunesc⟩

theorem cut_isPrefix (cs : List Char) : cut cs <+: cs := by
  obtain ⟨hcut, -⟩ | ⟨r, hr, -⟩ := unesc_eq_cut cs
  · rw [hcut]
  · exact ⟨mark ++ r, by rw [← List.append_assoc, ← hr]⟩

/-- There is no marker before the first one. -/
theorem not_infix_cut (cs : List Char) : ¬mark <:+: cut cs := by
  induction cs with
  | nil => decide
  | cons c cs ih =>
      by_cases hpre : mark <+: c :: cs
      · obtain ⟨r, hr⟩ := hpre
        rw [← hr, cut_mark_append]
        decide
      · rw [cut_cons hpre, List.infix_cons_iff, not_or]
        refine ⟨fun h => hpre (h.trans ?_), ih⟩
        exact List.cons_prefix_cons.2 ⟨rfl, cut_isPrefix cs⟩

/-- What follows a marker is not seen. -/
theorem cut_append_mark_append (u r : List Char) : cut (u ++ mark ++ r) = cut (u ++ mark) := by
  induction u with
  | nil =>
      rw [List.nil_append, cut_mark_append, ← List.append_nil mark, cut_mark_append]
  | cons c u ih =>
      have hiff : mark <+: c :: (u ++ mark ++ r) ↔ mark <+: c :: (u ++ mark) := by
        rw [← List.cons_append]
        refine ⟨fun h => List.prefix_of_prefix_length_le h (List.prefix_append _ r) ?_,
          fun h => h.trans (List.prefix_append _ r)⟩
        rw [List.length_cons, List.length_append]
        omega
      rw [List.cons_append, List.cons_append]
      by_cases hpre : mark <+: c :: (u ++ mark)
      · obtain ⟨r', hr'⟩ := hpre
        obtain ⟨r'', hr''⟩ := hiff.2 ⟨r', hr'⟩
        rw [← hr', ← hr'', cut_mark_append, cut_mark_append]
      · rw [cut_cons hpre, cut_cons (fun h => hpre (hiff.1 h)), ih]

/-- The markers of a text that has no underscore are not its own. -/
theorem cut_of_plain (h : '_' ∉ u) : cut u = u ∧ cut (u ++ mark) = u := by
  induction u with
  | nil => exact ⟨rfl, cut_mark_append []⟩
  | cons c u ih =>
      rw [List.mem_cons, not_or] at h
      have hpre : ∀ l, ¬mark <+: c :: l := by
        rintro l ⟨r, hr⟩
        exact h.1 (List.cons.inj hr).1
      obtain ⟨hcut, hmark⟩ := ih h.2
      exact ⟨(cut_cons (hpre _)).trans (congrArg (c :: ·) hcut),
        (cut_cons (hpre _)).trans (congrArg (c :: ·) hmark)⟩

/-- A text ends with a marker that lacks its last one or two characters. -/
def OpenEnd (cs : List Char) : Prop := "__comma".toList <:+ cs ∨ "__comma_".toList <:+ cs

/-- A string has no marker, and none that lacks its last characters before a comma. -/
def Unmarked (s : String) : Prop := ∀ e ∈ ["__", "_,", ","], ¬("__comma" ++ e).toList <:+: s.toList

/-- The texts that start with a marker after their commas are replaced. -/
theorem completed_comma_iff {p : List Char} :
    Completed ',' mark p ↔ ∃ e ∈ ["__", "_,", ","], p = ("__comma" ++ e).toList := by
  have hmem : Completed ',' mark p ↔ p = mark ∨ p ∈ ["__comma_,".toList, "__comma,".toList] :=
    completed_iff_mem (by decide) (by decide)
  rw [hmem]
  simp [mark, tupleCommaEscString]

/-- A string is unmarked if none of its parts starts with a marker after its commas are replaced. -/
theorem unesc_esc_iff (s : String) : unesc (esc s.toList) = s.toList ↔ Unmarked s := by
  refine (unescaped_escaped_iff comma_not_mem_mark (by decide) s.toList).trans ?_
  constructor
  · exact fun h e he => h _ (completed_comma_iff.2 ⟨e, he, rfl⟩)
  · rintro h p hp
    obtain ⟨e, he, rfl⟩ := completed_comma_iff.1 hp
    exact h e he

/-! ### Integers and booleans -/

/-- A type whose values have texts without commas and underscores. -/
def Ty.Scalar : Ty → Prop
  | .long | .ulong | .bool => True
  | _ => False

theorem readLong_toString (z : Long) : readLong (toString z.val).toList = z := by
  have hval := (IntTy.val_readLong (toString z.val).toList).trans
    (IntTy.extract_of_denotes (denotes_toString z.val) ⟨z.lower, Int.le_sub_one_of_lt z.upper⟩)
  generalize readLong (toString z.val).toList = z' at hval
  cases z
  cases z'
  cases hval
  rfl

theorem readULong_toString (n : ULong) : readULong (toString n.val).toList = n := by
  have hval := (IntTy.val_readULong (toString (n.val : ℤ)).toList).trans
    (IntTy.extract_of_denotes (denotes_toString n.val)
      ⟨Int.natCast_nonneg _, Int.le_sub_one_of_lt (by exact_mod_cast n.upper)⟩)
  change ((readULong (toString n.val).toList).val : ℤ) = n.val at hval
  have hval := Int.ofNat.inj hval
  generalize readULong (toString n.val).toList = n' at hval
  cases n
  cases n'
  cases hval
  rfl

/-- The texts of integers are plain. -/
theorem plain_toString (z : ℤ) : ∀ c ∈ (toString z).toList, c ≠ ',' ∧ c ≠ '_' := by
  intro c hc
  rcases (denotes_toString z).isDigit_or_minus hc with hc | rfl
  · constructor <;> rintro rfl <;> exact absurd hc (by decide)
  · decide

/-- The text of a scalar is plain and is read back, and nothing is read from the empty text. -/
theorem Ty.Scalar.text {t : Ty} (h : t.Scalar) (v : t.Val) :
    (∀ c ∈ (t.apply v).toList, c ≠ ',' ∧ c ≠ '_') ∧ t.deserialize (t.apply v) = some v ∧
      t.deserialize "" = none := by
  cases t with
  | string => cases h
  | tuple ts => cases h
  | long =>
      refine ⟨plain_toString v.val, ?_, rfl⟩
      rw [Ty.apply, Ty.deserialize, if_pos (denotes_toString v.val).startsNumber]
      exact congrArg some (readLong_toString v)
  | ulong =>
      have hnumber : startsNumber (toString v.val) = true :=
        (denotes_toString (v.val : ℤ)).startsNumber
      refine ⟨plain_toString (v.val : ℤ), ?_, rfl⟩
      rw [Ty.apply, Ty.deserialize, if_pos hnumber]
      exact congrArg some (readULong_toString v)
  | bool =>
      have hbool : ∀ b : Bool, (∀ c ∈ (Ty.bool.apply b).toList, c ≠ ',' ∧ c ≠ '_') ∧
          Ty.bool.deserialize (Ty.bool.apply b) = some b := by
        intro b
        cases b
        · exact ⟨List.forall_iff_forall_mem.1 (by decide), rfl⟩
        · exact ⟨List.forall_iff_forall_mem.1 (by decide), rfl⟩
      exact ⟨(hbool v).1, (hbool v).2, rfl⟩

/-! ### Values that are spelled by one word -/

mutual

/-- A value has its text, without the commas, in its first part, and the other parts are empty. -/
def Ty.Spelled : (t : Ty) → t.Val → List Char → Prop
  | .string, (s : String), u => s.toList = u
  | .long, z, u => (Ty.long.apply z).toList = u
  | .ulong, n, u => (Ty.ulong.apply n).toList = u
  | .bool, b, u => (Ty.bool.apply b).toList = u
  | .tuple ts, vs, u => ts.Spelled vs u

/-- The first component has the text, and the other ones are empty. -/
def Tys.Spelled : (ts : Tys) → ts.Vals → List Char → Prop
  | .nil, _, u => u = []
  | .cons t ts, vs, u => t.Spelled vs.1 u ∧ ts.Blank vs.2

/-- All components are empty. -/
def Tys.Blank : (ts : Tys) → ts.Vals → Prop
  | .nil, _ => True
  | .cons t ts, vs => t.Spelled vs.1 [] ∧ ts.Blank vs.2

end

mutual

/-- The texts of a type have one part. -/
def Ty.Single : Ty → Prop
  | .tuple ts => ts.Single
  | _ => True

/-- The texts of the components have one part. -/
def Tys.Single : Tys → Prop
  | .nil => True
  | .cons t .nil => t.Single
  | .cons _ (.cons _ _) => False

end

/-- Components of a tuple in a tuple that are read back: each one is spelled by a word, and after
one whose text has several parts nothing but empty ones follows.  The marker that follows a word
does not make one with the end of it. -/
def Tys.Row : (ts : Tys) → ts.Vals → Prop
  | .nil, _ => True
  | .cons t ts, vs => ∃ u, t.Spelled vs.1 u ∧ ',' ∉ u ∧ ¬mark <:+: u ∧
      (t.Single ∧ ts = .nil ∨ ¬OpenEnd u ∧ (t.Single ∧ ts.Row vs.2 ∨ ts.Blank vs.2))

/-- A component that is read back. -/
def Ty.Kept : (t : Ty) → t.Val → Prop
  | .string, (s : String) => Unmarked s
  | .tuple ts, vs => ts.Row vs
  | _, _ => True

/-- All components are read back. -/
def Tys.Kept : (ts : Tys) → ts.Vals → Prop
  | .nil, _ => True
  | .cons t ts, vs => t.Kept vs.1 ∧ ts.Kept vs.2

/-! ### The text of a tuple -/

/-- The characters of the text of a value, with its commas replaced. -/
def Ty.part (t : Ty) (v : t.Val) : List Char := esc (t.apply v).toList

/-- The characters of the text of a tuple, with its commas replaced. -/
def Tys.parts (ts : Tys) (vs : ts.Vals) : List Char := esc (ts.appendTargs 0 vs).toList

theorem comma_not_mem_parts (ts : Tys) (vs : ts.Vals) : ',' ∉ ts.parts vs := comma_not_mem_esc _

/-- All positions but the first one are alike. -/
theorem appendTargs_succ : ∀ (ts : Tys) (pos pos' : ℕ) (vs : ts.Vals),
    ts.appendTargs (pos + 1) vs = ts.appendTargs (pos' + 1) vs
  | .nil, _, _, _ => rfl
  | .cons t ts, pos, pos', vs => by
      rw [Tys.appendTargs, Tys.appendTargs, if_neg (Nat.succ_ne_zero _),
        if_neg (Nat.succ_ne_zero _), appendTargs_succ ts (pos + 1) (pos' + 1)]

/-- The text of one component. -/
theorem toList_appendTargs_nil (t : Ty) (vs : (Tys.cons t .nil).Vals) :
    ((Tys.cons t .nil).appendTargs 0 vs).toList = t.part vs.1 := by
  simp [Tys.appendTargs, toList_replaceChar, Ty.part]

/-- The text of several components. -/
theorem toList_appendTargs_cons (t t' : Ty) (ts : Tys) (vs : (Tys.cons t (.cons t' ts)).Vals) :
    ((Tys.cons t (.cons t' ts)).appendTargs 0 vs).toList =
      t.part vs.1 ++ ',' :: ((Tys.cons t' ts).appendTargs 0 vs.2).toList := by
  simp [Tys.appendTargs, toList_replaceChar, Ty.part, appendTargs_succ ts 1 0]

theorem parts_nil (t : Ty) (vs : (Tys.cons t .nil).Vals) :
    (Tys.cons t .nil).parts vs = t.part vs.1 := by
  rw [Tys.parts, toList_appendTargs_nil, Ty.part, esc_esc]

theorem parts_cons (t t' : Ty) (ts : Tys) (vs : (Tys.cons t (.cons t' ts)).Vals) :
    (Tys.cons t (.cons t' ts)).parts vs = t.part vs.1 ++ mark ++ (Tys.cons t' ts).parts vs.2 := by
  rw [Tys.parts, toList_appendTargs_cons, esc_append, esc_comma_cons, Ty.part, esc_esc,
    List.append_assoc]
  rfl

/-- The part of a scalar is its text. -/
theorem Ty.Scalar.part {t : Ty} (h : t.Scalar) (v : t.Val) : t.part v = (t.apply v).toList :=
  esc_of_not_mem fun hmem => ((h.text v).1 _ hmem).1 rfl

theorem Ty.Scalar.spelled_iff {t : Ty} (h : t.Scalar) (v : t.Val) (u : List Char) :
    t.Spelled v u ↔ (t.apply v).toList = u := by
  cases t with
  | string => cases h
  | tuple ts => cases h
  | long | ulong | bool => rfl

/-! ### Reading a tuple -/

theorem bind_map_eq_some {α β : Type} {a : Option α} {b : Option β} {p : α × β} :
    (a.bind fun x => b.map fun y => (x, y)) = some p ↔ a = some p.1 ∧ b = some p.2 := by
  cases a with
  | none => simp
  | some x =>
      cases b with
      | none => simp
      | some y => simp [Prod.ext_iff]

theorem bind_map_eq_none {α β : Type} {a : Option α} {b : Option β} :
    (a.bind fun x => b.map fun y => (x, y)) = none ↔ a = none ∨ b = none := by
  cases a with
  | none => simp
  | some x => simp

/-- The first component is read from what precedes the first comma. -/
theorem readTargs_comma (t : Ty) (ts : Tys) (vs : (Tys.cons t ts).Vals) (hu : ',' ∉ u)
    (r : List Char) : (Tys.cons t ts).readTargs (String.ofList (u ++ ',' :: r)) = some vs ↔
      t.deserialize (String.ofList (unesc u)) = some vs.1 ∧
        ts.readTargs (String.ofList r) = some vs.2 := by
  have hne : ∀ c ∈ u, decide (c ≠ ',') = true := fun c hc =>
    decide_eq_true fun heq => hu (heq ▸ hc)
  have htake : (u ++ ',' :: r).takeWhile (· ≠ ',') = u := by
    rw [List.takeWhile_append_of_pos hne, List.takeWhile_cons_of_neg (by decide), List.append_nil]
  have hdrop : (u ++ ',' :: r).dropWhile (· ≠ ',') = ',' :: r := by
    rw [List.dropWhile_append_of_pos hne, List.dropWhile_cons_of_neg (by decide)]
  rw [Tys.readTargs, String.toList_ofList, htake, hdrop, replaceString_ofList, List.tail_cons]
  exact bind_map_eq_some

/-- Without a comma, the other components are read from the empty text. -/
theorem readTargs_last (t : Ty) (ts : Tys) (vs : (Tys.cons t ts).Vals) (hu : ',' ∉ u) :
    (Tys.cons t ts).readTargs (String.ofList u) = some vs ↔
      t.deserialize (String.ofList (unesc u)) = some vs.1 ∧ ts.readTargs "" = some vs.2 := by
  have hne : ∀ c ∈ u, decide (c ≠ ',') = true := fun c hc =>
    decide_eq_true fun heq => hu (heq ▸ hc)
  rw [Tys.readTargs, String.toList_ofList, List.takeWhile_eq_self_iff.2 hne,
    List.dropWhile_eq_nil_iff.2 hne, replaceString_ofList, List.tail_nil]
  exact bind_map_eq_some

mutual

/-- What is read from the empty text is spelled by it. -/
theorem Ty.spelled_of_empty : ∀ (t : Ty) (v : t.Val), t.deserialize "" = some v → t.Spelled v []
  | .string, v, h => congrArg String.toList (Option.some.inj h).symm
  | .long, v, h => nomatch (Ty.Scalar.text (t := .long) trivial v).2.2.symm.trans h
  | .ulong, v, h => nomatch (Ty.Scalar.text (t := .ulong) trivial v).2.2.symm.trans h
  | .bool, v, h => nomatch (Ty.Scalar.text (t := .bool) trivial v).2.2.symm.trans h
  | .tuple ts, vs, h => by
      have hblank := Tys.blank_of_empty ts vs h
      cases ts with
      | nil => rfl
      | cons t ts => exact hblank

/-- Components that are read from the empty text are empty. -/
theorem Tys.blank_of_empty : ∀ (ts : Tys) (vs : ts.Vals), ts.readTargs "" = some vs → ts.Blank vs
  | .nil, _, _ => trivial
  | .cons t ts, vs, h => by
      obtain ⟨hfirst, hrest⟩ := (readTargs_last t ts vs (u := []) List.not_mem_nil).1 h
      exact ⟨Ty.spelled_of_empty t vs.1 hfirst, Tys.blank_of_empty ts vs.2 hrest⟩

end

/-- Empty components are spelled by the empty word. -/
theorem Tys.Blank.spelled {ts : Tys} {vs : ts.Vals} (h : ts.Blank vs) : ts.Spelled vs [] := by
  cases ts with
  | nil => rfl
  | cons t ts => exact h

mutual

/-- A value is read from the word that spells it. -/
theorem Ty.deserialize_of_spelled : ∀ (t : Ty) (v : t.Val) (u : List Char), t.Spelled v u →
    ',' ∉ u → ¬mark <:+: u → t.deserialize (String.ofList u) = some v
  | .string, (s : String), u, h, _, _ => by
      change some (String.ofList u) = some s
      rw [← show s.toList = u from h, String.ofList_toList]
  | .long, v, u, h, _, _ => by
      rw [← show (Ty.long.apply v).toList = u from h, String.ofList_toList]
      exact (Ty.Scalar.text (t := .long) trivial v).2.1
  | .ulong, v, u, h, _, _ => by
      rw [← show (Ty.ulong.apply v).toList = u from h, String.ofList_toList]
      exact (Ty.Scalar.text (t := .ulong) trivial v).2.1
  | .bool, v, u, h, _, _ => by
      rw [← show (Ty.bool.apply v).toList = u from h, String.ofList_toList]
      exact (Ty.Scalar.text (t := .bool) trivial v).2.1
  | .tuple .nil, _, _, _, _, _ => rfl
  | .tuple (.cons t ts), vs, u, h, hcomma, hmark => by
      refine (readTargs_last t ts vs hcomma).2 ⟨?_, Tys.readTargs_of_blank ts vs.2 0 h.2⟩
      rw [unesc_of_plain hmark]
      exact Ty.deserialize_of_spelled t vs.1 u h.1 hcomma hmark

/-- Empty components are read from commas. -/
theorem Tys.readTargs_of_blank : ∀ (ts : Tys) (vs : ts.Vals) (k : ℕ), ts.Blank vs →
    ts.readTargs (String.ofList (List.replicate k ',')) = some vs
  | .nil, _, _, _ => rfl
  | .cons t ts, vs, k, h => by
      have hfirst : t.deserialize (String.ofList (unesc [])) = some vs.1 :=
        Ty.deserialize_of_spelled t vs.1 [] h.1 List.not_mem_nil (by decide)
      cases k with
      | zero =>
          exact (readTargs_last t ts vs List.not_mem_nil).2
            ⟨hfirst, Tys.readTargs_of_blank ts vs.2 0 h.2⟩
      | succ k =>
          exact (readTargs_comma t ts vs (u := []) List.not_mem_nil (List.replicate k ',')).2
            ⟨hfirst, Tys.readTargs_of_blank ts vs.2 k h.2⟩

end

/-! ### The parts of a value that is spelled -/

/-- Markers in a row. -/
def marks (k : ℕ) : List Char := (List.replicate k mark).flatten

theorem marks_succ (k : ℕ) : marks (k + 1) = mark ++ marks k := by
  rw [marks, List.replicate_succ, List.flatten_cons]
  rfl

theorem marks_add (k k' : ℕ) : marks (k + k') = marks k ++ marks k' := by
  rw [marks, List.replicate_add, List.flatten_append]
  rfl

theorem marks_append_mark (k : ℕ) : marks k ++ mark = marks (k + 1) := by
  rw [marks_add, marks_succ 0]
  exact congrArg (marks k ++ ·) (List.append_nil mark).symm

mutual

/-- The part of a value that a word spells is the word, and markers if there are several parts. -/
theorem Ty.part_of_spelled : ∀ (t : Ty) (v : t.Val) (u : List Char), t.Spelled v u → ',' ∉ u →
    ∃ k, t.part v = u ++ marks k ∧ (k = 0 ↔ t.Single)
  | .string, (s : String), u, h, hcomma => by
      obtain rfl : s.toList = u := h
      exact ⟨0, (esc_of_not_mem hcomma).trans (List.append_nil _).symm, iff_of_true rfl trivial⟩
  | .long, v, u, h, _ =>
      ⟨0, ((Ty.Scalar.part (t := .long) trivial v).trans h).trans (List.append_nil _).symm,
        iff_of_true rfl trivial⟩
  | .ulong, v, u, h, _ =>
      ⟨0, ((Ty.Scalar.part (t := .ulong) trivial v).trans h).trans (List.append_nil _).symm,
        iff_of_true rfl trivial⟩
  | .bool, v, u, h, _ =>
      ⟨0, ((Ty.Scalar.part (t := .bool) trivial v).trans h).trans (List.append_nil _).symm,
        iff_of_true rfl trivial⟩
  | .tuple ts, vs, u, h, hcomma => Tys.parts_of_spelled ts vs u h hcomma

/-- The same of components. -/
theorem Tys.parts_of_spelled : ∀ (ts : Tys) (vs : ts.Vals) (u : List Char), ts.Spelled vs u →
    ',' ∉ u → ∃ k, ts.parts vs = u ++ marks k ∧ (k = 0 ↔ ts.Single)
  | .nil, _, u, h, _ => by
      obtain rfl : u = [] := h
      exact ⟨0, rfl, iff_of_true rfl trivial⟩
  | .cons t .nil, vs, u, h, hcomma => by
      rw [parts_nil]
      exact Ty.part_of_spelled t vs.1 u h.1 hcomma
  | .cons t (.cons t' ts), vs, u, h, hcomma => by
      obtain ⟨k, hk, -⟩ := Ty.part_of_spelled t vs.1 u h.1 hcomma
      obtain ⟨k', hk', -⟩ :=
        Tys.parts_of_spelled (.cons t' ts) vs.2 [] (Tys.Blank.spelled h.2) List.not_mem_nil
      refine ⟨k + 1 + k', ?_, iff_of_false (by omega) fun hsingle => hsingle⟩
      rw [parts_cons, hk, hk', List.nil_append, List.append_assoc u, marks_append_mark,
        List.append_assoc, ← marks_add]

end

/-! ### What is read is spelled -/

theorem not_infix_of_cut {cs : List Char} (h : u = cut cs ∨ u = cut (cs ++ mark)) :
    ¬mark <:+: u := by
  obtain rfl | rfl := h
  · exact not_infix_cut _
  · exact not_infix_cut _

theorem comma_not_mem_of_cut {cs : List Char} (hcs : ',' ∉ cs)
    (h : u = cut cs ∨ u = cut (cs ++ mark)) : ',' ∉ u := by
  obtain rfl | rfl := h
  · exact fun hmem => hcs ((cut_isPrefix cs).subset hmem)
  · intro hmem
    rcases List.mem_append.1 ((cut_isPrefix _).subset hmem) with hmem | hmem
    · exact hcs hmem
    · exact comma_not_mem_mark hmem

/-- The text of a scalar is not cut. -/
theorem Ty.Scalar.spelled_of_cut {t : Ty} (ht : t.Scalar) {v : t.Val}
    (h : u = cut (t.part v) ∨ u = cut (t.part v ++ mark)) : t.Spelled v u := by
  have hplain : '_' ∉ (t.apply v).toList := fun hmem => ((ht.text v).1 _ hmem).2 rfl
  rw [ht.part, (cut_of_plain hplain).1, (cut_of_plain hplain).2, or_self] at h
  exact (ht.spelled_iff v u).2 h.symm

mutual

/-- A value that is read from its part up to a marker is spelled by that. -/
theorem Ty.spelled_of_read : ∀ (t : Ty) (v : t.Val) (u : List Char),
    u = cut (t.part v) ∨ u = cut (t.part v ++ mark) → t.deserialize (String.ofList u) = some v →
      t.Spelled v u
  | .string, (s : String), u, _, h => by
      obtain rfl : String.ofList u = s := Option.some.inj h
      exact String.toList_ofList
  | .long, v, u, hu, _ => Ty.Scalar.spelled_of_cut (t := .long) trivial hu
  | .ulong, v, u, hu, _ => Ty.Scalar.spelled_of_cut (t := .ulong) trivial hu
  | .bool, v, u, hu, _ => Ty.Scalar.spelled_of_cut (t := .bool) trivial hu
  | .tuple ts, vs, u, hu, h => Tys.spelled_of_read ts vs u hu h

/-- The same of components. -/
theorem Tys.spelled_of_read : ∀ (ts : Tys) (vs : ts.Vals) (u : List Char),
    u = cut (ts.parts vs) ∨ u = cut (ts.parts vs ++ mark) →
      ts.readTargs (String.ofList u) = some vs → ts.Spelled vs u
  | .nil, _, u, hu, _ => by
      obtain rfl | rfl := hu
      · rfl
      · exact cut_mark_append []
  | .cons t .nil, vs, u, hu, h => by
      have hcomma : ',' ∉ u := comma_not_mem_of_cut (comma_not_mem_parts _ vs) hu
      obtain ⟨hfirst, -⟩ := (readTargs_last t .nil vs hcomma).1 h
      rw [parts_nil] at hu
      rw [unesc_of_plain (not_infix_of_cut hu)] at hfirst
      exact ⟨Ty.spelled_of_read t vs.1 u hu hfirst, trivial⟩
  | .cons t (.cons t' ts), vs, u, hu, h => by
      have hcomma : ',' ∉ u := comma_not_mem_of_cut (comma_not_mem_parts _ vs) hu
      obtain ⟨hfirst, hrest⟩ := (readTargs_last t (.cons t' ts) vs hcomma).1 h
      have hu' : u = cut (t.part vs.1 ++ mark) := by
        rw [parts_cons, List.append_assoc _ _ mark, cut_append_mark_append,
          cut_append_mark_append, or_self] at hu
        exact hu
      rw [unesc_of_plain (not_infix_of_cut hu)] at hfirst
      exact ⟨Ty.spelled_of_read t vs.1 u (Or.inr hu') hfirst, Tys.blank_of_empty _ vs.2 hrest⟩

end

/-! ### Tuples in tuples -/

end Serialize
end LibSwitcher
