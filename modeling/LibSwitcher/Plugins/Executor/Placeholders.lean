/-
# Placeholders of the command line

`Executor::start` of `plugins/executor/executor.cpp` puts the paths of the connected shmdata
in the place of the tokens `_shmpath_audio_`, `_shmpath_video_` and `_shmpath_`, with one
`std::regex_replace` after the other.  What is meant is one cut of the command line into
characters that are kept and tokens that are replaced (`Substitutes`), but a call also reads the
paths that were put in before it, takes a path for a format, and the last one takes the
start of a longer token for a token.  Where none of this happens (`Untangled`) the arguments
are those that are meant (`args_substitutes`).
-/

import LibSwitcher.Plugins.Executor.Executor
import LibSwitcher.Utils.RegexReplace

namespace LibSwitcher
namespace Executor

open Stringutils (regexReplace regexReplaceGo regexReplaceGo_eq replaceGo Literal)

/-- The kinds of shmdata an executor reads. -/
inductive Kind
  | audio
  | video
  | plain
  deriving DecidableEq

/-- The placeholder of a kind. -/
def Kind.token : Kind → String
  | .audio => "_shmpath_audio_"
  | .video => "_shmpath_video_"
  | .plain => "_shmpath_"

/-- The kind of the follower of a label. -/
def Kind.ofLabel (sfidLabel : String) : Kind :=
  if sfidLabel = "video" then .video else if sfidLabel = "audio" then .audio else .plain

/-- The path that is connected for a kind, which is empty if none is. -/
def path (e : Executor) : Kind → String
  | .audio => e.shmpathAudio
  | .video => e.shmpathVideo
  | .plain => e.shmpath

/-- The text that `start` hands to `wordexp`. -/
def args (group : ℕ → List Char) (e : Executor) : String :=
  let args := e.commandLine
  let args :=
    if e.shmpathAudio ≠ "" then regexReplace group args "_shmpath_audio_" e.shmpathAudio else args
  let args :=
    if e.shmpathVideo ≠ "" then regexReplace group args "_shmpath_video_" e.shmpathVideo else args
  if e.shmpath ≠ "" then regexReplace group args "_shmpath_" e.shmpath else args

/-! ### What is meant -/

/-- A piece of a command line: a character that is kept, or a token that is replaced. -/
inductive Piece
  | char (c : Char)
  | token (k : Kind)
  deriving DecidableEq

/-- The text of a piece in the command line. -/
def Piece.source : Piece → List Char
  | .char c => [c]
  | .token k => k.token.toList

/-- The text that pieces are cut from. -/
def source (ps : List Piece) : List Char := ps.flatMap Piece.source

/-- The text of a piece with the paths in place. -/
def Piece.rendered (path : Kind → String) : Piece → List Char
  | .char c => [c]
  | .token k => (path k).toList

/-- The text of pieces with the paths in place. -/
def rendered (path : Kind → String) (ps : List Piece) : List Char :=
  ps.flatMap (Piece.rendered path)

/-- A token, not replaced. -/
def Kind.chars (k : Kind) : List Piece := k.token.toList.map .char

/-- A text starts with one of the two longer tokens. -/
def BeginsLonger (cs : List Char) : Prop :=
  Kind.audio.token.toList <+: cs ∨ Kind.video.token.toList <+: cs

instance decidableBeginsLonger (cs : List Char) : Decidable (BeginsLonger cs) :=
  inferInstanceAs (Decidable (_ ∨ _))

/-- A cut of a command line: only the tokens of connected kinds are replaced, and no `_shmpath_`
that begins a longer token; no other token of a connected kind is kept. -/
structure Cuts (path : Kind → String) (text : List Char) (ps : List Piece) : Prop where
  source_eq : source ps = text
  connected : ∀ k, .token k ∈ ps → path k ≠ ""
  alone : ∀ qs, .token .plain :: qs <:+ ps → ¬BeginsLonger (source (.token .plain :: qs))
  complete : ∀ k, path k ≠ "" → ∀ qs, qs <:+ ps → k.chars <+: qs →
    k = .plain ∧ BeginsLonger (source qs)

/-- The text is the command line with exactly the connected placeholders replaced, literally. -/
def Substitutes (path : Kind → String) (text result : List Char) : Prop :=
  ∃ ps, Cuts path text ps ∧ rendered path ps = result

/-! ### What is done -/

/-- The pieces with the tokens of a kind marked, from the left; the first `skip` pieces belong to
a token. -/
def markGo (k : Kind) : ℕ → List Piece → List Piece
  | _, [] => []
  | skip + 1, _ :: ps => markGo k skip ps
  | 0, p :: ps =>
      if k.chars <+: p :: ps then .token k :: markGo k (k.chars.length - 1) ps
      else p :: markGo k 0 ps

/-- The pieces after the call for a kind. -/
def pass (path : Kind → String) (k : Kind) (ps : List Piece) : List Piece :=
  if path k ≠ "" then markGo k 0 ps else ps

/-- The pieces before the call for a kind. -/
def before (path : Kind → String) (text : List Char) : Kind → List Piece
  | .audio => text.map .char
  | .video => pass path .audio (text.map .char)
  | .plain => pass path .video (pass path .audio (text.map .char))

/-- The text of a piece has a place where a token starts. -/
def StartsIn (path : Kind → String) (k : Kind) (p : Piece) (ps : List Piece) : Prop :=
  ∃ s ∈ (p.rendered path).tails, s ≠ [] ∧ k.token.toList <+: s ++ rendered path ps

instance decidableStartsIn (path : Kind → String) (k : Kind) (p : Piece) (ps : List Piece) :
    Decidable (StartsIn path k p ps) :=
  List.decidableBEx _ _

/-- The call for a kind takes nothing for a token in which a path is: what it comes to, with the
first `skip` pieces in a token, is a token of the command line, or no token starts in it. -/
def Clean (path : Kind → String) (k : Kind) : ℕ → List Piece → Prop
  | _, [] => True
  | skip + 1, _ :: ps => Clean path k skip ps
  | 0, p :: ps =>
      (k.chars <+: p :: ps → Clean path k (k.chars.length - 1) ps) ∧
        (¬k.chars <+: p :: ps → ¬StartsIn path k p ps ∧ Clean path k 0 ps)

instance decidableClean (path : Kind → String) (k : Kind) :
    ∀ (skip : ℕ) (ps : List Piece), Decidable (Clean path k skip ps)
  | _, [] => .isTrue trivial
  | skip + 1, _ :: ps => decidableClean path k skip ps
  | 0, p :: ps =>
      have := decidableClean path k (k.chars.length - 1) ps
      have := decidableClean path k 0 ps
      inferInstanceAs (Decidable ((k.chars <+: p :: ps → _) ∧ (¬k.chars <+: p :: ps → _ ∧ _)))

/-- No call is led astray: no path that is put in is a format with directives, no token that is
replaced has a character of a path in it, and no `_shmpath_` that is replaced begins a longer
token of the command line. -/
structure Untangled (path : Kind → String) (text : List Char) : Prop where
  literal : ∀ k, .token k ∈ pass path k (before path text k) → Literal (path k).toList
  clean : ∀ k, path k ≠ "" → Clean path k 0 (before path text k)
  alone : ∀ qs, .token .plain :: qs <:+ pass path .plain (before path text .plain) →
    ¬BeginsLonger (source (.token .plain :: qs))

variable {path : Kind → String} {k j : Kind} {p : Piece} {ps qs : List Piece}
  {text result : List Char}

/-! ### Connections -/

theorem path_setShmpath (sfidLabel shmpath : String) (e : Executor) (k : Kind) :
    (e.setShmpath sfidLabel shmpath).path k =
      if k = Kind.ofLabel sfidLabel then shmpath else e.path k := by
  rw [setShmpath, Kind.ofLabel]
  split_ifs <;> cases k <;> first | rfl | contradiction

theorem path_start (p : Platform) (e : Executor) : (e.start p).1.path = e.path := by
  funext k
  rw [start]
  split_ifs
  · cases p.spawn <;> cases k <;> rfl
  · rfl

theorem path_stop (e : Executor) : e.stop.path = e.path := by
  funext k
  rw [stop]
  split_ifs
  · cases k <;> rfl
  · rfl

theorem path_onChange (e : Executor) : e.onChange.path = e.path := by
  rw [onChange]
  split_ifs
  · rw [← path_stop e]
    funext k
    cases k <;> rfl
  · rfl

/-- A connection sets the path of the kind of its follower. -/
theorem path_onShmdataConnect (p : Platform) (sfidLabel shmpath : String) (e : Executor) (k : Kind) :
    (e.onShmdataConnect p sfidLabel shmpath).1.path k =
      if k = Kind.ofLabel sfidLabel then shmpath else e.path k := by
  rw [onShmdataConnect, ← path_setShmpath]
  split_ifs
  · rw [path_onChange]
  · rw [path_start]
  · rfl

/-- A disconnection clears it. -/
theorem path_onShmdataDisconnect (sfidLabel : String) (e : Executor) (k : Kind) :
    (e.onShmdataDisconnect sfidLabel).path k =
      if k = Kind.ofLabel sfidLabel then "" else e.path k := by
  rw [onShmdataDisconnect, ← path_setShmpath]
  split_ifs
  · rw [path_onChange]
  · rw [path_stop]
  · rfl

/-! ### Texts of pieces -/

theorem source_append (ps qs : List Piece) : source (ps ++ qs) = source ps ++ source qs :=
  List.flatMap_append

theorem source_cons (p : Piece) (ps : List Piece) : source (p :: ps) = p.source ++ source ps :=
  List.flatMap_cons

theorem rendered_append (path : Kind → String) (ps qs : List Piece) :
    rendered path (ps ++ qs) = rendered path ps ++ rendered path qs :=
  List.flatMap_append

theorem rendered_cons (path : Kind → String) (p : Piece) (ps : List Piece) :
    rendered path (p :: ps) = p.rendered path ++ rendered path ps :=
  List.flatMap_cons

theorem source_map_char (cs : List Char) : source (cs.map .char) = cs := by
  rw [source, List.flatMap_map]
  exact List.flatMap_singleton' cs

theorem rendered_map_char (path : Kind → String) (cs : List Char) :
    rendered path (cs.map .char) = cs := by
  rw [rendered, List.flatMap_map]
  exact List.flatMap_singleton' cs

theorem token_ne_nil (k : Kind) : k.token.toList ≠ [] := by
  cases k <;> decide

theorem chars_ne_nil (k : Kind) : k.chars ≠ [] := fun h =>
  token_ne_nil k (List.map_eq_nil_iff.1 h)

theorem source_chars (k : Kind) : source k.chars = k.token.toList := source_map_char _

/-- What a prefix leaves, after the first piece. -/
theorem drop_of_chars_prefix (h : k.chars <+: p :: ps) :
    p :: ps = k.chars ++ ps.drop (k.chars.length - 1) := by
  obtain ⟨rest, hrest⟩ := h
  have hlen : k.chars.length = k.chars.length - 1 + 1 := by
    have := List.length_pos_iff.2 (chars_ne_nil k)
    omega
  have hdrop : (p :: ps).drop k.chars.length = rest := by rw [← hrest, List.drop_left]
  rw [hlen, List.drop_succ_cons] at hdrop
  rw [hdrop, hrest]

/-! ### Marking the tokens of a kind -/

theorem markGo_skip (k : Kind) (skip : ℕ) (ps : List Piece) :
    markGo k skip ps = markGo k 0 (ps.drop skip) := by
  induction skip generalizing ps with
  | zero => rw [List.drop_zero]
  | succ skip ih =>
      cases ps with
      | nil => rfl
      | cons p ps => rw [markGo, ih, List.drop_succ_cons]

/-- A token at the start is marked. -/
theorem markGo_chars_append (k : Kind) (ps : List Piece) :
    markGo k 0 (k.chars ++ ps) = .token k :: markGo k 0 ps := by
  cases hchars : k.chars with
  | nil => exact absurd hchars (chars_ne_nil k)
  | cons p cs =>
      have hpre : k.chars <+: p :: (cs ++ ps) := by
        rw [hchars]
        exact List.prefix_append (p :: cs) ps
      rw [List.cons_append, markGo, if_pos hpre, markGo_skip, hchars, List.length_cons,
        Nat.add_sub_cancel, List.drop_left]

/-- The text is the same, cut in another way. -/
theorem source_markGo (k : Kind) (skip : ℕ) (ps : List Piece) :
    source (markGo k skip ps) = source (ps.drop skip) := by
  induction ps generalizing skip with
  | nil => cases skip <;> rfl
  | cons p ps ih =>
      cases skip with
      | succ skip => rw [markGo, ih, List.drop_succ_cons]
      | zero =>
          rw [markGo]
          split_ifs with hpre
          · rw [List.drop_zero, drop_of_chars_prefix hpre, source_append, source_chars, source_cons,
              ih, Piece.source]
          · rw [List.drop_zero, source_cons, source_cons, ih, List.drop_zero]

/-- The rest of the marked pieces is what is marked of a rest of the pieces. -/
theorem exists_of_suffix_markGo {skip : ℕ} (hqs : qs ≠ []) (h : qs <:+ markGo k skip ps) :
    ∃ rs, rs <:+ ps ∧ qs = markGo k 0 rs := by
  induction ps generalizing skip with
  | nil => cases skip <;> exact absurd (List.suffix_nil.1 h) hqs
  | cons p ps ih =>
      have hlift : (∃ rs, rs <:+ ps ∧ qs = markGo k 0 rs) →
          ∃ rs, rs <:+ p :: ps ∧ qs = markGo k 0 rs := fun ⟨rs, hrs, heq⟩ =>
        ⟨rs, hrs.trans (List.suffix_cons p ps), heq⟩
      cases skip with
      | succ skip => exact hlift (ih h)
      | zero =>
          have hwhole : qs = markGo k 0 (p :: ps) → ∃ rs, rs <:+ p :: ps ∧ qs = markGo k 0 rs :=
            fun heq => ⟨p :: ps, List.suffix_refl _, heq⟩
          by_cases hpre : k.chars <+: p :: ps
          · rw [markGo, if_pos hpre] at h hwhole
            rcases List.suffix_cons_iff.1 h with heq | h
            · exact hwhole heq
            · exact hlift (ih h)
          · rw [markGo, if_neg hpre] at h hwhole
            rcases List.suffix_cons_iff.1 h with heq | h
            · exact hwhole heq
            · exact hlift (ih h)

/-- Characters that are left were there. -/
theorem prefix_of_prefix_markGo {cs : List Char} (h : cs.map Piece.char <+: markGo k 0 ps) :
    cs.map Piece.char <+: ps := by
  induction cs generalizing ps with
  | nil => exact List.nil_prefix
  | cons c cs ih =>
      cases ps with
      | nil => exact h
      | cons p ps =>
          rw [markGo] at h
          rw [List.map_cons] at h ⊢
          split_ifs at h with hpre
          · exact absurd (List.cons_prefix_cons.1 h).1 Piece.noConfusion
          · obtain ⟨hp, h⟩ := List.cons_prefix_cons.1 h
            exact List.cons_prefix_cons.2 ⟨hp, ih h⟩

/-- No token of the kind is left. -/
theorem not_chars_prefix_markGo (k : Kind) (ps : List Piece) : ¬k.chars <+: markGo k 0 ps := by
  intro h
  have hpre : k.chars <+: ps := prefix_of_prefix_markGo h
  obtain ⟨rest, rfl⟩ := hpre
  rw [markGo_chars_append] at h
  cases hcs : k.token.toList with
  | nil => exact token_ne_nil k hcs
  | cons c cs =>
      rw [Kind.chars, hcs, List.map_cons] at h
      exact absurd (List.cons_prefix_cons.1 h).1 Piece.noConfusion

/-- A token that is marked is one of the kind. -/
theorem token_mem_markGo {skip : ℕ} (h : .token j ∈ markGo k skip ps) : j = k ∨ .token j ∈ ps := by
  induction ps generalizing skip with
  | nil => cases skip <;> exact absurd h List.not_mem_nil
  | cons p ps ih =>
      cases skip with
      | succ skip => exact (ih h).imp_right (List.mem_cons_of_mem p)
      | zero =>
          rw [markGo] at h
          split_ifs at h
          · rcases List.mem_cons.1 h with heq | h
            · exact .inl (Piece.token.inj heq)
            · exact (ih h).imp_right (List.mem_cons_of_mem p)
          · rcases List.mem_cons.1 h with rfl | h
            · exact .inr List.mem_cons_self
            · exact (ih h).imp_right (List.mem_cons_of_mem p)

/-! ### Replacing in a text of pieces -/

/-- A part of the text that no occurrence starts in is kept. -/
theorem replaceGo_append {pat rep r : List Char} {l : List Char}
    (h : ∀ s, s ≠ [] → s <:+ l → ¬pat <+: s ++ r) :
    replaceGo pat rep 0 (l ++ r) = l ++ replaceGo pat rep 0 r := by
  induction l with
  | nil => rfl
  | cons c l ih =>
      have hpre : (pat.isPrefixOf (c :: (l ++ r))) = false := by
        rw [Bool.eq_false_iff, Ne, List.isPrefixOf_iff_prefix]
        exact h (c :: l) (List.cons_ne_nil c l) (List.suffix_refl _)
      rw [List.cons_append, replaceGo, hpre, if_neg Bool.false_ne_true,
        ih fun s hs hsuf => h s hs (hsuf.trans (List.suffix_cons c l)), List.cons_append]

theorem replaceGo_skip (pat rep : List Char) (skip : ℕ) (cs : List Char) :
    replaceGo pat rep skip cs = replaceGo pat rep 0 (cs.drop skip) := by
  induction skip generalizing cs with
  | zero => rw [List.drop_zero]
  | succ skip ih =>
      cases cs with
      | nil => rfl
      | cons c cs => rw [replaceGo, ih, List.drop_succ_cons]

/-- An occurrence at the start is replaced. -/
theorem replaceGo_pat_append {pat : List Char} (hpat : pat ≠ []) (rep r : List Char) :
    replaceGo pat rep 0 (pat ++ r) = rep ++ replaceGo pat rep 0 r := by
  obtain ⟨c, cs, rfl⟩ := List.exists_cons_of_ne_nil hpat
  have hpre : (c :: cs).isPrefixOf (c :: (cs ++ r)) = true :=
    List.isPrefixOf_iff_prefix.2 (List.prefix_append (c :: cs) r)
  rw [List.cons_append, replaceGo, hpre, if_pos rfl, replaceGo_skip, List.length_cons,
    Nat.add_sub_cancel, List.drop_left]

theorem not_prefix_of_not_startsIn (h : ¬StartsIn path k p ps) (s : List Char) (hs : s ≠ [])
    (hsuf : s <:+ p.rendered path) : ¬k.token.toList <+: s ++ rendered path ps := fun hpre =>
  h ⟨s, (List.mem_tails _ _).2 hsuf, hs, hpre⟩

theorem clean_skip (path : Kind → String) (k : Kind) (skip : ℕ) (ps : List Piece) :
    Clean path k skip ps ↔ Clean path k 0 (ps.drop skip) := by
  induction skip generalizing ps with
  | zero => rw [List.drop_zero]
  | succ skip ih =>
      cases ps with
      | nil => exact Iff.rfl
      | cons p ps => rw [Clean, ih, List.drop_succ_cons]

theorem clean_chars_append (path : Kind → String) (k : Kind) (ps : List Piece) :
    Clean path k 0 (k.chars ++ ps) ↔ Clean path k 0 ps := by
  cases hchars : k.chars with
  | nil => exact absurd hchars (chars_ne_nil k)
  | cons p cs =>
      have hpre : k.chars <+: p :: (cs ++ ps) := by
        rw [hchars]
        exact List.prefix_append (p :: cs) ps
      rw [List.cons_append, Clean, clean_skip, hchars, List.length_cons, Nat.add_sub_cancel,
        List.drop_left, ← hchars]
      exact ⟨fun h => h.1 hpre, fun h => ⟨fun _ => h, fun hnot => absurd hpre hnot⟩⟩

/-- Replacing the token of a kind in the text marks the pieces, where nothing else spells the
token. -/
theorem replaceGo_rendered (ps : List Piece) (h : Clean path k 0 ps) :
    replaceGo k.token.toList (path k).toList 0 (rendered path ps) =
      rendered path (markGo k 0 ps) := by
  by_cases hpre : k.chars <+: ps
  · obtain ⟨rest, rfl⟩ := hpre
    have hlen : rest.length < (k.chars ++ rest).length := by
      have := List.length_pos_iff.2 (chars_ne_nil k)
      rw [List.length_append]
      omega
    have ih := replaceGo_rendered rest ((clean_chars_append path k rest).1 h)
    rw [rendered_append, Kind.chars, rendered_map_char, ← Kind.chars,
      replaceGo_pat_append (token_ne_nil k), ih, markGo_chars_append, rendered_cons,
      Piece.rendered]
  · match ps with
    | [] => rfl
    | p :: ps =>
        obtain ⟨hstart, h⟩ := h.2 hpre
        rw [rendered_cons, replaceGo_append (not_prefix_of_not_startsIn hstart),
          replaceGo_rendered ps h, markGo, if_neg hpre, rendered_cons]
termination_by ps.length

/-- A pattern that does not start in the first part of a text is in the rest. -/
theorem infix_of_infix_append {pat r l : List Char}
    (h : ∀ s, s ≠ [] → s <:+ l → ¬pat <+: s ++ r) (hin : pat <:+: l ++ r) : pat <:+: r := by
  induction l with
  | nil => exact hin
  | cons c l ih =>
      rw [List.cons_append, List.infix_cons_iff] at hin
      refine ih (fun s hs hsuf => h s hs (hsuf.trans (List.suffix_cons c l))) ?_
      exact hin.resolve_left (h (c :: l) (List.cons_ne_nil c l) (List.suffix_refl _))

/-- A text that has the token has one that is marked, where nothing else spells it. -/
theorem token_mem_of_infix (h : Clean path k 0 ps) (hin : k.token.toList <:+: rendered path ps) :
    .token k ∈ markGo k 0 ps := by
  induction ps with
  | nil => exact absurd (List.infix_nil.1 hin) (token_ne_nil k)
  | cons p ps ih =>
      by_cases hpre : k.chars <+: p :: ps
      · rw [markGo, if_pos hpre]
        exact List.mem_cons_self
      · obtain ⟨hstart, h⟩ := h.2 hpre
        rw [rendered_cons] at hin
        rw [markGo, if_neg hpre]
        have hin := infix_of_infix_append (not_prefix_of_not_startsIn hstart) hin
        exact List.mem_cons_of_mem p (ih h hin)

/-! ### The calls -/

theorem toList_ne_nil_iff {s : String} : s.toList ≠ [] ↔ s ≠ "" := by
  rw [Ne, Ne, ← String.toList_inj]
  exact Iff.rfl

theorem source_pass (path : Kind → String) (k : Kind) (ps : List Piece) :
    source (pass path k ps) = source ps := by
  rw [pass]
  split_ifs
  · rw [source_markGo, List.drop_zero]
  · rfl

theorem source_before (path : Kind → String) (text : List Char) (k : Kind) :
    source (before path text k) = text := by
  cases k with
  | audio => exact source_map_char text
  | video => rw [before, source_pass, source_map_char]
  | plain => rw [before, source_pass, source_pass, source_map_char]

/-- Each call replaces the token of its kind in the pieces. -/
theorem regexReplace_rendered {group : ℕ → List Char} {k : Kind}
    (hliteral : .token k ∈ pass path k (before path text k) → Literal (path k).toList)
    (hclean : path k ≠ "" → Clean path k 0 (before path text k)) {orig : String} (horig : orig.toList = rendered path (before path text k)) :
    (if path k ≠ "" then regexReplace group orig k.token (path k) else orig).toList =
      rendered path (pass path k (before path text k)) := by
  rw [pass]
  split_ifs with hk
  · rw [regexReplace, String.toList_ofList, horig, regexReplaceGo_eq, replaceGo_rendered _ (hclean hk)]
    intro hin
    refine hliteral ?_
    rw [pass, if_pos hk]
    exact token_mem_of_infix (hclean hk) hin
  · exact horig

/-- The arguments are the text of the pieces after the three calls. -/
theorem toList_args {group : ℕ → List Char} {e : Executor}
    (hliteral : ∀ k, .token k ∈ pass e.path k (before e.path e.commandLine.toList k) →
      Literal (e.path k).toList)
    (hclean : ∀ k, e.path k ≠ "" → Clean e.path k 0 (before e.path e.commandLine.toList k)) :
    (e.args group).toList =
      rendered e.path (pass e.path .plain (before e.path e.commandLine.toList .plain)) :=
  regexReplace_rendered (hliteral .plain) (hclean .plain)
    (regexReplace_rendered (hliteral .video) (hclean .video)
      (regexReplace_rendered (hliteral .audio) (hclean .audio) (rendered_map_char _ _).symm))

theorem token_mem_pass (h : .token j ∈ pass path k ps) :
    (j = k ∧ path k ≠ "") ∨ .token j ∈ ps := by
  rw [pass] at h
  split_ifs at h with hk
  · exact (token_mem_markGo h).imp_left fun hj => ⟨hj, hk⟩
  · exact .inr h

/-- Only tokens of connected kinds are marked. -/
theorem connected_of_mem (h : .token k ∈ pass path .plain (before path text .plain)) :
    path k ≠ "" := by
  rcases token_mem_pass h with ⟨rfl, hk⟩ | h
  · exact hk
  · rcases token_mem_pass h with ⟨rfl, hk⟩ | h
    · exact hk
    · rcases token_mem_pass h with ⟨rfl, hk⟩ | h
      · exact hk
      · obtain ⟨c, -, hc⟩ := List.mem_map.1 h
        exact absurd hc Piece.noConfusion

/-- No token of a kind is kept. -/
def Done (k : Kind) (ps : List Piece) : Prop := ∀ qs, qs <:+ ps → ¬k.chars <+: qs

theorem done_markGo (h : ∀ rs, rs <:+ ps → ¬k.chars <+: markGo j 0 rs) :
    Done k (markGo j 0 ps) := by
  intro qs hqs hpre
  by_cases hnil : qs = []
  · rw [hnil] at hpre
    exact chars_ne_nil k (List.prefix_nil.1 hpre)
  · obtain ⟨rs, hrs, rfl⟩ := exists_of_suffix_markGo hnil hqs
    exact h rs hrs hpre

theorem done_pass_self (hk : path k ≠ "") (ps : List Piece) : Done k (pass path k ps) := by
  rw [pass, if_pos hk]
  exact done_markGo fun rs _ => not_chars_prefix_markGo k rs

/-- The later calls bring none back. -/
theorem Done.pass (h : Done k ps) (j : Kind) : Done k (pass path j ps) := by
  rw [Executor.pass]
  split_ifs
  · exact done_markGo fun rs hrs hpre => h rs hrs (prefix_of_prefix_markGo hpre)
  · exact h

theorem done_final (hk : path k ≠ "") (text : List Char) :
    Done k (Executor.pass path .plain (before path text .plain)) := by
  cases k with
  | audio => exact ((done_pass_self hk _).pass .video).pass .plain
  | video => exact (done_pass_self hk _).pass .plain
  | plain => exact done_pass_self hk _

/-! ### What is done is what is meant -/

/-- **Exactly the connected placeholders are replaced**, literally, if no call is led astray by
what is put in before it, by directives in a path or by the start of a longer token. -/
theorem args_substitutes (group : ℕ → List Char) (e : Executor)
    (h : Untangled e.path e.commandLine.toList) :
    Substitutes e.path e.commandLine.toList (e.args group).toList := by
  refine ⟨pass e.path .plain (before e.path e.commandLine.toList .plain), ⟨?_, ?_, ?_, ?_⟩, ?_⟩
  · rw [source_pass, source_before]
  · exact fun k => connected_of_mem
  · exact h.alone
  · exact fun k hk qs hqs hpre => absurd hpre (done_final hk _ qs hqs)
  · exact (toList_args h.literal h.clean).symm

/-- An executor of a command line that a shmdata is connected to. -/
def ofCommand (commandLine sfidLabel shmpath : String) : Executor :=
  (({ make with commandLine }).onShmdataConnect ⟨true, none, 0⟩ sfidLabel shmpath).1

/-- A plain and an audio shmdata are connected. -/
def copier : Executor :=
  ((ofCommand "cp _shmpath_ _shmpath_audio_" "custom" "/p").onShmdataConnect ⟨true, none, 0⟩ "audio"
    "/a").1

theorem untangled_copier : Untangled copier.path copier.commandLine.toList where
  literal k _ := Stringutils.literal_of_not_mem (by cases k <;> decide)
  clean k _ := by cases k <;> decide
  alone := by
    have hall : ∀ rs ∈ (pass copier.path .plain
        (before copier.path copier.commandLine.toList .plain)).tails,
        rs.head? = some (.token .plain) → ¬BeginsLonger (source rs) := by decide
    exact fun qs hqs => hall _ ((List.mem_tails _ _).2 hqs) rfl

theorem substitutes_copier : Substitutes copier.path copier.commandLine.toList
    (copier.args fun _ => []).toList :=
  args_substitutes _ copier untangled_copier

/-! ### Defects -/

/-- Without tokens the text is the command line. -/
theorem rendered_eq_source (h : ∀ k, .token k ∉ ps) : rendered path ps = source ps := by
  induction ps with
  | nil => rfl
  | cons p ps ih =>
      rw [rendered_cons, source_cons, ih fun k hk => h k (List.mem_cons_of_mem p hk)]
      cases p with
      | char c => rfl
      | token k => exact absurd List.mem_cons_self (h k)

/-- If only the plain kind is connected, a command line in which every `_shmpath_` begins a longer
token is meant to stay as it is. -/
theorem Substitutes.eq_of_longer (h : Substitutes path text result)
    (hplain : ∀ k, path k ≠ "" → k = .plain)
    (hlonger : ∀ cs ∈ text.tails, Kind.plain.token.toList <+: cs → BeginsLonger cs) :
    result = text := by
  obtain ⟨ps, hcuts, rfl⟩ := h
  rw [← hcuts.source_eq]
  refine rendered_eq_source fun k hk => ?_
  obtain rfl := hplain k (hcuts.connected k hk)
  obtain ⟨qs, rs, rfl⟩ := List.append_of_mem hk
  refine hcuts.alone rs (List.suffix_append _ _) (hlonger _ ?_ ?_)
  · rw [List.mem_tails, ← hcuts.source_eq, source_append]
    exact List.suffix_append _ _
  · rw [source_cons]
    exact List.prefix_append _ _

/-- The path is put in front of `audio_`. -/
theorem not_substitutes_longer :
    ¬Substitutes (ofCommand "cat _shmpath_audio_" "custom" "/tmp/x").path
      "cat _shmpath_audio_".toList
      ((ofCommand "cat _shmpath_audio_" "custom" "/tmp/x").args fun _ => []).toList := by
  intro h
  have hplain : ∀ k, (ofCommand "cat _shmpath_audio_" "custom" "/tmp/x").path k ≠ "" →
      k = .plain := by
    intro k hk
    cases k
    · exact absurd rfl hk
    · exact absurd rfl hk
    · rfl
  exact absurd (h.eq_of_longer hplain (by decide)) (by decide)

/-- A text that starts as a token does starts with no path, if paths do not start so. -/
theorem ne_of_first (hfirst : ∀ k, path k ≠ "" → ∀ cs, (path k).toList ≠ '_' :: cs)
    (hk : path k ≠ "") {c : Char} {as bs cs ds : List Char}
    (hsource : c :: as = k.token.toList ++ bs) : c :: cs ≠ (path k).toList ++ ds := by
  intro hrendered
  have hc : c = '_' := by
    cases k <;> exact (List.cons.inj hsource).1
  cases hpath : (path k).toList with
  | nil => exact toList_ne_nil_iff.2 hk hpath
  | cons d es =>
      rw [hpath, List.cons_append] at hrendered
      refine hfirst k hk es ?_
      rw [hpath, ← (List.cons.inj hrendered).1, hc]

/-- The pieces can be read back from the text of the command line and the text with the paths, if
the paths do not start as the tokens do and none is the start of another. -/
theorem eq_of_rendered_eq (hfirst : ∀ k, path k ≠ "" → ∀ cs, (path k).toList ≠ '_' :: cs)
    (hstart : ∀ j k, path j ≠ "" → (path j).toList <+: (path k).toList → j = k)
    (hps : ∀ k, .token k ∈ ps → path k ≠ "") (hqs : ∀ k, .token k ∈ qs → path k ≠ "")
    (hsource : source ps = source qs) (hrendered : rendered path ps = rendered path qs) :
    ps = qs := by
  have hnil : ∀ {p : Piece} {rs : List Piece}, source (p :: rs) ≠ [] := by
    intro p rs h
    rw [source_cons, List.append_eq_nil_iff] at h
    cases p with
    | char c => exact List.cons_ne_nil _ _ h.1
    | token k => exact token_ne_nil k h.1
  induction ps generalizing qs with
  | nil =>
      cases qs with
      | nil => rfl
      | cons q qs => exact absurd hsource.symm hnil
  | cons p ps ih =>
      cases qs with
      | nil => exact absurd hsource hnil
      | cons q qs =>
          have htail := ih (fun k hk => hps k (List.mem_cons_of_mem p hk))
            (fun k hk => hqs k (List.mem_cons_of_mem q hk))
          rw [source_cons, source_cons] at hsource
          rw [rendered_cons, rendered_cons] at hrendered
          cases p with
          | char c =>
              cases q with
              | char d =>
                  obtain ⟨rfl, hrest⟩ := List.cons.inj hsource
                  rw [htail hrest (List.cons.inj hrendered).2]
              | token k =>
                  exact absurd hrendered (ne_of_first hfirst (hqs k List.mem_cons_self) hsource)
          | token j =>
              have hj := hps j List.mem_cons_self
              cases q with
              | char d => exact absurd hrendered.symm (ne_of_first hfirst hj hsource.symm)
              | token k =>
                  have hk := hqs k List.mem_cons_self
                  have hjk : j = k := by
                    rcases List.prefix_or_prefix_of_prefix ⟨_, hrendered⟩ (List.prefix_append _ _)
                      with h | h
                    · exact hstart j k hj h
                    · exact (hstart k j hk h).symm
                  subst hjk
                  rw [htail (List.append_cancel_left hsource) (List.append_cancel_left hrendered)]

/-- **The start of a longer token is the defect**: where nothing else leads a call astray, and the
paths can be told apart from the tokens and from each other, the arguments are those that are
meant only if no `_shmpath_` that is replaced begins a longer token. -/
theorem alone_of_substitutes {group : ℕ → List Char} {e : Executor}
    (hfirst : ∀ k, e.path k ≠ "" → ∀ cs, (e.path k).toList ≠ '_' :: cs)
    (hstart : ∀ j k, e.path j ≠ "" → (e.path j).toList <+: (e.path k).toList → j = k)
    (hliteral : ∀ k, .token k ∈ pass e.path k (before e.path e.commandLine.toList k) →
      Literal (e.path k).toList)
    (hclean : ∀ k, e.path k ≠ "" → Clean e.path k 0 (before e.path e.commandLine.toList k))
    (h : Substitutes e.path e.commandLine.toList (e.args group).toList) :
    Untangled e.path e.commandLine.toList := by
  obtain ⟨ps, hcuts, hrendered⟩ := h
  rw [toList_args hliteral hclean] at hrendered
  have heq := eq_of_rendered_eq hfirst hstart hcuts.connected (fun k => connected_of_mem)
    (by rw [hcuts.source_eq, source_pass, source_before]) hrendered
  exact ⟨hliteral, hclean, heq ▸ hcuts.alone⟩

end Executor
end LibSwitcher
