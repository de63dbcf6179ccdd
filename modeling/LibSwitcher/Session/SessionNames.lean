/-
# What session names stand for

The operations agree on the file of a name, and on what the name stands for, in every run
that uses names with the extension `.json` or without one, and removes a name only where no
other file could be taken for its file (`tracks_of_admits`).

Another extension is replaced (`show.v1` and `show.v2` are both `show.json`), but `remove`
looks for the name as it is.  A backup that `write` has made is listed, and it is loaded by
its name as long as the file it is the backup of is there.
-/

import LibSwitcher.Lib.Machine
import LibSwitcher.Session.Session

namespace LibSwitcher
namespace Fileutils

variable {name stem ext : String}

/-- A name without separator is its own file name. -/
theorem filename_of_not_mem (h : '/' ∉ name.toList) : filename name = name := by
  have htake : name.toList.reverse.takeWhile (· ≠ '/') = name.toList.reverse :=
    List.takeWhile_eq_self_iff.2 fun c hc =>
      decide_eq_true fun heq => h (List.mem_reverse.1 (heq ▸ hc))
  rw [filename, htake, List.reverse_reverse, String.ofList_toList]

/-- No separator in a file name. -/
theorem not_mem_filename (name : String) : '/' ∉ (filename name).toList := by
  intro h
  rw [filename, String.toList_ofList, List.mem_reverse] at h
  simpa using List.mem_takeWhile_imp h

/-- The extension after a stem. -/
theorem splitExtension_append (hstem : stem ≠ "") (hext : ext ≠ "") (hdot : '.' ∉ ext.toList) :
    splitExtension (stem ++ "." ++ ext) = some (stem, "." ++ ext) := by
  have hreverse : (stem ++ "." ++ ext).toList.reverse =
      ext.toList.reverse ++ '.' :: stem.toList.reverse := by
    rw [String.toList_append, String.toList_append, List.reverse_append, List.reverse_append]
    rfl
  have hpos : ∀ c ∈ ext.toList.reverse, decide (c ≠ '.') = true := fun c hc =>
    decide_eq_true fun heq => hdot (List.mem_reverse.1 (heq ▸ hc))
  have htake : (stem ++ "." ++ ext).toList.reverse.takeWhile (· ≠ '.') = ext.toList.reverse := by
    rw [hreverse, List.takeWhile_append_of_pos hpos, List.takeWhile_cons_of_neg (by simp),
      List.append_nil]
  have hdrop : ((stem ++ "." ++ ext).toList.reverse.dropWhile (· ≠ '.')).tail =
      stem.toList.reverse := by
    rw [hreverse, List.dropWhile_append_of_pos hpos, List.dropWhile_cons_of_neg (by simp),
      List.tail_cons]
  have hstem' : 0 < stem.length := Nat.pos_of_ne_zero fun h => hstem (String.length_eq_zero_iff.1 h)
  have hext' : 0 < ext.length := Nat.pos_of_ne_zero fun h => hext (String.length_eq_zero_iff.1 h)
  have hlength : 3 ≤ (stem ++ "." ++ ext).length := by
    rw [String.length_append, String.length_append]
    change 3 ≤ stem.length + 1 + ext.length
    omega
  rw [splitExtension, htake, hdrop, if_neg]
  · rw [List.reverse_reverse, List.reverse_reverse, String.ofList_toList, String.ofList_toList]
  · rintro (h | h | h)
    · rw [h] at hlength
      exact absurd hlength (by decide)
    · rw [h] at hlength
      exact absurd hlength (by decide)
    · exact hstem (by simpa using h)

/-- A name is its stem and its extension. -/
theorem eq_of_splitExtension (h : splitExtension name = some (stem, ext)) :
    name = stem ++ ext ∧ stem ≠ "" ∧ ext ≠ "" := by
  rw [splitExtension] at h
  split_ifs at h with hnot
  obtain ⟨rfl, rfl⟩ := Prod.mk.inj (Option.some.inj h)
  rw [not_or, not_or] at hnot
  obtain ⟨-, -, hstem⟩ := hnot
  refine ⟨?_, fun hempty => hstem (by simpa using hempty), by simp⟩
  have hdrop : name.toList.reverse.dropWhile (· ≠ '.') =
      '.' :: (name.toList.reverse.dropWhile (· ≠ '.')).tail := by
    cases hcs : name.toList.reverse.dropWhile (· ≠ '.') with
    | nil => exact absurd (by rw [hcs]; rfl) hstem
    | cons c cs =>
        have hc := List.head?_dropWhile_not (· ≠ '.') name.toList.reverse
        rw [hcs] at hc
        simpa using hc
  have happend := List.takeWhile_append_dropWhile (p := (· ≠ '.')) (l := name.toList.reverse)
  rw [hdrop] at happend
  refine String.toList_inj.1 (List.reverse_inj.1 (happend.symm.trans ?_))
  simp only [String.toList_append, List.reverse_append, String.toList_ofList, List.reverse_reverse,
    List.append_assoc]
  rfl

end Fileutils
namespace Session

open Fileutils

variable {name stem fname : String} {d : Directory} {t : Store} {backupName : String → String}

/-! ### Names -/

/-- A stem of session files. -/
structure Stem (stem : String) : Prop where
  ne : stem ≠ ""
  slash : '/' ∉ stem.toList
  zero : Char.ofNat 0 ∉ stem.toList

theorem splitExtension_json (h : stem ≠ "") :
    splitExtension (stem ++ ".json") = some (stem, ".json") := by
  have hsplit : splitExtension (stem ++ "." ++ "json") = some (stem, "." ++ "json") :=
    splitExtension_append h (by decide) (by decide)
  rwa [String.append_assoc] at hsplit

/-- The suffix is dropped. -/
theorem ofList_take_json (stem : String) :
    String.ofList ((stem ++ ".json").toList.take ((stem ++ ".json").length - 5)) = stem := by
  rw [String.length_append]
  change String.ofList ((stem ++ ".json").toList.take (stem.length + 5 - 5)) = stem
  rw [Nat.add_sub_cancel, String.toList_append, ← String.length_toList, List.take_left,
    String.ofList_toList]

/-- A file of the session directory. -/
theorem sessionFile_json (h : Stem stem) : sessionFile (stem ++ ".json") = stem ++ ".json" := by
  have hslash : '/' ∉ (stem ++ ".json").toList := by
    rw [String.toList_append, List.mem_append, not_or]
    exact ⟨h.slash, by decide⟩
  have hzero : Char.ofNat 0 ∉ (stem ++ ".json").toList := by
    rw [String.toList_append, List.mem_append, not_or]
    exact ⟨h.zero, by decide⟩
  have hext : extension (stem ++ ".json") = ".json" := by
    rw [extension, splitExtension_json h.ne]
    rfl
  rw [sessionFile, filename_of_not_mem hslash]
  simp only [hext, ne_eq, not_true_eq_false, if_false]
  exact Stringutils.cStr_of_not_mem hzero

/-- A backup is loaded in the place of its file. -/
theorem sessionFile_backup (h : Stem stem) :
    sessionFile (stem ++ ".json" ++ "~") = stem ++ ".json" := by
  have hslash : '/' ∉ (stem ++ ".json" ++ "~").toList := by
    rw [String.toList_append, String.toList_append, List.mem_append, List.mem_append, not_or, not_or]
    exact ⟨⟨h.slash, by decide⟩, by decide⟩
  have hzero : Char.ofNat 0 ∉ (stem ++ ".json").toList := by
    rw [String.toList_append, List.mem_append, not_or]
    exact ⟨h.zero, by decide⟩
  have hsplit : splitExtension (stem ++ ".json" ++ "~") = some (stem, ".json~") := by
    have hsplit : splitExtension (stem ++ "." ++ "json~") = some (stem, "." ++ "json~") :=
      splitExtension_append h.ne (by decide) (by decide)
    rw [String.append_assoc] at hsplit
    rw [String.append_assoc]
    exact hsplit
  have hext : extension (stem ++ ".json" ++ "~") = ".json~" := by
    rw [extension, hsplit]
    rfl
  have hreplace : replaceExtension (stem ++ ".json" ++ "~") ".json" = stem ++ ".json" := by
    rw [replaceExtension, hsplit]
    rfl
  rw [sessionFile, filename_of_not_mem hslash]
  simp only [hext, hreplace]
  exact Stringutils.cStr_of_not_mem hzero

/-- What a name stands for is the stem of its file. -/
theorem NameOk.stem_sessionName (h : NameOk (filename name)) :
    Stem (sessionName name) ∧ sessionFile name = sessionName name ++ ".json" ∧
      (filename name = sessionName name ∨ filename name = sessionName name ++ ".json") := by
  have hslash := not_mem_filename name
  have hfile : filename (filename name) = filename name := filename_of_not_mem hslash
  have hname : sessionName name = sessionName (filename name) := by rw [sessionName, sessionName, hfile]
  have hsession : sessionFile name = sessionFile (filename name) := by
    rw [sessionFile, sessionFile, hfile]
  rw [hname, hsession]
  generalize filename name = fname at h hslash hfile
  obtain ⟨⟨hne, hjson⟩, hzero, hext⟩ := h
  by_cases hsuffix : ".json".toList <:+ fname.toList
  · obtain ⟨cs, hcs⟩ := hsuffix
    obtain rfl : String.ofList cs ++ ".json" = fname := by
      rw [← String.toList_inj, String.toList_append, String.toList_ofList, hcs]
    have hstem : Stem (String.ofList cs) := by
      rw [String.toList_append, List.mem_append, not_or] at hslash hzero
      refine ⟨fun hempty => hjson ?_, hslash.1, hzero.1⟩
      rw [hempty, String.empty_append]
    have hsuffix : ".json".toList <:+ (String.ofList cs ++ ".json").toList := by
      rw [String.toList_append]
      exact List.suffix_append _ _
    have hdrop : sessionName (String.ofList cs ++ ".json") = String.ofList cs := by
      rw [sessionName, hfile, if_pos hsuffix, ofList_take_json]
    rw [hdrop]
    exact ⟨hstem, sessionFile_json hstem, Or.inr rfl⟩
  · have hdrop : sessionName fname = fname := by rw [sessionName, hfile, if_neg hsuffix]
    have hstem : Stem fname := ⟨hne, hslash, hzero⟩
    have hnone : splitExtension fname = none := by
      cases hsplit : splitExtension fname with
      | none => rfl
      | some e =>
          obtain ⟨stem, ext⟩ := e
          obtain ⟨rfl, -, hne⟩ := eq_of_splitExtension hsplit
          have hextension : extension (stem ++ ext) = ext := by
            rw [extension, hsplit]
            rfl
          rw [hextension] at hext
          rcases hext with rfl | rfl
          · exact absurd rfl hne
          · rw [String.toList_append] at hsuffix
            exact absurd (List.suffix_append _ _) hsuffix
    have hzero : Char.ofNat 0 ∉ (fname ++ ".json").toList := by
      rw [String.toList_append, List.mem_append, not_or]
      exact ⟨hstem.zero, by decide⟩
    have hextension : extension fname = "" := by
      rw [extension, hnone]
      rfl
    have hreplace : replaceExtension fname ".json" = fname ++ ".json" := by
      rw [replaceExtension, hnone]
      rfl
    refine ⟨by rwa [hdrop], ?_, Or.inl hdrop.symm⟩
    rw [sessionFile, hfile, hdrop]
    simp only [hextension, hreplace]
    exact Stringutils.cStr_of_not_mem hzero

/-- Names of one file stand for the same. -/
theorem sessionFile_inj {name' : String} (h : NameOk (filename name))
    (h' : NameOk (filename name')) :
    sessionFile name = sessionFile name' ↔ sessionName name = sessionName name' := by
  rw [h.stem_sessionName.2.1, h'.stem_sessionName.2.1]
  refine ⟨fun heq => ?_, fun heq => by rw [heq]⟩
  rw [← String.toList_inj, String.toList_append, String.toList_append] at heq
  exact String.toList_inj.1 (List.append_cancel_right heq)

/-! ### Steps -/

/-- The files that the operations leave: session files, and backups of them. -/
structure Tidy (d : Directory) : Prop where
  nodup : (list d).Nodup
  files : ∀ fname ∈ list d, ∃ stem, Stem stem ∧
    (fname = stem ++ ".json" ∨ fname = stem ++ ".json" ++ "~")

/-- The state between operations. -/
structure Inv (d : Directory) (t : Store) : Prop where
  holds : Holds d t
  tidy : Tidy d

theorem inv_nil : Inv [] fun _ => none where
  holds := ⟨fun _ _ => rfl, fun _ _ => by simp [list], fun _ h => by simp [list] at h⟩
  tidy := ⟨List.nodup_nil, fun _ h => by simp [list] at h⟩

/-- A session is in its file, which is then listed. -/
theorem isSome_iff_mem_list (hcontent : ∀ name, NameOk (filename name) →
    d.lookup (sessionFile name) = t (sessionName name)) (h : NameOk (filename name)) :
    (t (sessionName name)).isSome ↔ sessionName name ++ ".json" ∈ list d := by
  rw [← hcontent name h, h.stem_sessionName.2.1, list, Option.isSome_iff_ne_none, Ne,
    KeyTree.lookup_eq_none_iff, not_not]

/-- A session file is written. -/
theorem Inv.put {content : String} (h : Inv d t) (hname : NameOk (filename name)) :
    Inv (put (sessionFile name) content d)
      (Function.update t (sessionName name) (some content)) := by
  obtain ⟨hstem, hfile, -⟩ := hname.stem_sessionName
  have hlookup : ∀ name', NameOk (filename name') →
      (Session.put (sessionFile name) content d).lookup (sessionFile name') =
        Function.update t (sessionName name) (some content) (sessionName name') := by
    intro name' hname'
    rw [Session.put]
    by_cases heq : sessionFile name' = sessionFile name
    · rw [heq, KeyTree.lookup_setKey_self, (sessionFile_inj hname' hname).1 heq,
        Function.update_self]
    · rw [KeyTree.lookup_setKey_ne heq, h.holds.content name' hname',
        Function.update_of_ne fun hsame => heq ((sessionFile_inj hname' hname).2 hsame)]
  refine ⟨⟨hlookup, fun name' hname' => isSome_iff_mem_list hlookup hname', ?_⟩, ?_, ?_⟩
  · intro fname hmem
    rw [Session.put]
    by_cases heq : sessionFile fname = sessionFile name
    · rw [heq, KeyTree.lookup_setKey_self]
      rfl
    · rw [KeyTree.lookup_setKey_ne heq]
      refine h.holds.loadable fname ((KeyTree.mem_keys_setKey.1 hmem).resolve_left ?_)
      rintro rfl
      rw [hfile, sessionFile_json hstem] at heq
      exact heq rfl
  · exact KeyTree.nodup_setKey h.tidy.nodup
  · intro fname hmem
    rcases KeyTree.mem_keys_setKey.1 hmem with rfl | hmem
    · exact ⟨sessionName name, hstem, Or.inl hfile⟩
    · exact h.tidy.files fname hmem

/-- No session file has the name of a backup. -/
theorem json_ne_backup (stem stem' : String) : stem ++ ".json" ≠ stem' ++ ".json" ++ "~" := by
  intro h
  have hlist := congrArg String.toList h
  rw [String.toList_append, String.toList_append] at hlist
  have hlast := congrArg List.getLast? hlist
  rw [List.getLast?_append_of_ne_nil _ (by decide), List.getLast?_append_of_ne_nil _ (by decide)]
    at hlast
  exact absurd hlast (by decide)

/-- What is listed is loaded from a session file. -/
theorem Tidy.sessionFile_eq (h : Tidy d) (hmem : fname ∈ list d) :
    ∃ stem, Stem stem ∧ sessionFile fname = stem ++ ".json" := by
  obtain ⟨stem, hstem, rfl | rfl⟩ := h.files fname hmem
  · exact ⟨stem, hstem, sessionFile_json hstem⟩
  · exact ⟨stem, hstem, sessionFile_backup hstem⟩

/-- A backup of a session file is made. -/
theorem Inv.backup {old : String} (h : Inv d t) (hname : NameOk (filename name))
    (hold : d.lookup (sessionFile name) = some old) :
    Inv (Session.put (sessionFile name ++ "~") old d) t := by
  obtain ⟨hstem, hfile, -⟩ := hname.stem_sessionName
  rw [hfile] at hold ⊢
  have hlookup : ∀ stem, (Session.put (sessionName name ++ ".json" ++ "~") old d).lookup
      (stem ++ ".json") = d.lookup (stem ++ ".json") := fun stem =>
    KeyTree.lookup_setKey_ne (json_ne_backup stem (sessionName name)) _ _
  have hcontent : ∀ name', NameOk (filename name') →
      (Session.put (sessionName name ++ ".json" ++ "~") old d).lookup (sessionFile name') =
        t (sessionName name') := by
    intro name' hname'
    have hsession := h.holds.content name' hname'
    rw [hname'.stem_sessionName.2.1] at hsession ⊢
    rw [hlookup, hsession]
  refine ⟨⟨hcontent, fun name' hname' => isSome_iff_mem_list hcontent hname', ?_⟩, ?_, ?_⟩
  · intro fname hmem
    rcases KeyTree.mem_keys_setKey.1 hmem with rfl | hmem
    · rw [sessionFile_backup hstem, hlookup, hold]
      rfl
    · obtain ⟨stem, -, heq⟩ := h.tidy.sessionFile_eq hmem
      have hloadable := h.holds.loadable fname hmem
      rw [heq] at hloadable ⊢
      rwa [hlookup]
  · exact KeyTree.nodup_setKey h.tidy.nodup
  · intro fname hmem
    rcases KeyTree.mem_keys_setKey.1 hmem with rfl | hmem
    · exact ⟨sessionName name, hstem, Or.inr rfl⟩
    · exact h.tidy.files fname hmem

/-- A session file is removed that no other file is taken for. -/
theorem Inv.erase (h : Inv d t) (hname : NameOk (filename name))
    (hother : ∀ fname ∈ list d, sessionFile fname = sessionFile name → fname = sessionFile name) :
    Inv (KeyTree.eraseKey (sessionFile name) d) (Function.update t (sessionName name) none) := by
  have hcontent : ∀ name', NameOk (filename name') →
      (KeyTree.eraseKey (sessionFile name) d).lookup (sessionFile name') =
        Function.update t (sessionName name) none (sessionName name') := by
    intro name' hname'
    by_cases heq : sessionFile name' = sessionFile name
    · rw [heq, (sessionFile_inj hname' hname).1 heq, Function.update_self,
        KeyTree.lookup_eq_none_iff, KeyTree.mem_keys_eraseKey h.tidy.nodup]
      exact fun hmem => hmem.1 rfl
    · rw [KeyTree.lookup_eraseKey_ne heq, h.holds.content name' hname',
        Function.update_of_ne fun hsame => heq ((sessionFile_inj hname' hname).2 hsame)]
  refine ⟨⟨hcontent, fun name' hname' => isSome_iff_mem_list hcontent hname', ?_⟩, ?_, ?_⟩
  · intro fname hmem
    obtain ⟨hne, hmem⟩ := (KeyTree.mem_keys_eraseKey h.tidy.nodup).1 hmem
    rw [KeyTree.lookup_eraseKey_ne fun heq => hne (hother fname hmem heq)]
    exact h.holds.loadable fname hmem
  · exact KeyTree.nodup_eraseKey h.tidy.nodup
  · exact fun fname hmem =>
      h.tidy.files fname ((KeyTree.mem_keys_eraseKey h.tidy.nodup).1 hmem).2

/-- The file that `remove` finds. -/
theorem find?_remove {order : List String} (h : Inv d t) (hslash : '/' ∉ name.toList)
    (hname : NameOk name) (horder : order.Perm (list d))
    (hother : ∀ fname ∈ list d, fname = name ∨ fname = name ++ ".json" ∨
      sessionFile fname = sessionFile name → fname = sessionFile name) :
    (order.find? fun fname => fname = name || fname = name ++ ".json") =
      if (t (sessionName name)).isSome then some (sessionFile name) else none := by
  have hfilename := filename_of_not_mem hslash
  have hname : NameOk (filename name) := by rwa [hfilename]
  obtain ⟨-, hfile, heither⟩ := hname.stem_sessionName
  rw [hfilename] at heither
  have hfound : ∀ fname, (order.find? fun fname => fname = name || fname = name ++ ".json") =
      some fname → fname ∈ list d ∧ fname = sessionFile name := by
    intro fname hfind
    have hmem := horder.subset (List.mem_of_find?_eq_some hfind)
    have hmatch := List.find?_some hfind
    rw [Bool.or_eq_true, decide_eq_true_iff, decide_eq_true_iff] at hmatch
    exact ⟨hmem, hother fname hmem (hmatch.imp_right Or.inl)⟩
  split_ifs with hsome
  · have hmem := (h.holds.listed name hname).1 hsome
    have hmatch : sessionName name ++ ".json" = name ∨ sessionName name ++ ".json" = name ++ ".json" :=
      heither.symm.imp Eq.symm fun heq => by rw [← heq]
    cases hfind : order.find? fun fname => fname = name || fname = name ++ ".json" with
    | some fname => rw [(hfound fname hfind).2]
    | none =>
        rw [List.find?_eq_none] at hfind
        exact absurd (by simpa using hmatch) (hfind _ (horder.symm.subset hmem))
  · cases hfind : order.find? fun fname => fname = name || fname = name ++ ".json" with
    | none => rfl
    | some fname =>
        obtain ⟨hmem, rfl⟩ := hfound fname hfind
        rw [hfile] at hmem
        exact absurd ((h.holds.listed name hname).2 hmem) hsome

/-- A step that meets the condition is the one of the store. -/
theorem Inv.step {op : Op} (hbackup : ∀ file, backupName file = file ++ "~") (h : Inv d t)
    (hok : ok d op) : ∃ r, Session.step backupName d op = some r ∧
      r.2 = (storeStep t op).2 ∧ Inv r.1 (storeStep t op).1 := by
  cases op with
  | saveAs name state =>
      have hname : NameOk (filename name) := hok
      rw [Session.step, storeStep, hname.stem_sessionName.2.1]
      refine ⟨_, rfl, rfl, ?_⟩
      rw [← hname.stem_sessionName.2.1]
      dsimp only
      exact h.put hname
  | copy src dst =>
      obtain ⟨hnameSrc, hnameDst⟩ := hok
      have hsrc := h.holds.content src hnameSrc
      rw [Session.step, storeStep, hsrc]
      cases t (sessionName src) with
      | none => exact ⟨_, rfl, rfl, h⟩
      | some content =>
          refine ⟨_, rfl, rfl, ?_⟩
          dsimp only
          exact h.put hnameDst
  | write content name =>
      obtain ⟨hname, hzero⟩ := hok
      rw [Session.step, storeStep]
      split_ifs with hempty
      · exact ⟨_, rfl, rfl, h⟩
      · refine ⟨_, rfl, rfl, ?_⟩
        rw [save, Stringutils.cStr_of_not_mem hzero, hbackup]
        cases hold : d.lookup (sessionFile name) with
        | none =>
            dsimp only
            exact h.put hname
        | some old =>
            dsimp only
            exact (h.backup hname hold).put hname
  | read name =>
      have hname : NameOk (filename name) := hok
      refine ⟨_, rfl, ?_, h⟩
      rw [storeStep, h.holds.content name hname]
  | load name =>
      have hname : NameOk (filename name) := hok
      refine ⟨_, rfl, ?_, h⟩
      rw [storeStep, h.holds.content name hname]
  | list => exact ⟨_, rfl, rfl, h⟩
  | remove name order =>
      obtain ⟨horder, ⟨hslash, hname⟩, hother⟩ := hok
      have hfind := find?_remove h hslash hname (List.isPerm_iff.1 horder) hother
      have hname' : NameOk (filename name) := by rwa [filename_of_not_mem hslash]
      rw [Session.step, if_pos horder, hfind, storeStep]
      split_ifs with hsome
      · refine ⟨_, rfl, by rw [hsome], ?_⟩
        dsimp only
        exact h.erase hname' fun fname hmem heq => hother fname hmem (Or.inr (Or.inr heq))
      · refine ⟨_, rfl, by rw [Bool.not_eq_true] at hsome; rw [hsome], ?_⟩
        have hnone : t (sessionName name) = none := by simpa using hsome
        have hsame : Function.update t (sessionName name) none = t := by
          rw [← hnone, Function.update_eq_self]
        dsimp only
        rw [hsame]
        exact h

/-- In every run whose steps all meet the condition, the operations are those of a store of
sessions, by what their names stand for. -/
theorem tracks_of_admits (hbackup : ∀ file, backupName file = file ++ "~") {ops : List Op}
    (h : Machine.Admits (Session.step backupName) ok [] ops) :
    Machine.Tracks (Session.step backupName) storeStep Holds [] (fun _ => none) ops := by
  refine Machine.Admits.tracks (I := Inv) (fun d t op hinv hok => ?_) (fun d t h => h.holds) inv_nil h
  obtain ⟨⟨d', r⟩, hstep, hr, hinv'⟩ := hinv.step hbackup hok
  exact ⟨d', by rw [hstep, ← hr], hinv'⟩

/-- A session that is saved, copied, written over and read, and one that is removed. -/
theorem tracks_example :
    Machine.Tracks (Session.step (· ++ "~")) storeStep Holds [] (fun _ => none)
      [.saveAs "session1" "1", .copy "session1" "../s4", .write "2" "s4.json", .read "s4",
        .remove "session1" ["s4.json~", "s4.json", "session1.json"], .load "session1.json"] :=
  tracks_of_admits (fun _ => rfl) (by decide +kernel)

/-- Names with other extensions share a file. -/
theorem not_tracks_extensions :
    ¬Machine.Tracks (Session.step (· ++ "~")) storeStep Holds [] (fun _ => none)
      [.write "1" "show.v1", .write "2" "show.v2", .read "show.v1"] :=
  Machine.not_tracks_of_results_ne (by decide +kernel)

end Session
end LibSwitcher
