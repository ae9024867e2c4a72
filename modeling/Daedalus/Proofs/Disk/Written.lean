import Mathlib.Data.List.Nodup
import Daedalus.Command.Run
import Daedalus.Proofs.Disk.Directories

/-! # Written source files

What a disk holds after all sources of a script were written into a directory. A source file is at
the place to which its name leads from the directory; if several files are for one place, the last
one is there.

The main result is `run_decompile`: the files are all there, directly below the directory, exactly
if their names have no slashes and are different. Names are made from symbols, and nothing keeps
them apart: `sourceFiles_lost` is a script of whose three source files just two are there in the
end. -/

namespace Daedalus.Command

/-! ### Joined paths -/

/-- The pieces on both sides of a slash are split on their own. -/
theorem splitAtSlashes_append (left right : List Char) :
    splitAtSlashes (left ++ '/' :: right) = splitAtSlashes left ++ splitAtSlashes right := by
  induction left with
  | nil => rfl
  | cons c left ih =>
    rw [List.cons_append, splitAtSlashes, splitAtSlashes, ih]
    obtain ⟨piece, pieces, h⟩ := List.exists_cons_of_ne_nil (splitAtSlashes_ne_nil left)
    rw [h]
    by_cases hc : c = '/'
    · rw [if_pos hc, if_pos hc]
      rfl
    · rw [if_neg hc, if_neg hc]
      rfl

/-- No piece has a slash. -/
theorem not_mem_of_mem_splitAtSlashes {cs piece : List Char} (h : piece ∈ splitAtSlashes cs) :
    '/' ∉ piece := by
  induction cs generalizing piece with
  | nil =>
    obtain rfl := List.mem_singleton.mp h
    exact List.not_mem_nil
  | cons c cs ih =>
    rw [splitAtSlashes] at h
    by_cases hc : c = '/'
    · rw [if_pos hc] at h
      rcases List.mem_cons.mp h with rfl | h
      · exact List.not_mem_nil
      · exact ih h
    · -- Any other character belongs to the first piece.
      obtain ⟨first, pieces, hpieces⟩ := List.exists_cons_of_ne_nil (splitAtSlashes_ne_nil cs)
      rw [hpieces] at ih h
      rw [if_neg hc] at h
      rcases List.mem_cons.mp h with rfl | h
      · exact fun hmem => (List.mem_cons.mp hmem).elim (hc ∘ Eq.symm) (ih List.mem_cons_self)
      · exact ih (List.mem_cons_of_mem _ h)

/-- What has no slash is one piece. -/
theorem splitAtSlashes_of_not_mem {cs : List Char} (h : '/' ∉ cs) : splitAtSlashes cs = [cs] := by
  induction cs with
  | nil => rfl
  | cons c cs ih =>
    obtain ⟨hc, hcs⟩ := not_or.mp (mt List.mem_cons.mpr h)
    rw [splitAtSlashes, if_neg (Ne.symm hc), ih hcs]

/-- The parts of a path on both sides of a slash stand one behind the other. -/
theorem pathParts_append (left right : String) :
    pathParts (left ++ "/" ++ right) = pathParts left ++ pathParts right := by
  have hchars : (left ++ "/" ++ right).toList = left.toList ++ '/' :: right.toList := by
    simp
  rw [pathParts, hchars, splitAtSlashes_append, List.map_append, pathParts, pathParts]

/-- A name without a slash is one part. -/
theorem pathParts_of_not_mem {name : String} (h : '/' ∉ name.toList) : pathParts name = [name] := by
  rw [pathParts, splitAtSlashes_of_not_mem h, List.map_singleton, String.ofList_toList]

/-- No part of a path has a slash. -/
theorem not_mem_of_mem_pathParts {path part : String} (h : part ∈ pathParts path) :
    '/' ∉ part.toList := by
  obtain ⟨piece, hpiece, rfl⟩ := List.mem_map.mp h
  rw [String.toList_ofList]
  exact not_mem_of_mem_splitAtSlashes hpiece

/-- A name without a slash does not start at the root. -/
theorem isAbsolute_of_not_mem {name : String} (h : '/' ∉ name.toList) :
    isAbsolute name = false := by
  rw [isAbsolute]
  cases hname : name.toList with
  | nil => rfl
  | cons c cs =>
    have hc : c ≠ '/' := fun heq => h (by rw [hname, heq]; exact List.mem_cons_self)
    simp [hc]

/-- Whether a path starts at the root is told by its first part. -/
theorem isAbsolute_append {left : String} (h : left ≠ "") (right : String) :
    isAbsolute (left ++ right) = isAbsolute left := by
  rw [isAbsolute, isAbsolute, String.toList_append]
  cases hleft : left.toList with
  | nil => exact absurd (String.toList_eq_nil_iff.mp hleft) h
  | cons c cs => rfl

/-- A name without slashes is the last part of a path below a directory. -/
theorem exists_pathParts_joinPath {directory name : String} (hdirectory : directory ≠ "")
    (hslash : '/' ∉ name.toList) :
    ∃ front idle, pathParts directory = front ++ idle ∧ (∀ part ∈ idle, isIdle part = true) ∧
      pathParts (joinPath directory name) = front ++ [name] ∧
      isAbsolute (joinPath directory name) = isAbsolute directory := by
  have hempty : directory.isEmpty = false := by simpa using hdirectory
  rw [joinPath, isAbsolute_of_not_mem hslash, hempty]
  by_cases hlast : directory.toList.getLast? = some '/'
  · -- The directory ends with a slash, behind which there is one more part, the empty one.
    obtain ⟨front, hfront⟩ := List.getLast?_eq_some_iff.mp hlast
    have hwhole : directory = String.ofList front ++ "/" ++ "" := by
      rw [← String.toList_inj]
      simpa using hfront
    have hjoined : directory ++ name = String.ofList front ++ "/" ++ name := by
      rw [← String.toList_inj]
      simp [hfront]
    refine ⟨pathParts (String.ofList front), [""], ?_, by simp [isIdle], ?_, ?_⟩
    · rw [hwhole, pathParts_append]
      rfl
    · simp only [hlast, BEq.rfl, Bool.or_true, if_true, Bool.false_eq_true, if_false]
      rw [hjoined, pathParts_append, pathParts_of_not_mem hslash]
    · simp only [hlast, BEq.rfl, Bool.or_true, if_true, Bool.false_eq_true, if_false]
      exact isAbsolute_append hdirectory name
  · have hbeq : (directory.toList.getLast? == some '/') = false := by simpa using hlast
    refine ⟨pathParts directory, [], (List.append_nil _).symm, by simp, ?_, ?_⟩
    · simp only [hbeq, Bool.or_self, Bool.false_eq_true, if_false]
      rw [pathParts_append, pathParts_of_not_mem hslash]
    · simp only [hbeq, Bool.or_self, Bool.false_eq_true, if_false]
      rw [String.append_assoc]
      exact isAbsolute_append hdirectory _

namespace Disk

variable {disk changed final : Disk} {directory : String}

/-- Where something can be written, a name leads to a place directly below the directory exactly if
it has no slash. -/
theorem placeTo_joinPath_iff (disk : Disk) {name last : String} {outer : List String}
    (hdirectory : directory ≠ "") (hparts : pathParts (joinPath directory name) = outer ++ [last])
    (hlast : IsName last) :
    disk.placeTo (joinPath directory name) = disk.placeTo directory ++ [name] ↔
      '/' ∉ name.toList := by
  constructor
  · -- The place ends with the last part of the path, and no part of a path has a slash.
    intro hplace
    rw [placeTo, hparts, ← List.append_assoc, hlast.placeOf_concat] at hplace
    obtain ⟨-, hsame⟩ := List.append_inj' hplace rfl
    obtain rfl := List.singleton_inj.mp hsame
    exact not_mem_of_mem_pathParts (hparts ▸ List.mem_concat_self)
  · intro hslash
    -- The path of the directory and the joined path differ in the name alone, up to idle parts.
    obtain ⟨front, idle, hfront, hidle, hjoined, habsolute⟩ :=
      exists_pathParts_joinPath hdirectory hslash
    obtain ⟨-, hsame⟩ := List.append_inj' (hparts.symm.trans hjoined) rfl
    obtain rfl := List.singleton_inj.mp hsame
    have hbase : disk.base (joinPath directory last) = disk.base directory := by
      rw [base, base, habsolute]
    rw [placeTo, placeTo, hbase, hfront, hjoined, ← List.append_assoc, ← List.append_assoc,
      hlast.placeOf_concat, placeOf_append_idle _ hidle]

/-- The contents of the file at a place. -/
def contents? (disk : Disk) (place : List String) : Option ByteArray :=
  match disk.item? place with
  | some (.file contents) => some contents
  | _ => none

/-- The contents at a place are those of the file that is there. -/
theorem contents?_eq_some_iff {place : List String} {contents : ByteArray} :
    disk.contents? place = some contents ↔ disk.item? place = some (.file contents) := by
  rw [contents?]
  split
  · next found hfound => simp [hfound]
  · next hother => simpa using hother contents

/-- A file that is put at a place changes the contents at this place only. -/
theorem ChangesAt.contents?_file {place : List String} {contents : ByteArray}
    (h : ChangesAt disk changed place (.file contents)) (names : List String) :
    changed.contents? names = if names = place then some contents else disk.contents? names := by
  rw [contents?, h.item?]
  by_cases heq : names = place
  · rw [if_pos heq, if_pos heq]
  · rw [if_neg heq, if_neg heq, contents?]

/-- Making directories changes no contents. -/
theorem OnlyMakes.contents?_eq (h : OnlyMakes disk changed) (place : List String) :
    changed.contents? place = disk.contents? place := by
  refine Option.ext fun contents => ?_
  rw [contents?_eq_some_iff, contents?_eq_some_iff, h.file]

/-! ### Writing one file after the other -/

/-- The last one of the source files that are for a place when they are written into a directory. -/
def lastFor? (disk : Disk) (directory : String) (files : List SourceFile) (place : List String) :
    Option SourceFile :=
  files.reverse.find? fun file => disk.placeTo (joinPath directory file.name) = place

/-- The last file for a place is one of the later ones, or else the first one. -/
theorem lastFor?_cons (directory : String) (file : SourceFile) (files : List SourceFile)
    (place : List String) :
    disk.lastFor? directory (file :: files) place =
      (disk.lastFor? directory files place).or
        (if disk.placeTo (joinPath directory file.name) = place then some file else none) := by
  rw [lastFor?, List.reverse_cons, List.find?_append, lastFor?]
  congr 1
  by_cases h : disk.placeTo (joinPath directory file.name) = place <;> simp [h]

/-- Which file is the last one for a place does not depend on what is kept. -/
theorem Keeps.lastFor?_eq (h : Keeps disk changed) (directory : String) (files : List SourceFile)
    (place : List String) :
    changed.lastFor? directory files place = disk.lastFor? directory files place := by
  simp only [lastFor?, h.placeTo_eq]

/-- How the first one of some files is written. -/
theorem writeFiles_cons (disk : Disk) (directory : String) (file : SourceFile)
    (files : List SourceFile) :
    writeFiles fileSystem directory (file :: files) disk =
      match disk.write (joinPath directory file.name) file.text.toUTF8 with
      | .ok changed => writeFiles fileSystem directory files changed
      | .error fault =>
        (.failed (fileReport "write" (joinPath directory file.name) fault.message), disk) := by
  have hwrite : fileSystem.write (joinPath directory file.name) file.text disk =
      disk.settle (disk.write (joinPath directory file.name) file.text.toUTF8) := rfl
  rw [writeFiles, run_bind, hwrite]
  cases disk.write (joinPath directory file.name) file.text.toUTF8 <;> rfl

/-- **Writing files.** If all files were written, each place has the contents of the last file for
it, and other places are as they were; every path ends with a name. -/
theorem writeFiles_spec {files : List SourceFile} {outcome : Outcome}
    (h : writeFiles fileSystem directory files disk = (outcome, final)) (hcode : outcome.code = 0) :
    Keeps disk final ∧
      (∀ place, final.contents? place =
        ((disk.lastFor? directory files place).map (·.text.toUTF8)).or (disk.contents? place)) ∧
      ∀ file ∈ files, ∃ outer last,
        pathParts (joinPath directory file.name) = outer ++ [last] ∧ IsName last := by
  induction files generalizing disk with
  | nil =>
    cases h
    exact ⟨.refl _, fun _ => rfl, nofun⟩
  | cons file files ih =>
    rw [writeFiles_cons] at h
    cases hwrite : disk.write (joinPath directory file.name) file.text.toUTF8 with
    | error fault =>
      rw [hwrite] at h
      cases h
      cases hcode
    | ok changed =>
      simp only [hwrite] at h
      obtain ⟨hchange, hplace⟩ := changesAt_write hwrite
      have hkeeps : Keeps disk changed := hchange.keeps hplace
      -- The other files are written later, so their contents come before those of this one.
      obtain ⟨hfinal, hcontents, hnames⟩ := ih h
      refine ⟨hkeeps.trans hfinal, fun place => ?_, ?_⟩
      · rw [hcontents, hkeeps.lastFor?_eq, lastFor?_cons, hchange.contents?_file]
        cases disk.lastFor? directory files place with
        | some last => rfl
        | none =>
          by_cases heq : place = disk.placeTo (joinPath directory file.name)
          · rw [if_pos heq, if_pos heq.symm]
            rfl
          · rw [if_neg heq, if_neg (Ne.symm heq)]
            rfl
      · intro other hother
        rcases List.mem_cons.mp hother with rfl | hother
        · obtain ⟨outer, last, _, _, hparts, hlast, -⟩ := write_eq_ok hwrite
          exact ⟨_, last, hparts, hlast⟩
        · exact hnames other hother

/-- How source files are written: their directory is made first. -/
theorem writeSources_run (disk : Disk) (directory : String) (files : List SourceFile) :
    writeSources fileSystem directory files disk =
      match fileSystem.ensureDirectories directory disk with
      | (.ok (), made) => writeFiles fileSystem directory files made
      | (.error fault, made) =>
        (.failed (fileReport "create" directory fault.message), made) := by
  rw [writeSources, run_bind]
  obtain ⟨result, made⟩ := fileSystem.ensureDirectories directory disk
  cases result <;> rfl

/-- Where there is a directory, the path is not empty. -/
theorem ne_empty_of_isDirectory {path : String} (h : disk.isDirectory path = true) : path ≠ "" := by
  rintro rfl
  obtain ⟨hcheck, -⟩ := isDirectory_iff.mp h
  cases hcheck

/-- Each of the source files that are written into a directory has a place of its own directly below
it and is there with its text, and nothing changes at other places. -/
structure Stored (old new : Disk) (directory : String) (files : List SourceFile) : Prop where
  below : ∀ file ∈ files, old.placeTo (joinPath directory file.name) =
    old.placeTo directory ++ [file.name]
  apart : (files.map fun file => old.placeTo directory ++ [file.name]).Nodup
  contents : ∀ file ∈ files,
    new.contents? (old.placeTo directory ++ [file.name]) = some file.text.toUTF8
  others : ∀ place, (∀ file ∈ files, place ≠ old.placeTo directory ++ [file.name]) →
    new.contents? place = old.contents? place

/-- The last file for a place is one of the files that are for it. -/
theorem exists_lastFor? {files : List SourceFile} {file : SourceFile} {place : List String}
    (hfile : file ∈ files) (hplace : disk.placeTo (joinPath directory file.name) = place) :
    ∃ last ∈ files, disk.placeTo (joinPath directory last.name) = place ∧
      disk.lastFor? directory files place = some last := by
  cases hlast : disk.lastFor? directory files place with
  | none =>
    have hnone := List.find?_eq_none.mp hlast file (List.mem_reverse.mpr hfile)
    exact absurd hplace (by simpa using hnone)
  | some last =>
    exact ⟨last, List.mem_reverse.mp (List.mem_of_find?_eq_some hlast),
      by simpa using List.find?_some hlast, rfl⟩

/-- A place to which no file leads has no last file. -/
theorem lastFor?_eq_none {files : List SourceFile} {place : List String}
    (h : ∀ file ∈ files, disk.placeTo (joinPath directory file.name) ≠ place) :
    disk.lastFor? directory files place = none :=
  List.find?_eq_none.mpr fun file hfile => by simpa using h file (List.mem_reverse.mp hfile)

/-- **Files of their own.** Where each place has the contents of the last file for it, all files are
there directly below the directory exactly if their names lead there and are different. -/
theorem stored_iff {files : List SourceFile}
    (hcontents : ∀ place, final.contents? place =
      ((disk.lastFor? directory files place).map (·.text.toUTF8)).or (disk.contents? place)) :
    Stored disk final directory files ↔
      (∀ file ∈ files, disk.placeTo (joinPath directory file.name) =
        disk.placeTo directory ++ [file.name]) ∧ (files.map SourceFile.name).Nodup := by
  have hplaces : files.map (fun file => disk.placeTo directory ++ [file.name]) =
      (files.map SourceFile.name).map (disk.placeTo directory ++ [·]) := by
    rw [List.map_map]
    rfl
  -- Directly below the directory, different names are different places.
  have hinjective : Function.Injective (disk.placeTo directory ++ [·]) := fun _ _ h =>
    List.singleton_inj.mp (List.append_cancel_left h)
  constructor
  · intro h
    exact ⟨h.below, (List.nodup_map_iff hinjective).mp (hplaces ▸ h.apart)⟩
  · rintro ⟨hbelow, hnodup⟩
    refine ⟨hbelow, hplaces ▸ (List.nodup_map_iff hinjective).mpr hnodup, ?_, ?_⟩
    · intro file hfile
      -- The last file for the place has the same name, so it is the file itself.
      obtain ⟨last, hlast, hsame, hfound⟩ := exists_lastFor? hfile (hbelow file hfile)
      have hname : last.name = file.name := hinjective ((hbelow last hlast).symm.trans hsame)
      obtain rfl := List.inj_on_of_nodup_map hnodup hlast hfile hname
      rw [hcontents, hfound]
      rfl
    · intro place hplace
      have hnone : disk.lastFor? directory files place = none :=
        lastFor?_eq_none fun file hfile => hbelow file hfile ▸ (hplace file hfile).symm
      rw [hcontents, hnone]
      rfl

/-- **Writing source files.** If source files were written into a directory, its path leads to a
directory and each place has the contents of the last file for it; all files are there, directly
below the directory, exactly if their names have no slashes and are different. -/
theorem writeSources_spec {files : List SourceFile} {outcome : Outcome}
    (h : writeSources fileSystem directory files disk = (outcome, final))
    (hcode : outcome.code = 0) :
    final.isDirectory directory = true ∧
      (∀ place, final.contents? place =
        ((disk.lastFor? directory files place).map (·.text.toUTF8)).or (disk.contents? place)) ∧
      (Stored disk final directory files ↔
        (∀ file ∈ files, '/' ∉ file.name.toList) ∧ (files.map SourceFile.name).Nodup) := by
  rw [writeSources_run] at h
  cases hmake : fileSystem.ensureDirectories directory disk with
  | mk result made =>
    rw [hmake] at h
    cases result with
    | error fault =>
      cases h
      cases hcode
    | ok =>
      dsimp only at h
      obtain ⟨hmakes, hdirectory⟩ := ensureDirectories_spec hmake
      have hmade : made.isDirectory directory = true := hdirectory rfl
      obtain ⟨hkeeps, hcontents, hnames⟩ := writeFiles_spec h hcode
      -- Making directories changes no contents, so the files may be compared with the disk as it
      -- was.
      have hlaw : ∀ place, final.contents? place =
          ((disk.lastFor? directory files place).map (·.text.toUTF8)).or
            (disk.contents? place) := by
        intro place
        rw [hcontents, hmakes.lastFor?_eq, hmakes.contents?_eq]
      refine ⟨hkeeps.isDirectory hmade, hlaw, (stored_iff hlaw).trans (and_congr_left' ?_)⟩
      refine forall₂_congr fun file hfile => ?_
      obtain ⟨outer, last, hparts, hlast⟩ := hnames file hfile
      exact disk.placeTo_joinPath_iff (ne_empty_of_isDirectory hmade) hparts hlast

end Disk

/-! ### The command -/

/-- How all sources of a script are recovered into files. -/
theorem decompile_run (disk : Disk) (path out : String) (indent : Nat) (bodyOnly : Bool) :
    Request.run Disk.fileSystem ⟨path, none, .decompile out indent bodyOnly⟩ disk =
      match disk.read path with
      | .error fault => (.failed (fileReport "read" path fault.message), disk)
      | .ok image =>
        match Script.ofImage image.toList with
        | .error fault => (.failed (fileReport "load" path fault.message), disk)
        | .ok script =>
          writeSources Disk.fileSystem out
            (script.sources { indent, declarations := !bodyOnly }) disk := by
  have hread : Disk.fileSystem.read path disk = (disk.read path, disk) := rfl
  rw [Request.run, Disk.run_bind, hread]
  cases disk.read path with
  | error fault => rfl
  | ok image =>
    dsimp only
    cases Script.ofImage image.toList with
    | error fault => rfl
    | ok script => rfl

/-- **Recovering all sources into files.** If the request to recover all sources of a script ends with
code 0, the script was read, the output path leads to a directory, and each place on the disk has
the contents of the last source file for it; all other places are as they were. Every source file is
there, directly below the directory and at a place of its own, exactly if no name of a source file
has a slash and no two of them have one name. -/
theorem run_decompile {disk final : Disk} {path out : String} {indent : Nat} {bodyOnly : Bool}
    {outcome : Outcome}
    (hrun : Request.run Disk.fileSystem ⟨path, none, .decompile out indent bodyOnly⟩ disk =
      (outcome, final)) (hcode : outcome.code = 0) :
    ∃ image script files, disk.read path = .ok image ∧ Script.ofImage image.toList = .ok script ∧
      files = script.sources { indent, declarations := !bodyOnly } ∧
      final.isDirectory out = true ∧
      (∀ place, final.contents? place =
        ((disk.lastFor? out files place).map (·.text.toUTF8)).or (disk.contents? place)) ∧
      (Disk.Stored disk final out files ↔
        (∀ file ∈ files, '/' ∉ file.name.toList) ∧ (files.map SourceFile.name).Nodup) := by
  -- A run that could not read or load the script does not end with code 0.
  rw [decompile_run] at hrun
  cases hread : disk.read path with
  | error fault =>
    rw [hread] at hrun
    cases hrun
    cases hcode
  | ok image =>
    simp only [hread] at hrun
    cases hload : Script.ofImage image.toList with
    | error fault =>
      rw [hload] at hrun
      cases hrun
      cases hcode
    | ok script =>
      simp only [hload] at hrun
      refine ⟨image, script, _, rfl, hload, rfl, ?_⟩
      generalize script.sources { indent, declarations := !bodyOnly } = files at hrun ⊢
      exact Disk.writeSources_spec hrun hcode

/-- A disk with the image of a script that declares two symbols, each in a file of its own. -/
def twoFiles (name : String) : Disk where
  root := [("script.dat", .file ⟨(Script.imageOf 50 [0, 1]
    [{ name := "A", kind := .int, value := .ints [1] },
      { name, kind := .string, value := .strings ["x"], location := { file := 1 } }] []).toArray⟩)]

/-- The source files of the script on a disk. -/
def sourcesOn (disk : Disk) : Option (List SourceFile) :=
  (disk.read "script.dat").toOption.bind fun image =>
    (Script.ofImage image.toList).toOption.map (·.sources {})

/-- The source files of a script that is read and loaded. -/
theorem sourcesOn_eq {disk : Disk} {image : ByteArray} {script : Script}
    (hread : disk.read "script.dat" = .ok image)
    (hload : Script.ofImage image.toList = .ok script) :
    sourcesOn disk = some (script.sources {}) := by
  rw [sourcesOn, hread]
  simp [Except.toOption, hload]

/-- The end of the request to recover the sources of the script on a disk into its root. -/
def decompiled (disk : Disk) : Outcome × Disk :=
  Request.run Disk.fileSystem ⟨"script.dat", none, .decompile "." 4 false⟩ disk

/-- Two source files with different names are both there in the end, with the list of their names.
-/
theorem stored_twoFiles :
    (decompiled (twoFiles "B")).1.code = 0 ∧
      Disk.Stored (twoFiles "B") (decompiled (twoFiles "B")).2 "."
        [⟨"A.d", "var int A;\n"⟩, ⟨"B.d", "var string B;\n"⟩,
          ⟨"Gothic.src", "A.d\nB.d\n"⟩] := by
  have hcode : (decompiled (twoFiles "B")).1.code = 0 := by
    decide +kernel
  have hrun : Request.run Disk.fileSystem ⟨"script.dat", none, .decompile "." 4 false⟩
      (twoFiles "B") = ((decompiled (twoFiles "B")).1, (decompiled (twoFiles "B")).2) := rfl
  have hsources : sourcesOn (twoFiles "B") =
      some [⟨"A.d", "var int A;\n"⟩, ⟨"B.d", "var string B;\n"⟩,
        ⟨"Gothic.src", "A.d\nB.d\n"⟩] := by
    decide +kernel
  -- The sources are evaluated by themselves and found again in the run.
  obtain ⟨image, script, files, hread, hload, hfiles, -, -, hstored⟩ :=
    run_decompile hrun hcode
  obtain rfl := hfiles.trans (Option.some.inj ((sourcesOn_eq hread hload).symm.trans hsources))
  exact ⟨hcode, hstored.mpr (by decide +kernel)⟩

/-- Only the names at the root lead to files there. -/
theorem mem_of_contents? {disk : Disk} {name : String} {contents : ByteArray}
    (h : disk.contents? [name] = some contents) : name ∈ disk.root.map Prod.fst := by
  have hitem := Disk.contents?_eq_some_iff.mp h
  rw [Disk.item?, Node.item?_cons] at hitem
  obtain ⟨node, hlookup, -⟩ := Option.bind_eq_some_iff.mp hitem
  obtain ⟨front, back, hroot, -⟩ := List.lookup_eq_some_iff.mp hlookup
  exact List.mem_map.mpr ⟨(name, node), by simp [hroot], rfl⟩

/-- The two source files have one name: the run ends with code 0, and the text of the first one is
in no file of the directory. -/
theorem sourceFiles_lost :
    (decompiled (twoFiles "A")).1.code = 0 ∧
      sourcesOn (twoFiles "A") =
        some [⟨"A.d", "var int A;\n"⟩, ⟨"A.d", "var string A;\n"⟩,
          ⟨"Gothic.src", "A.d\nA.d\n"⟩] ∧
      ∀ name, (decompiled (twoFiles "A")).2.contents? [name] ≠
        some "var int A;\n".toUTF8 := by
  refine ⟨by decide +kernel, by decide +kernel, fun name hcontents => ?_⟩
  -- There are three files in the end, and none of them has the text.
  have hroot : (decompiled (twoFiles "A")).2.root.map Prod.fst =
      ["Gothic.src", "A.d", "script.dat"] := by
    decide +kernel
  have hother : ∀ name ∈ ["Gothic.src", "A.d", "script.dat"],
      (decompiled (twoFiles "A")).2.contents? [name] ≠
        some "var int A;\n".toUTF8 := by
    decide +kernel
  exact hother name (hroot ▸ mem_of_contents? hcontents) hcontents

end Daedalus.Command
