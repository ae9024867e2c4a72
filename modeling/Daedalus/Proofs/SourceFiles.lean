import Mathlib.Data.List.Nodup
import Mathlib.Data.List.Induction
import Daedalus.Recovery.Sources

/-! # Source files and their symbols

Source files grow symbol by symbol. What has grown is told from the list of symbols alone: a file
for each file number among them, made of the symbols with that number.

The main result is `Script.sources_eq`: the sources of a script are these files, no top-level symbol
is lost or written twice, a symbol with a body contributes what it is recovered as alone, and one
without a body its declaration. -/

namespace Daedalus

open Text

/-! ### Grouping -/

/-- The numbers of the files in which symbols are declared, in the order in which they first occur.
-/
def fileNumbers (syms : List Symbol) : List UInt32 := (syms.map (·.location.file)).eraseDups

/-- The symbols that are declared in the file with the given number, in their order. -/
def declaredIn (number : UInt32) (syms : List Symbol) : List Symbol :=
  syms.filter (·.location.file == number)

/-- A file number is one of the symbols'. -/
theorem mem_fileNumbers {number : UInt32} {syms : List Symbol} :
    number ∈ fileNumbers syms ↔ ∃ sym ∈ syms, sym.location.file = number := by
  rw [fileNumbers, List.mem_eraseDups, List.mem_map]

/-- The symbols of a file are those with its number. -/
theorem mem_declaredIn {number : UInt32} {syms : List Symbol} {sym : Symbol} :
    sym ∈ declaredIn number syms ↔ sym ∈ syms ∧ sym.location.file = number := by
  rw [declaredIn, List.mem_filter, beq_iff_eq]

/-- A file number is added at the end if no symbol before has it. -/
theorem fileNumbers_concat (syms : List Symbol) (sym : Symbol) :
    fileNumbers (syms ++ [sym]) =
      if sym.location.file ∈ fileNumbers syms then fileNumbers syms
      else fileNumbers syms ++ [sym.location.file] := by
  rw [fileNumbers, List.map_append, List.eraseDups_append, List.map_singleton]
  by_cases h : sym.location.file ∈ fileNumbers syms
  · have hmem := List.mem_eraseDups.mp h
    rw [if_pos h, List.removeAll, List.filter_cons_of_neg (by simpa using hmem)]
    exact List.append_nil _
  · have hmem := mt List.mem_eraseDups.mpr h
    rw [if_neg h, List.removeAll, List.filter_cons_of_pos (by simpa using hmem)]
    rfl

/-- A symbol at the end is the last one of its file. -/
theorem declaredIn_concat (number : UInt32) (syms : List Symbol) (sym : Symbol) :
    declaredIn number (syms ++ [sym]) =
      declaredIn number syms ++ if sym.location.file = number then [sym] else [] := by
  simp only [declaredIn, List.filter_append]
  by_cases h : sym.location.file = number <;> simp [h]

/-- No symbols are declared in a file whose number does not occur. -/
theorem declaredIn_eq_nil {number : UInt32} {syms : List Symbol} (h : number ∉ fileNumbers syms) :
    declaredIn number syms = [] := by
  refine List.eq_nil_iff_forall_not_mem.mpr fun sym hsym => h ?_
  obtain ⟨hmem, hfile⟩ := mem_declaredIn.mp hsym
  exact mem_fileNumbers.mpr ⟨sym, hmem, hfile⟩

/-- A file whose number occurs has a first symbol. -/
theorem exists_declaredIn_eq_cons {number : UInt32} {syms : List Symbol}
    (h : number ∈ fileNumbers syms) : ∃ first rest, declaredIn number syms = first :: rest := by
  obtain ⟨sym, hsym, hfile⟩ := mem_fileNumbers.mp h
  exact List.exists_cons_of_ne_nil (List.ne_nil_of_mem (mem_declaredIn.mpr ⟨hsym, hfile⟩))

/-- No file number is listed twice. -/
theorem nodup_fileNumbers (syms : List Symbol) : (fileNumbers syms).Nodup := by
  induction syms using List.reverseRecOn with
  | nil => exact List.nodup_nil
  | append_singleton syms sym ih =>
    rw [fileNumbers_concat]
    by_cases h : sym.location.file ∈ fileNumbers syms
    · rwa [if_pos h]
    · rw [if_neg h]
      simpa [List.nodup_append] using ⟨ih, fun number hnumber heq => h (heq ▸ hnumber)⟩

/-- Lists of symbols by their file numbers, put one behind the other, hold each symbol as often as
it occurs. -/
theorem flatMap_declaredIn_perm {numbers : List UInt32} (hnodup : numbers.Nodup)
    {syms : List Symbol} (h : ∀ sym ∈ syms, sym.location.file ∈ numbers) :
    (numbers.flatMap (declaredIn · syms)).Perm syms := by
  induction numbers generalizing syms with
  | nil =>
    obtain rfl := List.eq_nil_iff_forall_not_mem.mpr fun sym hsym => absurd (h sym hsym) (by simp)
    exact .nil
  | cons number numbers ih =>
    obtain ⟨hnumber, hnodup⟩ := List.nodup_cons.mp hnodup
    -- The other files are made of the symbols that the first one does not have.
    let others := syms.filter fun sym => !(sym.location.file == number)
    have hothers : numbers.flatMap (declaredIn · syms) = numbers.flatMap (declaredIn · others) := by
      refine List.flatMap_congr fun n hn => ?_
      simp only [declaredIn, others, List.filter_filter]
      refine List.filter_congr fun sym _ => ?_
      by_cases hsym : sym.location.file = n
      · have hne : n ≠ number := fun h => hnumber (h ▸ hn)
        simp [hsym, hne]
      · simp [hsym]
    have hperm : (numbers.flatMap (declaredIn · others)).Perm others := by
      refine ih hnodup fun sym hsym => ?_
      obtain ⟨hmem, hne⟩ := List.mem_filter.mp hsym
      rcases List.mem_cons.mp (h sym hmem) with hfile | hfile
      · simp [hfile] at hne
      · exact hfile
    rw [List.flatMap_cons, hothers]
    exact (hperm.append_left _).trans (List.filter_append_perm _ syms)

/-! ### Growing files -/

/-- A text for a file that is there is put behind its text. -/
theorem addToFile_of_mem {numbers : List UInt32} (file : UInt32 → SourceFile) {number : UInt32}
    (name text : String) (hnodup : numbers.Nodup) (h : number ∈ numbers) :
    addToFile number name text (numbers.map fun n => (n, file n)) =
      numbers.map fun n =>
        (n, if n = number then { file n with text := (file n).text ++ text } else file n) := by
  induction numbers with
  | nil => cases h
  | cons n numbers ih =>
    obtain ⟨hn, hnodup⟩ := List.nodup_cons.mp hnodup
    rw [List.map_cons, addToFile, List.map_cons]
    by_cases heq : n = number
    · -- The number does not occur again, so the other files stay as they are.
      subst heq
      rw [if_pos rfl, if_pos rfl]
      congr 1
      refine List.map_congr_left fun m hm => ?_
      rw [if_neg fun h : m = n => hn (h ▸ hm)]
    · rw [if_neg heq, if_neg heq, ih hnodup ((List.mem_cons.mp h).resolve_left (Ne.symm heq))]

/-- A text for a file that is not there becomes the last file. -/
theorem addToFile_of_not_mem {numbers : List UInt32} (file : UInt32 → SourceFile) {number : UInt32}
    (name text : String) (h : number ∉ numbers) :
    addToFile number name text (numbers.map fun n => (n, file n)) =
      (numbers.map fun n => (n, file n)) ++ [(number, ⟨name, text⟩)] := by
  induction numbers with
  | nil => rfl
  | cons n numbers ih =>
    obtain ⟨hne, hnumbers⟩ := not_or.mp (mt List.mem_cons.mpr h)
    rw [List.map_cons, addToFile, if_neg (Ne.symm hne), ih hnumbers, List.cons_append]

namespace Script

variable (script : Script) (options : Options)

/-- The source file that is made of the given symbols: named after the first one, with what each
contributes in turn. -/
def fileOf (syms : List Symbol) : SourceFile where
  name := (syms.head?.map (·.name ++ ".d")).getD ""
  text := String.join (syms.map (script.segment · options))

/-- The source file with the given number. -/
def sourceFile (number : UInt32) : SourceFile :=
  script.fileOf options (declaredIn number script.topLevel)

/-- One more symbol in a file that is there already. -/
theorem fileOf_concat {syms : List Symbol} (h : syms ≠ []) (sym : Symbol) :
    script.fileOf options (syms ++ [sym]) =
      { script.fileOf options syms with
        text := (script.fileOf options syms).text ++ script.segment sym options } := by
  obtain ⟨first, rest, rfl⟩ := List.exists_cons_of_ne_nil h
  simp [fileOf, String.join_append, String.join_cons, String.append_assoc]

/-- The files that are made of the given symbols, by their numbers. -/
def filesOf (syms : List Symbol) : List (UInt32 × SourceFile) :=
  (fileNumbers syms).map fun number => (number, script.fileOf options (declaredIn number syms))

/-- **One more symbol.** Adding what a symbol contributes to the files of the symbols before it
gives the files of all of them. -/
theorem addToFile_filesOf (syms : List Symbol) (sym : Symbol) :
    addToFile sym.location.file (sym.name ++ ".d") (script.segment sym options)
        (script.filesOf options syms) =
      script.filesOf options (syms ++ [sym]) := by
  by_cases h : sym.location.file ∈ fileNumbers syms
  · rw [filesOf, addToFile_of_mem _ _ _ (nodup_fileNumbers syms) h, filesOf, fileNumbers_concat,
      if_pos h]
    refine List.map_congr_left fun number hnumber => ?_
    rw [declaredIn_concat]
    by_cases heq : number = sym.location.file
    · -- The file has a symbol already, so it keeps its name.
      obtain ⟨first, rest, hcons⟩ := exists_declaredIn_eq_cons hnumber
      rw [if_pos heq, if_pos heq.symm, fileOf_concat _ _ (hcons ▸ List.cons_ne_nil _ _)]
    · rw [if_neg heq, if_neg (Ne.symm heq), List.append_nil]
  · rw [filesOf, addToFile_of_not_mem _ _ _ h, filesOf, fileNumbers_concat, if_neg h,
      List.map_append]
    congr 1
    · refine List.map_congr_left fun number hnumber => ?_
      -- The other files hold no symbol with this number.
      have hne : sym.location.file ≠ number := fun heq => h (heq ▸ hnumber)
      rw [declaredIn_concat, if_neg hne, List.append_nil]
    · simp [declaredIn_concat, declaredIn_eq_nil h, fileOf, String.join_cons]

/-- The files of a script are the files that are made of its top-level symbols. -/
theorem numberedSources_eq :
    script.numberedSources options = script.filesOf options script.topLevel := by
  rw [numberedSources]
  induction script.topLevel using List.reverseRecOn with
  | nil => rfl
  | append_singleton syms sym ih =>
    rw [List.foldl_append, ih, List.foldl_cons, List.foldl_nil, addToFile_filesOf]

/-! ### What a symbol contributes -/

/-- Which symbols have a body: those that are no members and not external, if they are prototypes, or
functions or instances with the const flag. -/
theorem hasBody_eq_true_iff {sym : Symbol} :
    sym.hasBody = true ↔ sym.isMember = false ∧ sym.isExternal = false ∧
      (sym.kind = .prototype ∨ (sym.kind = .func ∨ sym.kind = .inst) ∧ sym.isConst = true) := by
  rw [Symbol.hasBody, Symbol.definesBody, Bool.and_eq_true, Bool.and_eq_true, Bool.not_eq_true',
    Bool.not_eq_true']
  cases sym.kind <;> simp

/-- What is written for a symbol whose body cannot be recovered: its declaration, with the reason as
a comment. -/
def failedText (sym : Symbol) (fault : Fault) : String :=
  script.declaration sym ++ " \x7b\n" ++ spaces options.indent ++ "// decompilation failed: " ++
    fault.message ++ "\n\x7d\n"

/-- A symbol with a body contributes what it is recovered as alone, and else the reason why it is
not. -/
theorem segment_of_hasBody {sym : Symbol} (h : sym.hasBody = true) :
    script.segment sym options =
      (match script.decompile sym { options with declarations := true } with
        | .ok text => text
        | .error fault => script.failedText options sym fault) ++ "\n" := by
  rw [segment, if_pos h, decompile]
  cases script.decompileBody sym options.indent options.limit with
  | ok body => rfl
  | error fault =>
    have hend : "\n" ++ "\x7d\n" = "\n\x7d\n" := rfl
    simp [withBody, failedText, String.append_assoc, ← hend]

/-- A symbol without a body contributes its declaration, which ends with a semicolon if it is a
function or prototype. -/
theorem segment_of_not_hasBody {sym : Symbol} (h : sym.hasBody = false) :
    script.segment sym options = script.declaration sym ++
      (if sym.kind = .func ∨ sym.kind = .prototype then ";" else "") ++ "\n" := by
  rw [segment, if_neg (by simp [h])]
  split
  · rfl
  · rw [String.append_empty]

/-! ### All sources -/

/-- The sources of a script are complete: every top-level symbol is in one of them, at its place. -/
structure SourcesComplete : Prop where
  /-- The top-level symbols stand in table order. -/
  order : script.topLevel.Sublist script.symbols.toList
  /-- A symbol is at top level if it is not made up by the compiler and its name has no dot, unless
  it is the instance that the compiler adds by name. -/
  topLevel : ∀ sym, sym ∈ script.topLevel ↔ sym ∈ script.symbols.toList ∧
    sym.isGenerated = false ∧ '.' ∉ sym.name.toList ∧ sym.name ≠ "$INSTANCE_HELP"
  /-- There is one file for each number, in the order in which the numbers first occur, and the list
  of the names of these files. -/
  files : script.sources options =
    (fileNumbers script.topLevel).map (script.sourceFile options) ++
      [⟨"Gothic.src", unlines ((fileNumbers script.topLevel).map
        fun number => (script.sourceFile options number).name)⟩]
  /-- The numbers are those of the top-level symbols, each once. -/
  numbers : (fileNumbers script.topLevel).Nodup ∧
    ∀ number, number ∈ fileNumbers script.topLevel ↔
      ∃ sym ∈ script.topLevel, sym.location.file = number
  /-- Each top-level symbol is in exactly one file, as often as it is in the table. -/
  once :
    ((fileNumbers script.topLevel).flatMap (declaredIn · script.topLevel)).Perm script.topLevel
  /-- A file is named after its first symbol. -/
  names : ∀ number ∈ fileNumbers script.topLevel,
    ∃ first rest, declaredIn number script.topLevel = first :: rest ∧
      (script.sourceFile options number).name = first.name ++ ".d"
  /-- A file holds what its symbols contribute, in table order. -/
  texts : ∀ number before sym after, declaredIn number script.topLevel = before ++ sym :: after →
    (script.sourceFile options number).text =
      String.join (before.map (script.segment · options)) ++ script.segment sym options ++
        String.join (after.map (script.segment · options))
  /-- A symbol has a body if it is neither a member nor external and is a prototype, or a function or
  an instance with the const flag. -/
  bodies : ∀ sym : Symbol, sym.hasBody = true ↔ sym.isMember = false ∧ sym.isExternal = false ∧
    (sym.kind = .prototype ∨ (sym.kind = .func ∨ sym.kind = .inst) ∧ sym.isConst = true)
  /-- A symbol with a body contributes what it is recovered as alone, in its declaration. -/
  recovered : ∀ sym, sym.hasBody = true →
    ∀ text, script.decompile sym { options with declarations := true } = .ok text →
      script.segment sym options = text ++ "\n"
  /-- Where that fails, the reason stands in its place. -/
  failed : ∀ sym, sym.hasBody = true →
    ∀ fault, script.decompile sym { options with declarations := true } = .error fault →
      script.segment sym options = script.failedText options sym fault ++ "\n"
  /-- A symbol without a body contributes its declaration. -/
  declared : ∀ sym, sym.hasBody = false →
    script.segment sym options = script.declaration sym ++
      (if sym.kind = .func ∨ sym.kind = .prototype then ";" else "") ++ "\n"

/-- **All sources.** The sources of a script hold what each top-level symbol contributes, once and in
table order, whatever becomes of the symbols around it. -/
theorem sources_eq : script.SourcesComplete options where
  order := List.filter_sublist
  topLevel sym := by
    simp only [Script.topLevel, List.mem_filter, Symbol.isTopLevel, Bool.and_eq_true,
      Bool.not_eq_true', List.contains_eq_mem, decide_eq_false_iff_not, bne_iff_ne, and_assoc]
  files := by
    rw [sources, numberedSources_eq, filesOf, List.map_map, List.map_map]
    rfl
  numbers := ⟨nodup_fileNumbers _, fun _ => mem_fileNumbers⟩
  once := flatMap_declaredIn_perm (nodup_fileNumbers _) fun sym hsym =>
    mem_fileNumbers.mpr ⟨sym, hsym, rfl⟩
  names number hnumber := by
    -- A file is there because of a symbol, and the first one names it.
    obtain ⟨first, rest, hcons⟩ := exists_declaredIn_eq_cons hnumber
    refine ⟨first, rest, hcons, ?_⟩
    rw [sourceFile, hcons]
    rfl
  texts number before sym after hsplit := by
    rw [sourceFile, hsplit]
    simp only [fileOf, List.map_append, List.map_cons, String.join_append, String.join_cons,
      String.append_assoc]
  bodies _ := hasBody_eq_true_iff
  recovered sym hbody text htext := by rw [segment_of_hasBody _ _ hbody, htext]
  failed sym hbody fault hfault := by rw [segment_of_hasBody _ _ hbody, hfault]
  declared _ := segment_of_not_hasBody _ _

/-- A function whose code is missing. -/
def brokenSymbol : Symbol :=
  { index := 1, name := "BROKEN", kind := .func, flags := Flags.none.add .const, address := 7,
    location := { file := 1 } }

/-- A function in the same file that just returns. -/
def soundSymbol : Symbol :=
  { index := 3, name := "SOUND", kind := .func, flags := Flags.none.add .const,
    location := { file := 1 } }

/-- A function of the host in the same file. -/
def hostSymbol : Symbol :=
  { index := 4, name := "HOST", kind := .func, flags := (Flags.none.add .const).add .external,
    location := { file := 1 } }

/-- The symbols that are left out: a local of a function, a literal, and an instance known by its
name. -/
def hiddenSymbols : List Symbol :=
  [{ index := 5, name := "SOUND.N", kind := .int, location := { file := 1 } },
    { index := 6, name := "TEXT", kind := .string, flags := Flags.none.add .generated },
    { index := 7, name := "$INSTANCE_HELP", kind := .inst, flags := Flags.none.add .const }]

/-- A script with two files whose symbols alternate. -/
def alternating : Script :=
  .ofParts #[0x3c] ([{ name := "FIRST", kind := .int }, brokenSymbol,
    { name := "LAST", kind := .int }, soundSymbol, hostSymbol] ++ hiddenSymbols)

/-- The file of the functions: one that is recovered, between one that is not and one that has no
body. -/
def functionsText : String :=
  "func void BROKEN() \x7b\n" ++
    "    // decompilation failed: pc=0x7 is outside the code segment (length 1)\n" ++ "\x7d\n\n" ++
    "func void SOUND() \x7b\n\x7d\n\n" ++ "extern func void HOST();\n"

/-- Two files, of which one has symbols before and behind those of the other. A body cannot be read,
one symbol has no body, and some symbols are left out. -/
theorem sources_alternating :
    (brokenSymbol.hasBody = true ∧
        alternating.decompile brokenSymbol {} = .error (.outOfBounds 7 1)) ∧
      (soundSymbol.hasBody = true ∧
        alternating.decompile soundSymbol {} = .ok "func void SOUND() \x7b\n\x7d\n") ∧
      hostSymbol.hasBody = false ∧
      (∀ sym ∈ hiddenSymbols, sym ∈ alternating.symbols.toList ∧ sym ∉ alternating.topLevel) ∧
      alternating.sources {} =
        [⟨"FIRST.d", "var int FIRST;\nvar int LAST;\n"⟩, ⟨"BROKEN.d", functionsText⟩,
          ⟨"Gothic.src", "FIRST.d\nBROKEN.d\n"⟩] := by
  have hbroken : alternating.decompile brokenSymbol {} = .error (.outOfBounds 7 1) := by
    decide +kernel
  have hsound : alternating.decompile soundSymbol {} = .ok "func void SOUND() \x7b\n\x7d\n" := by
    decide +kernel
  have hhost : hostSymbol.hasBody = false := by decide
  have hhidden : ∀ sym ∈ hiddenSymbols, sym ∈ alternating.symbols.toList ∧
      (sym.isGenerated = true ∨ '.' ∈ sym.name.toList ∨ sym.name = "$INSTANCE_HELP") := by
    decide +kernel
  have hnumbers : fileNumbers alternating.topLevel = [0, 1] := by decide +kernel
  have hdeclared : declaredIn 1 alternating.topLevel =
      [brokenSymbol] ++ soundSymbol :: [hostSymbol] := by decide +kernel
  have hcomplete := sources_eq alternating {}
  -- The text is put together from what the three symbols contribute.
  have htext : (alternating.sourceFile {} 1).text = functionsText := by
    rw [hcomplete.texts 1 _ _ _ hdeclared, List.map_singleton, List.map_singleton,
      hcomplete.failed brokenSymbol rfl _ hbroken, hcomplete.recovered soundSymbol rfl _ hsound,
      hcomplete.declared hostSymbol hhost]
    decide +kernel
  have hfirst : alternating.sourceFile {} 0 = ⟨"FIRST.d", "var int FIRST;\nvar int LAST;\n"⟩ := by
    decide +kernel
  have hname : (alternating.sourceFile {} 1).name = "BROKEN.d" := by decide +kernel
  refine ⟨⟨rfl, hbroken⟩, ⟨rfl, hsound⟩, hhost, fun sym hsym => ?_, ?_⟩
  · obtain ⟨hmem, hhidden⟩ := hhidden sym hsym
    refine ⟨hmem, fun htop => ?_⟩
    obtain ⟨-, hgenerated, hdot, hhelp⟩ := (hcomplete.topLevel sym).mp htop
    rcases hhidden with h | h | h
    · exact absurd (hgenerated.symm.trans h) (by decide)
    · exact hdot h
    · exact hhelp h
  · rw [hcomplete.files, hnumbers, List.map_cons, List.map_singleton, List.map_cons,
      List.map_singleton, hfirst, hname, ← htext, ← hname]
    decide +kernel

end Script

end Daedalus
