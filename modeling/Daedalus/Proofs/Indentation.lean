import Daedalus.Proofs.Image.RoundTrip
import Daedalus.Proofs.Nesting.Lines

/-! # Indentation

The spaces in front of a body stand in front of each of its lines and nowhere else. Every line of a
block is written with the indentation of the block, and no line is broken by a name or a string. The
final return is told by its line without blanks, so it is left out at every indentation alike.

The main result is `Script.decompileBody_indented`: the text of a body at an indentation is its text
without one, with the spaces put in front of every line. -/

namespace Daedalus

open Text

/-! ### Texts with spaces in front of their lines -/

/-- Characters with spaces in front of every line; `fresh` says whether they start a line. -/
def indentedFrom (indent : Nat) : Bool → List Char → List Char
  | _, [] => []
  | fresh, c :: cs =>
    (if fresh then List.replicate indent ' ' else []) ++ c :: indentedFrom indent (c == '\n') cs

/-- A text with spaces put in front of every line. -/
def indented (indent : Nat) (text : String) : String :=
  String.ofList (indentedFrom indent true text.toList)

/-- Within a line nothing is indented up to its end. -/
theorem indentedFrom_false (indent : Nat) {line : List Char} (h : '\n' ∉ line) (rest : List Char) :
    indentedFrom indent false (line ++ '\n' :: rest) =
      line ++ '\n' :: indentedFrom indent true rest := by
  induction line with
  | nil => rfl
  | cons c line ih =>
    rw [List.mem_cons, not_or] at h
    have hc : (c == '\n') = false := beq_false_of_ne (Ne.symm h.1)
    rw [List.cons_append, indentedFrom, hc, ih h.2]
    rfl

/-- At the start of a line the spaces come first, and then the line as it is. -/
theorem indentedFrom_true (indent : Nat) {line : List Char} (h : '\n' ∉ line) (rest : List Char) :
    indentedFrom indent true (line ++ '\n' :: rest) =
      List.replicate indent ' ' ++ (line ++ '\n' :: indentedFrom indent true rest) := by
  cases line with
  | nil => rfl
  | cons c line =>
    rw [List.mem_cons, not_or] at h
    have hc : (c == '\n') = false := beq_false_of_ne (Ne.symm h.1)
    rw [List.cons_append, indentedFrom, hc, indentedFrom_false indent h.2]
    rfl

/-- The lines of a text are indented one by one. -/
theorem indented_unlines (indent : Nat) {lines : List String}
    (h : ∀ line ∈ lines, '\n' ∉ line.toList) :
    indented indent (unlines lines) = unlines (lines.map (spaces indent ++ ·)) := by
  rw [indented, ← String.toList_inj, String.toList_ofList, toList_unlines, toList_unlines]
  induction lines with
  | nil => rfl
  | cons line lines ih =>
    obtain ⟨hline, hlines⟩ := List.forall_mem_cons.mp h
    rw [List.flatMap_cons, List.append_assoc, List.singleton_append, indentedFrom_true indent hline,
      ih hlines, List.map_cons, List.flatMap_cons, String.toList_append, spaces,
      String.toList_ofList]
    simp

/-- Spaces in front of spaces. -/
theorem spaces_add (n m : Nat) : spaces (n + m) = spaces n ++ spaces m := by
  rw [spaces, spaces, spaces, ← String.ofList_append, List.replicate_append_replicate]

/-! ### Lines at two indentations -/

/-- A deeper line is the line with more spaces in front. -/
theorem stepLine_add (n m : Nat) (e : Expr) :
    stepLine (n + m) e = (stepLine m e).map (spaces n ++ ·) := by
  rw [stepLine, stepLine]
  split
  · rfl
  · simp [spaces_add, String.append_assoc]

/-- Deeper lines are the lines with more spaces in front of each. -/
theorem flatMap_stepLine_add (n m : Nat) (es : List Expr) :
    es.flatMap (stepLine (n + m)) = (es.flatMap (stepLine m)).map (spaces n ++ ·) := by
  rw [List.map_flatMap]
  exact congrArg (es.flatMap ·) (funext (stepLine_add n m))

mutual
/-- A block that is indented further has the same lines, each indented further. -/
theorem Block.lines_add (n : Nat) : ∀ (block : Block) (m : Nat),
    block.lines (n + m) = (block.lines m).map (spaces n ++ ·)
  | .done, _ => rfl
  | .step main unused rest, m => by
    simp only [Block.lines, flatMap_stepLine_add, stepLine_add, rest.lines_add n m, List.map_append]
  | .chain condition body arms rest, m => by
    simp only [Block.lines, Nat.add_assoc n m 4, body.lines_add n (m + 4), arms.lines_add n m,
      rest.lines_add n m, List.map_cons, List.map_append, spaces_add, String.append_assoc]
/-- Further arms that are indented further have the same lines, each indented further. -/
theorem Arms.lines_add (n : Nat) : ∀ (arms : Arms) (m : Nat),
    arms.lines (n + m) = (arms.lines m).map (spaces n ++ ·)
  | .done, m => by simp [Arms.lines, spaces_add, String.append_assoc]
  | .elseIf condition body rest, m => by
    simp only [Arms.lines, Nat.add_assoc n m 4, body.lines_add n (m + 4), rest.lines_add n m,
      List.map_cons, List.map_append, spaces_add, String.append_assoc]
  | .otherwise body, m => by
    simp only [Arms.lines, Nat.add_assoc n m 4, body.lines_add n (m + 4), List.map_cons,
      List.map_append, List.map_nil, spaces_add, String.append_assoc]
end

/-- The declaration of a local takes the spaces in front as every line does. -/
theorem Table.localDeclaration_add (table : Table) (n m : Nat) (sym : Symbol) :
    table.localDeclaration (n + m) sym = spaces n ++ table.localDeclaration m sym := by
  simp only [localDeclaration, spaces_add, String.append_assoc]

/-! ### No broken lines -/

/-- What is read from an image has no broken lines: names and strings are read as lines. -/
theorem Script.unbroken_of_ofImage {script : Script} {image : List UInt8}
    (h : ofImage image = .ok script) : script.Unbroken where
  names sym hsym hbreak :=
    (((storableTable_of_ofImage h).1.storable sym hsym).name '\n' hbreak).1 rfl
  strings sym hsym elements hvalue text htext hbreak := by
    -- What a symbol holds goes by its kind, and only strings hold texts.
    have hholds := ((storableTable_of_ofImage h).1.storable sym hsym).value
    rw [Symbol.HoldsElements] at hholds
    split at hholds
    · cases hvalue.symm.trans hholds
    · rw [hvalue] at hholds
      cases hkind : sym.kind with
      | string =>
        rw [hkind] at hholds
        obtain ⟨elements', heq, -, hlines⟩ := hholds
        cases heq
        exact (hlines text htext '\n' hbreak).1 rfl
      | float | int =>
        rw [hkind] at hholds
        obtain ⟨_, heq, -⟩ := hholds
        cases heq
      | void | classDef | func | prototype | inst =>
        rw [hkind] at hholds
        cases hholds

/-- Expressions without line ends make lines. -/
theorem isLine_of_mem_stepLine {e : Expr} (he : '\n' ∉ e.text.toList) {indent : Nat} {line : String}
    (h : line ∈ stepLine indent e) : IsLine line := by
  have hend : IsLine ";" := ⟨by decide, by decide⟩
  rw [stepLine] at h
  split at h
  · cases h
  · obtain rfl := List.mem_singleton.mp h
    have hline : IsLine (spaces indent ++ "" ++ e.text ++ ";") :=
      isLine_around (by decide) he hend indent
    rwa [String.append_empty] at hline

mutual
/-- Blocks of expressions without line ends consist of lines. -/
theorem Block.isLine_lines : ∀ {block : Block} (indent : Nat),
    block.All (fun e => '\n' ∉ e.text.toList) → ∀ line ∈ block.lines indent, IsLine line
  | .done, _, _, _, hline => by cases hline
  | .step main unused rest, indent, h, line, hline => by
    obtain ⟨hmain, hunused, hrest⟩ := h
    simp only [Block.lines, List.mem_append, List.mem_flatMap, List.mem_reverse] at hline
    rcases hline with (⟨e, he, hline⟩ | hline) | hline
    · exact isLine_of_mem_stepLine (hunused e he) hline
    · exact isLine_of_mem_stepLine hmain hline
    · exact Block.isLine_lines indent hrest line hline
  | .chain condition body arms rest, indent, h, line, hline => by
    obtain ⟨hcondition, hbody, harms, hrest⟩ := h
    have hend : IsLine ") \x7b" := ⟨by decide, by decide⟩
    simp only [Block.lines, List.mem_cons, List.mem_append] at hline
    rcases hline with rfl | (hline | hline) | hline
    · exact isLine_around (by decide) hcondition hend indent
    · exact Block.isLine_lines (indent + 4) hbody line hline
    · exact Arms.isLine_lines indent harms line hline
    · exact Block.isLine_lines indent hrest line hline
/-- Further arms of expressions without line ends consist of lines. -/
theorem Arms.isLine_lines : ∀ {arms : Arms} (indent : Nat),
    arms.All (fun e => '\n' ∉ e.text.toList) → ∀ line ∈ arms.lines indent, IsLine line
  | .done, indent, _, line, hline => by
    have hclose : IsLine "\x7d;" := ⟨by decide, by decide⟩
    obtain rfl := List.mem_singleton.mp hline
    exact isLine_indented hclose indent
  | .elseIf condition body rest, indent, h, line, hline => by
    obtain ⟨hcondition, hbody, hrest⟩ := h
    have hend : IsLine ") \x7b" := ⟨by decide, by decide⟩
    simp only [Arms.lines, List.mem_cons, List.mem_append] at hline
    rcases hline with rfl | hline | hline
    · exact isLine_around (by decide) hcondition hend indent
    · exact Block.isLine_lines (indent + 4) hbody line hline
    · exact Arms.isLine_lines indent hrest line hline
  | .otherwise body, indent, h, line, hline => by
    have helse : IsLine "\x7d else \x7b" := ⟨by decide, by decide⟩
    have hclose : IsLine "\x7d;" := ⟨by decide, by decide⟩
    simp only [Arms.lines, List.mem_cons, List.mem_append, List.not_mem_nil, or_false] at hline
    rcases hline with rfl | hline | rfl
    · exact isLine_indented helse indent
    · exact Block.isLine_lines (indent + 4) h line hline
    · exact isLine_indented hclose indent
end

/-! ### The final return -/

/-- Whether a final return is left out does not depend on the indentation of the lines. -/
theorem exists_dropFinalReturn_indented {lines : List String} (h : ∀ line ∈ lines, IsLine line) :
    ∃ kept, kept <+: lines ∧ ∀ n, dropFinalReturn (unlines (lines.map (spaces n ++ ·))) =
      unlines (kept.map (spaces n ++ ·)) := by
  rcases List.eq_nil_or_concat lines with rfl | ⟨init, last, rfl⟩
  · exact ⟨[], List.nil_prefix, fun _ => rfl⟩
  · rw [List.concat_eq_append] at h ⊢
    have hlast := h last List.mem_concat_self
    -- The last line decides, and its spaces do not count.
    have hdrop (n : Nat) : dropFinalReturn (unlines ((init ++ [last]).map (spaces n ++ ·))) =
        if trimmed last.toList = "return;".toList then unlines (init.map (spaces n ++ ·))
        else unlines ((init ++ [last]).map (spaces n ++ ·)) := by
      obtain ⟨hbreak, hne⟩ := isLine_indented hlast n
      have htrimmed : trimmed (spaces n ++ last).toList = trimmed last.toList := by
        rw [String.toList_append, spaces, String.toList_ofList, trimmed_indented]
      rw [List.map_append, List.map_singleton, dropFinalReturn_unlines_concat hbreak hne, htrimmed]
    by_cases hreturn : trimmed last.toList = "return;".toList
    · exact ⟨init, List.prefix_append init [last], fun n => (hdrop n).trans (if_pos hreturn)⟩
    · exact ⟨init ++ [last], List.prefix_refl _, fun n => (hdrop n).trans (if_neg hreturn)⟩

/-! ### Bodies -/

/-- A text that consists of the same lines at every indentation is indented line by line. -/
theorem eq_indented (text : Nat → String) (lines : List String)
    (h : ∀ line ∈ lines, IsLine line) (htext : ∀ n, text n = unlines (lines.map (spaces n ++ ·)))
    (n : Nat) : text n = indented n (text 0) := by
  have hzero : lines.map (spaces 0 ++ ·) = lines := by
    have hid : (spaces 0 ++ ·) = (id : String → String) := funext fun line => String.empty_append
    rw [hid, List.map_id]
  rw [htext n, htext 0, hzero, indented_unlines n fun line hline => (h line hline).1]

/-- The lines of a block are those without indentation, with the same spaces in front of each. -/
theorem Block.lines_eq (block : Block) (n : Nat) :
    block.lines n = (block.lines 0).map (spaces n ++ ·) := block.lines_add n 0

namespace Script

variable {script : Script} {sym : Symbol} {limit : Nat} {block : Block}

/-- The statements of a recovered body are lines. -/
theorem isLine_lines_of_bodyBlock (hunbroken : script.Unbroken)
    (h : script.bodyBlock sym limit = .ok block) : ∀ line ∈ block.lines 0, IsLine line :=
  Block.isLine_lines 0
    (bodyBlock_gathers ((Setting.recovers_within hunbroken).imp fun _ h => h.text) h)

/-- The text of the statements of a body without its final return is indented line by line. -/
theorem dropFinalReturn_text_eq (hunbroken : script.Unbroken)
    (h : script.bodyBlock sym limit = .ok block) (n : Nat) :
    dropFinalReturn (block.text n) = indented n (dropFinalReturn (block.text 0)) := by
  have hlines := isLine_lines_of_bodyBlock hunbroken h
  obtain ⟨kept, hkept, hdrop⟩ := exists_dropFinalReturn_indented hlines
  refine eq_indented (fun n => dropFinalReturn (block.text n)) kept
    (fun line hline => hlines line (hkept.subset hline)) (fun n => ?_) n
  rw [Block.text, block.lines_eq n, hdrop]

/-- The text of a body is indented line by line. -/
theorem bodyText_eq (hunbroken : script.Unbroken) (h : script.bodyBlock sym limit = .ok block)
    (n : Nat) : script.bodyText sym n block = indented n (script.bodyText sym 0 block) := by
  have hlines := isLine_lines_of_bodyBlock hunbroken h
  obtain ⟨kept, hkept, hdrop⟩ := exists_dropFinalReturn_indented hlines
  -- The text consists of the declarations and the statements; both are lines and take the spaces in
  -- front.
  let locals := firstByLocalName block.locals
  have hlocals : ∀ line ∈ locals.map (script.localDeclaration 0), IsLine line := by
    intro line hline
    obtain ⟨own, hown, rfl⟩ := List.mem_map.mp hline
    have hmem := Block.mem_of_mem_locals (fun _ h => h.locals)
      (bodyBlock_gathers (Setting.recovers_within hunbroken) h) (mem_of_mem_firstByLocalName hown)
    exact hunbroken.isLine_localDeclaration hmem 0
  have hdeclared (n : Nat) : locals.map (script.localDeclaration n) =
      (locals.map (script.localDeclaration 0)).map (spaces n ++ ·) := by
    rw [List.map_map]
    exact List.map_congr_left fun own _ => script.localDeclaration_add n 0 own
  let statements := if sym.returnsValue then block.lines 0 else kept
  have hstatements : ∀ line ∈ statements, IsLine line := by
    intro line hline
    unfold statements at hline
    split at hline
    · exact hlines line hline
    · exact hlines line (hkept.subset hline)
  refine eq_indented (fun n => script.bodyText sym n block)
    (locals.map (script.localDeclaration 0) ++ statements) ?_ (fun n => ?_) n
  · exact List.forall_mem_append.mpr ⟨hlocals, hstatements⟩
  · rw [List.map_append, unlines_append, ← hdeclared, bodyText, Block.text, block.lines_eq n]
    unfold statements
    split
    · rfl
    · rw [hdrop]

/-- **Indentation is uniform.** No name and no string of a script that is read from an image has a
line end. In a script without such names and strings, a body is recovered at every indentation or at
none, with the same fault, and its text at an indentation is its text without one, with the spaces
put in front of every line; in particular the final return is left out at every indentation or at
none. -/
theorem decompileBody_indented (script : Script) :
    (∀ image, ofImage image = .ok script → script.Unbroken) ∧
    (script.Unbroken → ∀ (sym : Symbol) (n limit : Nat),
      script.decompileBody sym n limit = indented n <$> script.decompileBody sym 0 limit ∧
        ∀ block, script.bodyBlock sym limit = .ok block →
          dropFinalReturn (block.text n) = indented n (dropFinalReturn (block.text 0))) := by
  refine ⟨fun image => unbroken_of_ofImage, fun hunbroken sym n limit => ⟨?_, fun block h => ?_⟩⟩
  · rw [decompileBody, decompileBody]
    cases hblock : script.bodyBlock sym limit with
    | error fault => rfl
    | ok block => exact congrArg Except.ok (bodyText_eq hunbroken hblock n)
  · exact dropFinalReturn_text_eq hunbroken h n

/-- The image of a script with a local variable, whose variables have values. -/
def localImage : List UInt8 :=
  imageOf 50 [0, 1, 2]
    [localCallable, { name := "A", kind := .int, value := .ints [0] },
      { name := "F.N", kind := .int, value := .ints [0] }]
    localScript.code.toList

/-- The body of its function without indentation. -/
def flushBody : String := unlines
  ["var int N;",
    "if (A) \x7b",
    "    N = 1;",
    "\x7d else \x7b",
    "    N = 2;",
    "\x7d;"]

/-- A body with a declaration, a chain and statements, without indentation and three deep. -/
theorem decompileBody_localImage :
    ∃ script, ofImage localImage = .ok script ∧ script.Unbroken ∧
      script.decompileBody localCallable 0 256 = .ok flushBody ∧
      script.decompileBody localCallable 3 256 = .ok (indented 3 flushBody) := by
  have hflush : (ofImage localImage >>= fun script => script.decompileBody localCallable 0 256) =
      .ok flushBody := by decide +kernel
  obtain ⟨script, himage, hbody⟩ := exists_of_bind_eq_ok hflush
  obtain ⟨hread, hindented⟩ := decompileBody_indented script
  have hunbroken := hread localImage himage
  have hthree := (hindented hunbroken localCallable 3 256).1
  rw [hbody] at hthree
  exact ⟨script, himage, hunbroken, hbody, hthree⟩

end Script

end Daedalus
