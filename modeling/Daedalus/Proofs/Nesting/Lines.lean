import Daedalus.Proofs.FinalReturn
import Daedalus.Proofs.Nesting.Expressions
import Daedalus.Proofs.Nesting.Gathered
import Daedalus.Proofs.Progress

/-! # Well nested lines

The lines of a body are those of a tree of statements and chains, whatever the code is: each chain
is opened by an arm with a condition, goes on with further arms of which only the last one may have
no condition, and is closed where it was opened. The text of a statement starts with neither a blank
nor a closing brace, so its line stands at the indentation of its block and closes no arm. The final
return that is left out is the line of a statement behind all chains, so the lines stay well nested
without it. -/

namespace Daedalus

open Text

/-- The lines of a chain behind its first arm, without line ends: arms with conditions, an arm
without one if there is one, and the end of the chain. -/
def furtherArms (indent : Nat) (elseIfs : List (String × List String))
    (last : Option (List String)) : List String :=
  elseIfs.flatMap (fun arm => (spaces indent ++ "\x7d else if (" ++ arm.1 ++ ") \x7b") :: arm.2) ++
    last.elim [] (fun body => (spaces indent ++ "\x7d else \x7b") :: body) ++
    [spaces indent ++ "\x7d;"]

/-- Lines are well nested at an indentation. They are the lines of a tree: those of a statement stand at
the indentation, and those of a block in a chain four spaces deeper. -/
inductive Nested : Nat → List String → Prop where
  /-- No lines. -/
  | done {indent : Nat} : Nested indent []
  /-- The line of a statement, and the lines behind it. The statement is not empty, within a line, and
  starts with neither a blank nor a closing brace. -/
  | statement {indent : Nat} {text : String} {rest : List String} (hinline : isInline text = true)
    (htext : text ≠ "") (hrest : Nested indent rest) :
    Nested indent ((spaces indent ++ text ++ ";") :: rest)
  /-- The lines of a chain, and the lines behind it. -/
  | chain {indent : Nat} {condition : String} {body rest : List String}
    {elseIfs : List (String × List String)} {last : Option (List String)}
    (hcondition : isInline condition = true) (hbody : Nested (indent + 4) body)
    (hconditions : ∀ arm ∈ elseIfs, isInline arm.1 = true)
    (hbodies : ∀ arm ∈ elseIfs, Nested (indent + 4) arm.2)
    (hlast : ∀ body, last = some body → Nested (indent + 4) body) (hrest : Nested indent rest) :
    Nested indent ((spaces indent ++ "if (" ++ condition ++ ") \x7b") ::
      (body ++ furtherArms indent elseIfs last ++ rest))

namespace Nested

variable {indent : Nat} {lines rest : List String}

/-- The lines of further arms are lines, if those of their blocks are. -/
theorem isLine_of_mem_furtherArms {elseIfs : List (String × List String)}
    {last : Option (List String)} (hconditions : ∀ arm ∈ elseIfs, isInline arm.1 = true)
    (hbodies : ∀ arm ∈ elseIfs, ∀ line ∈ arm.2, IsLine line)
    (hlast : ∀ body, last = some body → ∀ line ∈ body, IsLine line) :
    ∀ line ∈ furtherArms indent elseIfs last, IsLine line := by
  intro line hline
  simp only [furtherArms, List.mem_append, List.mem_flatMap, List.mem_singleton] at hline
  -- An arm with a condition, the one without, or the end of the chain.
  rcases hline with (⟨arm, harm, hline⟩ | hline) | rfl
  · rcases List.mem_cons.mp hline with rfl | hline
    · have hend : IsLine ") \x7b" := ⟨by decide, by decide⟩
      exact isLine_around (by decide) (isInline_iff.mp (hconditions arm harm)).1 hend indent
    · exact hbodies arm harm line hline
  · cases last with
    | none => cases hline
    | some body =>
      rcases List.mem_cons.mp hline with rfl | hline
      · have helse : IsLine "\x7d else \x7b" := ⟨by decide, by decide⟩
        exact isLine_indented helse indent
      · exact hlast body rfl line hline
  · have hclose : IsLine "\x7d;" := ⟨by decide, by decide⟩
    exact isLine_indented hclose indent

/-- Well nested lines are lines. -/
theorem isLine (h : Nested indent lines) : ∀ line ∈ lines, IsLine line := by
  induction h with
  | done => simp
  | @statement indent text rest hinline htext hrest ih =>
    have hline : IsLine (text ++ ";") := ⟨by simp [(isInline_iff.mp hinline).1], by simp⟩
    rw [String.append_assoc]
    exact List.forall_mem_cons.mpr ⟨isLine_indented hline indent, ih⟩
  | @chain indent condition body rest elseIfs last hcondition hbody hconditions hbodies hlast hrest
      ihbody ihbodies ihlast ihrest =>
    have hend : IsLine ") \x7b" := ⟨by decide, by decide⟩
    have hopen : IsLine (spaces indent ++ "if (" ++ condition ++ ") \x7b") :=
      isLine_around (by decide) (isInline_iff.mp hcondition).1 hend indent
    have harms : ∀ line ∈ furtherArms indent elseIfs last, IsLine line :=
      isLine_of_mem_furtherArms hconditions ihbodies ihlast
    intro line hline
    simp only [List.mem_cons, List.mem_append] at hline
    rcases hline with rfl | (hline | hline) | hline
    · exact hopen
    · exact ihbody line hline
    · exact harms line hline
    · exact ihrest line hline

/-- Well nested lines do not start with the end of a chain, at whatever indentation it stands. -/
theorem head?_ne_closing (h : Nested indent lines) (n : Nat) :
    lines.head? ≠ some (spaces n ++ "\x7d;") := by
  -- Behind the blanks at its start, a line goes on with the first character of its text.
  have hskip (m : Nat) (text : String) :
      (spaces m ++ text).toList.dropWhile isBlank = text.toList.dropWhile isBlank := by
    rw [String.toList_append, spaces, String.toList_ofList]
    exact List.dropWhile_append_of_pos fun c hc => List.eq_of_mem_replicate hc ▸ by decide
  intro hhead
  cases h with
  | done => cases hhead
  | @statement _ text rest hinline htext hrest =>
    have hlines := congrArg (String.toList · |>.dropWhile isBlank) (Option.some.inj hhead)
    obtain ⟨c, cs, hcs⟩ := List.exists_cons_of_ne_nil (mt String.toList_eq_nil_iff.mp htext)
    obtain ⟨hblank, hclosing⟩ := (isInline_iff.mp hinline).2 c (by rw [hcs]; rfl)
    simp only [String.append_assoc, hskip] at hlines
    rw [String.toList_append, hcs, List.cons_append, List.dropWhile_cons_of_neg (by simp [hblank])]
      at hlines
    exact hclosing (List.cons.inj hlines).1
  | chain =>
    have hlines := congrArg (String.toList · |>.dropWhile isBlank) (Option.some.inj hhead)
    simp only [String.append_assoc, hskip] at hlines
    rw [String.toList_append] at hlines
    exact absurd (List.cons.inj hlines).1 (by decide)

/-- The end of a chain that was not opened, eight spaces deep in a block at four. -/
example : ¬Nested 4 ["        \x7d;"] := fun h => h.head?_ne_closing 8 rfl

/-- Lines stay well nested without the last one, unless it closes a chain. -/
theorem dropLast (h : Nested indent lines)
    (hlast : lines.getLast? ≠ some (spaces indent ++ "\x7d;")) : Nested indent lines.dropLast := by
  -- The last line belongs to what comes last in the sequence, so the induction goes along it.
  induction h with
  | done => exact .done
  | @statement indent text rest hinline htext hrest ih =>
    cases rest with
    | nil => exact .done
    | cons line rest =>
      rw [List.getLast?_cons_cons] at hlast
      rw [List.dropLast_cons_cons]
      exact .statement hinline htext (ih hlast)
  | @chain indent condition body rest elseIfs last hcondition hbody hconditions hbodies hlastArm
      hrest _ _ _ ih =>
    cases rest with
    | nil =>
      refine absurd ?_ hlast
      rw [List.append_nil, furtherArms, ← List.append_assoc, ← List.cons_append,
        List.getLast?_concat]
    | cons line rest =>
      rw [← List.cons_append, List.getLast?_append] at hlast
      rw [← List.cons_append, List.dropLast_append_of_ne_nil (List.cons_ne_nil line rest)]
      exact .chain hcondition hbody hconditions hbodies hlastArm (ih hlast)

/-- The line of a statement may stand in front of well nested lines, if the statement has one. -/
theorem append_stepLine {e : Expr} (he : isInline e.text = true) (hrest : Nested indent rest) :
    Nested indent (stepLine indent e ++ rest) := by
  rw [stepLine]
  by_cases htext : e.text = ""
  · rw [if_pos htext]
    exact hrest
  · rw [if_neg htext]
    exact .statement he htext hrest

/-- The lines of several statements may stand in front of well nested lines. -/
theorem append_stepLines {es : List Expr} (hes : ∀ e ∈ es, isInline e.text = true)
    (hrest : Nested indent rest) : Nested indent (es.flatMap (stepLine indent) ++ rest) := by
  induction es with
  | nil => exact hrest
  | cons e es ih =>
    obtain ⟨he, hes⟩ := List.forall_mem_cons.mp hes
    rw [List.flatMap_cons, List.append_assoc]
    exact append_stepLine he (ih hes)

/-- A text of well nested lines is one without its final return. -/
theorem exists_dropFinalReturn (h : Nested indent lines) :
    ∃ kept, dropFinalReturn (unlines lines) = unlines kept ∧ Nested indent kept := by
  rcases List.eq_nil_or_concat lines with rfl | ⟨init, line, rfl⟩
  · exact ⟨[], rfl, h⟩
  · rw [List.concat_eq_append] at h ⊢
    obtain ⟨hbreak, hne⟩ := h.isLine line List.mem_concat_self
    have hdrop := dropFinalReturn_unlines_concat hbreak hne init
    by_cases hreturn : trimmed line.toList = "return;".toList
    · -- A return does not close a chain.
      have hclosing : line ≠ spaces indent ++ "\x7d;" := by
        rintro rfl
        rw [String.toList_append, spaces, String.toList_ofList, trimmed_indented] at hreturn
        exact absurd hreturn (by decide)
      have hinit := h.dropLast (by simpa using hclosing)
      rw [List.dropLast_concat] at hinit
      exact ⟨init, hdrop.trans (if_pos hreturn), hinit⟩
    · exact ⟨init ++ [line], hdrop.trans (if_neg hreturn), h⟩

end Nested

/-! ### Blocks -/

mutual
/-- The lines of a block of inline expressions are well nested. -/
theorem Block.nested_lines : ∀ {block : Block} (indent : Nat),
    block.All (fun e => isInline e.text = true) → Nested indent (block.lines indent)
  | .done, _, _ => .done
  | .step main unused rest, indent, h => by
    obtain ⟨hmain, hunused, hrest⟩ := h
    have hlines := Nested.append_stepLine hmain (Block.nested_lines indent hrest)
    have hreverse : ∀ e ∈ unused.reverse, isInline e.text = true :=
      fun e he => hunused e (List.mem_reverse.mp he)
    rw [Block.lines, List.append_assoc]
    exact .append_stepLines hreverse hlines
  | .chain condition body arms rest, indent, h => by
    obtain ⟨hcondition, hbody, harms, hrest⟩ := h
    obtain ⟨elseIfs, last, hlines, hconditions, hbodies, hlast⟩ :=
      Arms.exists_furtherArms indent harms
    have hbodyLines := Block.nested_lines (indent + 4) hbody
    have hrestLines := Block.nested_lines indent hrest
    rw [Block.lines, hlines]
    exact .chain hcondition hbodyLines hconditions hbodies hlast hrestLines
/-- The lines of further arms are those of arms with conditions and of at most one without. -/
theorem Arms.exists_furtherArms : ∀ {arms : Arms} (indent : Nat),
    arms.All (fun e => isInline e.text = true) → ∃ elseIfs last,
      arms.lines indent = furtherArms indent elseIfs last ∧
        (∀ arm ∈ elseIfs, isInline arm.1 = true) ∧ (∀ arm ∈ elseIfs, Nested (indent + 4) arm.2) ∧
        ∀ body, last = some body → Nested (indent + 4) body
  | .done, indent, _ => ⟨[], none, by simp [Arms.lines, furtherArms], by simp, by simp, by simp⟩
  | .elseIf condition body rest, indent, h => by
    obtain ⟨hcondition, hbody, hrest⟩ := h
    obtain ⟨elseIfs, last, hlines, hconditions, hbodies, hlast⟩ :=
      Arms.exists_furtherArms indent hrest
    have hbodyLines := Block.nested_lines (indent + 4) hbody
    refine ⟨(condition.text, body.lines (indent + 4)) :: elseIfs, last, ?_, ?_, ?_, hlast⟩
    · simp [Arms.lines, hlines, furtherArms]
    · exact List.forall_mem_cons.mpr ⟨hcondition, hconditions⟩
    · exact List.forall_mem_cons.mpr ⟨hbodyLines, hbodies⟩
  | .otherwise body, indent, h => by
    have hbodyLines : Nested (indent + 4) (body.lines (indent + 4)) := Block.nested_lines _ h
    refine ⟨[], some (body.lines (indent + 4)), ?_, by simp, by simp, ?_⟩
    · simp [Arms.lines, furtherArms]
    · intro _ hbody
      exact Option.some.inj hbody ▸ hbodyLines
end

/-! ### Bodies -/

section Locals

variable {P : Expr → Prop} {sym : Symbol} {symbols : List Symbol}
  (hlocals : ∀ e, P e → ∀ sym ∈ e.locals, sym ∈ symbols)
include hlocals

mutual
/-- Where the locals of its expressions are symbols of a table, so are those of a block. -/
theorem Block.mem_of_mem_locals : ∀ {block : Block}, block.All P → sym ∈ block.locals →
    sym ∈ symbols
  | .step main unused rest, h, hsym => by
    obtain ⟨hmain, hunused, hrest⟩ := h
    simp only [Block.locals, List.mem_append, List.mem_flatMap] at hsym
    rcases hsym with (hsym | ⟨e, he, hsym⟩) | hsym
    · exact hlocals main hmain sym hsym
    · exact hlocals e (hunused e he) sym hsym
    · exact Block.mem_of_mem_locals hrest hsym
  | .chain condition body arms rest, h, hsym => by
    obtain ⟨hcondition, hbody, harms, hrest⟩ := h
    simp only [Block.locals, List.mem_append] at hsym
    rcases hsym with ((hsym | hsym) | hsym) | hsym
    · exact hlocals condition hcondition sym hsym
    · exact Block.mem_of_mem_locals hbody hsym
    · exact Arms.mem_of_mem_locals harms hsym
    · exact Block.mem_of_mem_locals hrest hsym
/-- Where the locals of their expressions are symbols of a table, so are those of further arms. -/
theorem Arms.mem_of_mem_locals : ∀ {arms : Arms}, arms.All P → sym ∈ arms.locals → sym ∈ symbols
  | .elseIf condition body rest, h, hsym => by
    obtain ⟨hcondition, hbody, hrest⟩ := h
    simp only [Arms.locals, List.mem_append] at hsym
    rcases hsym with (hsym | hsym) | hsym
    · exact hlocals condition hcondition sym hsym
    · exact Block.mem_of_mem_locals hbody hsym
    · exact Arms.mem_of_mem_locals hrest hsym
  | .otherwise _, h, hsym => Block.mem_of_mem_locals h hsym
end

end Locals

/-- A line declares a local variable: a type and the name of the variable follow the keyword, and the
number of the elements follows the name if there are several. -/
def Symbol.DeclaredBy (own : Symbol) (indent : Nat) (line : String) : Prop :=
  ∃ type : String, IsName type ∧ IsName own.localName ∧
    line = spaces indent ++ "var " ++ type ++ " " ++ own.localName ++
      (if 1 < own.count then "[" ++ toString own.count.toNat ++ "]" else "") ++ ";"

/-- A type is written by a keyword or by the name of a class. -/
theorem Table.typeName_induction {table : Table} {Q : String → Prop}
    (hkeyword : ∀ kind : Kind, Q kind.keyword) (hname : ∀ sym ∈ table.symbols.toList, Q sym.name)
    (sym : Symbol) : Q (table.typeName sym) := by
  rw [typeName]
  split
  · cases hparent : table.parentOf? sym with
    | none => exact hkeyword .inst
    | some parent =>
      obtain ⟨word, -, hword⟩ := Option.bind_eq_some_iff.mp hparent
      exact hname parent (mem_of_symbolAt? hword)
  · exact hkeyword sym.kind

/-- A local variable of a table with names is declared by its declaration. -/
theorem Table.Named.declaredBy {table : Table} (hnamed : table.Named) {own : Symbol}
    (hown : own ∈ table.symbols.toList) (indent : Nat) :
    own.DeclaredBy indent (table.localDeclaration indent own) := by
  have hkeyword (kind : Kind) : IsName kind.keyword := IsWord.isName (by cases kind <;> decide)
  have htype : IsName (table.typeName own) := typeName_induction hkeyword hnamed.names own
  exact ⟨table.typeName own, htype, (hnamed.names own hown).localName, rfl⟩

/-- The declaration of a local variable is a line, if no name has a line end. -/
theorem Table.Unbroken.isLine_localDeclaration {table : Table} (hunbroken : table.Unbroken)
    {own : Symbol} (hown : own ∈ table.symbols.toList) (indent : Nat) :
    IsLine (table.localDeclaration indent own) := by
  have htype : '\n' ∉ (table.typeName own).toList :=
    typeName_induction (Q := fun text => '\n' ∉ text.toList) (fun kind => by cases kind <;> decide)
      hunbroken.names own
  have hcount : '\n' ∉ ("[" ++ toString own.count.toNat ++ "]").toList :=
    noBreak_append (noBreak_append (by decide) (noBreak_nat _)) (by decide)
  have hsuffix : '\n' ∉ own.arraySuffix.toList := noBreak_ite hcount (by decide)
  have hdeclared : '\n' ∉
      (table.typeName own ++ " " ++ own.localName ++ own.arraySuffix).toList :=
    noBreak_append (noBreak_append (noBreak_append htype (by decide))
      (hunbroken.noBreak_localName hown)) hsuffix
  have hend : IsLine ";" := ⟨by decide, by decide⟩
  have hvar : '\n' ∉ "var ".toList := by decide
  have hline := isLine_around hvar hdeclared hend indent
  simpa [localDeclaration, String.append_assoc] using hline

/-- What holds of all that can be recovered holds in a recovered body. -/
theorem Script.bodyBlock_gathers {script : Script} {sym : Symbol} {limit : Nat} {P : Expr → Prop}
    (hrecovers : Setting.Recovers ⟨script, sym, limit⟩ P) {block : Block}
    (h : script.bodyBlock sym limit = .ok block) : block.All P := by
  obtain ⟨start, walk, -, hwalk, rfl⟩ := exists_walk_of_bodyBlock h
  exact Setting.gathers hrecovers (Setting.root _ start) walk hwalk

/-- **Bodies are well nested.** Whatever the code is, the recovered body of a callable consists of
declarations of local variables, each a line at the indentation, and of well nested lines. -/
theorem Script.decompileBody_nested {script : Script} (hnamed : script.Named) (sym : Symbol)
    (indent limit : Nat) {text : String} (h : script.decompileBody sym indent limit = .ok text) :
    ∃ (locals : List Symbol) (statements : List String),
      text = unlines (locals.map (script.localDeclaration indent) ++ statements) ∧
        (∀ own ∈ locals, own ∈ script.symbols.toList ∧
          own.DeclaredBy indent (script.localDeclaration indent own)) ∧
        Nested indent statements := by
  obtain ⟨block, hblock, rfl⟩ := exists_of_map_eq_ok h
  -- The block consists of what was recovered from operands, so all of it is inline.
  have hinline : block.All (fun e => isInline e.text = true) :=
    bodyBlock_gathers (Setting.recovers_inline hnamed) hblock
  obtain ⟨kept, hkept, hnestedKept⟩ := (Block.nested_lines indent hinline).exists_dropFinalReturn
  have hwithin : block.All (Expr.Within script.toTable) :=
    bodyBlock_gathers (Setting.recovers_within hnamed.unbroken) hblock
  have hlocals : ∀ own ∈ firstByLocalName block.locals, own ∈ script.symbols.toList ∧
      own.DeclaredBy indent (script.localDeclaration indent own) := by
    intro own hown
    have hmem := Block.mem_of_mem_locals (fun _ h => h.locals) hwithin
      (mem_of_mem_firstByLocalName hown)
    exact ⟨hmem, hnamed.declaredBy hmem indent⟩
  rw [bodyText, Block.text]
  by_cases hreturns : sym.returnsValue = true
  · refine ⟨firstByLocalName block.locals, block.lines indent, ?_, hlocals,
      Block.nested_lines indent hinline⟩
    rw [if_pos hreturns, unlines_append]
  · refine ⟨firstByLocalName block.locals, kept, ?_, hlocals, hnestedKept⟩
    rw [if_neg hreturns, hkept, unlines_append]

/-- A function with a local variable, which is set in both arms of a chain. -/
def localScript : Script :=
  Script.ofParts
    #[0x41, 1, 0, 0, 0, 0x4c, 26, 0, 0, 0, 0x40, 1, 0, 0, 0, 0x41, 2, 0, 0, 0, 0x09, 0x4b, 37, 0, 0,
      0, 0x40, 2, 0, 0, 0, 0x41, 2, 0, 0, 0, 0x09, 0x3c]
    [{ name := "F", kind := .func, flags := Flags.none.add .const }, { name := "A", kind := .int },
      { name := "F.N", kind := .int }]

/-- The function. -/
def localCallable : Symbol := { name := "F", kind := .func, flags := Flags.none.add .const }

/-- The body of the function. -/
def localBody : String := unlines
  ["    var int N;",
    "    if (A) \x7b",
    "        N = 1;",
    "    \x7d else \x7b",
    "        N = 2;",
    "    \x7d;"]

/-- The names of the script are words, and one of them consists of two. -/
theorem named_localScript : localScript.Named where
  names := by
    have hname : IsName "F.N" := ⟨["F", "N"], List.cons_ne_nil _ _, by decide, by decide⟩
    have hsymbols : localScript.symbols.toList =
        [localScript.symbols[0], localScript.symbols[1], localScript.symbols[2]] := by decide
    rw [hsymbols]
    exact List.forall_mem_cons.mpr ⟨IsWord.isName (by decide), List.forall_mem_cons.mpr
      ⟨IsWord.isName (by decide), List.forall_mem_singleton.mpr hname⟩⟩
  strings sym hsym elements hvalue := by
    have hnone : ∀ sym ∈ localScript.symbols.toList, sym.value = .none := by decide
    cases (hnone sym hsym).symm.trans hvalue

/-- A body with a declaration, with statements and with a chain. -/
theorem localBody_nested : localScript.Named ∧
    localScript.decompileBody localCallable 4 256 = .ok localBody ∧
    ∃ (locals : List Symbol) (statements : List String),
      localBody = unlines (locals.map (localScript.localDeclaration 4) ++ statements) ∧
        (∀ own ∈ locals, own ∈ localScript.symbols.toList ∧
          own.DeclaredBy 4 (localScript.localDeclaration 4 own)) ∧
        Nested 4 statements := by
  have hbody : localScript.decompileBody localCallable 4 256 = .ok localBody :=
    eq_ok_of_toOption (by decide +kernel)
  exact ⟨named_localScript, hbody,
    Script.decompileBody_nested named_localScript localCallable 4 256 hbody⟩

end Daedalus
