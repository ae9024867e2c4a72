import Daedalus.Proofs.FinalReturn
import Daedalus.Proofs.Structured.Recovered

/-! # Bodies of structured programs

The body of a callable that was compiled from a structured program is recovered as the source text
of that program. -/

namespace Daedalus.Structured

open Text

/-- The body of a callable is the code of a structured program. It ends with a return, and other code
may stand before and behind it. -/
structure LaidOut (script : Script) (sym : Symbol) (limit : Nat) (p : Program) : Prop where
  callable : sym.kind.isCallable = true
  internal : sym.isExternal = false
  /-- The code of the program stands behind the binding of the parameters. -/
  code : ∃ before after, script.code.toList = before ++ (encodeAll (p.code before.length) ++ after) ∧
    before.length = sym.address.toNat + 6 * (script.parametersOf sym).length
  code_lt : script.code.size < UInt32.size
  fits : p.Fits ⟨script, sym, limit⟩ 0
  returns : p.returns = true

namespace LaidOut

variable {script : Script} {sym : Symbol} {limit : Nat} {p : Program}

/-- The body ends with a return, so nothing is asked of what stands behind it. -/
theorem closed {stop : Nat} (h : LaidOut script sym limit p) :
    p.returns = false → Closed script script.code.size stop false := by
  intro hreturns
  rw [h.returns] at hreturns
  cases hreturns

/-- The program stands in the code where the walk through the body starts. -/
theorem exists_at (h : LaidOut script sym limit p) :
    ∃ start, p.At ⟨script, sym, limit⟩ 0 script.code.size start ∧
      script.bodyBlock sym limit =
        Walk.block <$> Setting.resume ⟨script, sym, limit⟩ 0 script.code.size sym.initialActive []
          start := by
  obtain ⟨before, after, hcode, hstart⟩ := h.code
  have hsize : before.length + p.size ≤ script.code.size := by
    rw [← Array.length_toList, hcode]
    simp
  -- The return takes some bytes, so the walk starts before the end of the code.
  have hpos : 0 < p.size := Program.size_pos (Program.isDone_of_returns h.returns)
  have hlt := h.code_lt
  refine ⟨before.length, ⟨placed_of_encodeAll hcode, h.fits, hsize, h.code_lt⟩, ?_⟩
  have hbody : sym.requireBody = .ok () := by
    simp [Symbol.requireBody, h.internal, h.callable]
  have hbodyStart : script.bodyStart sym = .ok before.length := by
    rw [Script.bodyStart, ← hstart]
    exact if_pos (by omega)
  rw [Setting.resume_of_lt _ (by omega), ← Setting.block_eq _ h.fits.depth_lt]
  simp only [Script.bodyBlock, hbody, hbodyStart, bind, Except.bind]
  rfl

/-- The recovered statements of the body are the block of the program, with its chains joined. -/
theorem exists_joined (h : LaidOut script sym limit p) (hsound : p.sound false false = true) :
    ∃ block, script.bodyBlock sym limit = .ok block ∧ block.split = p.joined.block script := by
  obtain ⟨start, hat, hbody⟩ := h.exists_at
  have hrecovered : p.Recovered ⟨script, sym, limit⟩ 0 script.code.size sym.initialActive []
      start := hat.recovered h.closed (absurd rfl) hsound
  obtain ⟨walk, hwalk, hblock, -⟩ := hrecovered
  rw [Setting.unwind_nil, Block.prepend_nil] at hblock
  exact ⟨walk.block, by rw [hbody, hwalk]; rfl, hblock⟩

/-- A program that is sound is shown by the recovered statements of the body. -/
theorem exists_shows (h : LaidOut script sym limit p) (hsound : p.sound false false = true) :
    ∃ block, script.bodyBlock sym limit = .ok block ∧ p.Shows script block.split := by
  obtain ⟨block, hblock, hsplit⟩ := h.exists_joined hsound
  exact ⟨block, hblock, hsplit ▸ p.shows_joined script (Program.elsesKept_of_sound hsound)⟩

end LaidOut

/-! ### The text of a body -/

/-- The source text of the body of a callable. The return at the end of a body without a result is
not written. -/
def Program.bodyText (script : Script) (sym : Symbol) (indent : Nat) (p : Program) : String :=
  unlines (if sym.returnsValue then p.lines script indent else (p.lines script indent).dropLast)

/-- The lines of a body that ends with a return of nothing end with the line of this return. -/
theorem Program.exists_lines_of_returns {s : Setting} {depth : Nat} (indent : Nat)
    (hvoid : s.callable.returnsValue = false) : ∀ {p : Program}, p.returns = true → p.Fits s depth →
      ∃ lines, p.lines s.script indent = lines ++ [spaces indent ++ "return;"]
  | .done, hreturns, _ => by cases hreturns
  | .ret none, _, _ => ⟨[], congrArg (fun line => [line]) String.append_assoc⟩
  | .ret (some _), _, hfits => by
    -- A function without a result gives none back.
    have hreturns := hfits.2.1
    rw [hvoid] at hreturns
    cases hreturns
  | .step st rest, hreturns, hfits => by
    obtain ⟨lines, hlines⟩ :=
      exists_lines_of_returns indent hvoid (p := rest) hreturns hfits.2
    exact ⟨_ :: lines, by rw [Program.lines, hlines, List.cons_append]⟩
  | .chain condition body arms rest, hreturns, hfits => by
    obtain ⟨lines, hlines⟩ :=
      exists_lines_of_returns indent hvoid (p := rest) hreturns hfits.2.2.2.2
    exact ⟨_ :: (_ ++ lines), by
      rw [Program.lines, hlines, ← List.append_assoc, List.cons_append]⟩

variable {script : Script} {sym : Symbol} {limit : Nat} {p : Program}

/-- A block that is that of a program has the source text of the program. -/
theorem Program.Fits.bodyText_eq {s : Setting} {depth : Nat} (hfits : p.Fits s depth)
    (hreturns : p.returns = true) {block : Block} (hsplit : block.split = p.block s.script)
    (indent : Nat) : s.script.bodyText s.callable indent block =
      p.bodyText s.script s.callable indent := by
  have hlines : block.lines indent = p.lines s.script indent := by
    rw [← block.lines_split, hsplit, hfits.lines_block]
  -- A structured program has no local variables, so nothing is declared in front of its lines.
  have hlocals : block.locals = [] := by
    rw [← Block.locals_split_eq_nil, hsplit, p.locals_block]
  have hdeclarations :
      unlines ((firstByLocalName block.locals).map (s.script.localDeclaration indent)) = "" := by
    rw [hlocals]
    rfl
  rw [Script.bodyText, hdeclarations, String.empty_append, Block.text, hlines, Program.bodyText]
  cases hreturnsValue : s.callable.returnsValue with
  | true => rfl
  | false =>
    -- The function gives nothing back, so its last line is the return that is left out.
    obtain ⟨lines, hlast⟩ := exists_lines_of_returns indent hreturnsValue hreturns hfits
    rw [if_neg Bool.false_ne_true, if_neg Bool.false_ne_true, hlast, dropFinalReturn_unlines,
      List.dropLast_concat]

/-- The source text of a sound program is recovered with its chains joined. -/
theorem LaidOut.decompileBody_joined (h : LaidOut script sym limit p)
    (hsound : p.sound false false = true) (indent : Nat) :
    script.decompileBody sym indent limit = .ok (p.joined.bodyText script sym indent) := by
  obtain ⟨block, hblock, hsplit⟩ := h.exists_joined hsound
  have hreturns : p.joined.returns = true := by rw [p.returns_joined, h.returns]
  have htext := h.fits.joined.bodyText_eq hreturns hsplit indent
  rw [Script.decompileBody, hblock, ← htext]
  rfl

/-- **Recovered source text.** A body that was compiled from a structured program is recovered as the
source text of that program. No arm without a condition may start with a chain, and each unused
result must be followed in its block by a statement or a return. -/
theorem decompileBody_structured (h : LaidOut script sym limit p)
    (hsettled : p.settled false = true) (hplain : p.plainElses = true) (indent : Nat) :
    script.decompileBody sym indent limit = .ok (p.bodyText script sym indent) := by
  have hsound : p.sound false false = true := by
    rw [Program.sound_of_settled false hsettled]
    exact Program.elsesKept_of_plainElses hplain
  rw [h.decompileBody_joined hsound, Program.joined_eq hplain]

/-! ### A script around a program -/

/-- A function without a result, three integers, and a host function with a result. -/
def sampleSymbols : List Symbol :=
  [{ name := "F", kind := .func, flags := Flags.none.add .const }, { name := "A", kind := .int },
    { name := "B", kind := .int }, { name := "X", kind := .int },
    { name := "RAND", kind := .func, flags := (Flags.none.add .external).add .returns,
      returnKind := .int }]

/-- The script with these symbols, in which the function has the code of a program. -/
def sampleScript (p : Program) : Script :=
  Script.ofParts (encodeAll (p.code 0)).toArray sampleSymbols

/-- The function of the script. -/
def sampleCallable : Symbol := { name := "F", kind := .func, flags := Flags.none.add .const }

/-- A program that fits the symbols of the script is the body of its function. -/
theorem laidOut_sample {p : Program} {limit : Nat} (hsize : p.size < UInt32.size)
    (hfits : p.Fits ⟨sampleScript p, sampleCallable, limit⟩ 0) (hreturns : p.returns = true) :
    LaidOut (sampleScript p) sampleCallable limit p where
  callable := rfl
  internal := rfl
  code := ⟨[], [], by simp [sampleScript, Script.ofParts], rfl⟩
  code_lt := by simpa [sampleScript, Script.ofParts] using hsize
  fits := hfits
  returns := hreturns

/-- The symbols of the script are numbered in their order. -/
theorem symbolOf?_sample (p : Program) (symbol : UInt32) :
    (sampleScript p).symbolOf? symbol =
      (sampleSymbols.mapIdx fun i sym => { sym with index := i })[symbol.toNat]? := by
  simp [sampleScript, Script.ofParts, Table.ofList, Table.symbolOf?, Table.symbolAt?]

/-- The integers of the script are global variables. -/
theorem sample_int (p : Program) {symbol : UInt32} (h : symbol = 1 ∨ symbol = 2 ∨ symbol = 3) :
    ∃ sym, (sampleScript p).symbolOf? symbol = some sym ∧ IsGlobal sym ∧ sym.kind = .int := by
  rw [symbolOf?_sample]
  rcases h with rfl | rfl | rfl <;> exact ⟨_, rfl, ⟨rfl, rfl, rfl, rfl⟩, rfl⟩

/-- The integers of the script are global variables. -/
theorem sample_global (p : Program) {symbol : UInt32} (h : symbol = 1 ∨ symbol = 2 ∨ symbol = 3) :
    ∃ sym, (sampleScript p).symbolOf? symbol = some sym ∧ IsGlobal sym :=
  (sample_int p h).imp fun _ h => ⟨h.1, h.2.1⟩

/-- The host function of the script has no parameters and leaves a result. -/
theorem sample_host (p : Program) : (CallTarget.host 4).Fits (sampleScript p) true 0 := by
  refine ⟨_, symbolOf?_sample p 4, rfl, rfl, ?_⟩
  intro param hparam
  cases hparam

/-- Arms with a return, with an unused result and with a nested chain. -/
def sampleProgram : Program :=
  .chain (.global 1) (.step (.assign 3 (.int 1)) (.ret none))
    (.elseIf (.unary .not (.global 2)) .done
      (.otherwise (.step (.discard (.host 4) []) (.step (.assign 3 (.call (.host 4) []))
        (.chain (.binary .less (.global 3) (.int 2)) (.step (.assign 3 (.int 2)) .done) .done
          .done)))))
    (.ret none)

/-- The program is what its place asks for. -/
theorem sampleProgram_fits (p : Program) :
    sampleProgram.Fits ⟨sampleScript p, sampleCallable, 256⟩ 0 := by
  simp [sampleProgram, Program.Fits, Branches.Fits, Statement.Fits, Result.Fits, Term.Fits,
    Term.AllFit, Term.height, Term.heights, Program.isDone, sample_int, sample_global, sample_host]
  rfl

/-- A chain with a return in its first arm, an empty arm, and an arm without a condition that holds
an unused result, an assignment and another chain. -/
theorem decompileBody_sampleProgram :
    sampleProgram.settled false = true ∧ sampleProgram.plainElses = true ∧
      (sampleScript sampleProgram).decompileBody sampleCallable 4 256 = .ok (unlines
        ["    if (A) \x7b",
          "        X = 1;",
          "        return;",
          "    \x7d else if (!(B)) \x7b",
          "    \x7d else \x7b",
          "        RAND();",
          "        X = RAND();",
          "        if ((X) < (2)) \x7b",
          "            X = 2;",
          "        \x7d;",
          "    \x7d;"]) := by
  refine ⟨rfl, rfl, ?_⟩
  rw [decompileBody_structured (laidOut_sample (by decide) (sampleProgram_fits _) rfl) rfl rfl 4]
  rfl

end Daedalus.Structured
