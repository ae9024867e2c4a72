import Daedalus.Proofs.Lookups
import Daedalus.Proofs.SideBySide

/-! # What the recovery of a body depends on

The text of a body depends on the symbols and on the code from its start on: nothing is decoded in
front of the start, even where the body jumps back. Whether there is a text depends on less than
that: of the symbols it takes only which calls leave a result, and what is on the operand stack does
not matter at all. So operands that are missing and symbols that are not found show in the text, and
never make the recovery fail. -/

namespace Daedalus

/-! ### The code from the start on -/

/-- What is decoded depends on the length of the code and on the bytes from its position on. -/
theorem decode_congr {code code' : Code} {pc : Nat} (hsize : code.size = code'.size)
    (hagree : ∀ i, pc ≤ i → code[i]? = code'[i]?) : decode code pc = decode code' pc := by
  have hoperand : (fun place => code[pc + 1 + place]?.getD 0) =
      fun place => code'[pc + 1 + place]?.getD 0 := by
    funext place
    rw [hagree (pc + 1 + place) (by omega)]
  rw [decode, decode, hagree pc (Nat.le_refl pc), hsize, hoperand]

namespace Setting

variable {s s' : Setting} {start : Nat}

/-- Settings that differ in the code in front of `start` shadow each other. -/
theorem shadows_of_agree (htable : s.script.toTable = s'.script.toTable)
    (hcallable : s.callable = s'.callable) (hlimit : s.limit = s'.limit)
    (hsize : s.script.code.size = s'.script.code.size)
    (hagree : ∀ i, start ≤ i → s.script.code[i]? = s'.script.code[i]?) :
    s.Shadows s' start fun _ => True := by
  have hrecover := recover_eq_of_toTable htable hcallable
  refine shadows_of_recover ⟨fun pc hpc => ?_, fun pc instr _ _ => ?_⟩ (Nat.le_of_eq hlimit)
    fun active frame stack _ => ?_
  · exact decode_congr hsize fun i hi => hagree i (Nat.le_trans hpc hi)
  · simp only [Script.endsStatement, htable]
  · rw [hrecover, hlimit]

end Setting

namespace Script

/-- A body starts behind its parameters. -/
theorem le_of_bodyStart {script : Script} {sym : Symbol} {start : Nat}
    (h : script.bodyStart sym = .ok start) :
    sym.address.toNat + 6 * (script.parametersOf sym).length ≤ start := by
  rw [bodyStart] at h
  split at h
  · exact Nat.le_of_eq (Except.ok.inj h)
  · cases h

/-- **A body depends on the code from its start on.** Two scripts with the same symbols and code of
the same length, which is the same from the start of a body on, give the same text for this body or
fail with the same fault. -/
theorem decompileBody_eq_of_agree {script script' : Script} (sym : Symbol)
    (hsymbols : script.symbols = script'.symbols) (hsize : script.code.size = script'.code.size)
    (hagree : ∀ pc, sym.address.toNat + 6 * (script.parametersOf sym).length ≤ pc →
      script.code[pc]? = script'.code[pc]?) (indent limit : Nat) :
    script.decompileBody sym indent limit = script'.decompileBody sym indent limit := by
  let s : Setting := ⟨script, sym, limit⟩
  let s' : Setting := ⟨script', sym, limit⟩
  have htable : script.toTable = script'.toTable := Table.ext_symbols hsymbols
  have hstart : script.bodyStart sym = script'.bodyStart sym := by
    rw [bodyStart, bodyStart, htable, hsize]
  -- All properties of expressions are allowed here, since the tables are the same.
  have hshadows (start : Nat) (h : script.bodyStart sym = .ok start) :
      s.Shadows s' start fun _ => True := by
    have hle := le_of_bodyStart h
    exact Setting.shadows_of_agree htable rfl rfl hsize fun i hi => hagree i (Nat.le_trans hle hi)
  have hagree : Agree (s.CutShort s')
      (fun block block' => True → block.All (fun _ => True) → block = block')
      (s.script.bodyBlock s.callable s.limit) (s'.script.bodyBlock s'.callable s'.limit) :=
    Setting.bodyBlock_agree hsize rfl hstart (fun _ => rfl) hshadows
  have hblock : script.bodyBlock sym limit = script'.bodyBlock sym limit :=
    hagree.eq (Setting.not_cutShort rfl) fun block _ heq =>
      heq trivial (block.all_of_forall fun _ => trivial)
  have htext : script.bodyText sym indent = script'.bodyText sym indent := by
    funext block
    rw [bodyText, bodyText, htable]
  rw [decompileBody, decompileBody, hblock, htext]

/-- A function behind two bytes that belong to nothing. Its arm jumps back to these bytes. -/
def jumpingBack (first second : UInt8) : Script :=
  ofParts
    #[first, second, 0x41, 1, 0, 0, 0, 0x4c, 28, 0, 0, 0, 0x40, 1, 0, 0, 0, 0x41, 1, 0, 0, 0, 0x09,
      0x4b, 0, 0, 0, 0, 0x3c]
    [{ name := "F", kind := .func, flags := Flags.none.add .const, address := 2 },
      { name := "A", kind := .int }]

/-- The function. -/
def behindBytes : Symbol :=
  { name := "F", kind := .func, flags := Flags.none.add .const, address := 2 }

/-- Two scripts with different code in front of a body, where the body is the same. -/
theorem decompileBody_jumpingBack :
    (∀ pc, 2 ≤ pc → (jumpingBack 0x3c 0x3c).code[pc]? = (jumpingBack 0xee 0x4c).code[pc]?) ∧
      ((jumpingBack 0x3c 0x3c).decompileBody behindBytes 4 256).toOption =
        some "    if (A) \x7b\n        A = 1;\n    \x7d;\n" ∧
      (jumpingBack 0x3c 0x3c).decompileBody behindBytes 4 256 =
        (jumpingBack 0xee 0x4c).decompileBody behindBytes 4 256 := by
  have hsymbols : (jumpingBack 0x3c 0x3c).symbols = (jumpingBack 0xee 0x4c).symbols := rfl
  have hsize : (jumpingBack 0x3c 0x3c).code.size = (jumpingBack 0xee 0x4c).code.size := rfl
  have hstart : 2 = behindBytes.address.toNat +
      6 * ((jumpingBack 0x3c 0x3c).parametersOf behindBytes).length := by decide +kernel
  have hagree (pc : Nat) (hpc : 2 ≤ pc) :
      (jumpingBack 0x3c 0x3c).code[pc]? = (jumpingBack 0xee 0x4c).code[pc]? := by
    obtain ⟨more, rfl⟩ := Nat.exists_eq_add_of_le hpc
    rw [Nat.add_comm]
    rfl
  refine ⟨hagree, by decide +kernel, ?_⟩
  exact decompileBody_eq_of_agree behindBytes hsymbols hsize (fun pc hpc => hagree pc (hstart ▸ hpc))
    4 256

end Script

/-! ### Faults -/

/-- Whether a fault says that code cannot be decoded, that it branches back, or that its blocks nest
too deep. -/
def Fault.isOfCode : Fault → Bool
  | .outOfBounds _ _ | .invalidOpcode _ _ | .truncated _ _ _ => true
  | .backwardBranch _ _ | .nestingTooDeep _ _ => true
  | .endOfInput | .external _ | .notCallable _ | .symbolNotFound _ => false

/-- Where an instruction cannot be decoded, the fault is one of the code. -/
theorem isOfCode_of_decode {code : Code} {pc : Nat} {fault : Fault}
    (h : decode code pc = .error fault) : fault.isOfCode = true := by
  unfold decode at h
  split at h
  · cases h
    rfl
  · split at h
    · cases h
      rfl
    · split at h
      · cases h
      · cases h
        rfl

/-- A walk fails because of the code alone. -/
theorem Setting.isOfCode_of_fault? {s : Setting} {call : Call} {fault : Fault}
    (h : s.fault? call = some fault) : fault.isOfCode = true := by
  rw [fault?_eq_findSome?_trace] at h
  obtain ⟨raising, -, hraised⟩ := List.exists_of_findSome?_eq_some h
  rcases cases_of_raised? hraised with ⟨-, rfl⟩ | ⟨-, ⟨pc, hdecode⟩ | ⟨pc, target, rfl⟩⟩
  · rfl
  · exact isOfCode_of_decode hdecode
  · rfl

/-! ### The classes of calls -/

/-- Two scripts class the calls in their code alike: whether a callee is known and leaves a result
is the same in both. -/
structure Script.ClassesAlike (script script' : Script) : Prop where
  calls : ∀ pc instr target, decode script.code pc = .ok instr → instr.op = .call target →
    (script.callableAt? target).any Symbol.returnsValue =
      (script'.callableAt? target).any Symbol.returnsValue
  externals : ∀ pc instr symbol, decode script.code pc = .ok instr →
    instr.op = .callExternal symbol →
      (script.symbolOf? symbol).any Symbol.returnsValue =
        (script'.symbolOf? symbol).any Symbol.returnsValue

/-- Scripts with the same code that class its calls alike cut it into the same statements. -/
theorem Script.ClassesAlike.sameFlow {script script' : Script} (h : script.ClassesAlike script')
    (hcode : script.code = script'.code) (start : Nat) : script.SameFlow script' start where
  decode_eq pc _ := by rw [hcode]
  endsStatement_eq pc instr _ hdecode := by
    cases hop : instr.op with
    | call target =>
      rw [endsStatement, endsStatement, h.calls pc instr target hdecode hop]
    | callExternal symbol =>
      rw [endsStatement, endsStatement, h.externals pc instr symbol hdecode hop]
    | _ => rfl

namespace Script

/-- **Stacks and symbols never make the recovery fail.** Two scripts with the same code which class
its calls alike both give a text for a body, or both fail with the same fault, if the callable is not
external, starts at the same address and has as many parameters in both. The fault is one of the
code: it cannot be decoded, it branches back, or its blocks nest too deep. -/
theorem faultOf_decompileBody_eq {script script' : Script} {sym sym' : Symbol}
    (hcode : script.code = script'.code) (hclasses : script.ClassesAlike script')
    (hcallable : sym.kind.isCallable = true ∧ sym'.kind.isCallable = true)
    (hexternal : sym.isExternal = false ∧ sym'.isExternal = false)
    (haddress : sym.address = sym'.address)
    (hparameters : (script.parametersOf sym).length = (script'.parametersOf sym').length)
    (indent indent' limit : Nat) :
    faultOf (script.decompileBody sym indent limit) =
        faultOf (script'.decompileBody sym' indent' limit) ∧
      ∀ fault, script.decompileBody sym indent limit = .error fault → fault.isOfCode = true := by
  let s : Setting := ⟨script, sym, limit⟩
  let s' : Setting := ⟨script', sym', limit⟩
  have hbody : sym.requireBody = .ok () := by
    simp [Symbol.requireBody, hexternal.1, hcallable.1]
  have hbody' : sym'.requireBody = .ok () := by
    simp [Symbol.requireBody, hexternal.2, hcallable.2]
  constructor
  · have hstart : script.bodyStart sym = script'.bodyStart sym' := by
      rw [bodyStart, bodyStart, haddress, hparameters, hcode]
    -- Nothing is said about the trees, so nothing is asked of what is recovered.
    have hshadows (start : Nat) : s.Shadows s' start fun _ => False :=
      ⟨hclasses.sameFlow hcode start, Nat.le_refl limit, fun _ _ h => h.elim, fun _ h => h.elim⟩
    have hagree : Agree (s.CutShort s')
        (fun block block' => False → block.All (fun _ => False) → block = block')
        (s.script.bodyBlock s.callable s.limit) (s'.script.bodyBlock s'.callable s'.limit) :=
      Setting.bodyBlock_agree (congrArg Array.size hcode) (hbody.trans hbody'.symm) hstart
        False.elim fun start _ => hshadows start
    rw [decompileBody, decompileBody, faultOf_map, faultOf_map]
    exact hagree.faultOf_eq (Setting.not_cutShort rfl)
  · intro fault h
    have hfault : faultOf (script.bodyBlock sym limit) = some fault :=
      faultOf_eq_some.mpr (eq_error_of_map h)
    rw [bodyBlock, hbody] at hfault
    cases hstart : script.bodyStart sym with
    | error fault' =>
      rw [hstart] at hfault
      cases hfault
      rw [bodyStart] at hstart
      split at hstart
      · cases hstart
      · cases hstart
        rfl
    | ok start =>
      rw [hstart] at hfault
      have hwalk : s.fault? (s.root start) = some fault := (faultOf_map Walk.block _).symm.trans hfault
      exact Setting.isOfCode_of_fault? hwalk

/-- Code that adds without operands, calls the host function 1, and moves into the variable 2. -/
def missingOperands : Code := #[0x00, 0x3e, 1, 0, 0, 0, 0x41, 2, 0, 0, 0, 0x09, 0x3c]

/-- A function that has this code as its body. -/
def asFunction : Symbol := { name := "F", kind := .func, flags := Flags.none.add .const }

/-- An instance that has this code as its body. -/
def asInstance : Symbol := { name := "G", kind := .inst, flags := Flags.none.add .const }

/-- The code with the function, and with symbols for the host function and the variable. -/
def withSymbols : Script :=
  ofParts missingOperands
    [asFunction, { name := "HOST", kind := .func, flags := Flags.none.add .external },
      { name := "X", kind := .int },
      { name := "HOST.N", kind := .int, flags := Flags.none.add .member }]

/-- The code with the instance alone. -/
def withoutSymbols : Script := ofParts missingOperands [asInstance]

/-- Calls of scripts in which no symbol returns a value are classed alike. -/
theorem classesAlike_of_not_returnsValue {script script' : Script}
    (h : ∀ sym ∈ script.symbols.toList, sym.returnsValue = false)
    (h' : ∀ sym ∈ script'.symbols.toList, sym.returnsValue = false) :
    script.ClassesAlike script' := by
  have hnone {found : Option Symbol} (hfound : ∀ sym, found = some sym → sym.returnsValue = false) :
      found.any Symbol.returnsValue = false := by
    cases found with
    | none => rfl
    | some sym => exact hfound sym rfl
  -- Calls by address and by number; both find symbols of the scripts only.
  constructor
  · intro _ _ target _ _
    have hleft : (script.callableAt? target).any Symbol.returnsValue = false :=
      hnone fun sym hsym => h sym (Table.mem_of_callableAt? hsym)
    have hright : (script'.callableAt? target).any Symbol.returnsValue = false :=
      hnone fun sym hsym => h' sym (Table.mem_of_callableAt? hsym)
    rw [hleft, hright]
  · intro _ _ symbol _ _
    have hleft : (script.symbolOf? symbol).any Symbol.returnsValue = false :=
      hnone fun sym hsym => h sym (Table.mem_of_symbolAt? hsym)
    have hright : (script'.symbolOf? symbol).any Symbol.returnsValue = false :=
      hnone fun sym hsym => h' sym (Table.mem_of_symbolAt? hsym)
    rw [hleft, hright]

/-- Both bodies are recovered, though operands and symbols are missing. At a limit of zero, both fail.
-/
theorem decompileBody_missingOperands :
    withSymbols.ClassesAlike withoutSymbols ∧
      (withSymbols.decompileBody asFunction 4 256).toOption =
        some ("    HOST((0 /* !broken stack! */) + (0 /* !broken stack! */));\n" ++
          "    X = 0 /* !broken stack! */;\n") ∧
      faultOf (withoutSymbols.decompileBody asInstance 0 256) = none ∧
      withSymbols.decompileBody asFunction 4 0 = .error (.nestingTooDeep 0 0) ∧
      faultOf (withoutSymbols.decompileBody asInstance 0 0) = some (.nestingTooDeep 0 0) ∧
      (Fault.nestingTooDeep 0 0).isOfCode = true := by
  have hcode : withSymbols.code = withoutSymbols.code := rfl
  have hclasses : withSymbols.ClassesAlike withoutSymbols :=
    classesAlike_of_not_returnsValue (by decide) (by decide)
  have hcallable : asFunction.kind.isCallable = true ∧ asInstance.kind.isCallable = true := by
    decide
  have hexternal : asFunction.isExternal = false ∧ asInstance.isExternal = false := by decide
  have hparameters : (withSymbols.parametersOf asFunction).length =
      (withoutSymbols.parametersOf asInstance).length := by decide +kernel
  have hrecovered : faultOf (withSymbols.decompileBody asFunction 4 256) = none := by
    decide +kernel
  have hfailed : withSymbols.decompileBody asFunction 4 0 = .error (.nestingTooDeep 0 0) :=
    faultOf_eq_some.mp (by decide +kernel)
  -- The second body is not evaluated: its outcome follows from that of the first one.
  obtain ⟨hdeep, -⟩ :=
    faultOf_decompileBody_eq hcode hclasses hcallable hexternal rfl hparameters 4 0 256
  obtain ⟨hflat, hfault⟩ :=
    faultOf_decompileBody_eq hcode hclasses hcallable hexternal rfl hparameters 4 0 0
  exact ⟨hclasses, by decide +kernel, hdeep.symm.trans hrecovered, hfailed,
    hflat.symm.trans (faultOf_eq_some.mpr hfailed), hfault _ hfailed⟩

end Script

end Daedalus
