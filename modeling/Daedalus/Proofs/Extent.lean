import Daedalus.Proofs.Cut
import Daedalus.Proofs.Encoding
import Daedalus.Proofs.Progress

/-! # What a statement consists of

A statement extends over the instructions from its start up to the first one that ends a statement or
that reaches the bound. `Script.Extends` says so of a list of operations and of the operation behind
it, and `Script.Undecoded` that the code breaks off before a statement ends; from every position on,
the code does one of both.

A cut gives just these instructions: the last one as the root of the statement, and of the others
those that are operands. Each of them remembers the instance that the last change up to it has made the
active one. -/

namespace Daedalus

/-! ### The active instance -/

/-- The instance that an operation makes the active one. -/
def Operation.setInstance? : Operation → Option UInt32
  | .setInstance symbol => some symbol
  | _ => none

/-- The active instance behind an operation is the one that it sets, or else the one before it. -/
theorem Operation.activate_eq (op : Operation) (active : Option UInt32) :
    op.activate active = op.setInstance?.or active := by
  cases op <;> rfl

/-- The active instance behind operations: the one of the last change among them, or the one that was
active before them. -/
def activeBehind (active : Option UInt32) (ops : List Operation) : Option UInt32 :=
  (ops.filterMap Operation.setInstance?).getLast?.or active

/-- Without operations, the active instance stays the same. -/
@[simp] theorem activeBehind_nil (active : Option UInt32) : activeBehind active [] = active := rfl

/-- The first operation comes first in changing the active instance. -/
theorem activeBehind_cons (active : Option UInt32) (op : Operation) (ops : List Operation) :
    activeBehind active (op :: ops) = activeBehind (op.activate active) ops := by
  rw [activeBehind, activeBehind, op.activate_eq, List.filterMap_cons]
  cases op.setInstance? with
  | none => rfl
  | some symbol =>
    simp only [List.getLast?_cons, Option.some_or]
    cases (ops.filterMap Operation.setInstance?).getLast? <;> rfl

/-- The last operation comes last in changing the active instance. -/
theorem activeBehind_concat (active : Option UInt32) (ops : List Operation) (op : Operation) :
    activeBehind active (ops ++ [op]) = op.activate (activeBehind active ops) := by
  induction ops generalizing active with
  | nil => exact activeBehind_cons active op []
  | cons first ops ih => rw [List.cons_append, activeBehind_cons, activeBehind_cons, ih]

/-- The frames of operations that stand from `pc` on. Each has the instance that is active behind its
operation. -/
def framesFrom (active : Option UInt32) (pc : Nat) (ops : List Operation) : List Frame :=
  (instrsAt pc ops).mapIdx fun place instr => ⟨instr, activeBehind active (ops.take (place + 1))⟩

/-- The frame of the first operation remembers the instance behind it, and the others start from
there. -/
theorem framesFrom_cons (active : Option UInt32) (pc : Nat) (op : Operation) (ops : List Operation) :
    framesFrom active pc (op :: ops) =
      Frame.ofInstr ⟨pc, op⟩ active :: framesFrom (op.activate active) (pc + op.size) ops := by
  simp only [framesFrom, instrsAt, List.mapIdx_cons, List.take_succ_cons, activeBehind_cons,
    List.take_zero, activeBehind_nil]
  rfl

namespace Script

/-! ### The extent of a statement -/

/-- The operations with which a statement ends: those that store, return or branch, and the calls of
which no result is known to be left. -/
inductive Terminates (script : Script) : Operation → Prop where
  | move (kind : MoveKind) : Terminates script (.move kind)
  | compound (op : CompoundOp) : Terminates script (.compound op)
  | ret : Terminates script .ret
  | jump (target : UInt32) : Terminates script (.jump target)
  | jumpIfZero (target : UInt32) : Terminates script (.jumpIfZero target)
  | call {target : UInt32}
    (h : ∀ callee, script.callableAt? target = some callee → callee.returnsValue = false) :
    Terminates script (.call target)
  | callExternal {symbol : UInt32}
    (h : ∀ callee, script.symbolOf? symbol = some callee → callee.returnsValue = false) :
    Terminates script (.callExternal symbol)

variable {script : Script} {bound pc : Nat} {active : Option UInt32} {stack : List Frame} {c : Cut}
  {fault : Fault} {op : Operation} {ops : List Operation}

/-- A statement ends with an operation just if it is one of those that terminate statements. -/
theorem endsStatement_iff : script.endsStatement op = true ↔ script.Terminates op := by
  -- Calls depend on their callees, the other operations on nothing.
  have hcall {callee : Option Symbol} : (!callee.any Symbol.returnsValue) = true ↔
      ∀ sym, callee = some sym → sym.returnsValue = false := by
    cases callee <;> simp
  constructor
  · intro h
    cases op with
    | move kind => exact .move kind
    | compound op => exact .compound op
    | ret => exact .ret
    | jump target => exact .jump target
    | jumpIfZero target => exact .jumpIfZero target
    | call target => exact .call (hcall.mp h)
    | callExternal symbol => exact .callExternal (hcall.mp h)
    | _ => cases h
  · intro h
    cases h with
    | call h => exact hcall.mpr h
    | callExternal h => exact hcall.mpr h
    | _ => rfl

/-- A statement stops at an instruction: its operation ends a statement, or it reaches the bound. -/
def StopsAt (script : Script) (bound : Nat) (instr : Instr) : Prop :=
  script.Terminates instr.op ∨ bound ≤ instr.next

/-- A cut stops where it is asked to stop. -/
theorem stopsAt_iff {instr : Instr} : script.StopsAt bound instr ↔
    (script.endsStatement instr.op || decide (bound ≤ instr.next)) = true := by
  rw [StopsAt, Bool.or_eq_true, endsStatement_iff, decide_eq_true_iff]

/-- The statement at `pc` extends over the operations `ops` and stops at `op` behind them. -/
structure Extends (script : Script) (bound pc : Nat) (ops : List Operation) (op : Operation) :
    Prop where
  placed : Placed script.code pc (ops ++ [op])
  goesOn : ∀ instr ∈ instrsAt pc ops, ¬script.StopsAt bound instr
  stops : script.StopsAt bound ⟨pc + byteSize ops, op⟩

/-- The statement at `pc` does not stop within the operations `ops`, and nothing can be decoded behind
them. -/
structure Undecoded (script : Script) (bound pc : Nat) (ops : List Operation) (fault : Fault) :
    Prop where
  placed : Placed script.code pc ops
  goesOn : ∀ instr ∈ instrsAt pc ops, ¬script.StopsAt bound instr
  undecoded : decode script.code (pc + byteSize ops) = .error fault

/-- **From every position on, a statement extends to an end or the code breaks off before.** -/
theorem exists_extends_or_undecoded (script : Script) (bound pc : Nat) :
    (∃ ops op, script.Extends bound pc ops op) ∨
      ∃ ops fault, script.Undecoded bound pc ops fault := by
  induction hleft : script.code.size - pc using Nat.strongRecOn generalizing pc with
  | ind left ih =>
    subst hleft
    cases hdecode : decode script.code pc with
    | error fault => exact .inr ⟨[], fault, trivial, by simp [instrsAt], hdecode⟩
    | ok instr =>
      obtain ⟨start, op⟩ := instr
      obtain rfl : start = pc := pc_of_decode hdecode
      -- The induction is on the code that is left, so it goes on only where the statement does.
      by_cases hstops : script.StopsAt bound ⟨start, op⟩
      · exact .inl ⟨[], op, ⟨hdecode, trivial⟩, by simp [instrsAt], hstops⟩
      · -- What is found behind the first operation is found from it on.
        have hlt := lt_next_of_decode hdecode
        have hle := next_le_of_decode hdecode
        dsimp only [Instr.next] at hlt hle
        rcases ih _ (by omega) (start + op.size) rfl with ⟨ops, last, h⟩ | ⟨ops, fault, h⟩
        · refine .inl ⟨op :: ops, last, ⟨hdecode, h.placed⟩,
            List.forall_mem_cons.mpr ⟨hstops, h.goesOn⟩, ?_⟩
          rw [byteSize_cons, ← Nat.add_assoc]
          exact h.stops
        · refine .inr ⟨op :: ops, fault, ⟨hdecode, h.placed⟩,
            List.forall_mem_cons.mpr ⟨hstops, h.goesOn⟩, ?_⟩
          rw [byteSize_cons, ← Nat.add_assoc]
          exact h.undecoded

/-! ### Cutting -/

/-- One step of a cut, at an operation that does not stop the statement. -/
theorem cut_of_not_stopsAt (hdecode : decode script.code pc = .ok ⟨pc, op⟩)
    (h : ¬script.StopsAt bound ⟨pc, op⟩) :
    script.cut bound active stack pc =
      script.cut bound (op.activate active) ((Frame.ofInstr ⟨pc, op⟩ active).push stack)
        (pc + op.size) := by
  rw [stopsAt_iff] at h
  rw [cut_of_ok hdecode, if_neg h]
  rfl

/-- A cut goes over operations that do not stop the statement, and collects the operands. -/
theorem cut_of_goesOn (hplaced : Placed script.code pc ops)
    (hgoes : ∀ instr ∈ instrsAt pc ops, ¬script.StopsAt bound instr) :
    script.cut bound active stack pc =
      script.cut bound (activeBehind active ops)
        (((framesFrom active pc ops).filter (·.instr.op.isOperand)).reverse ++ stack)
        (pc + byteSize ops) := by
  induction ops generalizing active stack pc with
  | nil => rfl
  | cons op ops ih =>
    obtain ⟨hfirst, hrest⟩ := List.forall_mem_cons.mp hgoes
    rw [cut_of_not_stopsAt hplaced.1 hfirst, ih hplaced.2 hrest, activeBehind_cons, framesFrom_cons,
      byteSize_cons, Nat.add_assoc]
    -- The first frame lies below the others, if it is one of an operand.
    by_cases hoperand : op.isOperand = true
    · simp [Frame.push, Frame.ofInstr, hoperand]
    · simp [Frame.push, Frame.ofInstr, hoperand]

/-- The turns of a cut go over operations that do not stop the statement. -/
theorem cutTurns_of_goesOn (hplaced : Placed script.code pc ops)
    (hgoes : ∀ instr ∈ instrsAt pc ops, ¬script.StopsAt bound instr) :
    script.cutTurns bound pc =
      (instrsAt pc ops).map Instr.pc ++ script.cutTurns bound (pc + byteSize ops) := by
  induction ops generalizing pc with
  | nil => rfl
  | cons op ops ih =>
    obtain ⟨hfirst, hrest⟩ := List.forall_mem_cons.mp hgoes
    rw [stopsAt_iff] at hfirst
    rw [cutTurns_of_ok hplaced.1, if_neg hfirst, Instr.next, ih hplaced.2 hrest, instrsAt,
      List.map_cons, byteSize_cons, Nat.add_assoc]
    rfl

namespace Extends

variable (h : script.Extends bound pc ops op)
include h

/-- The last operation of a statement stands behind the others. -/
theorem decode_last :
    decode script.code (pc + byteSize ops) = .ok ⟨pc + byteSize ops, op⟩ :=
  ((placed_append _ _ _ _).mp h.placed).2.1

/-- What is cut off is the last operation, with the operands before it on the stack. -/
theorem cut_eq (active : Option UInt32) (stack : List Frame) :
    script.cut bound active stack pc =
      .ok ⟨⟨⟨pc + byteSize ops, op⟩, activeBehind active (ops ++ [op])⟩,
        ((framesFrom active pc ops).filter (·.instr.op.isOperand)).reverse ++ stack⟩ := by
  have hplaced := ((placed_append _ _ _ _).mp h.placed).1
  rw [cut_of_goesOn hplaced h.goesOn,
    cut_last h.decode_last (h.stops.imp_left endsStatement_iff.mpr), activeBehind_concat]

/-- The decoded instructions are those of the statement. -/
theorem cutTurns_eq :
    script.cutTurns bound pc = (instrsAt pc (ops ++ [op])).map Instr.pc := by
  have hplaced := ((placed_append _ _ _ _).mp h.placed).1
  rw [cutTurns_of_goesOn hplaced h.goesOn, cutTurns_of_ok h.decode_last,
    if_pos (stopsAt_iff.mp h.stops), instrsAt_append, List.map_append]
  rfl

end Extends

/-- A cut fails where the code breaks off before the statement stops. -/
theorem Undecoded.cut_eq (h : script.Undecoded bound pc ops fault) (active : Option UInt32)
    (stack : List Frame) : script.cut bound active stack pc = .error fault := by
  rw [cut_of_goesOn h.placed h.goesOn, cut_of_error h.undecoded]

/-- The statement that is cut off at `pc` consists of the operations `ops` and of `op` behind them. -/
structure CutsOff (script : Script) (bound : Nat) (active : Option UInt32) (stack : List Frame)
    (pc : Nat) (ops : List Operation) (op : Operation) (c : Cut) : Prop where
  /-- The instructions are decoded one behind the other, up to the first at which it stops. -/
  extent : script.Extends bound pc ops op
  /-- No others are decoded. -/
  decoded : script.cutTurns bound pc = (instrsAt pc (ops ++ [op])).map Instr.pc
  /-- The last one is its root. -/
  last : c.last = ⟨⟨pc + byteSize ops, op⟩, activeBehind active (ops ++ [op])⟩
  /-- The others that are operands come on top of the stack, the last one first. -/
  operands : c.stack =
    ((framesFrom active pc ops).filter (·.instr.op.isOperand)).reverse ++ stack
  /-- It ends behind the last one. -/
  next : c.next = pc + byteSize (ops ++ [op])
  /-- Its end lies behind its start and within the code. -/
  inside : pc < c.next ∧ c.next ≤ script.code.size
  /-- Its end is computed in 32 bits without a wrap. -/
  address : (UInt32.ofNat c.last.instr.pc + UInt32.ofNat op.size).toNat = c.next
  /-- The instance that is active behind the last one stays active. -/
  active : c.active = activeBehind active (ops ++ [op])

/-- The statement that extends over operations is cut off. -/
theorem Extends.cutsOff (h : script.Extends bound pc ops op)
    (hsize : script.code.size < UInt32.size)
    (hcut : script.cut bound active stack pc = .ok c) :
    script.CutsOff bound active stack pc ops op c := by
  -- What is cut off is known, so its parts are read off it.
  have hc := Except.ok.inj (hcut.symm.trans (h.cut_eq active stack))
  have hlast : c.last.instr = ⟨pc + byteSize ops, op⟩ := by rw [hc]
  have hnext : c.next = pc + byteSize (ops ++ [op]) := by
    simp [Cut.next, hlast, Instr.next, Nat.add_assoc]
  have haddress := toNat_next_of_decode hsize h.decode_last
  exact {
    extent := h
    decoded := h.cutTurns_eq
    last := by rw [hc]
    operands := by rw [hc]
    next := hnext
    inside := cut_bounds hcut
    address := by
      rw [hlast, haddress, Cut.next, hlast]
    active := by rw [Cut.active, hc] }

/-- **A cut gives just one statement.** It succeeds with the instructions up to the first one at which
the statement stops, and fails with the fault of an instruction that cannot be decoded before that. -/
theorem cut_exact (hsize : script.code.size < UInt32.size) (bound : Nat) (active : Option UInt32)
    (stack : List Frame) (pc : Nat) :
    (∀ c, script.cut bound active stack pc = .ok c ↔
      ∃ ops op, script.CutsOff bound active stack pc ops op c) ∧
    ∀ fault, script.cut bound active stack pc = .error fault ↔
      ∃ ops, script.Undecoded bound pc ops fault := by
  -- A cut that succeeds rules out the fault, and one that fails the end of a statement.
  refine ⟨fun c => ⟨fun hcut => ?_, ?_⟩, fun fault => ⟨fun hcut => ?_, ?_⟩⟩
  · rcases exists_extends_or_undecoded script bound pc with ⟨ops, op, h⟩ | ⟨ops, fault, h⟩
    · exact ⟨ops, op, h.cutsOff hsize hcut⟩
    · cases hcut.symm.trans (h.cut_eq active stack)
  · rintro ⟨ops, op, h⟩
    obtain ⟨last, below⟩ := c
    obtain rfl : last = _ := h.last
    obtain rfl : below = _ := h.operands
    exact h.extent.cut_eq active stack
  · rcases exists_extends_or_undecoded script bound pc with ⟨ops, op, h⟩ | ⟨ops, other, h⟩
    · cases hcut.symm.trans (h.cut_eq active stack)
    · obtain rfl := Except.error.inj (hcut.symm.trans (h.cut_eq active stack))
      exact ⟨ops, h⟩
  · rintro ⟨ops, h⟩
    exact h.cut_eq active stack

/-- The code of an assignment that changes the active instance between its operands, and a branch whose
operand is cut short. -/
def switchingCode : Code :=
  (encodeAll [.callExternal 1, .nop, .setInstance 2, .pushVar 3, .move .int] ++ [0x4c, 0]).toArray

/-- A script with this code and a host function that leaves a result. -/
def switchingScript : Script :=
  .ofParts switchingCode
    [{ name := "F", kind := .func, flags := Flags.none.add .const },
      { name := "RAND", kind := .func, flags := (Flags.none.add .external).add .returns },
      { name := "HERO", kind := .inst }, { name := "X", kind := .int }]

/-- Statements with a change of the active instance in them, up to a bound at their end and up to
one within an instruction, and code that breaks off. -/
theorem cut_switchingScript :
    switchingScript.code.size < UInt32.size ∧
    (∃ ops op, switchingScript.CutsOff 19 none [] 0 ops op
      ⟨⟨⟨16, .move .int⟩, some 2⟩, [⟨⟨11, .pushVar 3⟩, some 2⟩, ⟨⟨0, .callExternal 1⟩, none⟩]⟩) ∧
    -- A bound within an instruction is reached by it.
    (∃ ops op, switchingScript.CutsOff 8 none [] 0 ops op
      ⟨⟨⟨6, .setInstance 2⟩, some 2⟩, [⟨⟨0, .callExternal 1⟩, none⟩]⟩) ∧
    ∃ ops, switchingScript.Undecoded 19 17 ops (.truncated 17 5 2) := by
  have hsize : switchingScript.code.size < UInt32.size := by decide
  obtain ⟨hwhole, -⟩ := cut_exact hsize 19 none [] 0
  obtain ⟨hshort, -⟩ := cut_exact hsize 8 none [] 0
  obtain ⟨-, hfails⟩ := cut_exact hsize 19 none [] 17
  refine ⟨hsize, (hwhole _).mp (eq_ok_of_toOption ?_), (hshort _).mp (eq_ok_of_toOption ?_),
    (hfails _).mp (cut_of_error rfl)⟩
  · decide +kernel
  · decide +kernel

end Script

end Daedalus
