import Daedalus.Proofs.ListingEnd
import Daedalus.Usage

/-! # Decoding and encoding

`decode` gives an instruction just if the bytes from its position on are the encoding of its
operation, so it depends on no other byte; and it fails just if there is no code at the position, the
byte there is that of no opcode, or the code ends within the instruction.

Decoding all of the code one instruction behind the other goes on in the same way: `Fills` says of a
list of operations that they are what stands in the code from a position to its end, and `BreaksOff`
that they are followed by an instruction that cannot be decoded. `Script.sweep` gives the first or the
fault of the second, and code is filled by the operations of which it is the encoding. -/

namespace Daedalus

variable {code : Code} {pc : Nat} {instr : Instr} {fault : Fault}

/-! ### One instruction -/

/-- The operand bytes of an operation are those from which it was made. -/
theorem Opcode.operandBytes_operation (op : Opcode) (operand : Nat → UInt8) :
    (op.operation operand).operandBytes = (List.range op.operandSize).map operand := by
  cases op <;>
    simp [Opcode.operation, Operation.operandBytes, Opcode.operandSize, List.range_succ]

/-- A part of the code by its single bytes. -/
theorem toList_extract {length : Nat} (h : pc + length ≤ code.size) :
    (code.extract pc (pc + length)).toList =
      (List.range length).map fun place => code[pc + place]?.getD 0 := by
  apply List.ext_getElem
  · simp only [Array.length_toList, Array.size_extract, List.length_map, List.length_range]
    omega
  · intro place hplace _
    simp only [Array.length_toList, Array.size_extract] at hplace
    rw [List.getElem_map, List.getElem_range, Array.getElem_toList, Array.getElem_extract,
      Array.getElem?_eq_getElem (by omega), Option.getD_some]

/-- The code with the bytes from a position on written out. -/
theorem toList_eq_of_extract {bytes : List UInt8} (hpc : pc ≤ code.size)
    (h : (code.extract pc (pc + bytes.length)).toList = bytes) :
    code.toList = (code.extract 0 pc).toList ++
      (bytes ++ (code.extract (pc + bytes.length) code.size).toList) := by
  have hend : pc + bytes.length ≤ code.size := by
    have hlength := congrArg List.length h
    simp only [Array.length_toList, Array.size_extract] at hlength
    omega
  -- The code is cut twice: at the position, and behind the bytes.
  have hbehind : code.extract pc code.size =
      code.extract pc (pc + bytes.length) ++ code.extract (pc + bytes.length) code.size := by
    rw [Array.extract_append_extract, Nat.min_eq_left (Nat.le_add_right _ _), Nat.max_eq_right hend]
  have hall : code.extract 0 code.size = code.extract 0 pc ++ code.extract pc code.size := by
    rw [Array.extract_append_extract, Nat.min_eq_left (Nat.zero_le _), Nat.max_eq_right hpc]
  calc code.toList
      = (code.extract 0 code.size).toList := by rw [Array.extract_size]
    _ = (code.extract 0 pc).toList ++ ((code.extract pc (pc + bytes.length)).toList ++
          (code.extract (pc + bytes.length) code.size).toList) := by
        rw [hall, hbehind, Array.toList_append, Array.toList_append]
    _ = _ := by rw [h]

/-- The bytes of a decoded instruction are the encoding of its operation. -/
theorem extract_of_decode (h : decode code pc = .ok instr) :
    (code.extract pc instr.next).toList = instr.op.encode := by
  unfold decode at h
  split at h
  · cases h
  · next byte hbyte =>
    split at h
    · cases h
    · next op hop =>
      split at h
      · next hle =>
        cases h
        rw [Instr.next, Operation.size, Opcode.opcode_operation, toList_extract hle, Opcode.size,
          Nat.add_comm 1, List.range_succ_eq_map, List.map_cons, List.map_map, Operation.encode,
          Opcode.opcode_operation, Opcode.operandBytes_operation, Nat.add_zero, hbyte,
          Option.getD_some, Opcode.ofByte?_eq_some_iff.mp hop]
        -- The operand bytes are counted from the byte behind the opcode.
        congr 1
        refine List.map_congr_left fun place _ => ?_
        rw [Function.comp_apply, Nat.succ_eq_add_one, Nat.add_right_comm, Nat.add_assoc pc]
      · cases h

/-- **Decoding inverts encoding.** An instruction is decoded at a position just if the bytes from
there on are the encoding of its operation. -/
theorem decode_eq_ok_iff : decode code pc = .ok instr ↔
    instr.pc = pc ∧ (code.extract pc instr.next).toList = instr.op.encode := by
  constructor
  · exact fun h => ⟨pc_of_decode h, extract_of_decode h⟩
  · rintro ⟨rfl, hbytes⟩
    have hnext : instr.next = instr.pc + instr.op.encode.length := by
      rw [Instr.next, Operation.length_encode]
    have hpc : instr.pc ≤ code.size := by
      have hlength := congrArg List.length hbytes
      have hpos := instr.op.size_pos
      simp only [Array.length_toList, Array.size_extract, Operation.length_encode] at hlength
      omega
    rw [hnext] at hbytes
    have hdecode := decode_encode (toList_eq_of_extract hpc hbytes)
    rwa [Array.length_toList, Array.size_extract, Nat.sub_zero, Nat.min_eq_left hpc] at hdecode

/-- The three ways in which decoding fails: there is no code at the position, the byte there is that
of no opcode, or fewer bytes are left than the instruction takes. -/
inductive Undecodable (code : Code) (pc : Nat) : Fault → Prop where
  | outside (hpc : code.size ≤ pc) : Undecodable code pc (.outOfBounds pc code.size)
  | unassigned {byte : UInt8} (hbyte : code[pc]? = some byte)
    (hnone : ∀ op : Opcode, op.byte ≠ byte) : Undecodable code pc (.invalidOpcode pc byte)
  | cut {op : Opcode} (hbyte : code[pc]? = some op.byte) (hsize : code.size - pc < op.size) :
    Undecodable code pc (.truncated pc op.size (code.size - pc))

/-- **Decoding fails in these three cases only.** -/
theorem decode_eq_error_iff : decode code pc = .error fault ↔ Undecodable code pc fault := by
  constructor
  · intro h
    -- Each way out of decoding is one of the cases: no byte, no opcode, or not enough bytes behind
    -- it.
    unfold decode at h
    split at h
    · next hbyte =>
      cases h
      exact .outside (Array.getElem?_eq_none_iff.mp hbyte)
    · next byte hbyte =>
      split at h
      · next hnone =>
        cases h
        refine .unassigned hbyte fun op hop => ?_
        rw [Opcode.ofByte?_eq_some_iff.mpr hop] at hnone
        cases hnone
      · next op hop =>
        split at h
        · cases h
        · next hsize =>
          cases h
          rw [← Opcode.ofByte?_eq_some_iff.mp hop] at hbyte
          have hpos := op.size_pos
          exact .cut hbyte (by omega)
  · intro h
    cases h with
    | outside hpc => rw [decode, Array.getElem?_eq_none hpc]
    | @unassigned byte hbyte hnone =>
      have hop : Opcode.ofByte? byte = none := Option.eq_none_iff_forall_ne_some.mpr fun op hop =>
        hnone op (Opcode.ofByte?_eq_some_iff.mp hop)
      simp only [decode, hbyte, hop]
    | @cut op hbyte hsize =>
      have hnot : ¬pc + op.size ≤ code.size := by omega
      simp only [decode, hbyte, Opcode.ofByte?_byte, if_neg hnot]

/-! ### The whole code -/

/-- The operations stand in the code one behind the other, from `pc` to the end of the code. -/
structure Fills (code : Code) (pc : Nat) (ops : List Operation) : Prop where
  placed : Placed code pc ops
  size : pc + byteSize ops = code.size

/-- The operations stand in the code one behind the other from `pc` on, and behind them, within the
code, no instruction can be decoded. -/
structure BreaksOff (code : Code) (pc : Nat) (ops : List Operation) (fault : Fault) : Prop where
  placed : Placed code pc ops
  inside : pc + byteSize ops < code.size
  undecoded : decode code (pc + byteSize ops) = .error fault

/-- Code can be decoded to its end, or breaks off somewhere. -/
theorem exists_fills_or_breaksOff (hpc : pc ≤ code.size) :
    (∃ ops, Fills code pc ops) ∨ ∃ ops fault, BreaksOff code pc ops fault := by
  induction hleft : code.size - pc using Nat.strongRecOn generalizing pc with
  | ind left ih =>
    subst hleft
    rcases Nat.eq_or_lt_of_le hpc with rfl | hlt
    · exact .inl ⟨[], trivial, rfl⟩
    cases hdecode : decode code pc with
    | error fault => exact .inr ⟨[], fault, trivial, hlt, hdecode⟩
    | ok instr =>
      obtain ⟨start, op⟩ := instr
      obtain rfl : start = pc := pc_of_decode hdecode
      have hgoes := lt_next_of_decode hdecode
      have hnext := next_le_of_decode hdecode
      rw [Instr.next] at hgoes hnext
      -- What is found behind the first operation is found from it on.
      rcases ih _ (by omega) hnext rfl with ⟨ops, h⟩ | ⟨ops, fault, h⟩
      · refine .inl ⟨op :: ops, ⟨hdecode, h.placed⟩, ?_⟩
        rw [byteSize_cons, ← Nat.add_assoc, h.size]
      · refine .inr ⟨op :: ops, fault, ⟨hdecode, h.placed⟩, ?_, ?_⟩
        · rw [byteSize_cons, ← Nat.add_assoc]
          exact h.inside
        · rw [byteSize_cons, ← Nat.add_assoc]
          exact h.undecoded

/-- Operations that stand in the code are decoded there. -/
theorem decode_of_mem_instrsAt {ops : List Operation} (h : Placed code pc ops)
    (hinstr : instr ∈ instrsAt pc ops) : decode code instr.pc = .ok instr := by
  induction ops generalizing pc with
  | nil => cases hinstr
  | cons op ops ih =>
    rcases List.mem_cons.mp hinstr with rfl | hinstr
    · exact h.1
    · exact ih h.2 hinstr

/-- Operations that stand in the code are encoded there. -/
theorem extract_of_placed {ops : List Operation} (h : Placed code pc ops) :
    (code.extract pc (pc + byteSize ops)).toList = encodeAll ops := by
  induction ops generalizing pc with
  | nil => simp [encodeAll]
  | cons op ops ih =>
    have hbytes : code.extract pc (pc + byteSize (op :: ops)) =
        code.extract pc (pc + op.size) ++
          code.extract (pc + op.size) (pc + op.size + byteSize ops) := by
      rw [Array.extract_append_extract, Nat.min_eq_left (Nat.le_add_right _ _),
        Nat.max_eq_right (Nat.le_add_right _ _), byteSize_cons, Nat.add_assoc]
    have hfirst : (code.extract pc (pc + op.size)).toList = op.encode := extract_of_decode h.1
    rw [hbytes, Array.toList_append, hfirst, ih h.2]
    rfl

/-- **Code is filled by the operations of which it is the encoding.** -/
theorem fills_iff {ops : List Operation} : Fills code 0 ops ↔ code.toList = encodeAll ops := by
  constructor
  · intro h
    have hbytes := extract_of_placed h.placed
    rwa [h.size, Array.extract_size] at hbytes
  · intro h
    have hbytes : code.toList = [] ++ (encodeAll ops ++ []) := by
      rw [List.nil_append, List.append_nil, h]
    refine ⟨placed_of_encodeAll hbytes, ?_⟩
    rw [Nat.zero_add, ← length_encodeAll, ← h, Array.length_toList]

namespace Script

variable {script : Script} {ops : List Operation} {instrs : List Instr}

/-- One turn of a sweep. -/
theorem sweepFrom_of_decode {op : Operation} (h : decode script.code pc = .ok ⟨pc, op⟩)
    (before : Array Instr) :
    script.sweepFrom before pc = script.sweepFrom (before.push ⟨pc, op⟩) (pc + op.size) := by
  have hsize : pc < script.code.size :=
    Nat.lt_of_lt_of_le (lt_next_of_decode h) (next_le_of_decode h)
  rw [sweepFrom, if_pos hsize]
  split
  · next fault hfault => cases h.symm.trans hfault
  · next instr hinstr =>
    cases h.symm.trans hinstr
    rfl

/-- A sweep runs over operations that stand in the code. -/
theorem sweepFrom_placed (h : Placed script.code pc ops) (before : Array Instr) :
    script.sweepFrom before pc =
      script.sweepFrom (before ++ (instrsAt pc ops).toArray) (pc + byteSize ops) := by
  induction ops generalizing before pc with
  | nil => simp [instrsAt]
  | cons op ops ih =>
    rw [sweepFrom_of_decode h.1, ih h.2]
    simp [instrsAt, Nat.add_assoc]

/-- A sweep gives the operations that fill the code. -/
theorem sweep_of_fills (h : Fills script.code 0 ops) : script.sweep = .ok (instrsAt 0 ops) := by
  have hend : ¬0 + byteSize ops < script.code.size := Nat.not_lt.mpr (Nat.le_of_eq h.size.symm)
  rw [sweep, sweepFrom_placed h.placed, sweepFrom, if_neg hend, Array.empty_append]
  rfl

/-- A sweep fails where the code breaks off. -/
theorem sweep_of_breaksOff (h : BreaksOff script.code 0 ops fault) : script.sweep = .error fault := by
  rw [sweep, sweepFrom_placed h.placed, sweepFrom, if_pos h.inside]
  split
  · next fault' hfault =>
    cases h.undecoded.symm.trans hfault
    rfl
  · next instr hinstr => cases h.undecoded.symm.trans hinstr

/-- A sweep succeeds just if operations fill the code, and gives these. -/
theorem sweep_eq_ok_iff :
    script.sweep = .ok instrs ↔ ∃ ops, Fills script.code 0 ops ∧ instrs = instrsAt 0 ops := by
  constructor
  · intro h
    rcases exists_fills_or_breaksOff (Nat.zero_le script.code.size) with
      ⟨ops, hops⟩ | ⟨ops, fault, hops⟩
    · exact ⟨ops, hops, Except.ok.inj (h.symm.trans (sweep_of_fills hops))⟩
    · cases h.symm.trans (sweep_of_breaksOff hops)
  · rintro ⟨ops, hops, rfl⟩
    exact sweep_of_fills hops

/-- A sweep fails just if the code breaks off, with the fault of the decoding. -/
theorem sweep_eq_error_iff :
    script.sweep = .error fault ↔ ∃ ops, BreaksOff script.code 0 ops fault := by
  constructor
  · intro h
    rcases exists_fills_or_breaksOff (Nat.zero_le script.code.size) with
      ⟨ops, hops⟩ | ⟨ops, other, hops⟩
    · cases h.symm.trans (sweep_of_fills hops)
    · obtain rfl := Except.error.inj (h.symm.trans (sweep_of_breaksOff hops))
      exact ⟨ops, hops⟩
  · rintro ⟨ops, hops⟩
    exact sweep_of_breaksOff hops

end Script

/-- The instructions of a list of operations hold these operations. -/
theorem map_op_instrsAt (pc : Nat) (ops : List Operation) : (instrsAt pc ops).map Instr.op = ops := by
  induction ops generalizing pc with
  | nil => rfl
  | cons op ops ih => rw [instrsAt, List.map_cons, ih]

/-- **Decoding and encoding.** What is decoded at a position is the operation whose encoding stands
there, and it is decoded whatever stands before and behind it; the position behind it is an address,
computed without a wrap. A sweep gives a list of operations just if the code is their encoding. Where
an instruction is decoded, no other byte counts; where none is, it is for one of three reasons. -/
theorem decode_inverse_encode (code : Code) (pc : Nat) :
    (∀ instr, decode code pc = .ok instr ↔
      instr.pc = pc ∧ instr.next = pc + instr.op.encode.length ∧ instr.next ≤ code.size ∧
        (code.extract pc instr.next).toList = instr.op.encode) ∧
    (∀ instr, code.size < UInt32.size → decode code pc = .ok instr →
      (UInt32.ofNat pc + UInt32.ofNat instr.op.size).toNat = instr.next) ∧
    (∀ (op : Operation) (before after : List UInt8),
      decode (before ++ (op.encode ++ after)).toArray before.length = .ok ⟨before.length, op⟩ ∧
        Instr.next ⟨before.length, op⟩ = (before ++ op.encode).length) ∧
    (∀ (script : Script) (ops : List Operation),
      script.sweep = .ok (instrsAt 0 ops) ↔ script.code.toList = encodeAll ops) ∧
    (∀ (instr : Instr) (code' : Code), decode code pc = .ok instr →
      code'.extract pc instr.next = code.extract pc instr.next → decode code' pc = .ok instr) ∧
    ∀ fault, decode code pc = .error fault ↔ Undecodable code pc fault := by
  refine ⟨fun instr => ⟨fun h => ?_, ?_⟩, fun instr => toNat_next_of_decode,
    fun op before after => ⟨decode_encode rfl, ?_⟩, fun script ops => ⟨fun h => ?_, fun h => ?_⟩,
    fun instr code' h hsame => ?_, fun fault => decode_eq_error_iff⟩
  · obtain ⟨hpc, hbytes⟩ := decode_eq_ok_iff.mp h
    refine ⟨hpc, ?_, next_le_of_decode h, hbytes⟩
    rw [Operation.length_encode, Instr.next, hpc]
  · rintro ⟨hpc, -, -, hbytes⟩
    exact decode_eq_ok_iff.mpr ⟨hpc, hbytes⟩
  · rw [Instr.next, List.length_append, Operation.length_encode]
  · obtain ⟨ops', hfills, hinstrs⟩ := Script.sweep_eq_ok_iff.mp h
    -- A list of operations is determined by its instructions.
    have hops := congrArg (List.map Instr.op) hinstrs
    rw [map_op_instrsAt, map_op_instrsAt] at hops
    exact fills_iff.mp (hops ▸ hfills)
  · exact Script.sweep_of_fills (fills_iff.mpr h)
  · obtain ⟨hpc, hbytes⟩ := decode_eq_ok_iff.mp h
    exact decode_eq_ok_iff.mpr ⟨hpc, hsame ▸ hbytes⟩

/-- Operations with every kind of operand. -/
def streamOps : List Operation :=
  [.pushInt (-1000), .pushElement 7 2, .binary .add, .jumpIfZero 32, .ret]

/-- A script of these operations. -/
def streamScript : Script := .ofParts (encodeAll streamOps).toArray []

/-- Instructions of a script at three positions, and the end of its code. -/
theorem decode_streamScript :
    streamScript.sweep = .ok (instrsAt 0 streamOps) ∧
    decode streamScript.code 5 = .ok ⟨5, .pushElement 7 2⟩ ∧
    decode streamScript.code 16 = .ok ⟨16, .binary .add⟩ ∧
    decode streamScript.code 18 = .error (.outOfBounds 18 18) := by
  obtain ⟨hdecode, -, -, hsweep, -, -⟩ := decode_inverse_encode streamScript.code 5
  obtain ⟨hinner, -⟩ := decode_inverse_encode streamScript.code 16
  obtain ⟨-, -, -, -, -, hfails⟩ := decode_inverse_encode streamScript.code 18
  have hbytes : streamScript.code.toList = encodeAll streamOps := rfl
  exact ⟨(hsweep streamScript streamOps).mpr hbytes, (hdecode _).mpr (by decide),
    (hinner _).mpr (by decide), (hfails _).mpr (.outside (by decide))⟩

end Daedalus
