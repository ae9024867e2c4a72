import Daedalus.Proofs.Encoding
import Daedalus.Proofs.Results

/-! # Usages of a symbol

The search for the usages of a symbol decodes the whole code one instruction behind the other. It
fails where the code breaks off, and else reports instructions that refer to the symbol in the order
of their addresses.

An instruction refers to a symbol if it carries its position or calls its address. All of these are
reported but those that make the symbol the active instance, so the search is complete just for the
symbols that are never made active. -/

namespace Daedalus

/-! ### References -/

/-- An operation refers to a symbol: it carries the position of the symbol or, if the symbol is
callable, calls its address. -/
def Operation.RefersTo (op : Operation) (sym : Symbol) : Prop :=
  op.symbol?.map UInt32.toNat = some sym.index ∨
    sym.kind.isCallable = true ∧ op = .call sym.address

instance (op : Operation) (sym : Symbol) : Decidable (op.RefersTo sym) :=
  inferInstanceAs (Decidable (_ ∨ _))

/-- The operations that count as usages are those that refer to a symbol and do not make it the active
instance. -/
theorem Operation.uses_iff {op : Operation} {sym : Symbol} :
    op.uses sym = true ↔ op.RefersTo sym ∧ ∀ symbol, op ≠ .setInstance symbol := by
  cases op <;> simp [Operation.uses, Operation.RefersTo, Operation.symbol?]

/-- The operations that refer to a symbol are the usages of the symbol, and those that make it the
active instance. -/
theorem Operation.refersTo_iff {op : Operation} {sym : Symbol} :
    op.RefersTo sym ↔
      op.uses sym = true ∨ ∃ symbol, op = .setInstance symbol ∧ symbol.toNat = sym.index := by
  cases op <;> simp [Operation.uses, Operation.RefersTo, Operation.symbol?]

/-! ### Positions -/

/-- Operations stand at the place of their list or behind it. -/
theorem le_pc_of_mem_instrsAt {pc : Nat} {ops : List Operation} {instr : Instr}
    (h : instr ∈ instrsAt pc ops) : pc ≤ instr.pc := by
  induction ops generalizing pc with
  | nil => cases h
  | cons op ops ih =>
    rcases List.mem_cons.mp h with rfl | h
    · exact Nat.le_refl _
    · exact Nat.le_trans (Nat.le_add_right _ _) (ih h)

/-- Instructions that stand one behind the other have increasing positions. -/
theorem instrsAt_pairwise (pc : Nat) (ops : List Operation) :
    (instrsAt pc ops).Pairwise fun first second => first.pc < second.pc := by
  induction ops generalizing pc with
  | nil => exact .nil
  | cons op ops ih =>
    refine List.pairwise_cons.mpr ⟨fun instr hinstr => ?_, ih _⟩
    exact Nat.lt_of_lt_of_le (Nat.lt_add_of_pos_right op.size_pos) (le_pc_of_mem_instrsAt hinstr)

/-- Instructions at one position are the same. -/
theorem eq_of_mem_instrsAt {pc : Nat} {ops : List Operation} {first second : Instr}
    (hfirst : first ∈ instrsAt pc ops) (hsecond : second ∈ instrsAt pc ops)
    (hpc : first.pc = second.pc) : first = second := by
  induction ops generalizing pc with
  | nil => cases hfirst
  | cons op ops ih =>
    have hlater := (List.pairwise_cons.mp (instrsAt_pairwise pc (op :: ops))).1
    rcases List.mem_cons.mp hfirst with rfl | hfirst
    · rcases List.mem_cons.mp hsecond with rfl | hsecond
      · rfl
      · exact absurd hpc (Nat.ne_of_lt (hlater second hsecond))
    · rcases List.mem_cons.mp hsecond with rfl | hsecond
      · exact absurd hpc.symm (Nat.ne_of_lt (hlater first hfirst))
      · exact ih hfirst hsecond

namespace Script

variable {script : Script} {sym : Symbol} {found : List Usage}

/-! ### The search -/

/-- One turn of the search reports the instruction if it is a usage of the symbol. -/
theorem instrs_scanUsage (state : Option Symbol × Array Usage) (instr : Instr) :
    (script.scanUsage sym state instr).2.toList.map Usage.instr =
      state.2.toList.map Usage.instr ++ [instr].filter (·.op.uses sym) := by
  by_cases huses : instr.op.uses sym = true
  · simp [scanUsage, huses]
  · simp [scanUsage, huses]

/-- The search reports the usages of the symbol behind those found before, in order. -/
theorem instrs_foldl_scanUsage (instrs : List Instr) (state : Option Symbol × Array Usage) :
    (instrs.foldl (script.scanUsage sym) state).2.toList.map Usage.instr =
      state.2.toList.map Usage.instr ++ instrs.filter (·.op.uses sym) := by
  induction instrs generalizing state with
  | nil => simp
  | cons instr instrs ih =>
    rw [List.foldl_cons, ih, instrs_scanUsage, List.append_assoc, ← List.filter_append,
      List.singleton_append]

/-- The callable that is entered last on the way through instructions. -/
def lastEntered (script : Script) (instrs : List Instr) : Option Symbol :=
  instrs.foldl script.enclosing none

/-- The last instruction decides if it is an entry point. -/
theorem lastEntered_concat (instrs : List Instr) (instr : Instr) :
    script.lastEntered (instrs ++ [instr]) = script.enclosing (script.lastEntered instrs) instr :=
  List.foldl_append

/-- A usage that a search adds to those found before is attributed to the callable that is entered
last on the way to its instruction. -/
theorem exists_append_of_mem_foldl {usage : Usage} {instrs : List Instr}
    {state : Option Symbol × Array Usage}
    (h : usage ∈ (instrs.foldl (script.scanUsage sym) state).2) :
    usage ∈ state.2 ∨ ∃ before after, instrs = before ++ usage.instr :: after ∧
      usage.within = script.enclosing (before.foldl script.enclosing state.1) usage.instr := by
  induction instrs generalizing state with
  | nil => exact .inl h
  | cons instr instrs ih =>
    rcases ih h with hfound | ⟨before, after, rfl, hwithin⟩
    · -- It was found before, or the first instruction is the usage.
      rw [scanUsage] at hfound
      split at hfound
      · rcases Array.mem_push.mp hfound with hfound | rfl
        · exact .inl hfound
        · exact .inr ⟨[], instrs, rfl, rfl⟩
      · exact .inl hfound
    · exact .inr ⟨instr :: before, after, rfl, hwithin⟩

/-- A usage is attributed to the callable that is entered last on the way from the start of the code
to its instruction. -/
theorem exists_append_of_mem_usages {usage : Usage} (h : script.usages sym = .ok found)
    (husage : usage ∈ found) :
    ∃ ops before after, Fills script.code 0 ops ∧
      instrsAt 0 ops = before ++ usage.instr :: after ∧
      usage.within = script.lastEntered (before ++ [usage.instr]) := by
  obtain ⟨instrs, hsweep, rfl⟩ := exists_of_map_eq_ok h
  obtain ⟨ops, hfills, rfl⟩ := sweep_eq_ok_iff.mp hsweep
  rcases exists_append_of_mem_foldl (Array.mem_toList_iff.mp husage) with
    hnone | ⟨before, after, hinstrs, hwithin⟩
  · exact absurd hnone (Array.not_mem_empty _)
  · exact ⟨ops, before, after, hfills, hinstrs, hwithin.trans (lastEntered_concat _ _).symm⟩

/-- A usage at the entry point of a callable is attributed to it. -/
theorem within_of_mem_usages {usage : Usage} {callable : Symbol} (h : script.usages sym = .ok found)
    (husage : usage ∈ found)
    (hcallable : script.callableAt? (UInt32.ofNat usage.instr.pc) = some callable) :
    usage.within = some callable := by
  obtain ⟨-, before, -, -, -, hwithin⟩ := exists_append_of_mem_usages h husage
  rw [hwithin, lastEntered_concat, enclosing, hcallable]
  rfl

/-- What is reported are the usages of the symbol among the operations that fill the code. -/
theorem exists_fills_of_usages (h : script.usages sym = .ok found) :
    ∃ ops, Fills script.code 0 ops ∧
      found.map Usage.instr = (instrsAt 0 ops).filter (·.op.uses sym) := by
  obtain ⟨instrs, hsweep, rfl⟩ := exists_of_map_eq_ok h
  obtain ⟨ops, hfills, rfl⟩ := sweep_eq_ok_iff.mp hsweep
  refine ⟨ops, hfills, ?_⟩
  rw [instrs_foldl_scanUsage]
  simp

/-- What the search reports, if the operations that fill the code are given. -/
structure Reports (ops : List Operation) (sym : Symbol) (found : List Usage) : Prop where
  /-- The addresses go up, so none is reported twice. -/
  increasing : (found.map fun usage => usage.instr.pc).Pairwise (· < ·)
  /-- The reported instructions are those that refer to the symbol, except for changes of the active
  instance. -/
  reported : ∀ instr, instr ∈ found.map Usage.instr ↔
    instr ∈ instrsAt 0 ops ∧ instr.op.RefersTo sym ∧ ∀ symbol, instr.op ≠ .setInstance symbol
  /-- The addresses are those of all instructions that refer to the symbol if and only if none of them
  makes it the active instance. -/
  complete : (∀ address, address ∈ found.map (fun usage => usage.instr.pc) ↔
      ∃ instr ∈ instrsAt 0 ops, instr.pc = address ∧ instr.op.RefersTo sym) ↔
    ∀ symbol, .setInstance symbol ∈ ops → symbol.toNat ≠ sym.index

/-- An operation of a list is that of an instruction, and the other way round. -/
theorem mem_iff_exists_mem_instrsAt {pc : Nat} {ops : List Operation} {op : Operation} :
    op ∈ ops ↔ ∃ instr ∈ instrsAt pc ops, instr.op = op := by
  rw [← List.mem_map, map_op_instrsAt]

/-- Usages are exact if their instructions are those that use the symbol, in order. -/
theorem reports_of_instrs {ops : List Operation}
    (h : found.map Usage.instr = (instrsAt 0 ops).filter (·.op.uses sym)) :
    Reports ops sym found := by
  have hpcs : (found.map fun usage => usage.instr.pc) =
      ((instrsAt 0 ops).filter (·.op.uses sym)).map Instr.pc := by
    rw [← h, List.map_map]
    rfl
  -- A usage is known by its address, as no two instructions stand at one.
  have hreported : ∀ address, address ∈ found.map (fun usage => usage.instr.pc) ↔
      ∃ instr ∈ instrsAt 0 ops, instr.op.uses sym = true ∧ instr.pc = address := by
    intro address
    simp only [hpcs, List.mem_map, List.mem_filter, and_assoc]
  refine ⟨?_, fun instr => ?_, ⟨fun hcomplete symbol hmem hsymbol => ?_, fun hnone address => ?_⟩⟩
  · rw [hpcs]
    exact List.pairwise_map.mpr ((instrsAt_pairwise 0 ops).filter _)
  · rw [h, List.mem_filter, Operation.uses_iff]
  · -- A change to the symbol would have to be reported as another instruction at its address.
    obtain ⟨instr, hinstr, hop⟩ := mem_iff_exists_mem_instrsAt.mp hmem
    have hrefers : instr.op.RefersTo sym :=
      Operation.refersTo_iff.mpr (.inr ⟨symbol, hop, hsymbol⟩)
    obtain ⟨other, hother, huses, hpc⟩ :=
      (hreported instr.pc).mp ((hcomplete instr.pc).mpr ⟨instr, hinstr, rfl, hrefers⟩)
    obtain rfl := eq_of_mem_instrsAt hother hinstr hpc
    exact (Operation.uses_iff.mp huses).2 symbol hop
  · rw [hreported]
    constructor
    · rintro ⟨instr, hinstr, huses, hpc⟩
      exact ⟨instr, hinstr, hpc, (Operation.uses_iff.mp huses).1⟩
    · rintro ⟨instr, hinstr, hpc, hrefers⟩
      rcases Operation.refersTo_iff.mp hrefers with huses | ⟨symbol, hop, hsymbol⟩
      · exact ⟨instr, hinstr, huses, hpc⟩
      · exact absurd hsymbol (hnone symbol (mem_iff_exists_mem_instrsAt.mpr ⟨instr, hinstr, hop⟩))

/-- **The usages of a symbol.** The search fails if and only if the code breaks off, with the fault of
the instruction that cannot be decoded. Otherwise it reports, from lower to higher addresses, the
instructions of the code that refer to the symbol, and these are all of them just if none makes the
symbol the active instance. -/
theorem usages_reports (script : Script) (sym : Symbol) :
    (∀ fault, script.usages sym = .error fault ↔ ∃ ops, BreaksOff script.code 0 ops fault) ∧
    ∀ found, script.usages sym = .ok found →
      ∃ ops, Fills script.code 0 ops ∧ Reports ops sym found := by
  refine ⟨fun fault => ?_, fun found h => ?_⟩
  · rw [← sweep_eq_error_iff]
    constructor
    · exact eq_error_of_map
    · intro h
      rw [usages, h]
      rfl
  · obtain ⟨ops, hfills, hinstrs⟩ := exists_fills_of_usages h
    exact ⟨ops, hfills, reports_of_instrs hinstrs⟩

/-- A function that pushes a variable and calls another one, which pushes an element of it. -/
def goldScript : Script :=
  .ofParts (encodeAll [.pushVar 1, .call 12, .nop, .ret, .pushElement 1 0, .ret]).toArray
    [{ name := "MAIN", kind := .func, flags := Flags.none.add .const },
      { name := "GOLD", kind := .int, count := 2 },
      { name := "HELPER", kind := .func, flags := Flags.none.add .const, address := 12 }]

/-- The variable. -/
def gold : Symbol := { name := "GOLD", kind := .int, count := 2, index := 1 }

/-- A variable that is used in two functions. -/
theorem usages_gold :
    (goldScript.usages gold).toOption.map (List.map Usage.text) =
      some ["[PUSHV 00000001] at 00000000 in MAIN",
        "[PUSHVV 00000001 + 0] at 0000000c in HELPER"] ∧
    ∃ ops found, goldScript.usages gold = .ok found ∧ Fills goldScript.code 0 ops ∧
      Reports ops gold found := by
  have htexts : (goldScript.usages gold).toOption.map (List.map Usage.text) =
      some ["[PUSHV 00000001] at 00000000 in MAIN",
        "[PUSHVV 00000001 + 0] at 0000000c in HELPER"] := by decide +kernel
  obtain ⟨found, hfound, -⟩ := Option.map_eq_some_iff.mp htexts
  obtain ⟨-, hreports⟩ := usages_reports goldScript gold
  obtain ⟨ops, hfills, h⟩ := hreports found (eq_ok_of_toOption hfound)
  exact ⟨htexts, ops, found, eq_ok_of_toOption hfound, hfills, h⟩

/-- A function that makes an instance the active one. -/
def activatingScript : Script :=
  .ofParts (encodeAll [.setInstance 1, .ret]).toArray
    [{ name := "F", kind := .func, flags := Flags.none.add .const }, { name := "HERO", kind := .inst }]

/-- The instance. -/
def activeHero : Symbol := { name := "HERO", kind := .inst, index := 1 }

/-- An instance that is only made active: no usage is found. -/
theorem usages_activeHero :
    activatingScript.symbolAt? 1 = some activeHero ∧
    Fills activatingScript.code 0 [.setInstance 1, .ret] ∧
    (Operation.setInstance 1).RefersTo activeHero ∧
    (activatingScript.usages activeHero).toOption.map List.length = some 0 := by
  have hbytes : activatingScript.code.toList = encodeAll [.setInstance 1, .ret] := rfl
  exact ⟨rfl, fills_iff.mpr hbytes, by decide, by decide +kernel⟩

end Script

end Daedalus
