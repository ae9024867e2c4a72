import Mathlib.Data.List.Basic
import Daedalus.Proofs.Parameters
import Daedalus.Proofs.References

/-! # Declarations of local variables

A body declares the local variables that its statements refer to. They are recorded while expressions
are recovered: a symbol that is written by its bare local name is a local of the callable if its scope
is the name of the callable and it is no parameter, and it is recorded unless its local name has been
recorded before. So of the symbols that share a local name, the one that is seen first is declared,
and what is recorded stays as it is. -/

namespace Daedalus

open Text

/-! ### Recording symbols -/

/-- Records a symbol, unless its local name is that of one recorded before. -/
def recordLocal (recorded : List Symbol) (sym : Symbol) : List Symbol :=
  if recorded.any (·.localName == sym.localName) then recorded else recorded ++ [sym]

section Recording

variable {recorded symbols : List Symbol} {sym : Symbol}

/-- One more symbol leaves what is recorded as it is. -/
theorem prefix_recordLocal (recorded : List Symbol) (sym : Symbol) :
    recorded <+: recordLocal recorded sym := by
  unfold recordLocal
  split
  · exact List.prefix_refl recorded
  · exact List.prefix_append recorded [sym]

/-- More symbols leave what is recorded as it is. -/
theorem prefix_foldl_recordLocal (recorded symbols : List Symbol) :
    recorded <+: symbols.foldl recordLocal recorded := by
  induction symbols generalizing recorded with
  | nil => exact List.prefix_refl recorded
  | cons sym symbols ih => exact (prefix_recordLocal recorded sym).trans (ih _)

/-- Recording keeps the names of the recorded locals distinct. -/
theorem nodup_recordLocal (h : (recorded.map Symbol.localName).Nodup) (sym : Symbol) :
    ((recordLocal recorded sym).map Symbol.localName).Nodup := by
  unfold recordLocal
  split
  · exact h
  · next hnew =>
    have hname : sym.localName ∉ recorded.map Symbol.localName := by
      simpa using hnew
    rw [List.map_append]
    refine List.nodup_append.mpr ⟨h, List.pairwise_singleton _ _, fun name hmem other hother => ?_⟩
    rintro rfl
    exact hname (List.mem_singleton.mp hother ▸ hmem)

/-- The recorded local names are different. -/
theorem nodup_foldl_recordLocal (h : (recorded.map Symbol.localName).Nodup)
    (symbols : List Symbol) :
    ((symbols.foldl recordLocal recorded).map Symbol.localName).Nodup := by
  induction symbols generalizing recorded with
  | nil => exact h
  | cons sym symbols ih => exact ih (nodup_recordLocal h sym)

/-- A recorded name keeps the symbol under which it was recorded. -/
theorem find?_recordLocal (recorded : List Symbol) (sym : Symbol) (name : String) :
    (recordLocal recorded sym).find? (·.localName == name) =
      (recorded ++ [sym]).find? (·.localName == name) := by
  unfold recordLocal
  split
  · -- The symbol that is not recorded could only be found if its name were not recorded.
    next hold =>
    obtain ⟨old, hold, hsame⟩ := List.any_eq_true.mp hold
    rw [List.find?_append]
    cases hfind : recorded.find? (·.localName == name) with
    | some found => rfl
    | none =>
      have hne := List.find?_eq_none.mp hfind old hold
      rw [beq_iff_eq] at hsame
      rw [hsame] at hne
      simp [hne]
  · rfl

/-- **Under each local name the symbol that is seen first is recorded.** -/
theorem find?_foldl_recordLocal (recorded symbols : List Symbol) (name : String) :
    (symbols.foldl recordLocal recorded).find? (·.localName == name) =
      (recorded ++ symbols).find? (·.localName == name) := by
  induction symbols generalizing recorded with
  | nil => rw [List.foldl_nil, List.append_nil]
  | cons sym symbols ih =>
    rw [List.foldl_cons, ih, List.find?_append, find?_recordLocal, ← List.find?_append,
      List.append_assoc, List.singleton_append]

/-- The local name of every symbol is recorded, for the symbol that is seen first under it. -/
theorem exists_first_recorded (h : sym ∈ symbols) :
    ∃ first ∈ symbols.foldl recordLocal [], first.localName = sym.localName ∧
      symbols.find? (·.localName == sym.localName) = some first := by
  obtain ⟨first, hfirst⟩ : ∃ first, symbols.find? (·.localName == sym.localName) = some first :=
    Option.isSome_iff_exists.mp
      (List.find?_isSome.mpr ⟨sym, h, beq_self_eq_true sym.localName⟩)
  have hrecorded := find?_foldl_recordLocal [] symbols sym.localName
  rw [List.nil_append, hfirst] at hrecorded
  exact ⟨first, List.mem_of_find?_eq_some hrecorded, by simpa using List.find?_some hfirst, hfirst⟩

/-- What is recorded is what a body declares. -/
theorem foldl_recordLocal_eq (recorded symbols : List Symbol) :
    symbols.foldl recordLocal recorded = recorded ++
      (firstByLocalName symbols).filter fun sym => !recorded.any (·.localName == sym.localName) := by
  induction symbols generalizing recorded with
  | nil => simp [firstByLocalName]
  | cons sym symbols ih =>
    rw [List.foldl_cons, ih, firstByLocalName]
    by_cases hold : recorded.any (·.localName == sym.localName) = true
    · -- The symbols of its name are left out in any case.
      have hskip : recordLocal recorded sym = recorded := if_pos hold
      rw [hskip, List.filter_cons_of_neg (by simp [hold]), List.filter_filter]
      refine congrArg (recorded ++ ·) (List.filter_congr fun other _ => ?_)
      by_cases hname : other.localName = sym.localName
      · simp only [hname, hold, Bool.not_true, Bool.false_and]
      · simp only [bne_iff_ne.mpr hname, Bool.and_true]
    · have hadd : recordLocal recorded sym = recorded ++ [sym] := if_neg hold
      rw [hadd, List.filter_cons_of_pos (by simpa using hold), List.filter_filter,
        List.append_assoc, List.singleton_append]
      refine congrArg (recorded ++ sym :: ·) (List.filter_congr fun other _ => ?_)
      rw [List.any_append, Bool.not_or, List.any_cons, List.any_nil, Bool.or_false, bne,
        Bool.beq_comm]

/-- Recording one symbol after the other leaves the first one of each name. -/
theorem foldl_recordLocal_nil (symbols : List Symbol) :
    symbols.foldl recordLocal [] = firstByLocalName symbols := by
  rw [foldl_recordLocal_eq]
  exact List.filter_eq_self.mpr fun _ _ => rfl

end Recording

/-! ### Local variables in expressions -/

namespace Reference

/-- The symbol of a reference to a local of the callable. -/
def ownLocal? : Reference → Option Symbol
  | .ownLocal sym => some sym
  | .unknown _ | .plain _ | .field _ _ => none

/-- The symbol of a reference that is written by its bare local name. -/
def bare? : Reference → Option Symbol
  | .plain sym | .ownLocal sym => some sym
  | .unknown _ | .field _ _ => none

end Reference

mutual
/-- The locals of an expression are among its references, in the same order. -/
theorem Expr.locals_eq : ∀ e : Expr, e.locals = e.references.filterMap Reference.ownLocal?
  | .variable ref _ => by cases ref <;> rfl
  | .unary _ operand => operand.locals_eq
  | .binary _ left right => by
    rw [Expr.locals, Expr.references, List.filterMap_append, left.locals_eq, right.locals_eq]
  | .call _ args => Expr.argLocals_eq args
  | .assign target value => by
    rw [Expr.locals, Expr.references, List.filterMap_append, target.locals_eq, value.locals_eq]
  | .update _ target value => by
    rw [Expr.locals, Expr.references, List.filterMap_append, target.locals_eq, value.locals_eq]
  | .retValue value => value.locals_eq
  | .missing | .tooDeep | .int _ | .float _ | .quoted _ | .functionName _ | .ret | .setInstance _
  | .branch _ _ | .nothing => rfl
/-- The locals of arguments are those that their references are to. -/
theorem Expr.argLocals_eq : ∀ args : List Expr,
    Expr.argLocals args = (Expr.argReferences args).filterMap Reference.ownLocal?
  | [] => rfl
  | arg :: args => by
    rw [Expr.argLocals, Expr.argReferences, List.filterMap_append, Expr.argLocals_eq args,
      arg.locals_eq]
end

mutual
/-- The locals of a block are those of its expressions. -/
theorem Block.locals_eq : ∀ block : Block, block.locals = block.expressions.flatMap Expr.locals
  | .done => rfl
  | .step main unused rest => by
    simp [Block.locals, Block.expressions, rest.locals_eq]
  | .chain condition body arms rest => by
    simp [Block.locals, Block.expressions, body.locals_eq, arms.locals_eq, rest.locals_eq]
/-- The locals of arms are those of their expressions. -/
theorem Arms.locals_eq : ∀ arms : Arms, arms.locals = arms.expressions.flatMap Expr.locals
  | .done => rfl
  | .elseIf condition body rest => by
    simp [Arms.locals, Arms.expressions, body.locals_eq, rest.locals_eq]
  | .otherwise body => body.locals_eq
end

namespace Setting

variable (s : Setting)

/-! ### The locals of a callable -/

/-- A symbol is a local of the callable: its scope is the name of the callable up to the case of ASCII
letters, and it is no parameter. -/
def OwnsLocal (sym : Symbol) : Prop :=
  sym.scope?.any (sameAscii · s.callable.name) = true ∧ sym ∉ s.script.parametersOf s.callable

instance : DecidablePred s.OwnsLocal := fun _ => inferInstanceAs (Decidable (_ ∧ _))

/-- The locals of the callable that references write by their bare local names. -/
def localsOf (refs : List Reference) : List Symbol :=
  (refs.filterMap Reference.bare?).filter s.OwnsLocal

/-- The locals that are recorded along references. -/
def recorded (refs : List Reference) : List Symbol := (s.localsOf refs).foldl recordLocal []

/-- The references that are written in the run of a call, in the order in which they are recovered. -/
def referencesIn (call : Call) : List Reference := (s.recoveredIn call).flatMap Expr.references

/-- The references that are written in the walk through the body from `start`. -/
def bodyReferences (start : Nat) : List Reference := s.referencesIn (s.root start)

variable {s} {active pushedIn : Option UInt32} {sym : Symbol}

/-- Parameters are told by their numbers. -/
theorem isParameter_iff (hsym : sym ∈ s.script.symbols.toList) :
    s.isParameter sym = true ↔ sym ∈ s.script.parametersOf s.callable := by
  rw [isParameter, List.any_eq_true]
  constructor
  · rintro ⟨param, hparam, hindex⟩
    have hmem := (Table.mem_parametersOf.mp hparam).1
    exact Table.eq_of_index_eq hmem hsym (beq_iff_eq.mp hindex) ▸ hparam
  · exact fun h => ⟨sym, h, beq_self_eq_true sym.index⟩

/-- A symbol that is written by its bare local name is taken for a local just if it is one of the
callable. -/
theorem ownLocal?_reference (hsym : sym ∈ s.script.symbols.toList) :
    (s.reference active pushedIn sym).ownLocal? =
      (s.reference active pushedIn sym).bare?.filter s.OwnsLocal := by
  have hlocal : (sym.scope?.any s.isOwnScope && !s.isParameter sym) = true ↔ s.OwnsLocal sym := by
    rw [Bool.and_eq_true, Bool.not_eq_true', ← Bool.not_eq_true, isParameter_iff hsym]
    rfl
  unfold reference
  split
  · -- A field is written with its owner.
    rfl
  · split
    · next h => simp [Reference.ownLocal?, Reference.bare?, Option.filter, hlocal.mp h]
    · next h => simp [Reference.ownLocal?, Reference.bare?, Option.filter, mt hlocal.mpr h]

/-- A reference of a run is that of a frame from which text is recovered. -/
theorem exists_frame_of_mem_referencesIn {call : Call} {ref : Reference}
    (h : ref ∈ s.referencesIn call) :
    ∃ turn ∈ s.trace call, ∃ c ∈ s.cut? turn, ∃ frame ∈ s.shownBehind c,
      ref ∈ s.frameReferences c.active frame := by
  obtain ⟨e, he, href⟩ := List.mem_flatMap.mp h
  obtain ⟨turn, hturn, he⟩ := List.mem_flatMap.mp he
  obtain ⟨c, hc, he⟩ := List.mem_flatMap.mp he
  obtain ⟨frames, hframes, hrefs⟩ := s.exists_references_recoveredBehind c
  obtain ⟨frame, hframe, hmem⟩ :=
    List.mem_flatMap.mp (hrefs ▸ List.mem_flatMap.mpr ⟨e, he, href⟩)
  exact ⟨turn, hturn, c, Option.mem_toList.mp hc, frame, hframes.subset hframe, hmem⟩

/-- A reference that is written as a bare name is to the symbol that it was made for. -/
theorem eq_of_bare?_reference {other : Symbol}
    (h : (s.reference active pushedIn other).bare? = some sym) : other = sym := by
  unfold reference at h
  split at h
  · cases h
  · split at h <;> exact Option.some.inj h

/-- What a run writes by bare local names are symbols of the table. -/
theorem mem_symbols_of_bare? {call : Call} {ref : Reference} (h : ref ∈ s.referencesIn call)
    (hbare : ref.bare? = some sym) : sym ∈ s.script.symbols := by
  obtain ⟨-, -, c, -, frame, -, hmem⟩ := exists_frame_of_mem_referencesIn h
  rcases resolved_of_mem_frameReferences hmem with ⟨symbol, rfl⟩ | ⟨other, hother, rfl⟩
  · cases hbare
  · exact eq_of_bare?_reference hbare ▸ Array.mem_toList_iff.mp hother

/-- The locals that are recovered in a run are those of the callable that are written by their bare
local names. -/
theorem filterMap_ownLocal?_referencesIn (call : Call) :
    (s.referencesIn call).filterMap Reference.ownLocal? = s.localsOf (s.referencesIn call) := by
  rw [localsOf, List.filter_filterMap]
  refine List.filterMap_congr fun ref href => ?_
  obtain ⟨-, -, c, -, frame, -, hmem⟩ := exists_frame_of_mem_referencesIn href
  rcases resolved_of_mem_frameReferences hmem with ⟨symbol, rfl⟩ | ⟨sym, hsym, rfl⟩
  · rfl
  · exact ownLocal?_reference hsym

/-- What a body declares are the locals that are recorded in its run. -/
theorem firstByLocalName_locals {start : Nat} {block : Block}
    (h : block.expressions = s.recoveredIn (s.root start)) :
    firstByLocalName block.locals = s.recorded (s.bodyReferences start) := by
  have hlocals : block.locals = s.localsOf (s.bodyReferences start) := by
    rw [block.locals_eq, h, bodyReferences, ← filterMap_ownLocal?_referencesIn, referencesIn,
      List.filterMap_flatMap]
    exact congrArg (List.flatMap · _) (funext Expr.locals_eq)
  rw [recorded, foldl_recordLocal_nil, hlocals]

/-! ### Declarations -/

/-- The text of a body declares the locals that the walk from `start` refers to. -/
structure DeclaresLocals (s : Setting) (start indent : Nat) (text : String) : Prop where
  /-- The text consists of the declarations of the locals that are recorded in the run, and of the
  statements that are recovered in it. -/
  text : ∃ block : Block, block.expressions = s.recoveredIn (s.root start) ∧
    text = unlines ((s.recorded (s.bodyReferences start)).map
        (s.script.localDeclaration indent)) ++
      if s.callable.returnsValue then block.text indent else dropFinalReturn (block.text indent)
  /-- The declared local names are different. -/
  once : ((s.recorded (s.bodyReferences start)).map Symbol.localName).Nodup
  /-- Only locals of the callable that are written by their bare local names are declared. -/
  owned : ∀ sym ∈ s.recorded (s.bodyReferences start),
    sym ∈ s.script.symbols ∧ s.OwnsLocal sym ∧
      ∃ ref ∈ s.bodyReferences start, ref.bare? = some sym
  /-- The local name of every such local is declared, for the symbol that is seen first under it. -/
  first : ∀ ref ∈ s.bodyReferences start, ∀ sym, ref.bare? = some sym → s.OwnsLocal sym →
    ∃ first ∈ s.recorded (s.bodyReferences start), first.localName = sym.localName ∧
      (s.localsOf (s.bodyReferences start)).find? (·.localName == sym.localName) = some first
  /-- What is recorded along the first references stays in place. -/
  kept : ∀ refs, refs <+: s.bodyReferences start →
    s.recorded refs <+: s.recorded (s.bodyReferences start)
  /-- The references of each turn are those of pushes that it shows, from the top of the stack down. -/
  resolved : ∀ call ∈ s.trace (s.root start), ∀ c ∈ s.cut? call,
    ∃ frames : List Frame, frames.Sublist (s.shownBehind c) ∧
      (s.recoveredBehind c).flatMap Expr.references = frames.flatMap (s.frameReferences c.active)

/-- More references leave what is recorded as it is. -/
theorem recorded_prefix {refs refs' : List Reference} (h : refs <+: refs') :
    s.recorded refs <+: s.recorded refs' := by
  obtain ⟨later, rfl⟩ := h
  rw [recorded, recorded, localsOf, localsOf, List.filterMap_append, List.filter_append,
    List.foldl_append]
  exact prefix_foldl_recordLocal _ _

/-- **Every local is declared once, and only locals are.** -/
theorem declaresLocals {indent : Nat} {text : String}
    (h : s.script.decompileBody s.callable indent s.limit = .ok text) :
    ∃ start, s.script.bodyStart s.callable = .ok start ∧ s.DeclaresLocals start indent text := by
  obtain ⟨block, hblock, rfl⟩ := exists_of_map_eq_ok h
  obtain ⟨start, walk, hstart, hwalk, rfl⟩ := Script.exists_walk_of_bodyBlock hblock
  -- The expressions of the tree are those of the run, in order, so its locals are recorded in this
  -- order too.
  have hexpressions : walk.block.expressions = s.recoveredIn (s.root start) :=
    inOrder (s.root start) walk hwalk
  refine ⟨start, hstart, ⟨walk.block, hexpressions, ?_⟩, ?_,
    fun sym hsym => ?_, fun ref href sym hbare howns => ?_, fun refs => recorded_prefix,
    fun _ _ c _ => s.exists_references_recoveredBehind c⟩
  · rw [Script.bodyText, firstByLocalName_locals hexpressions]
  · have hempty : (([] : List Symbol).map Symbol.localName).Nodup := List.nodup_nil
    exact nodup_foldl_recordLocal hempty _
  · rw [recorded, foldl_recordLocal_nil] at hsym
    have hmem := mem_of_mem_firstByLocalName hsym
    obtain ⟨hmem, howns⟩ := List.mem_filter.mp hmem
    obtain ⟨ref, href, hbare⟩ := List.mem_filterMap.mp hmem
    exact ⟨mem_symbols_of_bare? href hbare, of_decide_eq_true howns, ref, href, hbare⟩
  · have hmem : sym ∈ s.localsOf (s.bodyReferences start) :=
      List.mem_filter.mpr ⟨List.mem_filterMap.mpr ⟨ref, href, hbare⟩, decide_eq_true howns⟩
    exact exists_first_recorded hmem

/-- A function with a parameter that stores into two locals of one name, whose scopes differ in case,
and reads a third one. -/
def storingSetting : Setting where
  script := Script.ofParts
    ([.pushVar 1, .move .string, .pushVar 1, .pushVar 2, .move .string, .pushElement 4 1,
      .pushElement 3 2, .move .int, .ret].flatMap Operation.encode).toArray
    [{ name := "F", kind := .func, flags := Flags.none.add .const, count := 1 },
      { name := "F.ARG", kind := .string, flags := Flags.none.add .member },
      { name := "f.X", kind := .string }, { name := "F.X", kind := .int, count := 3 },
      { name := "F.Y", kind := .int, count := 2 }]
  callable := { name := "F", kind := .func, flags := Flags.none.add .const, count := 1 }
  limit := 256

/-- The text of its body. -/
def storingText : String :=
  "    var string X;\n    var int Y[2];\n    X = ARG;\n    X[2] = Y[1];\n"

/-- A body that stores an argument into a variable declares one local for the two symbols of one
name. -/
theorem declaresLocals_storingSetting :
    storingSetting.script.decompileBody storingSetting.callable 4 storingSetting.limit =
      .ok storingText ∧
    (storingSetting.recorded (storingSetting.bodyReferences 6)).map Symbol.name =
      ["f.X", "F.Y"] ∧
    storingSetting.DeclaresLocals 6 4 storingText := by
  have htext : storingSetting.script.decompileBody storingSetting.callable 4
      storingSetting.limit = .ok storingText := eq_ok_of_toOption (by decide +kernel)
  obtain ⟨start, hstart, hdeclares⟩ := declaresLocals htext
  obtain rfl : start = 6 := Except.ok.inj (hstart.symm.trans rfl)
  exact ⟨htext, by decide +kernel, hdeclares⟩

end Setting

end Daedalus
