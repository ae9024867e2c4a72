import Daedalus.Proofs.Lookups
import Daedalus.Recovery.Operand

/-! # Parameters and fields

A parameter and a field are both members, and an instance-typed parameter has its class as parent,
like the fields of that class. `Table.isField` tells them apart by the parent, or else by the owner
of the name. For a parameter whose function does not share its name with a class, the owner decides
nothing, so the parameter counts as a field if and only if its parent is a class. -/

namespace Daedalus

open Text

namespace Table

variable {table : Table} {callable param : Symbol}

/-- The parameters of a callable are the members of the table in its scope that the compiler did not
make up. -/
theorem mem_parametersOf :
    param ∈ table.parametersOf callable ↔
      param ∈ table.symbols.toList ∧
        (∃ scope, param.scope? = some scope ∧ upper scope = upper callable.name) ∧
        param.isMember = true ∧ param.isGenerated = false := by
  rw [parametersOf, List.mem_filter, membersOf_eq, List.mem_filter, and_assoc]
  simp only [Option.any_eq_true, beq_iff_eq, Bool.and_eq_true, Bool.not_eq_true']

/-- The name of a callable is the name of no class. -/
def NoClassNamed (table : Table) (name : String) : Prop :=
  ∀ sym ∈ table.symbols.toList, sym.kind = .classDef → upper sym.name ≠ upper name

/-- The owner of a parameter is not a class. -/
theorem owner_of_parameter (hparam : param ∈ table.parametersOf callable)
    (hname : table.NoClassNamed callable.name) :
    (param.scope?.bind table.symbolNamed?).any (·.kind == .classDef) = false := by
  obtain ⟨-, ⟨scope, hscope, hupper⟩, -, -⟩ := mem_parametersOf.mp hparam
  -- The owner is looked up by the scope, which is the name of the callable.
  rw [hscope, Option.bind_some, symbolNamed?_eq, hupper, Option.any_eq_false]
  intro owner howner
  have hmem := List.mem_of_find?_eq_some howner
  have hsame := List.find?_some howner
  rw [beq_iff_eq] at hsame
  exact beq_eq_false_iff_ne.mpr fun hkind => hname owner hmem hkind hsame

/-- A parameter counts as a field if and only if its parent is a class. -/
theorem isField_parameter (hparam : param ∈ table.parametersOf callable)
    (hname : table.NoClassNamed callable.name) :
    table.isField param = (table.parentOf? param).any (·.kind == .classDef) := by
  obtain ⟨-, -, hmember, -⟩ := mem_parametersOf.mp hparam
  rw [isField, hmember, owner_of_parameter hparam hname, Bool.true_and, Bool.or_false]

end Table

/-! ### The names of variables -/

/-- A name with an owner in front is longer than the name. -/
theorem text_field_ne (owner : Option String) (sym : Symbol) :
    (Reference.field owner sym).text ≠ sym.localName := by
  intro h
  -- The owner and the dot make the text longer than the local name.
  have hlength := congrArg String.length h
  simp [Reference.text, String.length_append] at hlength

namespace Setting

variable (s : Setting)

/-- A symbol is written by its bare local name if and only if it does not count as a field, or its
own instance is the active one. -/
theorem text_reference_iff (active pushedIn : Option UInt32) (sym : Symbol) :
    (s.reference active pushedIn sym).text = sym.localName ↔
      s.script.isField sym = false ∨ s.inOwnInstance active = true := by
  rw [reference]
  split
  · -- A field of another instance than the own one is written with its owner.
    next h =>
    rw [Bool.and_eq_true, Bool.not_eq_true'] at h
    simp [text_field_ne, h.1, h.2]
  · next h =>
    have hplain : s.script.isField sym = false ∨ s.inOwnInstance active = true := by
      rw [Bool.and_eq_true, Bool.not_eq_true', not_and, Bool.not_eq_false] at h
      cases hfield : s.script.isField sym with
      | false => exact .inl rfl
      | true => exact .inr (h hfield)
    split <;> simp [Reference.text, hplain]

/-- **Names of parameters.** Where no class has the name of the callable, a parameter is told from a
field if and only if its parent is not a class; and a push of the parameter, at whatever active
instances it is pushed and recovered, gives its bare local name if and only if this is so or the body
is recovered as that of its own instance. -/
theorem parameter_plain_iff {param : Symbol}
    (hparam : param ∈ s.script.parametersOf s.callable)
    (hname : s.script.NoClassNamed s.callable.name) :
    (s.script.isField param = false ↔
      (s.script.parentOf? param).any (·.kind == .classDef) = false) ∧
    ∀ (active : Option UInt32) (room : Nat) (frame : Frame) (stack : List Frame) (symbol : UInt32),
      s.script.symbolOf? symbol = some param → param.count = 1 →
      (frame.instr.op = .pushVar symbol ∨ frame.instr.op = .pushInstance symbol) →
        ((s.recover active (room + 1) frame stack).1.text = param.localName ↔
          (s.script.parentOf? param).any (·.kind == .classDef) = false ∨
            s.inOwnInstance active = true) := by
  have hfield := Table.isField_parameter hparam hname
  refine ⟨by rw [hfield], fun active room frame stack symbol hsymbol hcount hop => ?_⟩
  obtain ⟨-, -, -, hgenerated⟩ := Table.mem_parametersOf.mp hparam
  -- Both operations read the variable, and neither its count nor its name makes it an element.
  have hread : (s.recover active (room + 1) frame stack).1 =
      .variable (s.reference active frame.active param) none := by
    rcases hop with hop | hop <;>
      simp [recover, hop, variableExpr, hsymbol, hgenerated, hcount]
  rw [hread, Expr.text_variable, s.text_reference_iff, hfield]

/-- A class, and a function with two parameters, of which one is an instance of the class. -/
def parameterScript : Script :=
  Script.ofParts #[60]
    [{ name := "C_ITEM", kind := .classDef },
      { name := "GIVE", kind := .func, flags := Flags.none.add .const, count := 2 },
      { name := "GIVE.AMOUNT", kind := .int, flags := Flags.none.add .member },
      { name := "GIVE.ITEM", kind := .inst, flags := Flags.none.add .member, parent := some 0 }]

/-- The setting in which the body of the function is recovered. -/
def parameterSetting : Setting :=
  ⟨parameterScript, { name := "GIVE", kind := .func, index := 1 }, 256⟩

/-- The function of the script shares its name with no class. -/
theorem noClassNamed_give : parameterScript.NoClassNamed "GIVE" := by
  simp only [Table.NoClassNamed, ne_eq]
  decide

/-- The parameter that is an integer. -/
def amountParameter : Symbol :=
  { name := "GIVE.AMOUNT", kind := .int, flags := Flags.none.add .member, index := 2 }

/-- The parameter that is an instance. -/
def itemParameter : Symbol :=
  { name := "GIVE.ITEM", kind := .inst, flags := Flags.none.add .member, parent := some 0,
    index := 3 }

/-- A parameter that is no field is written by its plain name. -/
theorem amountParameter_plain :
    amountParameter ∈ parameterScript.parametersOf parameterSetting.callable ∧
      parameterScript.isField amountParameter = false ∧
      (parameterSetting.recover none 1 ⟨⟨0, .pushVar 2⟩, some 3⟩ []).1.text = "AMOUNT" := by
  have hparam : amountParameter ∈ parameterScript.parametersOf parameterSetting.callable := by
    decide
  obtain ⟨hfield, htext⟩ := parameterSetting.parameter_plain_iff hparam noClassNamed_give
  exact ⟨hparam, hfield.mpr rfl, (htext none 0 _ [] 2 rfl rfl (.inl rfl)).mpr (.inl rfl)⟩

/-- A parameter whose parent is a class counts as one of its fields. -/
theorem itemParameter_field :
    itemParameter ∈ parameterScript.parametersOf parameterSetting.callable ∧
      parameterScript.NoClassNamed parameterSetting.callable.name ∧
      parameterScript.isField itemParameter = true :=
  ⟨by decide, noClassNamed_give, rfl⟩

end Setting

end Daedalus
