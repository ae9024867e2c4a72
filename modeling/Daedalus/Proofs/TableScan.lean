import Daedalus.Proofs.EntryPoints

/-! # Lookups and the order of the table

The indices of a symbol table hold what a scan of its symbols would find, for every list of symbols:
under a name the first symbol of that name, under a scope all symbols of that scope in table order,
and as parameters of a callable those members of its scope that are declared. Names and scopes count
by their upper-cased forms, which may be longer than the names and the same for different ones; names
that are upper-cased alike get the same answers. -/

namespace Daedalus

open Text

/-! ### Scopes -/

/-- The scope of a symbol is what stands in its name before the first dot. -/
theorem Symbol.scope?_eq_some_iff {sym : Symbol} {scope : String} :
    sym.scope? = some scope ↔
      ∃ rest, sym.name = scope ++ "." ++ rest ∧ '.' ∉ scope.toList := by
  rw [Symbol.scope?, Option.map_eq_some_iff]
  constructor
  · rintro ⟨⟨_, rest⟩, hsplit, rfl⟩
    exact ⟨rest, splitAtDot_eq_some_iff.mp hsplit⟩
  · rintro ⟨rest, h⟩
    exact ⟨(scope, rest), splitAtDot_eq_some_iff.mpr h, rfl⟩

/-- The name of a symbol has a dot, and what stands before the first one is a scope, without regard to
case. -/
def Symbol.InScope (sym : Symbol) (scope : String) : Prop :=
  ∃ own rest, sym.name = own ++ "." ++ rest ∧ '.' ∉ own.toList ∧ upper own = upper scope

/-- Members are compared by their scopes without regard to case. -/
theorem Symbol.any_scope?_iff {sym : Symbol} {scope : String} :
    sym.scope?.any (upper · == upper scope) = true ↔ sym.InScope scope := by
  simp only [Option.any_eq_true, Symbol.scope?_eq_some_iff, beq_iff_eq]
  constructor
  · rintro ⟨own, ⟨rest, hname, hdot⟩, hupper⟩
    exact ⟨own, rest, hname, hdot, hupper⟩
  · rintro ⟨own, rest, hname, hdot, hupper⟩
    exact ⟨own, ⟨rest, hname, hdot⟩, hupper⟩

namespace Table

variable {table : Table} {callable callable' sym : Symbol} {name name' scope : String}

/-! ### Lookups by name -/

/-- A symbol is found by a name just if it is the first of the table with that name. -/
theorem symbolNamed?_eq_some_iff : table.symbolNamed? name = some sym ↔
    ∃ before after, table.symbols.toList = before ++ sym :: after ∧
      upper sym.name = upper name ∧ ∀ other ∈ before, upper other.name ≠ upper name := by
  rw [symbolNamed?_eq, List.find?_eq_some_iff_append]
  simp only [beq_iff_eq, Bool.not_eq_true', beq_eq_false_iff_ne]
  constructor
  · rintro ⟨hname, before, after, hall, hbefore⟩
    exact ⟨before, after, hall, hname, hbefore⟩
  · rintro ⟨before, after, hall, hname, hbefore⟩
    exact ⟨hname, before, after, hall, hbefore⟩

/-- No symbol is found by a name just if the table has none with that name. -/
theorem symbolNamed?_eq_none_iff : table.symbolNamed? name = none ↔
    ∀ sym ∈ table.symbols, upper sym.name ≠ upper name := by
  simp [symbolNamed?_eq]

/-- Looking up a name succeeds with the symbol that has it. -/
theorem symbolNamed_eq_ok_iff :
    table.symbolNamed name = .ok sym ↔ table.symbolNamed? name = some sym := by
  rw [symbolNamed]
  cases table.symbolNamed? name <;> simp

/-- Looking up a name fails, naming it, if no symbol has it. -/
theorem symbolNamed_eq_error_iff {fault : Fault} : table.symbolNamed name = .error fault ↔
    fault = .symbolNotFound name ∧ table.symbolNamed? name = none := by
  rw [symbolNamed]
  cases table.symbolNamed? name with
  | none => simp [eq_comm]
  | some sym => simp

/-! ### Scopes and parameters -/

/-- The members of a scope are the symbols in this scope. -/
theorem mem_membersOf :
    sym ∈ table.membersOf scope ↔ sym ∈ table.symbols ∧ sym.InScope scope := by
  rw [membersOf_eq, List.mem_filter, Array.mem_toList_iff, Symbol.any_scope?_iff]

/-- The members of a scope are listed in the order of the table. -/
theorem membersOf_sublist (table : Table) (scope : String) :
    (table.membersOf scope).Sublist table.symbols.toList := by
  rw [membersOf_eq]
  exact List.filter_sublist

/-- No symbol stands in the table twice, as each has its own number. -/
theorem symbols_nodup (table : Table) : table.symbols.toList.Nodup :=
  table.symbols_pairwise.imp fun hlt heq => Nat.ne_of_lt hlt (congrArg Symbol.index heq)

/-- The case of a scope does not matter. -/
theorem membersOf_congr (h : upper name = upper name') :
    table.membersOf name = table.membersOf name' := by
  rw [membersOf, membersOf, h]

/-- The case of a name does not matter. -/
theorem symbolNamed?_congr (h : upper name = upper name') :
    table.symbolNamed? name = table.symbolNamed? name' := by
  rw [symbolNamed?, symbolNamed?, h]

/-! ### All lookups -/

/-- The lookups of a table of some symbols answer as scans of these symbols do. -/
structure AnswersAsScans (table : Table) (symbols : List Symbol) : Prop where
  /-- The table holds the symbols in their order, each numbered by its position. -/
  numbered : table.symbols.toList = symbols.mapIdx fun i sym => { sym with index := i }
  /-- The symbol with a name is the first one whose name is the same without regard to case. -/
  named : ∀ name sym, table.symbolNamed? name = some sym ↔
    ∃ before after, table.symbols.toList = before ++ sym :: after ∧
      upper sym.name = upper name ∧ ∀ other ∈ before, upper other.name ≠ upper name
  /-- There is no symbol with a name just if none of them has it. -/
  absent : ∀ name, table.symbolNamed? name = none ↔
    ∀ sym ∈ table.symbols, upper sym.name ≠ upper name
  /-- The lookup that may fail gives the same symbol, -/
  required : ∀ name sym, table.symbolNamed name = .ok sym ↔ table.symbolNamed? name = some sym
  /-- and it fails just if there is none, with the name that was asked for. -/
  refused : ∀ name fault, table.symbolNamed name = .error fault ↔
    fault = .symbolNotFound name ∧ table.symbolNamed? name = none
  /-- The members of a scope are the symbols in that scope, in table order. -/
  members : ∀ scope, (table.membersOf scope).Sublist table.symbols.toList ∧
    ∀ sym, sym ∈ table.membersOf scope ↔ sym ∈ table.symbols ∧ sym.InScope scope
  /-- No symbol is listed twice. -/
  once : ∀ scope, (table.membersOf scope).Nodup
  /-- The parameters of a callable are the members of its scope that have the member flag and are not
  made up, in the same order. -/
  parameters : ∀ callable,
    (table.parametersOf callable).Sublist (table.membersOf callable.name) ∧
      ∀ sym, sym ∈ table.parametersOf callable ↔
        sym ∈ table.membersOf callable.name ∧ sym.isMember = true ∧ sym.isGenerated = false
  /-- Names that are upper-cased alike name the same symbol, -/
  sameName : ∀ name name', upper name = upper name' →
    table.symbolNamed? name = table.symbolNamed? name' ∧
      ∀ sym, table.symbolNamed name = .ok sym ↔ table.symbolNamed name' = .ok sym
  /-- have the same members, -/
  sameMembers : ∀ name name', upper name = upper name' →
    table.membersOf name = table.membersOf name'
  /-- and, as names of callables, the same parameters. -/
  sameParameters : ∀ callable callable' : Symbol, upper callable.name = upper callable'.name →
    table.parametersOf callable = table.parametersOf callable'

end Table

namespace Script

open Table

/-- **Lookups agree with scans of the table**, whatever symbols a script has. -/
theorem ofParts_answersAsScans (code : Code) (symbols : List Symbol) :
    (ofParts code symbols).AnswersAsScans symbols where
  numbered := by simp [ofParts, ofList]
  named _ _ := symbolNamed?_eq_some_iff
  absent _ := symbolNamed?_eq_none_iff
  required _ _ := symbolNamed_eq_ok_iff
  refused _ _ := symbolNamed_eq_error_iff
  members scope := ⟨membersOf_sublist _ scope, fun _ => mem_membersOf⟩
  once scope := (symbols_nodup _).sublist (membersOf_sublist _ scope)
  parameters callable := by
    refine ⟨List.filter_sublist, fun sym => ?_⟩
    rw [parametersOf, List.mem_filter, Bool.and_eq_true, Bool.not_eq_true']
  sameName name name' h := by
    refine ⟨symbolNamed?_congr h, fun sym => ?_⟩
    rw [symbolNamed_eq_ok_iff, symbolNamed_eq_ok_iff, symbolNamed?_congr h]
  sameMembers _ _ := membersOf_congr
  sameParameters callable callable' h := by
    rw [parametersOf, parametersOf, membersOf_congr h]

/-- Upper-casing makes a name longer here, and the first of two symbols is found under it. -/
example :
    let script := ofParts #[] [{ name := "A", kind := .int }, { name := "STRASSE", kind := .func },
      { name := "Straße", kind := .int }, { name := "strasse.X", kind := .string }]
    (script.symbolNamed? "straße").map Symbol.index = some 1 ∧
      (script.membersOf "STRAßE").map Symbol.index = [3] := by
  decide +kernel

end Script

end Daedalus
