import Std.Data.TreeMap
import Daedalus.Fault
import Daedalus.Symbols.Symbol
import Daedalus.Text.Case

/-! # Symbol tables

A table is a list of symbols, numbered by their positions, with indices for the lookups by name, by
address and by scope. Names and scopes are looked up without regard to case. Where several symbols
answer a lookup, the first one of the table wins; among the callables at one address, those with a
fixed body go before the others. -/

namespace Daedalus

open Text

/-- The lookup structures of a symbol table. -/
structure Index where
  /-- The symbols by upper-cased name. -/
  byName : Std.TreeMap String Symbol
  /-- The symbols by upper-cased scope, in table order. -/
  byScope : Std.TreeMap String (List Symbol)
  /-- The callables by the address of their body. -/
  byAddress : Std.TreeMap UInt32 Symbol

namespace Index

/-- Puts a symbol in front of all those entered under its name. -/
def enterName (sym : Symbol) (names : Std.TreeMap String Symbol) : Std.TreeMap String Symbol :=
  names.insert (upper sym.name) sym

/-- Puts a symbol in front of the members of its scope. -/
def enterScope (sym : Symbol) (scopes : Std.TreeMap String (List Symbol)) :
    Std.TreeMap String (List Symbol) :=
  match sym.scope? with
  | none => scopes
  | some scope => scopes.insert (upper scope) (sym :: scopes.getD (upper scope) [])

/-- Puts a symbol in front of all those entered under its address. -/
def enterAddress (sym : Symbol) (addresses : Std.TreeMap UInt32 Symbol) :
    Std.TreeMap UInt32 Symbol :=
  addresses.insert sym.address sym

/-- Whether a symbol is found by its address. -/
def hasEntryPoint (sym : Symbol) : Bool := sym.kind.isCallable && !sym.isExternal

/-- The indices of a list of symbols. Entering goes from the back, so that the first symbol is
entered last. -/
def ofList (symbols : List Symbol) : Index where
  byName := symbols.foldr enterName ∅
  byScope := symbols.foldr enterScope ∅
  byAddress :=
    (symbols.filter fun s => hasEntryPoint s && s.isConst).foldr enterAddress
      ((symbols.filter fun s => hasEntryPoint s && !s.isConst).foldr enterAddress ∅)

end Index

/-- A symbol table. -/
structure Table where
  symbols : Array Symbol
  index : Index
  /-- The index is the one of the symbols. -/
  index_eq : index = Index.ofList symbols.toList
  /-- Symbols are numbered by their positions. -/
  numbered : ∀ (i : Nat) (h : i < symbols.size), symbols[i].index = i

namespace Table

/-- The table of a list of symbols, numbered anew. -/
def ofList (symbols : List Symbol) : Table where
  symbols := symbols.toArray.mapIdx fun i sym => { sym with index := i }
  index := Index.ofList (symbols.toArray.mapIdx fun i sym => { sym with index := i }).toList
  index_eq := rfl
  numbered := by simp

/-- The symbol at a position. -/
def symbolAt? (table : Table) (i : Nat) : Option Symbol := table.symbols[i]?

/-- The symbol that the code refers to by a word. -/
def symbolOf? (table : Table) (word : UInt32) : Option Symbol := table.symbolAt? word.toNat

/-- The symbol with a name, without regard to case. -/
def symbolNamed? (table : Table) (name : String) : Option Symbol := table.index.byName[upper name]?

/-- The symbol with a name, or the fault that there is none. -/
def symbolNamed (table : Table) (name : String) : Except Fault Symbol :=
  match table.symbolNamed? name with
  | some sym => .ok sym
  | none => .error (.symbolNotFound name)

/-- The callable whose body starts at an address. -/
def callableAt? (table : Table) (address : UInt32) : Option Symbol :=
  table.index.byAddress[address]?

/-- The symbols of a scope, in table order. -/
def membersOf (table : Table) (scope : String) : List Symbol :=
  table.index.byScope.getD (upper scope) []

/-- The symbol that a symbol derives from or belongs to. -/
def parentOf? (table : Table) (sym : Symbol) : Option Symbol := sym.parent.bind table.symbolOf?

/-- The declared parameters of a callable, in order. -/
def parametersOf (table : Table) (callable : Symbol) : List Symbol :=
  (table.membersOf callable.name).filter fun s => s.isMember && !s.isGenerated

/-- The fields that a class declares, in order. An instance-typed parameter has its class as parent
too, but another scope. -/
def fieldsOf (table : Table) (cls : Symbol) : List Symbol :=
  table.symbols.toList.filter fun s =>
    s.isMember && s.parent.any (·.toNat == cls.index) && s.scope?.any (sameAscii · cls.name)

/-- Whether a symbol counts as a field of a class: a member whose parent, or whose scope, is a
class. -/
def isField (table : Table) (sym : Symbol) : Bool :=
  sym.isMember &&
    ((table.parentOf? sym).any (·.kind == .classDef) ||
      (sym.scope?.bind table.symbolNamed?).any (·.kind == .classDef))

/-- The name of a variable's type: an instance is declared with its class. -/
def typeName (table : Table) (sym : Symbol) : String :=
  match sym.kind with
  | .inst => ((table.parentOf? sym).map Symbol.name).getD "instance"
  | kind => kind.keyword

end Table

end Daedalus
