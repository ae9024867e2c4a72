import Daedalus.Symbols.Table

/-! # Lookups as searches of the table

The indices of a symbol table answer lookups as a search through the symbols in table order would:
by name with the first symbol of that name, by scope with all symbols of that scope. -/

namespace Daedalus

open Text

namespace Index

/-- The index by name holds the first symbol of each name. -/
theorem byName_getElem? (symbols : List Symbol) (key : String) :
    (ofList symbols).byName[key]? = symbols.find? fun sym => upper sym.name == key := by
  induction symbols with
  | nil => simp [ofList]
  | cons sym symbols ih =>
    -- The list is entered from its end, so the first symbol overwrites later ones of its name.
    have hcons : (ofList (sym :: symbols)).byName =
        enterName sym (ofList symbols).byName := rfl
    rw [hcons, enterName, Std.TreeMap.getElem?_insert, ih, List.find?_cons]
    by_cases h : upper sym.name = key
    · simp [h]
    · have hne : (upper sym.name == key) = false := by simpa using h
      simp [h, hne]

/-- The index by scope holds the symbols of each scope in table order. -/
theorem byScope_getD (symbols : List Symbol) (key : String) :
    (ofList symbols).byScope.getD key [] =
      symbols.filter fun sym => sym.scope?.any fun scope => upper scope == key := by
  induction symbols with
  | nil => simp [ofList]
  | cons sym symbols ih =>
    have hcons : (ofList (sym :: symbols)).byScope =
        enterScope sym (ofList symbols).byScope := rfl
    rw [hcons, enterScope]
    cases hscope : sym.scope? with
    | none => simp [ih, hscope]
    | some scope =>
      -- Only the list of the own scope grows, and it grows at the front.
      rw [Std.TreeMap.getD_insert]
      by_cases h : upper scope = key
      · simp [h, hscope, ih]
      · simp [h, hscope, ih]

/-- Entering callables from the end of a list puts the first one of each address in front of what was
entered before. -/
theorem foldr_enterAddress_getElem? (symbols : List Symbol) (entered : Std.TreeMap UInt32 Symbol)
    (address : UInt32) :
    (symbols.foldr enterAddress entered)[address]? =
      (symbols.find? fun sym => sym.address == address).or entered[address]? := by
  induction symbols with
  | nil => simp
  | cons sym symbols ih =>
    rw [List.foldr_cons, enterAddress, Std.TreeMap.getElem?_insert, ih, List.find?_cons]
    by_cases h : sym.address = address
    · simp [h]
    · have hne : (sym.address == address) = false := by simpa using h
      simp [h, hne]

/-- The index by address holds the first callable with a fixed body of each address, or else the
first one of the others. -/
theorem byAddress_getElem? (symbols : List Symbol) (address : UInt32) :
    (ofList symbols).byAddress[address]? =
      ((symbols.filter fun sym => hasEntryPoint sym && sym.isConst).find?
        fun sym => sym.address == address).or
      ((symbols.filter fun sym => hasEntryPoint sym && !sym.isConst).find?
        fun sym => sym.address == address) := by
  rw [ofList, foldr_enterAddress_getElem?, foldr_enterAddress_getElem?]
  simp

end Index

namespace Table

/-- A table is determined by its symbols. -/
theorem ext_symbols {table table' : Table} (h : table.symbols = table'.symbols) :
    table = table' := by
  obtain ⟨symbols, index, hindex, _⟩ := table
  obtain ⟨symbols', index', hindex', _⟩ := table'
  simp only at h
  subst h hindex hindex'
  rfl

variable (table : Table)

/-- A lookup by name gives the first symbol of the table with that name, without regard to case. -/
theorem symbolNamed?_eq (name : String) :
    table.symbolNamed? name =
      table.symbols.toList.find? fun sym => upper sym.name == upper name := by
  rw [symbolNamed?, table.index_eq, Index.byName_getElem?]

/-- The members of a scope are the symbols of the table with that scope, without regard to case. -/
theorem membersOf_eq (scope : String) :
    table.membersOf scope =
      table.symbols.toList.filter fun sym => sym.scope?.any fun own => upper own == upper scope := by
  rw [membersOf, table.index_eq, Index.byScope_getD]

variable {table} {sym : Symbol}

/-- What stands at a number is one of the symbols. -/
theorem mem_of_symbolAt? {i : Nat} (h : table.symbolAt? i = some sym) :
    sym ∈ table.symbols.toList :=
  Array.mem_toList_iff.mpr (Array.mem_of_getElem? h)

/-- A lookup by address gives a callable of the table. -/
theorem mem_of_callableAt? {address : UInt32} (h : table.callableAt? address = some sym) :
    sym ∈ table.symbols.toList := by
  rw [callableAt?, table.index_eq, Index.byAddress_getElem?, Option.or_eq_some_iff] at h
  rcases h with h | ⟨-, h⟩
  · exact (List.mem_filter.mp (List.mem_of_find?_eq_some h)).1
  · exact (List.mem_filter.mp (List.mem_of_find?_eq_some h)).1

/-- A callable that is found by an address starts there. -/
theorem address_of_callableAt? {address : UInt32} (h : table.callableAt? address = some sym) :
    sym.address = address := by
  rw [callableAt?, table.index_eq, Index.byAddress_getElem?, Option.or_eq_some_iff] at h
  rcases h with h | ⟨-, h⟩
  · simpa using List.find?_some h
  · simpa using List.find?_some h

/-- A symbol that is found by its position has it as its number. -/
theorem index_of_symbolAt? {i : Nat} (h : table.symbolAt? i = some sym) : sym.index = i := by
  obtain ⟨hi, rfl⟩ := Array.getElem?_eq_some_iff.mp h
  exact table.numbered i hi

/-- Symbols of a table with one number are the same. -/
theorem eq_of_index_eq {first second : Symbol} (hfirst : first ∈ table.symbols.toList)
    (hsecond : second ∈ table.symbols.toList) (h : first.index = second.index) : first = second := by
  obtain ⟨i, hi, rfl⟩ := Array.mem_iff_getElem.mp (Array.mem_toList_iff.mp hfirst)
  obtain ⟨j, hj, rfl⟩ := Array.mem_iff_getElem.mp (Array.mem_toList_iff.mp hsecond)
  rw [table.numbered, table.numbered] at h
  subst h
  rfl

/-- Different words refer to different symbols. -/
theorem symbolOf?_inj {word word' : UInt32} (h : table.symbolOf? word = some sym)
    (h' : table.symbolOf? word' = some sym) : word = word' :=
  UInt32.toNat_inj.mp ((index_of_symbolAt? h).symm.trans (index_of_symbolAt? h'))

end Table

end Daedalus
