import Daedalus.Binary32
import Daedalus.Symbols.Kind

/-! # Symbols

The entries of a script's symbol table. A dotted name consists of a scope, the part before the first
dot, and a local name. -/

namespace Daedalus

/-- The literal data of a symbol. Its type need not agree with the kind of the symbol. -/
inductive Value where
  | none
  | ints (elements : List Int32)
  | floats (elements : List Binary32)
  | strings (elements : List String)
  deriving DecidableEq, Repr

/-- Where a symbol was declared. -/
structure Location where
  file : UInt32 := 0
  lineStart : UInt32 := 0
  lineCount : UInt32 := 0
  charStart : UInt32 := 0
  charCount : UInt32 := 0
  deriving DecidableEq, Repr

/-- An entry of the symbol table. -/
structure Symbol where
  /-- The position in the table, by which other symbols and the code refer to this one. -/
  index : Nat := 0
  name : String
  kind : Kind
  flags : Flags := Flags.none
  /-- The number of array elements of a variable. -/
  count : UInt32 := 1
  /-- Where the body of a callable starts. -/
  address : UInt32 := 0
  /-- The position of the class, prototype or instance that this symbol derives from or belongs to.
  -/
  parent : Option UInt32 := none
  /-- The kind of a function's result. -/
  returnKind : Kind := .void
  memberOffset : UInt32 := 0
  classSize : UInt32 := 0
  classOffset : UInt32 := 0
  location : Location := {}
  value : Value := .none
  deriving DecidableEq, Repr

/-- The parts of a name before and behind its first dot, if it has a dot. -/
def splitAtDot (name : String) : Option (String × String) :=
  match name.toList.dropWhile (· != '.') with
  | [] => none
  | _ :: rest => some (String.ofList (name.toList.takeWhile (· != '.')), String.ofList rest)

/-- A name is split at its first dot. -/
theorem splitAtDot_eq_some_iff {name scope rest : String} :
    splitAtDot name = some (scope, rest) ↔
      name = scope ++ "." ++ rest ∧ '.' ∉ scope.toList := by
  -- The word in front of the first dot has none, and the dot itself is left out.
  constructor
  · intro h
    have happend := List.takeWhile_append_dropWhile (p := (· != '.')) (l := name.toList)
    have hfirst := List.head?_dropWhile_not (· != '.') name.toList
    rw [splitAtDot] at h
    split at h
    · cases h
    · next dot behind hdrop =>
      cases h
      rw [hdrop] at happend hfirst
      obtain rfl : dot = '.' := by simpa using hfirst
      refine ⟨String.toList_inj.mp ?_, fun hdot => ?_⟩
      · simpa using happend.symm
      · rw [String.toList_ofList] at hdot
        simpa using List.all_eq_true.mp List.all_takeWhile _ hdot
  · rintro ⟨rfl, hdot⟩
    have hall : ∀ c ∈ scope.toList, (c != '.') = true := fun c hc =>
      bne_iff_ne.mpr fun heq => hdot (heq ▸ hc)
    have hname : (scope ++ "." ++ rest).toList = scope.toList ++ '.' :: rest.toList := by simp
    rw [splitAtDot, hname, List.dropWhile_append_of_pos hall, List.takeWhile_append_of_pos hall]
    simp

namespace Symbol

/-- Whether the value of a variable is fixed, or the body of a callable defined. -/
def isConst (sym : Symbol) : Bool := sym.flags.has .const

/-- Whether a call of the function leaves a result on the stack. -/
def returnsValue (sym : Symbol) : Bool := sym.flags.has .returns

/-- Whether the symbol is a field of a class or a parameter. -/
def isMember (sym : Symbol) : Bool := sym.flags.has .member

/-- Whether the host program defines the function. -/
def isExternal (sym : Symbol) : Bool := sym.flags.has .external

/-- Whether the compiler made the symbol up. -/
def isGenerated (sym : Symbol) : Bool := sym.flags.has .generated

/-- The part of a dotted name before the first dot: the class of a field, or the function of a
parameter or local. -/
def scope? (sym : Symbol) : Option String := (splitAtDot sym.name).map Prod.fst

/-- The name without its scope. -/
def localName (sym : Symbol) : String := ((splitAtDot sym.name).map Prod.snd).getD sym.name

/-- Whether the symbol is a constant with a literal value. -/
def hasConstantValue (sym : Symbol) : Bool := sym.isConst && !sym.kind.isCallable

/-- Whether the symbol is declared here as a prototype, or as a function or instance with a body. -/
def definesBody (sym : Symbol) : Bool :=
  !sym.isExternal &&
    match sym.kind with
    | .prototype => true
    | .func | .inst => sym.isConst
    | _ => false

/-- The string stored at a position. -/
def string? (sym : Symbol) (i : Nat) : Option String :=
  match sym.value with
  | .strings elements => elements[i]?
  | _ => none

/-- The source text of the element stored at a position, if its type is the one that the kind of the
symbol asks for. -/
def element? (sym : Symbol) (i : Nat) : Option String :=
  match sym.kind, sym.value with
  | .float, .floats elements => elements[i]?.map Binary32.text
  | .int, .ints elements => elements[i]?.map fun v => toString v.toInt
  | .string, .strings elements => elements[i]?.map fun s => "\"" ++ s ++ "\""
  | _, _ => none

/-- The source text of the symbol's value: its elements in order, in braces if there are several. An
element that is not stored is left empty. -/
def valueText (sym : Symbol) : String :=
  let elements := (List.range sym.count.toNat).map fun i => (sym.element? i).getD ""
  let listed := ", ".intercalate elements
  if 1 < sym.count then "\x7b" ++ listed ++ "\x7d" else listed

end Symbol

end Daedalus
