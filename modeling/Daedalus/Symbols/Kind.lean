/-! # Symbol kinds and flags

What a symbol of a script denotes, and the flags it carries. Each has a number or bit in a script
image and a one-letter code in the symbol listing. -/

namespace Daedalus

/-- What a symbol denotes, or the type of a variable or result. -/
inductive Kind where
  | void
  | float
  | int
  | string
  | classDef
  | func
  | prototype
  | inst
  deriving DecidableEq, Repr

namespace Kind

/-- The type code of a script image. -/
def code : Kind → UInt32
  | .void => 0
  | .float => 1
  | .int => 2
  | .string => 3
  | .classDef => 4
  | .func => 5
  | .prototype => 6
  | .inst => 7

/-- The kind with a type code, if there is one. -/
def ofCode? (code : UInt32) : Option Kind :=
  match code.toNat with
  | 0 => some .void
  | 1 => some .float
  | 2 => some .int
  | 3 => some .string
  | 4 => some .classDef
  | 5 => some .func
  | 6 => some .prototype
  | 7 => some .inst
  | _ => none

/-- Every kind is told by its type code. -/
@[simp] theorem ofCode?_code (kind : Kind) : ofCode? kind.code = some kind := by
  cases kind <;> rfl

/-- The keyword of the source language. -/
def keyword : Kind → String
  | .void => "void"
  | .float => "float"
  | .int => "int"
  | .string => "string"
  | .classDef => "class"
  | .func => "func"
  | .prototype => "prototype"
  | .inst => "instance"

/-- The one-letter code of the symbol listing. -/
def letter : Kind → Char
  | .void => 'v'
  | .float => 'f'
  | .int => 'i'
  | .string => 's'
  | .classDef => 'C'
  | .func => 'F'
  | .prototype => 'P'
  | .inst => 'I'

/-- Whether symbols of this kind can have a body of code. -/
def isCallable : Kind → Bool
  | .func | .prototype | .inst => true
  | _ => false

end Kind

/-- The properties of a symbol that can be present or absent. -/
inductive Flag where
  /-- The value is fixed, or the body is defined here. -/
  | const
  /-- The function leaves a result. -/
  | returns
  /-- The symbol belongs to a class or is a parameter. -/
  | member
  /-- The host program defines the function. -/
  | external
  | merged
  /-- The compiler made the symbol up, for instance for a string literal. -/
  | generated
  deriving DecidableEq, Repr

namespace Flag

/-- The bit of a flag word. -/
def bit : Flag → UInt32
  | .const => 1
  | .returns => 2
  | .member => 4
  | .external => 8
  | .merged => 16
  | .generated => 64

/-- The one-letter code of the symbol listing. -/
def letter : Flag → Char
  | .const => 'c'
  | .returns => 'r'
  | .member => 'm'
  | .external => 'e'
  | .merged => 'M'
  | .generated => 'g'

/-- All flags, in the order of the symbol listing. -/
def all : List Flag := [.const, .returns, .member, .external, .merged, .generated]

end Flag

/-- A set of flags as one word. Bits without a meaning are kept. -/
structure Flags where
  bits : UInt32
  deriving DecidableEq, Repr

namespace Flags

/-- No flag. -/
def none : Flags := ⟨0⟩

/-- Whether a flag is set. -/
def has (flags : Flags) (flag : Flag) : Bool := flags.bits &&& flag.bit == flag.bit

/-- The set with one more flag. -/
def add (flags : Flags) (flag : Flag) : Flags := ⟨flags.bits ||| flag.bit⟩

end Flags

end Daedalus
