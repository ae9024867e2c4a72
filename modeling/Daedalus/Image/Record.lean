import Daedalus.Image.Scan
import Daedalus.Symbols.Symbol
import Daedalus.Text.CodePage

/-! # Symbol records

The form of a symbol in a script image: whether it has a name, the name as a line, a word whose
meaning depends on the kind, the properties (twelve bits for the count, four for the kind, six for
flags), the location, the payload, the parent. The payload is there for symbols that are not
members: the elements of a variable, the offset of a class, the address of a callable. -/

namespace Daedalus

/-- The properties word of a symbol record. -/
structure Properties where
  word : UInt32
  deriving DecidableEq, Repr

namespace Properties

/-- The number of elements. -/
def count (properties : Properties) : UInt32 := UInt32.ofNat (properties.word.toNat % 0x1000)

/-- The kind; an unassigned code stands for no type. -/
def kind (properties : Properties) : Kind :=
  (Kind.ofCode? (UInt32.ofNat (properties.word.toNat / 0x1000 % 0x10))).getD .void

/-- The flags that are stored. -/
def flags (properties : Properties) : Flags :=
  ⟨UInt32.ofNat (properties.word.toNat / 0x10000 % 0x40)⟩

/-- The properties of a symbol. -/
def ofSymbol (sym : Symbol) : Properties :=
  ⟨UInt32.ofNat
    (sym.count.toNat % 0x1000 +
      0x1000 * (sym.kind.code.toNat + 0x10 * (sym.flags.bits.toNat % 0x40)))⟩

end Properties

/-! ### Reading -/

namespace Symbol

/-- Reads a location. -/
def scanLocation : Scan Location := do
  let file ← Scan.word
  let lineStart ← Scan.word
  let lineCount ← Scan.word
  let charStart ← Scan.word
  let charCount ← Scan.word
  pure { file, lineStart, lineCount, charStart, charCount }

/-- Reads the payload of a symbol that is not a member. -/
def scanPayload (sym : Symbol) : Scan Symbol :=
  match sym.kind with
  | .float => do
    let words ← Scan.times Scan.word sym.count.toNat
    pure { sym with value := .floats (words.map Binary32.mk) }
  | .int => do
    let words ← Scan.times Scan.word sym.count.toNat
    pure { sym with value := .ints (words.map UInt32.toInt32) }
  | .string => do
    let lines ← Scan.times Scan.line sym.count.toNat
    pure { sym with value := .strings (lines.map Text.CodePage.decode) }
  | .classDef => do
    let offset ← Scan.word
    pure { sym with classOffset := offset }
  | .func | .prototype | .inst => do
    let address ← Scan.word
    pure { sym with address }
  | .void => pure sym

/-- The symbol that the fields of a record before its payload describe. The name of a symbol that
the compiler made up starts with the byte FF. The word in front of the properties is the offset of a
member, the size of a class, the result of a function. -/
def ofRecord (name : List UInt8) (word : UInt32) (properties : Properties)
    (location : Location) : Symbol :=
  let isMember := properties.flags.has .member
  let kind := properties.kind
  { name := Text.CodePage.decode name
    kind
    flags := if name.head? = some 0xFF then properties.flags.add .generated else properties.flags
    count := properties.count
    location
    memberOffset := if isMember then word else 0
    classSize := if !isMember ∧ kind = .classDef then word else 0
    returnKind := if !isMember ∧ kind = .func then (Kind.ofCode? word).getD .void else .void }

/-- The parent that a word stands for; a negative number stands for none. -/
def parentOfWord (word : UInt32) : Option UInt32 := if word.toNat < 0x80000000 then some word else none

/-- Reads a symbol record. -/
def scan : Scan Symbol := do
  let named ← Scan.word
  let name ← if named = 0 then pure [] else Scan.line
  let word ← Scan.word
  let properties ← Scan.word
  let location ← scanLocation
  let sym := ofRecord name word ⟨properties⟩ location
  let sym ← if sym.isMember then pure sym else sym.scanPayload
  let parent ← Scan.word
  pure { sym with parent := parentOfWord parent }

/-! ### Writing -/

/-- A text as a line; characters outside the code page are left out. -/
def lineBytes (text : String) : List UInt8 := text.toList.filterMap Text.CodePage.byte? ++ [10]

/-- The words of a location. -/
def locationBytes (location : Location) : List UInt8 :=
  [location.file, location.lineStart, location.lineCount, location.charStart,
    location.charCount].flatMap Word.toBytes

/-- The payload of a symbol that is not a member. -/
def payloadBytes (sym : Symbol) : List UInt8 :=
  match sym.kind, sym.value with
  | .float, .floats elements => elements.flatMap fun x => Word.toBytes x.bits
  | .int, .ints elements => elements.flatMap fun x => Word.toBytes x.toUInt32
  | .string, .strings elements => elements.flatMap lineBytes
  | .classDef, _ => Word.toBytes sym.classOffset
  | .func, _ | .prototype, _ | .inst, _ => Word.toBytes sym.address
  | _, _ => []

/-- The word in front of the properties. -/
def leadingWord (sym : Symbol) : UInt32 :=
  if sym.isMember then sym.memberOffset
  else if sym.kind = .classDef then sym.classSize
  else sym.returnKind.code

/-- The word that stands for a parent. -/
def parentWord (parent : Option UInt32) : UInt32 := parent.getD 0xFFFFFFFF

/-- The record of a symbol. A symbol without a name has no line for it. -/
def recordBytes (sym : Symbol) : List UInt8 :=
  (if sym.name.isEmpty then Word.toBytes 0 else Word.toBytes 1 ++ lineBytes sym.name) ++
    Word.toBytes sym.leadingWord ++ Word.toBytes (Properties.ofSymbol sym).word ++
    locationBytes sym.location ++ (if sym.isMember then [] else sym.payloadBytes) ++
    Word.toBytes (parentWord sym.parent)

end Symbol

end Daedalus
