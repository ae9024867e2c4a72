import Daedalus.Source.Declaration

/-! # Catalogues

The symbols of a script as a table with one row for each, the choice of rows by codes and names, and
a full description of a single symbol. -/

namespace Daedalus

open Text

/-- Which symbols a catalogue shows. Codes are the letters of flags and kinds. -/
structure Filter where
  /-- Show only symbols with one of these codes; without codes, show all. -/
  wanted : String := ""
  /-- Hide symbols with one of these codes. -/
  hidden : String := ""
  /-- Show only symbols whose name contains this text. -/
  search : String := ""
  deriving DecidableEq, Repr

/-- Whether a list of characters occurs in another one without gaps. -/
def occursIn (part : List Char) : List Char → Bool
  | [] => part.isEmpty
  | c :: rest => part.isPrefixOf (c :: rest) || occursIn part rest

namespace Symbol

variable (sym : Symbol)

/-- Whether one of the given codes applies to a symbol. -/
def hasCode (codes : String) : Bool :=
  codes.toList.contains sym.kind.letter ||
    Flag.all.any fun flag => sym.flags.has flag && codes.toList.contains flag.letter

/-- The letter of the kind and, in fixed places, the letters of the flags. -/
def flagColumn : String :=
  String.ofList
    (sym.kind.letter :: Flag.all.map fun flag => if sym.flags.has flag then flag.letter else ' ')

/-- The letter of the result of a function that is defined here; other symbols have none. -/
def resultLetter : Char :=
  if sym.kind = .func ∧ sym.isConst then
    if sym.returnsValue then sym.returnKind.letter else Kind.void.letter
  else ' '

end Symbol

/-- Whether a filter lets a symbol through. -/
def Filter.accepts (filter : Filter) (sym : Symbol) : Bool :=
  (filter.wanted.isEmpty || sym.hasCode filter.wanted) && !sym.hasCode filter.hidden &&
    occursIn filter.search.toList sym.name.toList

/-- The line over the rows of a catalogue, without the line end. -/
def catalogueTitle : String := "Index    Flags   Parent                    Address  R Name"

/-- The word for whether something holds. -/
def yesNo (b : Bool) : String := if b then "Yes" else "No"

namespace Table

variable (table : Table)

/-- The parent's name in a catalogue: a symbol without a parent and one whose parent is not in the
table have marks. -/
def parentColumn (sym : Symbol) : String :=
  if sym.parent.isNone then "*UND*" else table.parentName sym

/-- The row of a symbol, without the line end. -/
def catalogueRow (sym : Symbol) : String :=
  hexWord sym.index ++ " " ++ sym.flagColumn ++ " " ++ padRight 25 (table.parentColumn sym) ++
    " " ++ hexWord sym.address.toNat ++ " " ++ sym.resultLetter.toString ++ " " ++ sym.name

/-- The symbols that a filter accepts, in table order. -/
def select (filter : Filter) : List Symbol := table.symbols.toList.filter filter.accepts

/-- The catalogue of the symbols that a filter accepts. -/
def catalogue (filter : Filter) : String :=
  unlines (catalogueTitle :: (table.select filter).map table.catalogueRow)

/-- The lines that describe a symbol, without line ends. -/
def descriptionLines (sym : Symbol) : List String :=
  [ hexWord sym.index ++ " <" ++ sym.name ++ ">",
    "\tName: " ++ sym.name,
    "\tAddress: " ++ hex sym.address.toNat,
    "\tSize: " ++ toString sym.count.toNat,
    "\tType: " ++ sym.kind.keyword,
    "\tGenerated: " ++ yesNo sym.isGenerated,
    "\tFlags:",
    "\t\tConst: " ++ yesNo sym.isConst,
    "\t\tReturn: " ++ yesNo sym.returnsValue,
    "\t\tMember: " ++ yesNo sym.isMember,
    "\t\tExtern: " ++ yesNo sym.isExternal,
    "\t\tMerged: " ++ yesNo (sym.flags.has .merged),
    "\tFile Index: " ++ toString sym.location.file.toNat,
    "\tLine Start: " ++ toString sym.location.lineStart.toNat,
    "\tLine Count: " ++ toString sym.location.lineCount.toNat,
    "\tChar Start: " ++ toString sym.location.charStart.toNat,
    "\tChar Count: " ++ toString sym.location.charCount.toNat ] ++
  (match table.parentOf? sym with
    | some parent => ["\tParent: " ++ parent.name ++ " (" ++ hex parent.index ++ ")"]
    | none => []) ++
  (if sym.isMember then ["\tVariable Offset: " ++ toString sym.memberOffset.toNat] else []) ++
  (if sym.kind = .classDef then ["\tClass Size: " ++ toString sym.classSize.toNat] else []) ++
  (if sym.isConst ∧ sym.kind = .func then ["\tReturn Type: " ++ sym.returnKind.keyword] else []) ++
  (if sym.isMember then [] else ["\tDefinition:", table.declaration sym "\t\t"])

/-- The description of a symbol. -/
def description (sym : Symbol) : String := unlines (table.descriptionLines sym)

end Table

end Daedalus
