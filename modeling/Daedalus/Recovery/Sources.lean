import Daedalus.Recovery.Body

/-! # Recovering source files

The top-level symbols of a script, grouped by the file in which they were declared. A symbol whose
body cannot be recovered keeps its declaration, with the reason as a comment, and does not disturb
the others. -/

namespace Daedalus

open Text

/-- A recovered source file. -/
structure SourceFile where
  name : String
  text : String
  deriving DecidableEq, Repr

/-- The name of the file that lists all source files in their order. -/
def sourceListName : String := "Gothic.src"

/-- Whether a symbol is declared by itself: it is not made up by the compiler, and its name has no
scope. -/
def Symbol.isTopLevel (sym : Symbol) : Bool :=
  !sym.isGenerated && !sym.name.toList.contains '.' && sym.name != "$INSTANCE_HELP"

/-- Whether the source of a symbol has a body. -/
def Symbol.hasBody (sym : Symbol) : Bool := !sym.isMember && sym.definesBody

/-- Adds a text to the file with a number. A file that is not there yet comes last and gets the name
`name`. -/
def addToFile (number : UInt32) (name text : String) :
    List (UInt32 × SourceFile) → List (UInt32 × SourceFile)
  | [] => [(number, ⟨name, text⟩)]
  | (n, file) :: files =>
    if n = number then (n, { file with text := file.text ++ text }) :: files
    else (n, file) :: addToFile number name text files

namespace Script

variable (script : Script)

/-- What a symbol contributes to its source file. -/
def segment (sym : Symbol) (options : Options) : String :=
  let declaration := script.declaration sym
  (if sym.hasBody then
    match script.decompileBody sym options.indent options.limit with
    | .ok body => withBody declaration body
    | .error fault =>
      withBody declaration
        (spaces options.indent ++ "// decompilation failed: " ++ fault.message ++ "\n")
  else if sym.kind = .func ∨ sym.kind = .prototype then declaration ++ ";"
  else declaration) ++ "\n"

/-- The symbols that are declared by themselves, in table order. -/
def topLevel : List Symbol := script.symbols.toList.filter Symbol.isTopLevel

/-- The source files of a script, by file number. Each is named after its first symbol. -/
def numberedSources (options : Options) : List (UInt32 × SourceFile) :=
  script.topLevel.foldl
    (fun files sym =>
      addToFile sym.location.file (sym.name ++ ".d") (script.segment sym options) files) []

/-- The source files of a script, in the order in which they first occur, and the list of their
names. -/
def sources (options : Options) : List SourceFile :=
  let files := (script.numberedSources options).map Prod.snd
  files ++ [⟨sourceListName, unlines (files.map SourceFile.name)⟩]

end Script

end Daedalus
