import Daedalus.Command.Arguments
import Daedalus.Command.FileSystem
import Daedalus.Image.Image
import Daedalus.Recovery.Sources
import Daedalus.Text.Quoted
import Daedalus.Usage

/-! # Running commands

A command reads the script, finds the symbol it is about, and prints its result or writes source
files. It ends with code 0, or with code 1 and the report of a fault; an incorrect command line ends
with code 2 before anything is read. -/

namespace Daedalus.Command

/-- How a run of the program ends. -/
structure Outcome where
  code : UInt32
  /-- What the run prints. -/
  output : String := ""
  /-- The report of the fault that ended the run. -/
  fault : Option String := none
  deriving DecidableEq, Repr

namespace Outcome

/-- A run that prints its result. -/
def printed (text : String) : Outcome := ⟨0, text, none⟩

/-- A run that ends with a fault. -/
def failed (report : String) : Outcome := ⟨1, "", some report⟩

/-- A run that does not start, since its command line is incorrect. -/
def refused : Outcome := ⟨2, "", none⟩

/-- A run that prints a text or reports why there is none. -/
def ofText : Except Fault String → Outcome
  | .ok text => printed text
  | .error fault => failed fault.message

end Outcome

/-- The name and version of the program. -/
def versionText : String := "zscript 0.1.0\n"

/-- The report that something could not be done with a file. -/
def fileReport (deed path reason : String) : String :=
  "failed to " ++ deed ++ " " ++ Text.quoted path ++ ": " ++ reason

section

variable {m : Type → Type} [Monad m] (files : FileSystem m)

/-- Writes source files into a directory, up to the first fault. -/
def writeFiles (directory : String) : List SourceFile → m Outcome
  | [] => pure (.printed "")
  | file :: rest => do
    let path := joinPath directory file.name
    match ← files.write path file.text with
    | .ok () => writeFiles directory rest
    | .error fault => pure (.failed (fileReport "write" path fault.message))

/-- Makes a directory and writes source files into it. -/
def writeSources (directory : String) (sources : List SourceFile) : m Outcome := do
  match ← files.ensureDirectories directory with
  | .ok () => writeFiles files directory sources
  | .error fault => pure (.failed (fileReport "create" directory fault.message))

/-- Carries out an action on a script, for one symbol or for all. -/
def Action.run (script : Script) (selected : Option Symbol) : Action → m Outcome
  | .symbols filter =>
    pure (.printed (match selected with
      | some sym => script.description sym
      | none => script.catalogue filter))
  | .disasm =>
    pure (match selected with
      | some sym => .ofText (script.listing sym)
      | none => .printed script.fullListing)
  | .decompile out indent bodyOnly =>
    let options : Options := { indent, declarations := !bodyOnly }
    match selected with
    | some sym => pure (.ofText (script.decompile sym options))
    | none => writeSources files out (script.sources options)
  | .usages =>
    pure (match selected with
      | some sym =>
        .ofText ((fun usages => Text.unlines (usages.map Usage.text)) <$> script.usages sym)
      | none => .failed "please name the symbol to search for with --symbol")

/-- Carries out a command. -/
def Request.run (request : Request) : m Outcome := do
  match ← files.read request.path with
  | .error fault => pure (.failed (fileReport "read" request.path fault.message))
  | .ok image =>
    match Script.ofImage image.toList with
    | .error fault => pure (.failed (fileReport "load" request.path fault.message))
    | .ok script =>
      match request.symbol with
      | none => request.action.run files script none
      | some name =>
        match script.symbolNamed name with
        | .ok sym => request.action.run files script (some sym)
        | .error fault => pure (.failed fault.message)

/-- Runs the program on a command line. -/
def run (args : List String) : m Outcome :=
  match line? false args with
  | none => pure .refused
  | some .idle => pure (.printed "")
  | some .version => pure (.printed versionText)
  | some (.run request) => request.run files

end

end Daedalus.Command
