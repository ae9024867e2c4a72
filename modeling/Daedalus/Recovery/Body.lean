import Daedalus.Recovery.Walk
import Daedalus.Source.Declaration
import Daedalus.Text.Blank

/-! # Recovering bodies

The body of a function, prototype or instance: declarations of the local variables that it uses,
then its statements. The return that ends every body without a result is left out. -/

namespace Daedalus

open Text

/-- How source text is recovered and laid out. -/
structure Options where
  /-- The spaces before each statement of a body. -/
  indent : Nat := 4
  /-- The depth to which blocks and expressions are recovered. -/
  limit : Nat := 256
  /-- Whether a body is put into the declaration of its symbol. -/
  declarations : Bool := true
  deriving DecidableEq, Repr

/-- A text without its last line if that line, blanks apart, is a return without a value. Line ends
behind it are not lines. -/
def dropFinalReturn (text : String) : String :=
  let backwards := text.toList.reverse.dropWhile (· == '\n')
  let lastLine := (backwards.takeWhile (· != '\n')).reverse
  if trimmed lastLine = "return;".toList then
    String.ofList (backwards.dropWhile (· != '\n')).reverse
  else
    text

/-- The symbols of a list without those whose local name an earlier one has. -/
def firstByLocalName : List Symbol → List Symbol
  | [] => []
  | sym :: rest => sym :: (firstByLocalName rest).filter (·.localName != sym.localName)

/-- The symbols that are kept are symbols of the list. -/
theorem mem_of_mem_firstByLocalName {symbols : List Symbol} {sym : Symbol}
    (h : sym ∈ firstByLocalName symbols) : sym ∈ symbols := by
  induction symbols with
  | nil => exact h
  | cons first symbols ih =>
    rcases List.mem_cons.mp h with rfl | h
    · exact List.mem_cons_self
    · exact List.mem_cons_of_mem first (ih (List.mem_filter.mp h).1)

/-- Refuses the symbols that have no body of code. -/
def Symbol.requireBody (sym : Symbol) : Except Fault Unit :=
  if sym.isExternal then .error (.external sym.name)
  else if !sym.kind.isCallable then .error (.notCallable sym.name)
  else .ok ()

/-- The instance that is active where a body starts: an instance or prototype starts as its own. -/
def Symbol.initialActive (sym : Symbol) : Option UInt32 :=
  match sym.kind with
  | .inst | .prototype => some (UInt32.ofNat sym.index)
  | _ => none

namespace Script

variable (script : Script)

/-- Where the statements of a body start: behind six bytes for each parameter, a push and a move
that bind it. -/
def bodyStart (sym : Symbol) : Except Fault Nat :=
  let start := sym.address.toNat + 6 * (script.parametersOf sym).length
  if start < UInt32.size then .ok start else .error (.outOfBounds sym.address.toNat script.code.size)

/-- The statements of the body of a callable. -/
def bodyBlock (sym : Symbol) (limit : Nat) : Except Fault Block := do
  sym.requireBody
  let start ← script.bodyStart sym
  let walk ← Setting.block ⟨script, sym, limit⟩ 0 script.code.size sym.initialActive start
  pure walk.block

/-- The text of the body of a callable that consists of the given statements. -/
def bodyText (sym : Symbol) (indent : Nat) (block : Block) : String :=
  let statements := block.text indent
  unlines ((firstByLocalName block.locals).map (script.localDeclaration indent)) ++
    if sym.returnsValue then statements else dropFinalReturn statements

/-- The body of a callable as source text: declarations of its local variables, then its statements.
-/
def decompileBody (sym : Symbol) (indent limit : Nat) : Except Fault String :=
  (script.bodyText sym indent) <$> script.bodyBlock sym limit

/-- A declaration with a body in braces. -/
def withBody (declaration body : String) : String := declaration ++ " \x7b\n" ++ body ++ "\x7d\n"

/-- A callable as source text, in its declaration if the options say so. -/
def decompile (sym : Symbol) (options : Options) : Except Fault String :=
  (fun body => if options.declarations then withBody (script.declaration sym) body else body) <$>
    script.decompileBody sym options.indent options.limit

end Script

end Daedalus
