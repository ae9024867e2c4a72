import Daedalus.Script
import Daedalus.Text.Layout

/-! # Declarations

The source text that declares a symbol, and the declarations of local variables. -/

namespace Daedalus

open Text

/-- The brackets behind the name of an array; a single value has none. -/
def Symbol.arraySuffix (sym : Symbol) : String :=
  if 1 < sym.count then "[" ++ toString sym.count.toNat ++ "]" else ""

/-- The line that declares a symbol as a field of a class, without the line end. -/
def Symbol.fieldLine (sym : Symbol) (indent : String) : String :=
  indent ++ "\tvar " ++ sym.kind.keyword ++ " " ++ sym.localName ++ sym.arraySuffix ++ ";"

namespace Table

variable (table : Table)

/-- The name of what a symbol derives from, or a mark that there is none. -/
def parentName (sym : Symbol) : String := ((table.parentOf? sym).map Symbol.name).getD "*ERR*"

/-- The line that declares a local variable, without the line end. -/
def localDeclaration (indent : Nat) (sym : Symbol) : String :=
  spaces indent ++ "var " ++ table.typeName sym ++ " " ++ sym.localName ++ sym.arraySuffix ++ ";"

/-- The text that declares a parameter. -/
def parameterText (sym : Symbol) : String := "var " ++ table.typeName sym ++ " " ++ sym.localName

/-- The declaration of a symbol, without a body. Every line of it starts with `indent`. Members are
declared with their scope and have no declaration of their own. -/
def declaration (sym : Symbol) (indent : String := "") : String :=
  if sym.isMember then ""
  else
    indent ++ (if sym.isExternal then "extern " else "") ++
      match sym.kind with
      | .inst =>
        "instance " ++ sym.name ++ "(" ++ table.parentName sym ++ ")" ++
          (if sym.isConst then "" else ";")
      | .prototype => "prototype " ++ sym.name ++ "(" ++ table.parentName sym ++ ")"
      | .classDef =>
        "class " ++ sym.name ++ " \x7b\n" ++
          unlines ((table.fieldsOf sym).map (·.fieldLine indent)) ++ indent ++ "\x7d;"
      | .func =>
        "func " ++ sym.returnKind.keyword ++ " " ++ sym.name ++ "(" ++
          ", ".intercalate ((table.parametersOf sym).map table.parameterText) ++ ")"
      | kind =>
        (if sym.isConst then "const " else "var ") ++ kind.keyword ++ " " ++ sym.name ++
          sym.arraySuffix ++ (if sym.isConst then " = " ++ sym.valueText else "") ++ ";"

end Table

end Daedalus
