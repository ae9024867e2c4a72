import Daedalus.Bytecode.Opcode
import Daedalus.Symbols.Symbol
import Daedalus.Text.Layout

/-! # Expressions

Source expressions and single-line statements as trees, and their text. Every operand of an operator
is written in parentheses, so the text shows the tree. A tree also keeps what could not be
recovered, with a placeholder as its text. -/

namespace Daedalus

open Text

/-- What a pushed variable stands for, seen from the function in which it is pushed. -/
inductive Reference where
  /-- No symbol has this position. -/
  | unknown (symbol : UInt32)
  /-- A global, a parameter, a local of another function or a field of the body's own instance. -/
  | plain (sym : Symbol)
  /-- A local variable of the function. -/
  | ownLocal (sym : Symbol)
  /-- A field of an instance, given by the name the instance has here if it is known. -/
  | field (owner : Option String) (sym : Symbol)
  deriving DecidableEq, Repr

/-- The name by which a reference is written. -/
def Reference.text : Reference → String
  | .unknown symbol => "???_" ++ toString symbol.toNat
  | .plain sym | .ownLocal sym => sym.localName
  | .field owner sym => owner.getD "???" ++ "." ++ sym.localName

/-- What a call calls. -/
inductive Callee where
  /-- A function of the script or of the host. -/
  | known (sym : Symbol)
  /-- Code at an address where no function starts. -/
  | address (target : UInt32)
  /-- A host function without a symbol. -/
  | unknown (symbol : UInt32)
  deriving DecidableEq, Repr

/-- The name by which a callee is written. -/
def Callee.text : Callee → String
  | .known sym => sym.name
  | .address target => "???" ++ hex target.toNat
  | .unknown symbol => "???_" ++ toString symbol.toNat

/-- An expression, or a statement that takes one line. -/
inductive Expr where
  /-- An operand that the stack did not hold. -/
  | missing
  /-- An operand below the depth to which expressions are recovered. -/
  | tooDeep
  /-- An integer literal. -/
  | int (value : Int32)
  /-- A floating-point literal. -/
  | float (value : Binary32)
  /-- A string literal. -/
  | quoted (text : String)
  /-- A function used as a value. -/
  | functionName (sym : Symbol)
  /-- A variable, or one of its elements. -/
  | variable (ref : Reference) (element : Option Nat)
  /-- An operator in front of its operand. -/
  | unary (op : UnaryOp) (operand : Expr)
  /-- An operator between its operands. -/
  | binary (op : BinaryOp) (left right : Expr)
  /-- A call with its arguments in order. -/
  | call (callee : Callee) (args : List Expr)
  /-- An assignment. -/
  | assign (target value : Expr)
  /-- An assignment that combines the old value of its target with an operand. -/
  | update (op : CompoundOp) (target value : Expr)
  /-- The end of a function without a result. -/
  | ret
  /-- The end of a function with its result. -/
  | retValue (value : Expr)
  /-- A change of the active instance that no statement follows. -/
  | setInstance (symbol : UInt32)
  /-- A branch that no control structure accounts for. -/
  | branch (op : Opcode) (target : UInt32)
  /-- Nothing. -/
  | nothing
  deriving Repr

namespace Expr

mutual
/-- The text of an expression. -/
def text : Expr → String
  | .missing => "0 /* !broken stack! */"
  | .tooDeep => "0 /* !expression too deep! */"
  | .int value => toString value.toInt
  | .float value => value.text
  | .quoted text => "\"" ++ text ++ "\""
  | .functionName sym => sym.name
  | .variable ref none => ref.text
  | .variable ref (some i) => ref.text ++ "[" ++ toString i ++ "]"
  | .unary op operand => op.text ++ "(" ++ text operand ++ ")"
  | .binary op left right => "(" ++ text left ++ ") " ++ op.text ++ " (" ++ text right ++ ")"
  | .call callee args => callee.text ++ "(" ++ ", ".intercalate (texts args) ++ ")"
  | .assign target value => text target ++ " = " ++ text value
  | .update op target value => text target ++ " " ++ op.text ++ " " ++ text value
  | .ret => "return"
  | .retValue value => "return " ++ text value
  | .setInstance symbol => "/* set_instance(" ++ toString symbol.toNat ++ ") */"
  | .branch op target => "/* " ++ op.mnemonic ++ " " ++ hexWord target.toNat ++ " */"
  | .nothing => ""
/-- The texts of a list of expressions. -/
def texts : List Expr → List String
  | [] => []
  | e :: es => text e :: texts es
end

/-- A literal is written as a decimal number. -/
@[simp] theorem text_int (value : Int32) : text (.int value) = toString value.toInt := rfl

/-- A string literal is written in quotes. -/
@[simp] theorem text_quoted (value : String) : text (.quoted value) = "\"" ++ value ++ "\"" := rfl

/-- A variable is written by its name. -/
@[simp] theorem text_variable (ref : Reference) : text (.variable ref none) = ref.text := rfl

/-- An element is written with its index in brackets. -/
@[simp] theorem text_element (ref : Reference) (i : Nat) :
    text (.variable ref (some i)) = ref.text ++ "[" ++ toString i ++ "]" := rfl

/-- The operand of an operator stands in parentheses behind it. -/
@[simp] theorem text_unary (op : UnaryOp) (operand : Expr) :
    text (.unary op operand) = op.text ++ "(" ++ text operand ++ ")" := rfl

/-- Both operands of an operator stand in parentheses. -/
@[simp] theorem text_binary (op : BinaryOp) (left right : Expr) :
    text (.binary op left right) =
      "(" ++ text left ++ ") " ++ op.text ++ " (" ++ text right ++ ")" := rfl

/-- The arguments of a call stand in parentheses, with commas between them. -/
@[simp] theorem text_call (callee : Callee) (args : List Expr) :
    text (.call callee args) = callee.text ++ "(" ++ ", ".intercalate (texts args) ++ ")" := rfl

/-- An assignment is written with its target first. -/
@[simp] theorem text_assign (target value : Expr) :
    text (.assign target value) = text target ++ " = " ++ text value := rfl

/-- A compound assignment is written with its target first. -/
@[simp] theorem text_update (op : CompoundOp) (target value : Expr) :
    text (.update op target value) = text target ++ " " ++ op.text ++ " " ++ text value := rfl

/-- A return without a value is one word. -/
@[simp] theorem text_ret : text .ret = "return" := rfl

/-- A return is written in front of its value. -/
@[simp] theorem text_retValue (value : Expr) : text (.retValue value) = "return " ++ text value := rfl

/-- The texts of a list of expressions are those of its elements. -/
theorem texts_eq_map (es : List Expr) : texts es = es.map text := by
  induction es with
  | nil => rfl
  | cons e es ih => rw [texts, ih, List.map_cons]

mutual
/-- The function's own locals in an expression, in the order in which their values leave the stack:
the right operand before the left one, the last argument first, the target of an assignment before
its value. -/
def locals : Expr → List Symbol
  | .variable (.ownLocal sym) _ => [sym]
  | .unary _ operand => locals operand
  | .binary _ left right => locals right ++ locals left
  | .call _ args => argLocals args
  | .assign target value => locals target ++ locals value
  | .update _ target value => locals target ++ locals value
  | .retValue value => locals value
  | _ => []
/-- The function's own locals in a list of arguments, the last argument first. -/
def argLocals : List Expr → List Symbol
  | [] => []
  | e :: es => argLocals es ++ locals e
end

end Expr

end Daedalus
