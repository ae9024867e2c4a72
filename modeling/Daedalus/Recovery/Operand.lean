import Daedalus.Recovery.Statement
import Daedalus.Source.Expr

/-! # Recovering expressions

An operation takes its operands from the stack, so the expression that it computes is read off
backwards: the operation's own frame first, then the operands from the top of the stack down.
Recovering an expression takes frames off the top of the stack and leaves the rest as it was. -/

namespace Daedalus

open Text

/-- What the body of a callable is recovered with. -/
structure Setting where
  script : Script
  /-- The callable whose body it is. -/
  callable : Symbol
  /-- The depth to which expressions and blocks are recovered. -/
  limit : Nat

/-- Reads the expression whose root is a frame, with its operands on a stack; gives the rest of the
stack back. -/
abbrev Reader := Frame → List Frame → Expr × List Frame

/-- Reads the expression on top of a stack. -/
def pop (read : Reader) : List Frame → Expr × List Frame
  | [] => (.missing, [])
  | frame :: stack => read frame stack

/-- Reads one argument for each parameter. The arguments were pushed in order, so the last one is on
top. -/
def popArgs (read : Symbol → Reader) : List Symbol → List Frame → List Expr × List Frame
  | [], stack => ([], stack)
  | param :: params, stack =>
    let (args, stack) := popArgs read params stack
    let (arg, stack) := pop (read param) stack
    (arg :: args, stack)

namespace Setting

variable (s : Setting)

/-- Whether an instance or prototype is recovered while it is itself the active instance. -/
def inOwnInstance (active : Option UInt32) : Bool :=
  (s.callable.kind == .inst || s.callable.kind == .prototype) &&
    active.any (·.toNat == s.callable.index)

/-- Whether a symbol is a parameter of the callable. -/
def isParameter (sym : Symbol) : Bool :=
  (s.script.parametersOf s.callable).any (·.index == sym.index)

/-- Whether a name is the scope of the callable. -/
def isOwnScope (scope : String) : Bool := sameAscii scope s.callable.name

/-- The name by which an instance is written in the body: the callable's own scope is left out. -/
def ownerName (owner : Symbol) : String :=
  match splitAtDot owner.name with
  | some (scope, name) => if s.isOwnScope scope then name else owner.name
  | none => owner.name

/-- What a variable stands for, when `active` is the active instance and `pushedIn` was it when the
variable was pushed. -/
def reference (active pushedIn : Option UInt32) (sym : Symbol) : Reference :=
  if s.script.isField sym && !s.inOwnInstance active then
    .field ((pushedIn.bind s.script.symbolOf?).map s.ownerName) sym
  else if sym.scope?.any s.isOwnScope && !s.isParameter sym then
    .ownLocal sym
  else
    .plain sym

/-- Reads a function used as a value, which is pushed as the position of its symbol. -/
def readFunction (read : Reader) : Reader := fun frame stack =>
  match frame.instr.op with
  | .pushInt value =>
    match if 0 ≤ value then s.script.symbolAt? value.toInt.toNat else none with
    | some sym => (.functionName sym, stack)
    | none => read frame stack
  | _ => read frame stack

/-- Reads an argument for a parameter. -/
def readArg (read : Reader) (param : Symbol) : Reader :=
  if param.kind = .func then s.readFunction read else read

/-- Reads the value that is stored into a target of a kind. -/
def readValue (read : Reader) (kind : Option Kind) : Reader := fun frame stack =>
  match kind, frame.instr.op with
  | some .float, .pushInt value => (.float ⟨value.toUInt32⟩, stack)
  | some .func, _ => s.readFunction read frame stack
  | _, _ => read frame stack

/-- The kind of the symbol that a frame refers to. -/
def targetKind (frame : Frame) : Option Kind :=
  (frame.instr.op.symbol?.bind s.script.symbolOf?).map Symbol.kind

/-- The expression of a pushed variable. -/
def variableExpr (active pushedIn : Option UInt32) (symbol : UInt32) : Expr :=
  match s.script.symbolOf? symbol with
  | none => .variable (.unknown symbol) none
  | some sym =>
    if sym.isGenerated && sym.kind == .string then
      .quoted ((sym.string? 0).getD "")
    else
      .variable (s.reference active pushedIn sym) (if 1 < sym.count then some 0 else none)

/-- The expression of a pushed array element. -/
def elementExpr (active pushedIn : Option UInt32) (symbol : UInt32) (element : UInt8) : Expr :=
  match s.script.symbolOf? symbol with
  | none => .variable (.unknown symbol) (some element.toNat)
  | some sym => .variable (s.reference active pushedIn sym) (some element.toNat)

/-- Reads a call: one argument for each parameter if the callee is known, and none otherwise. -/
def readCall (read : Reader) (callee : Option Symbol) (unknown : Callee) (stack : List Frame) :
    Expr × List Frame :=
  match callee with
  | none => (.call unknown [], stack)
  | some sym =>
    let (args, stack) := popArgs (s.readArg read) (s.script.parametersOf sym) stack
    (.call (.known sym) args, stack)

/-- Recovers the expression whose root is a frame, when `active` is the active instance; `room`
levels of it are recovered. -/
def recover (active : Option UInt32) : Nat → Reader
  | 0 => fun _ stack => (.tooDeep, stack)
  | room + 1 => fun frame stack =>
    match frame.instr.op with
    | .binary op =>
      -- The right operand was pushed last.
      let (right, stack) := pop (recover active room) stack
      let (left, stack) := pop (recover active room) stack
      (.binary op left right, stack)
    | .unary op =>
      let (operand, stack) := pop (recover active room) stack
      (.unary op operand, stack)
    | .compound op =>
      -- The target lies above the value.
      let (target, stack) := pop (recover active room) stack
      let (value, stack) := pop (recover active room) stack
      (.update op target value, stack)
    | .move _ =>
      match stack with
      -- Without a target there is no value either.
      | [] => (.assign .missing .missing, [])
      | dest :: stack =>
        let (target, stack) := recover active room dest stack
        -- How the value is written goes by the kind of the target.
        let (value, stack) := pop (s.readValue (recover active room) (s.targetKind dest)) stack
        (.assign target value, stack)
    | .ret =>
      if s.callable.returnsValue then
        let (value, stack) := pop (recover active room) stack
        (.retValue value, stack)
      else
        (.ret, stack)
    | .call target =>
      s.readCall (recover active room) (s.script.callableAt? target) (.address target) stack
    | .callExternal symbol =>
      s.readCall (recover active room) (s.script.symbolOf? symbol) (.unknown symbol) stack
    | .pushInt value => (.int value, stack)
    | .pushVar symbol | .pushInstance symbol => (s.variableExpr active frame.active symbol, stack)
    | .pushElement symbol element => (s.elementExpr active frame.active symbol element, stack)
    | .setInstance symbol => (.setInstance symbol, stack)
    | .jump target => (.branch .jump target, stack)
    | .jumpIfZero target => (.branch .jumpIfZero target, stack)
    | .nop => (.nothing, stack)

end Setting

/-! ### Frames come off the top -/

/-- Whether a reader leaves a rest of the stack it is given. -/
def Reader.TakesFromTop (read : Reader) : Prop := ∀ frame stack, (read frame stack).2 <:+ stack

/-- What is popped comes off the top of the stack. -/
theorem pop_suffix {read : Reader} (h : read.TakesFromTop) (stack : List Frame) :
    (pop read stack).2 <:+ stack := by
  cases stack with
  | nil => exact List.suffix_refl []
  | cons frame stack => exact (h frame stack).trans (List.suffix_cons frame stack)

/-- Arguments come off the top of the stack. -/
theorem popArgs_suffix {read : Symbol → Reader} (h : ∀ param, (read param).TakesFromTop)
    (params : List Symbol) (stack : List Frame) : (popArgs read params stack).2 <:+ stack := by
  induction params with
  | nil => exact List.suffix_refl stack
  | cons param params ih => exact (pop_suffix (h param) _).trans ih

namespace Setting

variable (s : Setting)

/-- A function used as a value comes off the top of the stack. -/
theorem readFunction_takesFromTop {read : Reader} (h : read.TakesFromTop) :
    (s.readFunction read).TakesFromTop := by
  intro frame stack
  unfold readFunction
  split
  · split
    · exact List.suffix_refl stack
    · exact h frame stack
  · exact h frame stack

/-- An argument comes off the top of the stack. -/
theorem readArg_takesFromTop {read : Reader} (h : read.TakesFromTop) (param : Symbol) :
    (s.readArg read param).TakesFromTop := by
  unfold readArg
  split
  · exact s.readFunction_takesFromTop h
  · exact h

/-- A value that is stored comes off the top of the stack. -/
theorem readValue_takesFromTop {read : Reader} (h : read.TakesFromTop) (kind : Option Kind) :
    (s.readValue read kind).TakesFromTop := by
  intro frame stack
  unfold readValue
  split
  · exact List.suffix_refl stack
  · exact s.readFunction_takesFromTop h frame stack
  · exact h frame stack

/-- The arguments of a call come off the top of the stack. -/
theorem readCall_suffix {read : Reader} (h : read.TakesFromTop) (callee : Option Symbol)
    (unknown : Callee) (stack : List Frame) :
    (s.readCall read callee unknown stack).2 <:+ stack := by
  cases callee with
  | none => exact List.suffix_refl stack
  | some sym => exact popArgs_suffix (s.readArg_takesFromTop h) _ stack

/-- Recovering an expression takes frames off the top of the stack. -/
theorem recover_takesFromTop (active : Option UInt32) (room : Nat) :
    (s.recover active room).TakesFromTop := by
  induction room with
  | zero => exact fun _ stack => List.suffix_refl stack
  | succ room ih =>
    -- Each operand is read from what the one before it has left.
    intro frame stack
    unfold recover
    split
    · exact (pop_suffix ih _).trans (pop_suffix ih stack)
    · exact pop_suffix ih stack
    · exact (pop_suffix ih _).trans (pop_suffix ih stack)
    · split
      · exact List.suffix_refl []
      · next dest rest =>
        exact ((pop_suffix (s.readValue_takesFromTop ih _) _).trans (ih dest rest)).trans
          (List.suffix_cons dest rest)
    · split
      · exact pop_suffix ih stack
      · exact List.suffix_refl stack
    · exact s.readCall_suffix ih _ _ stack
    · exact s.readCall_suffix ih _ _ stack
    all_goals exact List.suffix_refl stack

/-- Recovering an expression leaves no more frames than there were. -/
theorem length_recover_le (active : Option UInt32) (room : Nat) (frame : Frame)
    (stack : List Frame) :
    (s.recover active room frame stack).2.length ≤ stack.length :=
  (s.recover_takesFromTop active room frame stack).length_le

/-! ### Statements -/

/-- The expression on top of the stack, when `active` is the active instance. -/
def popExpr (active : Option UInt32) (stack : List Frame) : Expr × List Frame :=
  pop (s.recover active s.limit) stack

/-- All expressions on a stack, from the top down. -/
def unwind (active : Option UInt32) : List Frame → List Expr
  | [] => []
  | frame :: stack =>
    let read := s.recover active s.limit frame stack
    read.1 :: unwind active read.2
termination_by stack => stack.length
decreasing_by
  have := s.length_recover_le active s.limit frame stack
  simp only [List.length_cons]
  omega

/-- The statement that ends with the last frame of a cut, and the results that it leaves unused on
the stack, the latest one first. -/
def statement (c : Cut) : Expr × List Expr :=
  let read := s.recover c.active s.limit c.last c.stack
  (read.1, s.unwind c.active read.2)

end Setting

end Daedalus
