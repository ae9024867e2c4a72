import Daedalus.Proofs.Cut
import Daedalus.Recovery.Operand

/-! # Terms of structured programs

The expressions of structured programs, as a compiler sees them: literals, global variables,
operators and calls. `Term.code` is the postfix code of a term, `Term.text` its source text and
`Term.expr` the source expression that it stands for. Source texts have the signs of the language for
the operators; that recovered expressions are written with the same signs is proved operator by
operator.

The main result is `Term.reads_recover`: with the operands of a term on the stack, the root of the
term is recovered as the expression of the whole term, which takes just these operands. It holds for
every stack below them, so it applies to terms within terms. -/

namespace Daedalus

/-! ### Operators -/

/-- The sign of the language between two operands. -/
def BinaryOp.sign : BinaryOp → String
  | .add => "+" | .sub => "-" | .mul => "*" | .div => "/" | .mod => "%"
  | .bitAnd => "&" | .bitOr => "|" | .shiftLeft => "<<" | .shiftRight => ">>"
  | .logAnd => "&&" | .logOr => "||"
  | .equal => "==" | .notEqual => "!="
  | .less => "<" | .lessEq => "<=" | .greater => ">" | .greaterEq => ">="

/-- The sign of the language in front of an operand. -/
def UnaryOp.sign : UnaryOp → String
  | .plus => "+" | .negate => "-" | .not => "!" | .complement => "~"

/-- The operator with which a compound assignment combines the old value and the operand. -/
def CompoundOp.combination : CompoundOp → BinaryOp
  | .add => .add | .sub => .sub | .mul => .mul | .div => .div

/-- The sign of a compound assignment: that of its operator and the one of an assignment. -/
def CompoundOp.sign (op : CompoundOp) : String := op.combination.sign ++ "="

/-- Operators between operands are written with the signs of the language. -/
theorem BinaryOp.text_eq_sign (op : BinaryOp) : op.text = op.sign := by cases op <;> rfl

/-- Operators in front of an operand are written with the signs of the language. -/
theorem UnaryOp.text_eq_sign (op : UnaryOp) : op.text = op.sign := by cases op <;> rfl

/-- Compound assignments are written with the signs of the language. -/
theorem CompoundOp.text_eq_sign (op : CompoundOp) : op.text = op.sign := by cases op <;> rfl

namespace Structured

open Text

/-! ### Syntax -/

/-- What a call refers to. -/
inductive CallTarget where
  /-- The function whose body starts at an address. -/
  | address (target : UInt32)
  /-- The host function with a symbol. -/
  | host (symbol : UInt32)
  deriving DecidableEq, Repr

/-- An expression of a structured program. -/
inductive Term where
  /-- An integer literal. -/
  | int (value : Int32)
  /-- A global variable. -/
  | global (symbol : UInt32)
  /-- An operator in front of its operand. -/
  | unary (op : UnaryOp) (operand : Term)
  /-- An operator between its operands. -/
  | binary (op : BinaryOp) (left right : Term)
  /-- A call with its arguments in order. -/
  | call (callee : CallTarget) (args : List Term)
  deriving Repr

namespace CallTarget

/-- The operation that calls. -/
def op : CallTarget → Operation
  | .address target => .call target
  | .host symbol => .callExternal symbol

/-- The function that is called. -/
def callee? (script : Script) : CallTarget → Option Symbol
  | .address target => script.callableAt? target
  | .host symbol => script.symbolOf? symbol

/-- What is called, as a source expression has it. -/
def callee (script : Script) (target : CallTarget) : Callee :=
  match target.callee? script, target with
  | some sym, _ => .known sym
  | none, .address target => .address target
  | none, .host symbol => .unknown symbol

/-- The name of the function that is called. -/
def name (script : Script) (target : CallTarget) : String :=
  ((target.callee? script).map Symbol.name).getD ""

/-- The call refers to a function with as many parameters as there are arguments, none of them a
function. `returns` says whether the function leaves a result. -/
def Fits (script : Script) (returns : Bool) (arity : Nat) (target : CallTarget) : Prop :=
  ∃ sym, target.callee? script = some sym ∧ sym.returnsValue = returns ∧
    (script.parametersOf sym).length = arity ∧ ∀ param ∈ script.parametersOf sym, param.kind ≠ .func

/-- The call of a function that leaves a result is an operand. -/
theorem Fits.collects {script : Script} {arity : Nat} {target : CallTarget}
    (h : target.Fits script true arity) : script.Collects target.op := by
  obtain ⟨sym, hsym, hreturns, -⟩ := h
  cases target <;>
    exact ⟨by simp_all [op, callee?, Script.endsStatement], rfl, fun _ => rfl⟩

/-- The call of a function without a result ends a statement. -/
theorem Fits.endsStatement {script : Script} {arity : Nat} {target : CallTarget}
    (h : target.Fits script false arity) : script.endsStatement target.op = true := by
  obtain ⟨sym, hsym, hreturns, -⟩ := h
  cases target <;> simp_all [op, callee?, Script.endsStatement]

/-- The callee is printed by the name that is called. -/
theorem Fits.text_callee {script : Script} {returns : Bool} {arity : Nat} {target : CallTarget}
    (h : target.Fits script returns arity) : (target.callee script).text = target.name script := by
  obtain ⟨sym, hsym, -⟩ := h
  simp [callee, name, hsym, Callee.text]

end CallTarget

/-- A symbol denotes a single global variable: its name has no scope, it is no member, it has one
element, and it does not stand for a string literal. -/
structure IsGlobal (sym : Symbol) : Prop where
  scope : sym.scope? = none
  member : sym.isMember = false
  count : sym.count = 1
  literal : (sym.isGenerated && sym.kind == .string) = false

namespace IsGlobal

variable {sym : Symbol} (h : IsGlobal sym)
include h

/-- A global variable is written by its whole name. -/
theorem localName : sym.localName = sym.name := by
  have hscope := h.scope
  rw [Symbol.scope?, Option.map_eq_none_iff] at hscope
  simp [Symbol.localName, hscope]

/-- A global variable is never taken for a field or a local, whatever instance is active. -/
theorem reference_eq (s : Setting) (active pushedIn : Option UInt32) :
    s.reference active pushedIn sym = .plain sym := by
  simp [Setting.reference, Table.isField, h.member, h.scope]

/-- A global variable is written by its plain name, whichever instance is active. -/
theorem variableExpr_eq (s : Setting) {symbol : UInt32} (hsym : s.script.symbolOf? symbol = some sym)
    (active pushedIn : Option UInt32) :
    s.variableExpr active pushedIn symbol = .variable (.plain sym) none := by
  simp [Setting.variableExpr, hsym, h.literal, h.reference_eq, h.count]

end IsGlobal

namespace Term

/-! ### Code -/

mutual
/-- The postfix code of a term: its operands in order, then the operation at its root. -/
def code : Term → List Operation
  | .int value => [.pushInt value]
  | .global symbol => [.pushVar symbol]
  | .unary op operand => operand.code ++ [.unary op]
  | .binary op left right => left.code ++ right.code ++ [.binary op]
  | .call target args => codes args ++ [target.op]
/-- The code of a list of terms, one behind the other. -/
def codes : List Term → List Operation
  | [] => []
  | t :: ts => t.code ++ codes ts
end

/-- The operation at the root of a term. -/
def root : Term → Operation
  | .int value => .pushInt value
  | .global symbol => .pushVar symbol
  | .unary op _ => .unary op
  | .binary op _ _ => .binary op
  | .call target _ => target.op

/-- The code of the operands of a term. -/
def operands : Term → List Operation
  | .int _ | .global _ => []
  | .unary _ operand => operand.code
  | .binary _ left right => left.code ++ right.code
  | .call _ args => codes args

/-- The operands come first, and then the operation. -/
theorem code_eq (t : Term) : t.code = t.operands ++ [t.root] := by
  cases t <;> simp [code, operands, root]

mutual
/-- The number of levels of a term. -/
def height : Term → Nat
  | .int _ | .global _ => 1
  | .unary _ operand => operand.height + 1
  | .binary _ left right => max left.height right.height + 1
  | .call _ args => heights args + 1
/-- The number of levels of the highest one of a list of terms. -/
def heights : List Term → Nat
  | [] => 0
  | t :: ts => max t.height (heights ts)
end

/-- Every term has at least one level. -/
theorem height_pos (t : Term) : 0 < t.height := by
  cases t <;> simp [height]

/-- The terms of a list go no deeper than the list. -/
theorem height_le_heights {t : Term} {ts : List Term} (h : t ∈ ts) : t.height ≤ heights ts := by
  induction ts with
  | nil => cases h
  | cons u ts ih =>
    rw [heights]
    rcases List.mem_cons.mp h with rfl | h
    · exact Nat.le_max_left _ _
    · exact Nat.le_trans (ih h) (Nat.le_max_right _ _)

/-! ### Text -/

mutual
/-- The source text of a term. -/
def text (script : Script) : Term → String
  | .int value => toString value.toInt
  | .global symbol => ((script.symbolOf? symbol).map Symbol.name).getD ""
  | .unary op operand => op.sign ++ "(" ++ operand.text script ++ ")"
  | .binary op left right =>
      "(" ++ left.text script ++ ") " ++ op.sign ++ " (" ++ right.text script ++ ")"
  | .call target args => target.name script ++ "(" ++ ", ".intercalate (texts script args) ++ ")"
/-- The source texts of a list of terms. -/
def texts (script : Script) : List Term → List String
  | [] => []
  | t :: ts => t.text script :: texts script ts
end

mutual
/-- The symbols of a term are what its places ask for: global variables, and functions that leave a
result and take as many arguments as there are. -/
def Fits (script : Script) : Term → Prop
  | .int _ => True
  | .global symbol => ∃ sym, script.symbolOf? symbol = some sym ∧ IsGlobal sym
  | .unary _ operand => operand.Fits script
  | .binary _ left right => left.Fits script ∧ right.Fits script
  | .call target args => target.Fits script true args.length ∧ AllFit script args
/-- The symbols of each term of a list are what their places ask for. -/
def AllFit (script : Script) : List Term → Prop
  | [] => True
  | t :: ts => t.Fits script ∧ AllFit script ts
end

/-- A list fits if each of its terms does. -/
theorem allFit_iff {script : Script} {ts : List Term} :
    AllFit script ts ↔ ∀ t ∈ ts, t.Fits script := by
  induction ts with
  | nil => simp [AllFit]
  | cons t ts ih => simp [AllFit, ih]

mutual
/-- The code of a term consists of operands. -/
theorem collects {script : Script} :
    ∀ {t : Term}, t.Fits script → ∀ op ∈ t.code, script.Collects op
  | .int _, _, op, hop => by
    obtain rfl := List.mem_singleton.mp hop
    exact ⟨rfl, rfl, fun _ => rfl⟩
  | .global _, _, op, hop => by
    obtain rfl := List.mem_singleton.mp hop
    exact ⟨rfl, rfl, fun _ => rfl⟩
  | .unary _ operand, h, op, hop => by
    -- The operands come before the operation, which is an operand of what is around it.
    rcases List.mem_append.mp hop with hop | hop
    · exact collects (t := operand) h op hop
    · obtain rfl := List.mem_singleton.mp hop
      exact ⟨rfl, rfl, fun _ => rfl⟩
  | .binary _ left right, h, op, hop => by
    rcases List.mem_append.mp hop with hop | hop
    · rcases List.mem_append.mp hop with hop | hop
      · exact collects (t := left) h.1 op hop
      · exact collects (t := right) h.2 op hop
    · obtain rfl := List.mem_singleton.mp hop
      exact ⟨rfl, rfl, fun _ => rfl⟩
  | .call _ _, h, op, hop => by
    rcases List.mem_append.mp hop with hop | hop
    · exact codes_collect h.2 op hop
    · obtain rfl := List.mem_singleton.mp hop
      exact h.1.collects
/-- The code of a list of terms consists of operands. -/
theorem codes_collect {script : Script} :
    ∀ {ts : List Term}, AllFit script ts → ∀ op ∈ codes ts, script.Collects op
  | [], _, _, hop => by cases hop
  | t :: _, h, op, hop => by
    rcases List.mem_append.mp hop with hop | hop
    · exact collects (t := t) h.1 op hop
    · exact codes_collect h.2 op hop
end

/-! ### Source expressions -/

mutual
/-- The source expression that a term stands for. -/
def expr (script : Script) : Term → Expr
  | .int value => .int value
  | .global symbol =>
    match script.symbolOf? symbol with
    | some sym => .variable (.plain sym) none
    | none => .variable (.unknown symbol) none
  | .unary op operand => .unary op (operand.expr script)
  | .binary op left right => .binary op (left.expr script) (right.expr script)
  | .call target args => .call (target.callee script) (exprs script args)
/-- The source expressions that a list of terms stands for. -/
def exprs (script : Script) : List Term → List Expr
  | [] => []
  | t :: ts => t.expr script :: exprs script ts
end

variable {script : Script}

mutual
/-- A term and its source expression have the same text. -/
theorem text_expr : ∀ {t : Term}, t.Fits script → (t.expr script).text = t.text script
  | .int _, _ => by simp [expr, text]
  | .global _, ⟨_, hsym, hglobal⟩ => by
    simp [expr, text, hsym, Reference.text, hglobal.localName]
  | .unary op operand, h => by simp [expr, text, text_expr (t := operand) h, op.text_eq_sign]
  | .binary op _ _, h => by simp [expr, text, text_expr h.1, text_expr h.2, op.text_eq_sign]
  | .call _ args, h => by
    rw [expr, text, Expr.text_call, h.1.text_callee, texts_exprs h.2]
/-- Terms and their source expressions have the same texts. -/
theorem texts_exprs : ∀ {ts : List Term}, AllFit script ts →
    Expr.texts (exprs script ts) = texts script ts
  | [], _ => rfl
  | _ :: _, h => by simp [exprs, texts, Expr.texts, text_expr h.1, texts_exprs h.2]
end

/-- A call and its source expression have the same text, whether or not it leaves a result. -/
theorem text_call {target : CallTarget} {args : List Term} {returns : Bool}
    (htarget : target.Fits script returns args.length) (hargs : AllFit script args) :
    ((Term.call target args).expr script).text = (Term.call target args).text script := by
  rw [expr, text, Expr.text_call, htarget.text_callee, texts_exprs hargs]

mutual
/-- A term refers to no local variable of the function. -/
theorem locals_expr : ∀ t : Term, (t.expr script).locals = []
  | .int _ => rfl
  | .global _ => by
    simp only [expr]
    split <;> rfl
  | .unary _ operand => by simp [expr, Expr.locals, locals_expr operand]
  | .binary _ left right => by simp [expr, Expr.locals, locals_expr left, locals_expr right]
  | .call _ args => by simp [expr, Expr.locals, argLocals_exprs args]
/-- No locals are recorded for terms. -/
theorem argLocals_exprs : ∀ ts : List Term, Expr.argLocals (exprs script ts) = []
  | [] => rfl
  | t :: ts => by simp [exprs, Expr.argLocals, locals_expr t, argLocals_exprs ts]
end

end Term

/-! ### Reading -/

/-- With the given operands on the stack, above anything else, a reader makes `e` of the root and
takes just these operands. -/
def Reads (read : Reader) (operands : List Operation) (root : Operation) (e : Expr) : Prop :=
  ∀ (frame : Frame) (frames stack : List Frame), frame.instr.op = root →
    operations frames = operands → read frame (frames.reverse ++ stack) = (e, stack)

/-- Code that is read from its root is read off the top of the stack. -/
theorem Reads.pop {read : Reader} {operands : List Operation} {root : Operation} {e : Expr}
    (h : Reads read operands root e) {frames : List Frame} (stack : List Frame)
    (hframes : operations frames = operands ++ [root]) :
    pop read (frames.reverse ++ stack) = (e, stack) := by
  obtain ⟨below, frame, rfl, hbelow, hframe⟩ := exists_concat_of_operations hframes
  rw [List.reverse_append, List.reverse_singleton, List.singleton_append, List.cons_append,
    Daedalus.pop]
  exact h frame below stack hframe hbelow

/-! ### Recovering terms -/

namespace Term

variable (s : Setting)

/-- Arguments that are read one by one are read all together. -/
theorem popArgs_exprs {read : Reader} {ts : List Term} {params : List Symbol}
    (hread : ∀ t ∈ ts, Reads read t.operands t.root (t.expr s.script))
    (hlen : params.length = ts.length) (hparams : ∀ param ∈ params, param.kind ≠ .func)
    {frames : List Frame} (stack : List Frame) (hframes : operations frames = codes ts) :
    popArgs (s.readArg read) params (frames.reverse ++ stack) = (exprs s.script ts, stack) := by
  induction ts generalizing params frames stack with
  | nil =>
    obtain rfl := List.eq_nil_of_length_eq_zero hlen
    obtain rfl := List.map_eq_nil_iff.mp hframes
    rfl
  | cons t ts ih =>
    -- The arguments behind the first one lie above it, so they are taken before it.
    obtain ⟨param, params, rfl⟩ := List.exists_cons_of_length_eq_add_one hlen
    obtain ⟨fs, gs, rfl, hfs, hgs⟩ := exists_append_of_operations hframes
    have hrest := ih (fun t ht => hread t (List.mem_cons_of_mem _ ht)) (Nat.succ.inj hlen)
      (fun p hp => hparams p (List.mem_cons_of_mem _ hp)) (fs.reverse ++ stack) hgs
    -- The parameter is no function, so its argument is read like any other operand.
    have hparam : s.readArg read param = read := if_neg (hparams param List.mem_cons_self)
    rw [code_eq] at hfs
    simp only [popArgs, List.reverse_append, List.append_assoc, hrest, hparam,
      (hread t List.mem_cons_self).pop stack hfs, exprs]

/-- A call is read with its arguments, one for each parameter. -/
theorem reads_call {active : Option UInt32} {target : CallTarget} {args : List Term} {room : Nat}
    {returns : Bool}
    (hread : ∀ t ∈ args, Reads (s.recover active room) t.operands t.root (t.expr s.script))
    (hfits : target.Fits s.script returns args.length) :
    Reads (s.recover active (room + 1)) (codes args) target.op
      ((Term.call target args).expr s.script) := by
  intro frame frames stack hop hframes
  obtain ⟨sym, hsym, -, hlen, hparams⟩ := hfits
  have hpop := popArgs_exprs s hread hlen hparams stack hframes
  cases target <;> simp only [CallTarget.callee?] at hsym <;>
    simp [Setting.recover, hop, CallTarget.op, expr, CallTarget.callee, Setting.readCall,
      CallTarget.callee?, hsym, hpop]

/-- **Recovering a term.** With room for its levels, the root of a term is recovered as the
expression of the whole term. The induction is on the room, as in the definition of `recover`. -/
theorem reads_recover {active : Option UInt32} {t : Term} {room : Nat} (hfits : t.Fits s.script)
    (hroom : t.height ≤ room) :
    Reads (s.recover active room) t.operands t.root (t.expr s.script) := by
  induction room generalizing t with
  | zero => exact absurd hroom (Nat.not_le.mpr t.height_pos)
  | succ room ih =>
    intro frame frames stack hop hframes
    cases t with
    | int value =>
      obtain rfl := List.map_eq_nil_iff.mp hframes
      simp [Setting.recover, hop, root, expr]
    | global symbol =>
      obtain ⟨sym, hsym, hglobal⟩ := hfits
      obtain rfl := List.map_eq_nil_iff.mp hframes
      simp [Setting.recover, hop, root, expr, hsym, hglobal.variableExpr_eq s hsym]
    | unary op operand =>
      have hread := ih (t := operand) hfits (Nat.le_of_succ_le_succ hroom)
      rw [operands, code_eq] at hframes
      simp [Setting.recover, hop, root, expr, hread.pop stack hframes]
    | binary op left right =>
      -- The right operand lies above the left one, which is below it on the stack.
      have hroom : max left.height right.height ≤ room := Nat.le_of_succ_le_succ hroom
      have hleft := ih hfits.1 (Nat.le_trans (Nat.le_max_left _ _) hroom)
      have hright := ih hfits.2 (Nat.le_trans (Nat.le_max_right _ _) hroom)
      obtain ⟨ls, rs, rfl, hls, hrs⟩ := exists_append_of_operations hframes
      rw [code_eq] at hls hrs
      simp only [Setting.recover, hop, root, List.reverse_append, List.append_assoc,
        hright.pop _ hrs, hleft.pop _ hls, expr]
    | call target args =>
      -- Each argument is no higher than all of them, so it is read in the room that is left.
      obtain ⟨htarget, hargs⟩ := hfits
      have hread : ∀ t ∈ args, Reads (s.recover active room) t.operands t.root (t.expr s.script) :=
        fun t ht => ih (allFit_iff.mp hargs t ht)
          (Nat.le_trans (height_le_heights ht) (Nat.le_of_succ_le_succ hroom))
      exact reads_call s hread htarget frame frames stack hop hframes

end Term

end Structured

end Daedalus
