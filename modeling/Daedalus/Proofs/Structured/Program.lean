import Daedalus.Proofs.Structured.Term
import Daedalus.Source.Block

/-! # Structured programs

Statements, returns and chains of conditional arms, with the code that a compiler lays out for them
and the source lines that they were written as. A jump closes each arm that another arm follows, and
goes to the end of the chain; the last arm runs into what is behind the chain. -/

namespace Daedalus.Structured

open Text

/-! ### Statements -/

/-- A statement that takes one line, apart from returns. -/
inductive Statement where
  /-- The assignment of a value to a global variable. -/
  | assign (symbol : UInt32) (value : Term)
  /-- The call of a function without a result. -/
  | call (callee : CallTarget) (args : List Term)
  /-- The call of a function whose result is not used. -/
  | discard (callee : CallTarget) (args : List Term)
  deriving Repr

namespace Statement

/-- Whether the statement leaves a result that is not used. -/
def isDiscard : Statement → Bool
  | .discard _ _ => true
  | _ => false

/-- The code of the operands of a statement. -/
def operands : Statement → List Operation
  | .assign symbol value => value.code ++ [.pushVar symbol]
  | .call _ args | .discard _ args => Term.codes args

/-- The last operation of a statement. -/
def root : Statement → Operation
  | .assign _ _ => .move .int
  | .call callee _ | .discard callee _ => callee.op

/-- The code of a statement. -/
def code (st : Statement) : List Operation := st.operands ++ [st.root]

/-- The source expression that a statement stands for. -/
def expr (script : Script) : Statement → Expr
  | .assign symbol value => .assign ((Term.global symbol).expr script) (value.expr script)
  | .call callee args | .discard callee args => (Term.call callee args).expr script

/-- The source text of a statement. -/
def text (script : Script) : Statement → String
  | .assign symbol value => (Term.global symbol).text script ++ " = " ++ value.text script
  | .call callee args | .discard callee args => (Term.call callee args).text script

/-- A statement is what its place asks for: integers are assigned to global variables, and the
called functions leave no result or one as it should be; there is room for all levels. -/
def Fits (s : Setting) : Statement → Prop
  | .assign symbol value =>
    (∃ sym, s.script.symbolOf? symbol = some sym ∧ IsGlobal sym ∧ sym.kind = .int) ∧
      value.Fits s.script ∧ value.height < s.limit
  | .call callee args =>
    callee.Fits s.script false args.length ∧ Term.AllFit s.script args ∧
      Term.heights args < s.limit
  | .discard callee args =>
    callee.Fits s.script true args.length ∧ Term.AllFit s.script args ∧
      Term.heights args < s.limit

variable {s : Setting} {st : Statement}

/-- The operands of a statement are collected. -/
theorem Fits.collects (h : st.Fits s) : ∀ op ∈ st.operands, s.script.Collects op := by
  intro op hop
  cases st with
  | assign symbol value =>
    rcases List.mem_append.mp hop with hop | hop
    · exact Term.collects h.2.1 op hop
    · obtain rfl := List.mem_singleton.mp hop
      exact ⟨rfl, rfl, fun _ => rfl⟩
  | call callee args => exact Term.codes_collect h.2.1 op hop
  | discard callee args => exact Term.codes_collect h.2.1 op hop

/-- A statement leaves the active instance as it is. -/
theorem activate_root (st : Statement) (active : Option UInt32) :
    st.root.activate active = active := by
  rcases st with _ | ⟨_ | _, _⟩ | ⟨_ | _, _⟩ <;> rfl

/-- Control goes on behind a statement. -/
theorem flow_root (st : Statement) : st.root.flow = .next := by
  rcases st with _ | ⟨_ | _, _⟩ | ⟨_ | _, _⟩ <;> rfl

/-- The last operation ends a statement unless a result is left. -/
theorem Fits.endsStatement (h : st.Fits s) (hdiscard : st.isDiscard = false) :
    s.script.endsStatement st.root = true := by
  cases st with
  | assign symbol value => rfl
  | call callee args => exact h.1.endsStatement
  | discard callee args => cases hdiscard

/-- An unused result is left on the stack. -/
theorem Fits.collects_root (h : st.Fits s) (hdiscard : st.isDiscard = true) :
    s.script.Collects st.root := by
  cases st with
  | discard callee args => exact h.1.collects
  | _ => cases hdiscard

/-- The expression of a statement is printed as the source text of the statement. -/
theorem Fits.text_expr (h : st.Fits s) : (st.expr s.script).text = st.text s.script := by
  cases st with
  | assign symbol value =>
    obtain ⟨⟨sym, hsym, hglobal, -⟩, hvalue, -⟩ := h
    rw [expr, text, Expr.text_assign, Term.text_expr hvalue,
      Term.text_expr (t := .global symbol) ⟨sym, hsym, hglobal⟩]
  | call callee args => exact Term.text_call h.1 h.2.1
  | discard callee args => exact Term.text_call h.1 h.2.1

/-- The text of a statement is not empty. -/
theorem text_ne_empty (script : Script) (st : Statement) : st.text script ≠ "" := by
  cases st <;> simp [text, Term.text, String.append_eq_empty_iff]

/-- No locals are recorded for a statement. -/
theorem locals_expr (script : Script) (st : Statement) : (st.expr script).locals = [] := by
  cases st <;> simp only [expr, Expr.locals, Term.locals_expr, List.append_nil]

/-- A call is read in the room of its levels. -/
theorem reads_call {active : Option UInt32} {callee : CallTarget} {args : List Term}
    {returns : Bool} (hcallee : callee.Fits s.script returns args.length)
    (hargs : Term.AllFit s.script args) (hroom : Term.heights args < s.limit) :
    Reads (s.recover active s.limit) (Term.codes args) callee.op
      ((Term.call callee args).expr s.script) := by
  obtain ⟨room, hlimit⟩ := Nat.exists_eq_add_of_lt hroom
  rw [hlimit]
  refine Term.reads_call s (fun t ht => ?_) hcallee
  exact Term.reads_recover s (Term.allFit_iff.mp hargs t ht)
    (Nat.le_trans (Term.height_le_heights ht) (Nat.le_add_right _ _))

/-- A value that is stored into an integer is read like any other expression. -/
theorem readValue_int (s : Setting) (read : Reader) : s.readValue read (some .int) = read := by
  funext frame stack
  simp [Setting.readValue]

/-- **Recovering a statement.** The last operation of a statement is recovered as the whole
statement. -/
theorem Fits.reads (h : st.Fits s) (active : Option UInt32) :
    Reads (s.recover active s.limit) st.operands st.root (st.expr s.script) := by
  cases st with
  | assign symbol value =>
    obtain ⟨⟨sym, hsym, hglobal, hkind⟩, hvalue, hroom⟩ := h
    obtain ⟨room, hlimit⟩ := Nat.exists_eq_add_of_lt hroom
    have hreadValue : Reads (s.recover active (value.height + room)) value.operands value.root
        (value.expr s.script) := Term.reads_recover s hvalue (Nat.le_add_right _ _)
    have hreadTarget : Reads (s.recover active (value.height + room)) [] (.pushVar symbol)
        ((Term.global symbol).expr s.script) :=
      Term.reads_recover s (t := .global symbol) ⟨sym, hsym, hglobal⟩
        (Nat.le_trans value.height_pos (Nat.le_add_right _ _))
    intro frame frames stack hop hframes
    -- The target lies on top of the stack, above the code of the value.
    obtain ⟨fs, dest, rfl, hfs, hdest⟩ := exists_concat_of_operations hframes
    rw [Term.code_eq] at hfs
    have htarget := hreadTarget dest [] (fs.reverse ++ stack) hdest rfl
    rw [List.reverse_nil, List.nil_append] at htarget
    -- The target is an integer, so the value is not read as a function or an instance.
    have hkind : s.targetKind dest = some .int := by
      simp [Setting.targetKind, hdest, Operation.symbol?, hsym, hkind]
    rw [hlimit, Setting.recover]
    simp only [hop, root, List.reverse_append, List.reverse_singleton, List.nil_append,
      List.cons_append, htarget, hkind, readValue_int, hreadValue.pop stack hfs, expr]
  | call callee args => exact reads_call h.1 h.2.1 h.2.2
  | discard callee args => exact reads_call h.1 h.2.1 h.2.2

end Statement

/-! ### Returns -/

/-- What a return gives back. -/
abbrev Result := Option Term

namespace Result

/-- The code of the operands of a return. -/
def operands (result : Result) : List Operation := result.elim [] Term.code

/-- The code of a return. -/
def code (result : Result) : List Operation := result.operands ++ [.ret]

/-- The source expression of a return. -/
def expr (script : Script) : Result → Expr
  | none => .ret
  | some value => .retValue (value.expr script)

/-- The source text of a return. -/
def text (script : Script) : Result → String
  | none => "return"
  | some value => "return " ++ value.text script

/-- A return gives a result back if the function has one, with room for all of its levels. -/
def Fits (s : Setting) : Result → Prop
  | none => s.callable.returnsValue = false
  | some value =>
    s.callable.returnsValue = true ∧ value.Fits s.script ∧ value.height < s.limit

variable {s : Setting} {result : Result}

/-- The expression of a return is printed as its source text. -/
theorem Fits.text_expr (h : result.Fits s) :
    (result.expr s.script).text = result.text s.script := by
  cases result with
  | none => rw [expr, text, Expr.text_ret]
  | some value => rw [expr, text, Expr.text_retValue, Term.text_expr h.2.1]

/-- The text of a return is not empty. -/
theorem text_ne_empty (script : Script) (result : Result) : result.text script ≠ "" := by
  cases result <;> simp [text, String.append_eq_empty_iff]

/-- No locals are recorded for a return. -/
theorem locals_expr (script : Script) (result : Result) : (result.expr script).locals = [] := by
  cases result <;> simp only [expr, Expr.locals, Term.locals_expr]

/-- No operand of a return ends the statement. -/
theorem Fits.collects (h : result.Fits s) : ∀ op ∈ result.operands, s.script.Collects op := by
  cases result with
  | none => simp [operands]
  | some value => exact Term.collects h.2.1

/-- **Recovering a return.** The return takes the result that it gives back, and nothing else. -/
theorem Fits.reads (h : result.Fits s) (hlimit : 0 < s.limit) (active : Option UInt32) :
    Reads (s.recover active s.limit) result.operands .ret (result.expr s.script) := by
  intro frame frames stack hop hframes
  cases result with
  | none =>
    -- There is no value, and what lies on the stack from before stays there.
    obtain ⟨room, hlimit⟩ := Nat.exists_eq_add_of_lt hlimit
    obtain rfl := List.map_eq_nil_iff.mp hframes
    have hreturns : s.callable.returnsValue = false := h
    simp [hlimit, Setting.recover, hop, hreturns, expr]
  | some value =>
    obtain ⟨hreturns, hvalue, hroom⟩ := h
    obtain ⟨room, hlimit⟩ := Nat.exists_eq_add_of_lt hroom
    have hread : Reads (s.recover active (value.height + room)) value.operands value.root
        (value.expr s.script) := Term.reads_recover s hvalue (Nat.le_add_right _ _)
    have hcode : operations frames = value.operands ++ [value.root] := by
      rw [hframes, ← Term.code_eq]
      rfl
    simp [hlimit, Setting.recover, hop, hreturns, expr, hread.pop stack hcode]

end Result

/-! ### Programs -/

mutual
/-- A sequence of statements. -/
inductive Program where
  /-- The end of the sequence. -/
  | done
  /-- A return, which is always the last statement of a sequence. -/
  | ret (result : Result)
  /-- A statement that takes one line. -/
  | step (statement : Statement) (rest : Program)
  /-- A chain of arms, of which the first is given by its condition and body. -/
  | chain (condition : Term) (body : Program) (arms : Branches) (rest : Program)
  deriving Repr
/-- The arms of a chain behind the first one. -/
inductive Branches where
  /-- No more arms. -/
  | done
  /-- An arm with a condition. -/
  | elseIf (condition : Term) (body : Program) (arms : Branches)
  /-- The last arm, without a condition. -/
  | otherwise (body : Program)
  deriving Repr
end

namespace Program

/-- Whether the sequence is empty. -/
def isDone : Program → Bool
  | .done => true
  | _ => false

/-- Whether the sequence starts with a chain. -/
def startsWithChain : Program → Bool
  | .chain _ _ _ _ => true
  | _ => false

/-- Whether the sequence ends with a return. -/
def returns : Program → Bool
  | .done => false
  | .ret _ => true
  | .step _ rest => rest.returns
  | .chain _ _ _ rest => rest.returns

/-- A sequence that ends with a return is not empty. -/
theorem isDone_of_returns {p : Program} (h : p.returns = true) : p.isDone = false := by
  cases p with
  | done => cases h
  | _ => rfl

/-- A sequence without statements is the empty one. -/
theorem eq_done_of_isDone {p : Program} (h : p.isDone = true) : p = .done := by
  cases p with
  | done => rfl
  | _ => cases h

end Program

/-- Whether there are no more arms. -/
def Branches.isDone : Branches → Bool
  | .done => true
  | _ => false

/-- Further arms without an arm are none. -/
theorem Branches.eq_done_of_isDone {b : Branches} (h : b.isDone = true) : b = .done := by
  cases b with
  | done => rfl
  | _ => cases h

/-! ### Layout -/

namespace Branches

/-- The operation behind the body of an arm: where another arm follows, a jump to the end of the
chain. -/
def leave (following : Branches) (stop : Nat) : List Operation :=
  if following.isDone then [] else [.jump (UInt32.ofNat stop)]

/-- The number of bytes of the operation behind the body of an arm. -/
def leaveSize (following : Branches) : Nat := if following.isDone then 0 else 5

/-- The operation behind a body takes as many bytes as it says. -/
@[simp] theorem byteSize_leave (following : Branches) (stop : Nat) :
    byteSize (following.leave stop) = following.leaveSize := by
  cases following <;> rfl

end Branches

mutual
/-- The number of bytes of the code of a sequence. -/
def Program.size : Program → Nat
  | .done => 0
  | .ret result => byteSize result.code
  | .step statement rest => byteSize statement.code + rest.size
  | .chain condition body arms rest =>
    byteSize condition.code + 5 + body.size + arms.leaveSize + arms.size + rest.size
/-- The number of bytes of the code of the further arms of a chain. -/
def Branches.size : Branches → Nat
  | .done => 0
  | .elseIf condition body arms =>
    byteSize condition.code + 5 + body.size + arms.leaveSize + arms.size
  | .otherwise body => body.size
end

mutual
/-- The code of a sequence that starts at `pc`. Each condition is followed by a jump to the next
arm. -/
def Program.code (pc : Nat) : Program → List Operation
  | .done => []
  | .ret result => result.code
  | .step statement rest => statement.code ++ rest.code (pc + byteSize statement.code)
  | .chain condition body arms rest =>
    let start := pc + byteSize condition.code + 5
    let next := start + body.size + arms.leaveSize
    let stop := next + arms.size
    condition.code ++ [.jumpIfZero (UInt32.ofNat next)] ++ body.code start ++ arms.leave stop ++
      arms.code next ++ rest.code stop
/-- The code of the further arms of a chain, of which the first one starts at `pc`. -/
def Branches.code (pc : Nat) : Branches → List Operation
  | .done => []
  | .elseIf condition body arms =>
    let start := pc + byteSize condition.code + 5
    let next := start + body.size + arms.leaveSize
    let stop := next + arms.size
    condition.code ++ [.jumpIfZero (UInt32.ofNat next)] ++ body.code start ++ arms.leave stop ++
      arms.code next
  | .otherwise body => body.code pc
end

mutual
/-- The code of a sequence takes as many bytes as the sequence says. -/
@[simp] theorem Program.byteSize_code : ∀ (p : Program) (pc : Nat), byteSize (p.code pc) = p.size
  | .done, _ => rfl
  | .ret _, _ => rfl
  | .step _ rest, _ => by simp [Program.code, Program.size, rest.byteSize_code]
  | .chain _ body arms rest, _ => by
    simp [Program.code, Program.size, body.byteSize_code, arms.byteSize_code, rest.byteSize_code,
      Nat.add_assoc]
/-- The code of the further arms of a chain takes as many bytes as they say. -/
@[simp] theorem Branches.byteSize_code :
    ∀ (b : Branches) (pc : Nat), byteSize (b.code pc) = b.size
  | .done, _ => rfl
  | .elseIf _ body arms, _ => by
    simp [Branches.code, Branches.size, body.byteSize_code, arms.byteSize_code, Nat.add_assoc]
  | .otherwise body, pc => body.byteSize_code pc
end

/-- A chain is laid out as its arms with the rest of the sequence behind them. -/
theorem Program.code_chain (pc : Nat) (condition : Term) (body : Program) (arms : Branches)
    (rest : Program) :
    (Program.chain condition body arms rest).code pc =
      (Branches.elseIf condition body arms).code pc ++
        rest.code (pc + (Branches.elseIf condition body arms).size) := by
  simp [code, Branches.code, Branches.size, Nat.add_assoc]

/-- A chain takes the bytes of its arms, the first one included, and of what follows. -/
theorem Program.size_chain (condition : Term) (body : Program) (arms : Branches) (rest : Program) :
    (Program.chain condition body arms rest).size =
      (Branches.elseIf condition body arms).size + rest.size := rfl

/-- A sequence that is not empty takes bytes. -/
theorem Program.size_pos {p : Program} (h : p.isDone = false) : 0 < p.size := by
  cases p with
  | done => cases h
  | ret result => exact byteSize_concat_pos _ _
  | step st rest => exact Nat.add_pos_left (byteSize_concat_pos _ _) _
  | chain condition body arms rest =>
    rw [size]
    omega

/-- A sequence that takes no bytes is empty. -/
theorem Program.eq_done_of_size {p : Program} (h : p.size = 0) : p = .done := by
  cases hdone : p.isDone with
  | true => exact eq_done_of_isDone hdone
  | false => exact absurd h (Nat.ne_of_gt (size_pos hdone))

/-! ### Source lines -/

/-- The line of a text, without the line end. -/
def lineOf (indent : Nat) (text : String) : String := spaces indent ++ text ++ ";"

mutual
/-- The source lines of a sequence, without line ends. -/
def Program.lines (script : Script) (indent : Nat) : Program → List String
  | .done => []
  | .ret result => [lineOf indent (result.text script)]
  | .step statement rest =>
    lineOf indent (statement.text script) :: rest.lines script indent
  | .chain condition body arms rest =>
    (spaces indent ++ "if (" ++ condition.text script ++ ") \x7b") ::
      (body.lines script (indent + 4) ++ arms.lines script indent ++ rest.lines script indent)
/-- The source lines of the further arms of a chain, from the end of the arm before them on. -/
def Branches.lines (script : Script) (indent : Nat) : Branches → List String
  | .done => [spaces indent ++ "\x7d;"]
  | .elseIf condition body arms =>
    (spaces indent ++ "\x7d else if (" ++ condition.text script ++ ") \x7b") ::
      (body.lines script (indent + 4) ++ arms.lines script indent)
  | .otherwise body =>
    (spaces indent ++ "\x7d else \x7b") ::
      (body.lines script (indent + 4) ++ [spaces indent ++ "\x7d;"])
end

/-! ### What a compiler accepts -/

mutual
/-- A sequence at a depth of nesting is what its place asks for: so are its terms, statements and
returns, arms without a condition are not empty, and the limit is not reached. -/
def Program.Fits (s : Setting) (depth : Nat) : Program → Prop
  | .done => depth < s.limit
  | .ret result => depth < s.limit ∧ result.Fits s
  | .step statement rest => statement.Fits s ∧ rest.Fits s depth
  | .chain condition body arms rest =>
    condition.Fits s.script ∧ condition.height ≤ s.limit ∧ body.Fits s (depth + 1) ∧
      arms.Fits s depth ∧ rest.Fits s depth
/-- The further arms of a chain at a depth of nesting are what their places ask for. -/
def Branches.Fits (s : Setting) (depth : Nat) : Branches → Prop
  | .done => True
  | .elseIf condition body arms =>
    condition.Fits s.script ∧ condition.height ≤ s.limit ∧ body.Fits s (depth + 1) ∧
      arms.Fits s depth
  | .otherwise body => body.isDone = false ∧ body.Fits s (depth + 1)
end

namespace Program

variable {s : Setting} {depth : Nat}

/-- A sequence that fits lies at a depth below the limit. -/
theorem Fits.depth_lt : ∀ {p : Program}, p.Fits s depth → depth < s.limit
  | .done, h => h
  | .ret _, h => h.1
  | .step _ _, h => depth_lt h.2
  | .chain _ _ _ _, h => depth_lt h.2.2.2.2

end Program

mutual
/-- A sequence that fits at some depth fits at every lower depth. -/
theorem Program.Fits.mono {s : Setting} : ∀ {p : Program} {depth depth' : Nat},
    p.Fits s depth → depth' ≤ depth → p.Fits s depth'
  | .done, _, _, h, hle => Nat.lt_of_le_of_lt hle h
  | .ret _, _, _, h, hle => ⟨Nat.lt_of_le_of_lt hle h.1, h.2⟩
  | .step _ _, _, _, h, hle => ⟨h.1, Program.Fits.mono h.2 hle⟩
  | .chain _ _ _ _, _, _, h, hle =>
    ⟨h.1, h.2.1, Program.Fits.mono h.2.2.1 (Nat.succ_le_succ hle), h.2.2.2.1.mono hle,
      Program.Fits.mono h.2.2.2.2 hle⟩
/-- Arms that fit at some depth fit at every lower depth. -/
theorem Branches.Fits.mono {s : Setting} : ∀ {b : Branches} {depth depth' : Nat},
    b.Fits s depth → depth' ≤ depth → b.Fits s depth'
  | .done, _, _, _, _ => trivial
  | .elseIf _ _ _, _, _, h, hle =>
    ⟨h.1, h.2.1, h.2.2.1.mono (Nat.succ_le_succ hle), Branches.Fits.mono h.2.2.2 hle⟩
  | .otherwise _, _, _, h, hle => ⟨h.1, h.2.mono (Nat.succ_le_succ hle)⟩
end

end Daedalus.Structured
