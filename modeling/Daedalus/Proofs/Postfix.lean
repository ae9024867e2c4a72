import Daedalus.Proofs.Structured.Term

/-! # Postfix code and infix text

Expressions over all that can be pushed outside classes and scopes: literals, variables, array
elements and string literals, under operators and calls. `Tree.code` is the postfix code of a tree
and `Tree.text` the infix text that it is written as. A statement puts a tree into an assignment, a
compound assignment or a return.

The main result is `Statement.recover_text`: with the operands of a statement on the stack, above
anything else, its root is recovered with the text of the statement, and just the operands are
taken. -/

namespace Daedalus.Postfix

open Text Structured

/-! ### Syntax -/

/-- What pushes the value of a variable. -/
inductive Leaf where
  /-- A variable. -/
  | var (symbol : UInt32)
  /-- A variable that holds an instance. -/
  | inst (symbol : UInt32)
  /-- An element of an array variable. -/
  | element (symbol : UInt32) (index : UInt8)
  deriving DecidableEq, Repr

/-- An expression. -/
inductive Tree where
  /-- An integer literal. -/
  | literal (value : Int32)
  /-- The value of a variable. -/
  | pushed (leaf : Leaf)
  /-- An operator in front of its operand. -/
  | unary (op : UnaryOp) (operand : Tree)
  /-- An operator between its operands. -/
  | binary (op : BinaryOp) (left right : Tree)
  /-- A call with its arguments in order. -/
  | call (target : CallTarget) (args : List Tree)
  deriving Repr

/-! ### Leaves -/

namespace Leaf

/-- The operation that pushes a leaf. -/
def op : Leaf → Operation
  | .var symbol => .pushVar symbol
  | .inst symbol => .pushInstance symbol
  | .element symbol index => .pushElement symbol index

/-- The position of the variable. -/
def symbol : Leaf → UInt32
  | .var symbol | .inst symbol | .element symbol _ => symbol

/-- The text of the variable with the given symbol: a string literal by its value, an array by its
first element, all others by their names. -/
def wholeText (sym : Symbol) : String :=
  if sym.isGenerated && sym.kind == .string then "\"" ++ (sym.string? 0).getD "" ++ "\""
  else if 1 < sym.count then sym.name ++ "[0]"
  else sym.name

/-- The text of a leaf whose variable has the given symbol. -/
def textOf (sym : Symbol) : Leaf → String
  | .var _ | .inst _ => wholeText sym
  | .element _ index => sym.name ++ "[" ++ toString index.toNat ++ "]"

/-- The text of a leaf. -/
def text (script : Script) (leaf : Leaf) : String :=
  ((script.symbolOf? leaf.symbol).map leaf.textOf).getD ""

end Leaf

/-- A symbol without a scope that does not belong to a class. -/
structure IsFree (sym : Symbol) : Prop where
  scope : sym.scope? = none
  member : sym.isMember = false

namespace IsFree

variable {sym : Symbol} (h : IsFree sym)
include h

/-- A free symbol is written by its whole name. -/
theorem localName : sym.localName = sym.name := by
  have hscope := h.scope
  rw [Symbol.scope?, Option.map_eq_none_iff] at hscope
  simp [Symbol.localName, hscope]

/-- A free symbol is never taken for a field or a local, whatever instance is active. -/
theorem reference_eq (s : Setting) (active pushedIn : Option UInt32) :
    s.reference active pushedIn sym = .plain sym := by
  simp [Setting.reference, Table.isField, h.member, h.scope]

/-- A pushed variable has the text of its symbol. -/
theorem text_variableExpr (s : Setting) {symbol : UInt32}
    (hsym : s.script.symbolOf? symbol = some sym) (active pushedIn : Option UInt32) :
    (s.variableExpr active pushedIn symbol).text = Leaf.wholeText sym := by
  simp only [Setting.variableExpr, Leaf.wholeText, hsym, h.reference_eq]
  -- String literals first, then arrays: the text asks in the order in which the recovery does.
  by_cases hliteral : (sym.isGenerated && sym.kind == .string) = true
  · rw [if_pos hliteral, if_pos hliteral, Expr.text_quoted]
  · rw [if_neg hliteral, if_neg hliteral]
    by_cases hcount : 1 < sym.count
    · rw [if_pos hcount, if_pos hcount, Expr.text_element, Reference.text, h.localName,
        String.append_assoc, String.append_assoc]
      rfl
    · rw [if_neg hcount, if_neg hcount, Expr.text_variable, Reference.text, h.localName]

/-- A pushed element has the text of its symbol with the index. -/
theorem text_elementExpr (s : Setting) {symbol : UInt32}
    (hsym : s.script.symbolOf? symbol = some sym) (active pushedIn : Option UInt32)
    (element : UInt8) :
    (s.elementExpr active pushedIn symbol element).text =
      sym.name ++ "[" ++ toString element.toNat ++ "]" := by
  simp only [Setting.elementExpr, hsym, h.reference_eq, Expr.text_element, Reference.text,
    h.localName]

/-- A leaf is recovered with its text, and takes nothing. -/
theorem recover_leaf (s : Setting) {leaf : Leaf} (hsym : s.script.symbolOf? leaf.symbol = some sym)
    (active : Option UInt32) (room : Nat) {frame : Frame} (hop : frame.instr.op = leaf.op)
    (stack : List Frame) :
    ∃ e : Expr, s.recover active (room + 1) frame stack = (e, stack) ∧
      e.text = leaf.text s.script := by
  have htext : leaf.text s.script = leaf.textOf sym := by
    rw [Leaf.text, hsym]
    rfl
  simp only [Setting.recover, hop, htext]
  cases leaf with
  | var symbol => exact ⟨_, rfl, h.text_variableExpr s hsym active frame.active⟩
  | inst symbol => exact ⟨_, rfl, h.text_variableExpr s hsym active frame.active⟩
  | element symbol index => exact ⟨_, rfl, h.text_elementExpr s hsym active frame.active index⟩

end IsFree

namespace Tree

/-! ### Code -/

mutual
/-- The postfix code of a tree: its operands in order, then the operation at its root. -/
def code : Tree → List Operation
  | .literal value => [.pushInt value]
  | .pushed leaf => [leaf.op]
  | .unary op operand => operand.code ++ [.unary op]
  | .binary op left right => left.code ++ right.code ++ [.binary op]
  | .call target args => codes args ++ [target.op]
/-- The code of a list of trees, one behind the other. -/
def codes : List Tree → List Operation
  | [] => []
  | t :: ts => t.code ++ codes ts
end

/-- The operation at the root of a tree. -/
def root : Tree → Operation
  | .literal value => .pushInt value
  | .pushed leaf => leaf.op
  | .unary op _ => .unary op
  | .binary op _ _ => .binary op
  | .call target _ => target.op

/-- The code of the operands of a tree. -/
def operands : Tree → List Operation
  | .literal _ | .pushed _ => []
  | .unary _ operand => operand.code
  | .binary _ left right => left.code ++ right.code
  | .call _ args => codes args

/-- The operands come first, and then the operation. -/
theorem code_eq (t : Tree) : t.code = t.operands ++ [t.root] := by
  cases t <;> simp [code, operands, root]

mutual
/-- The number of levels of a tree. -/
def height : Tree → Nat
  | .literal _ | .pushed _ => 1
  | .unary _ operand => operand.height + 1
  | .binary _ left right => max left.height right.height + 1
  | .call _ args => heights args + 1
/-- The number of levels of the highest one of a list of trees. -/
def heights : List Tree → Nat
  | [] => 0
  | t :: ts => max t.height (heights ts)
end

/-- Every tree has at least one level. -/
theorem height_pos (t : Tree) : 0 < t.height := by
  cases t <;> simp [height]

/-- The trees of a list go no deeper than the list. -/
theorem height_le_heights {t : Tree} {ts : List Tree} (h : t ∈ ts) : t.height ≤ heights ts := by
  induction ts with
  | nil => cases h
  | cons u ts ih =>
    rw [heights]
    rcases List.mem_cons.mp h with rfl | h
    · exact Nat.le_max_left _ _
    · exact Nat.le_trans (ih h) (Nat.le_max_right _ _)

/-! ### Text -/

/-- The name of the function that an argument stands for, where a parameter asks for a function: a
literal counts as the position of a symbol. -/
def functionName? (script : Script) (param : Symbol) : Tree → Option String
  | .literal value =>
    if param.kind = .func ∧ 0 ≤ value then (script.symbolAt? value.toInt.toNat).map Symbol.name
    else none
  | _ => none

/-- The parameters of the function that a call refers to. -/
def parameters (script : Script) (target : CallTarget) : List Symbol :=
  ((target.callee? script).map script.parametersOf).getD []

mutual
/-- The infix text of a tree. -/
def text (script : Script) : Tree → String
  | .literal value => toString value.toInt
  | .pushed leaf => leaf.text script
  | .unary op operand => op.sign ++ "(" ++ operand.text script ++ ")"
  | .binary op left right =>
      "(" ++ left.text script ++ ") " ++ op.sign ++ " (" ++ right.text script ++ ")"
  | .call target args =>
      target.name script ++ "(" ++
        ", ".intercalate (argTexts script (parameters script target) args) ++ ")"
/-- The infix texts of arguments for the parameters of a function. -/
def argTexts (script : Script) : List Symbol → List Tree → List String
  | param :: params, t :: ts =>
      (t.functionName? script param).getD (t.text script) :: argTexts script params ts
  | _, _ => []
end

mutual
/-- The symbols of a tree are what its places ask for: free variables, and functions with as many
parameters as there are arguments. -/
def Fits (script : Script) : Tree → Prop
  | .literal _ => True
  | .pushed leaf => ∃ sym, script.symbolOf? leaf.symbol = some sym ∧ IsFree sym
  | .unary _ operand => operand.Fits script
  | .binary _ left right => left.Fits script ∧ right.Fits script
  | .call target args =>
    (∃ sym, target.callee? script = some sym ∧ (script.parametersOf sym).length = args.length) ∧
      AllFit script args
/-- The symbols of each tree of a list are what their places ask for. -/
def AllFit (script : Script) : List Tree → Prop
  | [] => True
  | t :: ts => t.Fits script ∧ AllFit script ts
end

/-- Each tree of a list that fits does so. -/
theorem AllFit.fits {script : Script} {ts : List Tree} (h : AllFit script ts) :
    ∀ t ∈ ts, t.Fits script := by
  induction ts with
  | nil => simp
  | cons t ts ih =>
    rintro u hu
    rcases List.mem_cons.mp hu with rfl | hu
    · exact h.1
    · exact ih h.2 u hu

end Tree

/-! ### Reading texts -/

/-- With the given operands on the stack, above anything else, a reader makes an expression with the
given text of the root and takes just these operands. -/
def ReadsText (read : Reader) (operands : List Operation) (root : Operation) (text : String) :
    Prop :=
  ∀ (frame : Frame) (frames stack : List Frame), frame.instr.op = root →
    operations frames = operands →
      ∃ e : Expr, read frame (frames.reverse ++ stack) = (e, stack) ∧ e.text = text

/-- Code whose root is read is read off the top of the stack. -/
theorem ReadsText.pop {read : Reader} {operands : List Operation} {root : Operation} {text : String}
    (h : ReadsText read operands root text) {frames : List Frame} (stack : List Frame)
    (hframes : operations frames = operands ++ [root]) :
    ∃ e : Expr, pop read (frames.reverse ++ stack) = (e, stack) ∧ e.text = text := by
  obtain ⟨below, frame, rfl, hbelow, hframe⟩ := exists_concat_of_operations hframes
  rw [List.reverse_append, List.reverse_singleton, List.singleton_append, List.cons_append,
    Daedalus.pop]
  exact h frame below stack hframe hbelow

namespace Tree

variable (s : Setting)

/-- Only a literal pushes an integer. -/
theorem eq_literal_of_root {t : Tree} {value : Int32} (h : t.root = .pushInt value) :
    t = .literal value := by
  cases t with
  | literal v => cases h; rfl
  | pushed leaf => cases leaf <;> cases h
  | unary op operand => cases h
  | binary op left right => cases h
  | call target args => cases target <;> cases h

/-- An argument is read as a function where the parameter asks for one, and else like any other
operand. -/
theorem readArg_text {read : Reader} {t : Tree} (param : Symbol)
    (hread : ReadsText read t.operands t.root (t.text s.script)) :
    ReadsText (s.readArg read param) t.operands t.root
      ((t.functionName? s.script param).getD (t.text s.script)) := by
  intro frame frames stack hop hframes
  have hplain := hread frame frames stack hop hframes
  rw [Setting.readArg]
  by_cases hkind : param.kind = .func
  · rw [if_pos hkind, Setting.readFunction]
    split
    · next value hvalue =>
      -- Only a literal is looked up, and it stays one if no symbol has its position.
      obtain rfl := eq_literal_of_root (hop.symm.trans hvalue)
      obtain rfl := List.map_eq_nil_iff.mp hframes
      by_cases hsign : 0 ≤ value
      · simp only [functionName?, hkind, hsign, and_self, if_true]
        cases s.script.symbolAt? value.toInt.toNat with
        | none => exact hplain
        | some sym => exact ⟨.functionName sym, rfl, rfl⟩
      · simp only [functionName?, hsign, and_false, if_false]
        exact hplain
    · next hother =>
      have hname : t.functionName? s.script param = none := by
        cases t with
        | literal value => exact absurd hop (hother value)
        | _ => rfl
      rw [hname]
      exact hplain
  · have hname : t.functionName? s.script param = none := by
      cases t <;> simp [functionName?, hkind]
    rw [if_neg hkind, hname]
    exact hplain

/-- Arguments that are read one by one are read all together. -/
theorem popArgs_text {read : Reader} {ts : List Tree} {params : List Symbol}
    (hread : ∀ t ∈ ts, ReadsText read t.operands t.root (t.text s.script))
    (hlen : params.length = ts.length) {frames : List Frame} (stack : List Frame)
    (hframes : operations frames = codes ts) :
    ∃ es, popArgs (s.readArg read) params (frames.reverse ++ stack) = (es, stack) ∧
      Expr.texts es = argTexts s.script params ts := by
  induction ts generalizing params frames stack with
  | nil =>
    obtain rfl := List.eq_nil_of_length_eq_zero hlen
    obtain rfl := List.map_eq_nil_iff.mp hframes
    exact ⟨[], rfl, rfl⟩
  | cons t ts ih =>
    -- The arguments behind the first one lie above it, so they are taken before it.
    obtain ⟨param, params, rfl⟩ := List.exists_cons_of_length_eq_add_one hlen
    obtain ⟨fs, gs, rfl, hfs, hgs⟩ := exists_append_of_operations hframes
    obtain ⟨es, hes, htexts⟩ := ih (fun t ht => hread t (List.mem_cons_of_mem _ ht))
      (Nat.succ.inj hlen) (fs.reverse ++ stack) hgs
    rw [code_eq] at hfs
    obtain ⟨e, he, htext⟩ :=
      (readArg_text s param (hread t List.mem_cons_self)).pop stack hfs
    refine ⟨e :: es, ?_, ?_⟩
    · simp only [popArgs, List.reverse_append, List.append_assoc, hes, he]
    · rw [Expr.texts, htexts, htext]
      rfl

/-- A call is read with its arguments, one for each parameter. -/
theorem recover_call {active : Option UInt32} {room : Nat} {target : CallTarget} {args : List Tree}
    (hread : ∀ t ∈ args,
      ReadsText (s.recover active room) t.operands t.root (t.text s.script))
    (hfits : (Tree.call target args).Fits s.script) :
    ReadsText (s.recover active (room + 1)) (codes args) target.op
      ((Tree.call target args).text s.script) := by
  intro frame frames stack hop hframes
  obtain ⟨⟨sym, hsym, hlen⟩, -⟩ := hfits
  obtain ⟨es, hes, htexts⟩ := popArgs_text s hread hlen stack hframes
  refine ⟨.call (.known sym) es, ?_, ?_⟩
  · cases target <;> simp only [CallTarget.callee?] at hsym <;>
      simp [Setting.recover, hop, CallTarget.op, Setting.readCall, hsym, hes]
  · simp [text, parameters, CallTarget.name, hsym, htexts, Callee.text]

/-- **Recovering a tree.** With room for its levels, the root of a tree is recovered with the text
of the whole tree. The induction is on the room, as in the definition of `recover`. -/
theorem readsText_recover (active : Option UInt32) {t : Tree} {room : Nat}
    (hfits : t.Fits s.script) (hroom : t.height ≤ room) :
    ReadsText (s.recover active room) t.operands t.root (t.text s.script) := by
  induction room generalizing t with
  | zero => exact absurd hroom (Nat.not_le.mpr t.height_pos)
  | succ room ih =>
    intro frame frames stack hop hframes
    cases t with
    | literal value =>
      obtain rfl := List.map_eq_nil_iff.mp hframes
      exact ⟨.int value, by simp [Setting.recover, hop, root], rfl⟩
    | pushed leaf =>
      obtain ⟨sym, hsym, hfree⟩ := hfits
      obtain rfl := List.map_eq_nil_iff.mp hframes
      exact hfree.recover_leaf s hsym active room hop stack
    | unary op operand =>
      have hread := ih (t := operand) hfits (Nat.le_of_succ_le_succ hroom)
      rw [operands, code_eq] at hframes
      obtain ⟨e, he, htext⟩ := hread.pop stack hframes
      refine ⟨.unary op e, ?_, ?_⟩
      · simp only [Setting.recover, hop, root, he]
      · rw [Expr.text_unary, htext, text, op.text_eq_sign]
    | binary op left right =>
      -- The right operand lies above the left one, so it is taken first.
      have hroom : max left.height right.height ≤ room := Nat.le_of_succ_le_succ hroom
      have hleft := ih hfits.1 (Nat.le_trans (Nat.le_max_left _ _) hroom)
      have hright := ih hfits.2 (Nat.le_trans (Nat.le_max_right _ _) hroom)
      obtain ⟨ls, rs, rfl, hls, hrs⟩ := exists_append_of_operations hframes
      rw [code_eq] at hls hrs
      obtain ⟨r, hr, hrtext⟩ := hright.pop (ls.reverse ++ stack) hrs
      obtain ⟨l, hl, hltext⟩ := hleft.pop stack hls
      refine ⟨.binary op l r, ?_, ?_⟩
      · simp only [Setting.recover, hop, root, List.reverse_append, List.append_assoc, hr, hl]
      · rw [Expr.text_binary, hltext, hrtext, text, op.text_eq_sign]
    | call target args =>
      -- Each argument is no higher than all of them, so it is read in the room that is left.
      have hread : ∀ t ∈ args,
          ReadsText (s.recover active room) t.operands t.root (t.text s.script) := fun t ht =>
        ih (AllFit.fits hfits.2 t ht)
          (Nat.le_trans (height_le_heights ht) (Nat.le_of_succ_le_succ hroom))
      exact recover_call s hread hfits frame frames stack hop hframes

end Tree

/-! ### Statements -/

/-- What a frame is recovered as: the value of a tree, or a statement made of trees. -/
inductive Statement where
  /-- The value of a tree. -/
  | expression (tree : Tree)
  /-- The assignment of a value. -/
  | assign (move : MoveKind) (dest : Leaf) (value : Tree)
  /-- An assignment that combines the old value of its target with an operand. -/
  | update (op : CompoundOp) (target value : Tree)
  /-- The return of a value. -/
  | give (value : Tree)
  deriving Repr

namespace Statement

/-- The code of the operands of a statement. The target of an assignment is pushed last. -/
def operands : Statement → List Operation
  | .expression tree => tree.operands
  | .assign _ dest value => value.code ++ [dest.op]
  | .update _ target value => value.code ++ target.code
  | .give value => value.code

/-- The operation at the root of a statement. -/
def root : Statement → Operation
  | .expression tree => tree.root
  | .assign move _ _ => .move move
  | .update op _ _ => .compound op
  | .give _ => .ret

/-- The number of levels of a statement. -/
def height : Statement → Nat
  | .expression tree => tree.height
  | .assign _ _ value => value.height + 1
  | .update _ target value => max target.height value.height + 1
  | .give value => value.height + 1

/-- The text of a statement. -/
def text (script : Script) : Statement → String
  | .expression tree => tree.text script
  | .assign _ dest value => dest.text script ++ " = " ++ value.text script
  | .update op target value => target.text script ++ " " ++ op.sign ++ " " ++ value.text script
  | .give value => "return " ++ value.text script

/-- A statement is what its place asks for: values are assigned to integers and strings, and
returned by functions that have a result. -/
def Fits (s : Setting) : Statement → Prop
  | .expression tree => tree.Fits s.script
  | .assign _ dest value =>
    (∃ sym, s.script.symbolOf? dest.symbol = some sym ∧ IsFree sym ∧
      (sym.kind = .int ∨ sym.kind = .string)) ∧ value.Fits s.script
  | .update _ target value => target.Fits s.script ∧ value.Fits s.script
  | .give value => s.callable.returnsValue = true ∧ value.Fits s.script

variable {s : Setting}

/-- A value that is stored into an integer or a string is read like any other operand. -/
theorem readValue_eq (read : Reader) {kind : Kind} (h : kind = .int ∨ kind = .string) :
    s.readValue read (some kind) = read := by
  funext frame stack
  rcases h with rfl | rfl <;> rfl

/-- An assignment is read with its target, which lies on top, and its value. -/
theorem recover_assign {active : Option UInt32} {room : Nat} (move : MoveKind) {dest : Leaf}
    {value : Tree} (hfits : (assign move dest value).Fits s) (hroom : value.height ≤ room) :
    ReadsText (s.recover active (room + 1)) (value.code ++ [dest.op]) (.move move)
      ((assign move dest value).text s.script) := by
  obtain ⟨⟨sym, hsym, hfree, hkind⟩, hvalue⟩ := hfits
  intro frame frames stack hop hframes
  obtain ⟨fs, target, rfl, hfs, htarget⟩ := exists_concat_of_operations hframes
  have hreadTarget : ReadsText (s.recover active room) [] dest.op (dest.text s.script) :=
    Tree.readsText_recover s active (t := .pushed dest) ⟨sym, hsym, hfree⟩
      (Nat.le_trans value.height_pos hroom)
  have hreadValue := Tree.readsText_recover s active hvalue hroom
  rw [Tree.code_eq] at hfs
  obtain ⟨d, hd, hdtext⟩ := hreadTarget target [] (fs.reverse ++ stack) htarget rfl
  obtain ⟨v, hv, hvtext⟩ := hreadValue.pop stack hfs
  rw [List.reverse_nil, List.nil_append] at hd
  -- The kind of the target is looked up in the frame that pushed it.
  have hsymbol : target.instr.op.symbol? = some dest.symbol := by
    rw [htarget]
    cases dest <;> rfl
  have htargetKind : s.targetKind target = some sym.kind := by
    simp [Setting.targetKind, hsymbol, hsym]
  refine ⟨.assign d v, ?_, ?_⟩
  · simp only [Setting.recover, hop, List.reverse_append, List.reverse_singleton,
      List.nil_append, List.cons_append, hd, htargetKind, readValue_eq _ hkind, hv]
  · rw [Expr.text_assign, hdtext, hvtext, text]

/-- A compound assignment is read with its target, which lies on top, and its operand. -/
theorem recover_update {active : Option UInt32} {room : Nat} (op : CompoundOp)
    {target value : Tree} (hfits : (update op target value).Fits s)
    (hroom : max target.height value.height ≤ room) :
    ReadsText (s.recover active (room + 1)) (value.code ++ target.code) (.compound op)
      ((update op target value).text s.script) := by
  intro frame frames stack hop hframes
  have hreadTarget := Tree.readsText_recover s active hfits.1
    (Nat.le_trans (Nat.le_max_left _ _) hroom)
  have hreadValue := Tree.readsText_recover s active hfits.2
    (Nat.le_trans (Nat.le_max_right _ _) hroom)
  obtain ⟨vs, ts, rfl, hvs, hts⟩ := exists_append_of_operations hframes
  rw [Tree.code_eq] at hvs hts
  obtain ⟨t, ht, httext⟩ := hreadTarget.pop (vs.reverse ++ stack) hts
  obtain ⟨v, hv, hvtext⟩ := hreadValue.pop stack hvs
  refine ⟨.update op t v, ?_, ?_⟩
  · simp only [Setting.recover, hop, List.reverse_append, List.append_assoc, ht, hv]
  · rw [Expr.text_update, httext, hvtext, text, op.text_eq_sign]

/-- A return is read with its value if the function has a result. -/
theorem recover_give {active : Option UInt32} {room : Nat} {value : Tree}
    (hfits : (give value).Fits s) (hroom : value.height ≤ room) :
    ReadsText (s.recover active (room + 1)) value.code .ret
      ((give value).text s.script) := by
  intro frame frames stack hop hframes
  have hread := Tree.readsText_recover s active hfits.2 hroom
  rw [Tree.code_eq] at hframes
  obtain ⟨v, hv, hvtext⟩ := hread.pop stack hframes
  refine ⟨.retValue v, ?_, ?_⟩
  · simp only [Setting.recover, hop, hfits.1, if_true, hv]
  · rw [Expr.text_retValue, hvtext, text]

/-- **Postfix code is recovered as infix text.** With the operands of a statement on top of any
stack, the root of the statement is recovered with the text of the statement, and the stack below
the operands is left. There has to be room for the levels of the statement; which instances were
active, and where the frames come from, does not matter. -/
theorem recover_text {st : Statement} (hfits : st.Fits s) {room : Nat} (hroom : st.height ≤ room)
    (active : Option UInt32) {frame : Frame} {frames : List Frame}
    (hroot : frame.instr.op = st.root)
    (hoperands : operations frames = st.operands) (stack : List Frame) :
    (s.recover active room frame (frames.reverse ++ stack)).1.text = st.text s.script ∧
      (s.recover active room frame (frames.reverse ++ stack)).2 = stack := by
  have hreads : ReadsText (s.recover active room) st.operands st.root (st.text s.script) := by
    -- The statements differ in how their values are read.
    cases st with
    | expression tree => exact Tree.readsText_recover s active hfits hroom
    | assign move dest value =>
      obtain ⟨room, rfl⟩ := Nat.exists_eq_add_of_le' (Nat.le_trans (Nat.le_add_left 1 _) hroom)
      exact recover_assign move hfits (Nat.le_of_succ_le_succ hroom)
    | update op target value =>
      obtain ⟨room, rfl⟩ := Nat.exists_eq_add_of_le' (Nat.le_trans (Nat.le_add_left 1 _) hroom)
      exact recover_update op hfits (Nat.le_of_succ_le_succ hroom)
    | give value =>
      obtain ⟨room, rfl⟩ := Nat.exists_eq_add_of_le' (Nat.le_trans (Nat.le_add_left 1 _) hroom)
      exact recover_give hfits (Nat.le_of_succ_le_succ hroom)
  obtain ⟨e, he, htext⟩ := hreads frame frames stack hroot hoperands
  rw [he]
  exact ⟨htext, rfl⟩

/-- An integer, an array, a string literal, and a host function with a function among its
parameters. -/
def applySymbols : List Symbol :=
  [{ name := "F", kind := .func, flags := Flags.none.add .const }, { name := "A", kind := .int },
    { name := "TABLE", kind := .int, count := 3 },
    { name := "ÿ1", kind := .string, flags := Flags.none.add .generated, value := .strings ["x"] },
    { name := "APPLY", kind := .func, flags := (Flags.none.add .external).add .returns },
    { name := "APPLY.HANDLER", kind := .func, flags := Flags.none.add .member },
    { name := "APPLY.COUNT", kind := .int, flags := Flags.none.add .member },
    { name := "APPLY.LABEL", kind := .string, flags := Flags.none.add .member }]

/-- The body of a function in a script with these symbols. -/
def applySetting : Setting := ⟨Script.ofParts #[] applySymbols, { name := "F", kind := .func }, 256⟩

/-- The value of a call of the host function, and an element of the array. -/
def applyTree : Tree :=
  .binary .add
    (.call (.host 4) [.literal 0, .unary .negate (.pushed (.element 2 1)), .pushed (.var 3)])
    (.pushed (.var 2))

/-- The assignment of this value. -/
def applyStatement : Statement := .assign .int (.var 1) applyTree

/-- The assignment that adds it. -/
def addingStatement : Statement := .update .add (.pushed (.var 1)) applyTree

/-- The symbols of a script that is made of its parts are looked up in their list. -/
theorem symbolOf?_ofParts (code : Code) (symbols : List Symbol) (symbol : UInt32) :
    (Script.ofParts code symbols).symbolOf? symbol =
      (symbols.mapIdx fun i sym => { sym with index := i })[symbol.toNat]? := by
  simp [Script.ofParts, Table.ofList, Table.symbolOf?, Table.symbolAt?]

/-- The symbols of the script are numbered in their order. -/
theorem symbolOf?_apply (symbol : UInt32) :
    applySetting.script.symbolOf? symbol =
      (applySymbols.mapIdx fun i sym => { sym with index := i })[symbol.toNat]? :=
  symbolOf?_ofParts _ _ _

/-- The call of the script is what its place asks for. -/
theorem applyTree_fits : applyTree.Fits applySetting.script := by
  have hcallee : ∃ sym, (CallTarget.host 4).callee? applySetting.script = some sym ∧
      (applySetting.script.parametersOf sym).length = 3 :=
    ⟨_, symbolOf?_apply 4, by decide +kernel⟩
  have htable : ∃ sym, applySetting.script.symbolOf? 2 = some sym ∧ IsFree sym :=
    ⟨_, symbolOf?_apply 2, rfl, rfl⟩
  have hlabel : ∃ sym, applySetting.script.symbolOf? 3 = some sym ∧ IsFree sym :=
    ⟨_, symbolOf?_apply 3, rfl, rfl⟩
  exact ⟨⟨hcallee, trivial, htable, hlabel, trivial⟩, htable⟩

/-- Both assignments fit: their target is an integer without a scope. -/
theorem statements_fit : applyStatement.Fits applySetting ∧ addingStatement.Fits applySetting :=
  ⟨⟨⟨_, symbolOf?_apply 1, ⟨rfl, rfl⟩, .inl rfl⟩, applyTree_fits⟩,
    ⟨_, symbolOf?_apply 1, rfl, rfl⟩, applyTree_fits⟩

/-- A value and the same value in a compound assignment, with a function as an argument, an element
of an array, a string and a sign. -/
theorem recover_applyStatement :
    (applyStatement.Fits applySetting ∧ applyStatement.height ≤ 5 ∧
      ∀ stack, (applySetting.recover none 5 ⟨⟨26, .move .int⟩, none⟩
        ((framesAt none 0 applyStatement.operands).reverse ++ stack)).1.text =
          "A = (APPLY(F, -(TABLE[1]), \"x\")) + (TABLE[0])") ∧
    addingStatement.Fits applySetting ∧ addingStatement.height ≤ 5 ∧
      ∀ stack, (applySetting.recover none 5 ⟨⟨26, .compound .add⟩, none⟩
        ((framesAt none 0 addingStatement.operands).reverse ++ stack)).1.text =
          "A += (APPLY(F, -(TABLE[1]), \"x\")) + (TABLE[0])" := by
  -- Only the reference texts are evaluated here; that they are recovered follows.
  obtain ⟨happly, hadding⟩ := statements_fit
  refine ⟨⟨happly, by decide, fun stack => ?_⟩, hadding, by decide, fun stack => ?_⟩
  · have htext : applyStatement.text applySetting.script =
        "A = (APPLY(F, -(TABLE[1]), \"x\")) + (TABLE[0])" := by
      decide +kernel
    exact Eq.trans (And.left (recover_text happly (by decide) none rfl
      (operations_framesAt none 0 _) stack)) htext
  · have htext : addingStatement.text applySetting.script =
        "A += (APPLY(F, -(TABLE[1]), \"x\")) + (TABLE[0])" := by
      decide +kernel
    exact Eq.trans (And.left (recover_text hadding (by decide) none rfl
      (operations_framesAt none 0 _) stack)) htext

end Statement

end Daedalus.Postfix
