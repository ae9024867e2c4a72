import Daedalus.Proofs.Nesting.Gathered
import Daedalus.Proofs.Nesting.Inline
import Daedalus.Proofs.Lookups

/-! # Recovered expressions within a line

What is recovered from the stack mentions symbols of the table only. Where no name and no string of
the table has a line end, no text of what is recovered has one, whatever the code is. Where the names
are made of words, and only operands are on the stack, the texts also start with a character that is
neither a blank nor a closing brace: an assignment starts with its target, and a target is an operand.
-/

namespace Daedalus

open Text

/-- The text of an expression has no line end, and its locals are symbols of a table. -/
structure Expr.Within (table : Table) (e : Expr) : Prop where
  text : '\n' ∉ e.text.toList
  locals : ∀ sym ∈ e.locals, sym ∈ table.symbols.toList

variable {table : Table}

/-! ### Expressions by their roots -/

namespace Expr

/-- An expression without locals is within a line if its text has no line end. -/
theorem Within.of_text {e : Expr} (htext : '\n' ∉ e.text.toList) (hlocals : e.locals = []) :
    e.Within table := ⟨htext, by simp [hlocals]⟩

/-- A local in a list of arguments is a local of one of them. -/
theorem mem_argLocals {args : List Expr} {sym : Symbol} (h : sym ∈ argLocals args) :
    ∃ arg ∈ args, sym ∈ arg.locals := by
  induction args with
  | nil => cases h
  | cons arg args ih =>
    rcases List.mem_append.mp h with h | h
    · obtain ⟨other, hother, hsym⟩ := ih h
      exact ⟨other, List.mem_cons_of_mem arg hother, hsym⟩
    · exact ⟨arg, List.mem_cons_self, h⟩

/-- An address in the place of a callee has no line end. -/
theorem noBreak_address (target : UInt32) : '\n' ∉ (Callee.address target).text.toList :=
  noBreak_append (by decide) (noBreak_hex _)

/-- A number in the place of a callee has no line end. -/
theorem noBreak_unknown (symbol : UInt32) : '\n' ∉ (Callee.unknown symbol).text.toList :=
  noBreak_append (by decide) (noBreak_nat _)

/-- A literal without line ends has none with its quotes. -/
theorem noBreak_quoted {text : String} (h : '\n' ∉ text.toList) :
    '\n' ∉ (Expr.quoted text).text.toList :=
  noBreak_append (noBreak_append (by decide) h) (by decide)

/-- The text for a missing operand. -/
theorem Within.missing : Within table .missing := .of_text (by decide) rfl

/-- The text for an operand that is cut off. -/
theorem Within.tooDeep : Within table .tooDeep := .of_text (by decide) rfl

/-- The text of a return. -/
theorem Within.ret : Within table .ret := .of_text (by decide) rfl

/-- The text of an instruction that does nothing. -/
theorem Within.nothing : Within table .nothing := .of_text (by decide) rfl

/-- A change of the active instance is within a line. -/
theorem Within.setInstance (symbol : UInt32) : Within table (.setInstance symbol) :=
  .of_text (noBreak_append (noBreak_append (by decide) (noBreak_nat _))
    (by decide)) rfl

/-- A branch is within a line if its mnemonic is. -/
theorem Within.branch {op : Opcode} (hop : '\n' ∉ op.mnemonic.toList) (target : UInt32) :
    Within table (.branch op target) := by
  have hopened : '\n' ∉ ("/* " ++ op.mnemonic ++ " ").toList :=
    noBreak_append (noBreak_append (by decide) hop) (by decide)
  exact .of_text (noBreak_append (noBreak_append hopened (noBreak_hexWord _)) (by decide)) rfl

/-- An operation keeps to one line if its operand does. -/
theorem Within.unary (op : UnaryOp) {operand : Expr} (h : operand.Within table) :
    Within table (.unary op operand) where
  text := by
    have hop : '\n' ∉ (op.text ++ "(").toList := by cases op <;> decide
    exact noBreak_append (noBreak_append hop h.text) (by decide)
  locals := h.locals

/-- An operation keeps to one line if both of its operands do. -/
theorem Within.binary (op : BinaryOp) {left right : Expr} (hleft : left.Within table)
    (hright : right.Within table) : Within table (.binary op left right) where
  text := by
    have hop : '\n' ∉ op.text.toList := by cases op <;> decide
    have hfirst : '\n' ∉ ("(" ++ left.text ++ ") ").toList :=
      noBreak_append (noBreak_append (by decide) hleft.text) (by decide)
    have hsecond : '\n' ∉ ("(" ++ left.text ++ ") " ++ op.text ++ " (").toList :=
      noBreak_append (noBreak_append hfirst hop) (by decide)
    exact noBreak_append (noBreak_append hsecond hright.text) (by decide)
  locals sym hsym := (List.mem_append.mp hsym).elim (hright.locals sym) (hleft.locals sym)

/-- An assignment keeps to one line if its target and its value do. -/
theorem Within.assign {target value : Expr} (htarget : target.Within table)
    (hvalue : value.Within table) : Within table (.assign target value) where
  text := noBreak_append (noBreak_append htarget.text (by decide)) hvalue.text
  locals sym hsym := (List.mem_append.mp hsym).elim (htarget.locals sym) (hvalue.locals sym)

/-- A compound assignment keeps to one line if its target and its value do. -/
theorem Within.update (op : CompoundOp) {target value : Expr} (htarget : target.Within table)
    (hvalue : value.Within table) : Within table (.update op target value) where
  text := by
    have hop : '\n' ∉ op.text.toList := by cases op <;> decide
    have hleft : '\n' ∉ (target.text ++ " " ++ op.text).toList :=
      noBreak_append (noBreak_append htarget.text (by decide)) hop
    exact noBreak_append (noBreak_append hleft (by decide)) hvalue.text
  locals sym hsym := (List.mem_append.mp hsym).elim (htarget.locals sym) (hvalue.locals sym)

/-- A return keeps to one line if its result does. -/
theorem Within.retValue {value : Expr} (h : value.Within table) :
    Within table (.retValue value) where
  text := noBreak_append (by decide) h.text
  locals := h.locals

/-- A call is within a line if its callee and its arguments are. -/
theorem Within.call {callee : Callee} {args : List Expr} (hcallee : '\n' ∉ callee.text.toList)
    (hargs : ∀ arg ∈ args, arg.Within table) : Within table (.call callee args) where
  text := by
    have htexts : ∀ text ∈ texts args, '\n' ∉ text.toList := by
      intro text htext
      rw [texts_eq_map] at htext
      obtain ⟨arg, harg, rfl⟩ := List.mem_map.mp htext
      exact (hargs arg harg).text
    have hlisted : '\n' ∉ (", ".intercalate (texts args)).toList :=
      noBreak_intercalate (by decide) htexts
    have hopened : '\n' ∉ (callee.text ++ "(").toList := noBreak_append hcallee (by decide)
    exact noBreak_append (noBreak_append hopened hlisted) (by decide)
  locals sym hsym := by
    obtain ⟨arg, harg, hsym⟩ := mem_argLocals hsym
    exact (hargs arg harg).locals sym hsym

/-- A reference is within a line if its name is, and so is an element of it. -/
theorem Within.variable {ref : Reference} (element : Option Nat) (htext : '\n' ∉ ref.text.toList)
    (hlocals : ∀ sym, ref = .ownLocal sym → sym ∈ table.symbols.toList) :
    Within table (.variable ref element) where
  text := by
    cases element with
    | none => exact htext
    | some i =>
      have hopened : '\n' ∉ (ref.text ++ "[").toList := noBreak_append htext (by decide)
      exact noBreak_append (noBreak_append hopened (noBreak_nat i)) (by decide)
  locals sym hsym := by
    cases ref with
    | ownLocal own => exact List.mem_singleton.mp hsym ▸ hlocals own rfl
    | unknown | plain | field => cases hsym

end Expr

/-! ### Expressions that are read from the stack -/

/-- A reader gives expressions within a line. -/
def Reader.GivesWithin (table : Table) (read : Reader) : Prop :=
  ∀ frame stack, (read frame stack).1.Within table

/-- What is popped is within a line, also if nothing is left to pop. -/
theorem pop_within {read : Reader} (h : read.GivesWithin table) (stack : List Frame) :
    (pop read stack).1.Within table := by
  cases stack with
  | nil => exact .missing
  | cons frame stack => exact h frame stack

/-- Each argument that is popped is within a line. -/
theorem popArgs_within {read : Symbol → Reader} (h : ∀ param, (read param).GivesWithin table)
    (params : List Symbol) (stack : List Frame) :
    ∀ arg ∈ (popArgs read params stack).1, arg.Within table := by
  induction params with
  | nil => simp [popArgs]
  | cons param params ih =>
    intro arg harg
    rcases List.mem_cons.mp harg with rfl | harg
    · exact pop_within (h param) _
    · exact ih arg harg

namespace Setting

variable {s : Setting}

/-- The name of an instance in a body is its name or its local name. -/
theorem ownerName_eq (owner : Symbol) :
    s.ownerName owner = owner.localName ∨ s.ownerName owner = owner.name := by
  rw [ownerName, Symbol.localName]
  cases splitAtDot owner.name with
  | none => exact .inr rfl
  | some parts =>
    by_cases hown : s.isOwnScope parts.1 = true
    · exact .inl (if_pos hown)
    · exact .inr (if_neg hown)

/-- A variable without a symbol is within a line. -/
theorem unknown_within (symbol : UInt32) (element : Option Nat) :
    Expr.Within s.script.toTable (.variable (.unknown symbol) element) :=
  .variable element (Expr.noBreak_unknown symbol) (fun _ h => by cases h)

/-- What is written for the owner of a field has a property that the names of the table and the mark
for a missing owner have. -/
theorem owner_induction {Q : String → Prop} (hnone : Q "???")
    (hname : ∀ sym ∈ s.script.symbols.toList, Q sym.name ∧ Q sym.localName)
    (pushedIn : Option UInt32) :
    Q (((pushedIn.bind s.script.symbolOf?).map s.ownerName).getD "???") := by
  cases howner : pushedIn.bind s.script.symbolOf? with
  | none => exact hnone
  | some owner =>
    obtain ⟨word, -, hword⟩ := Option.bind_eq_some_iff.mp howner
    obtain ⟨hname, hlocal⟩ := hname owner (Table.mem_of_symbolAt? hword)
    rw [Option.map_some, Option.getD_some]
    rcases ownerName_eq (s := s) owner with h | h
    · exact h ▸ hlocal
    · exact h ▸ hname

section Unbroken

variable (hunbroken : s.script.Unbroken)
include hunbroken

/-- The name by which a variable is written has no line end. -/
theorem noBreak_reference {sym : Symbol} (hsym : sym ∈ s.script.symbols.toList)
    (active pushedIn : Option UInt32) : '\n' ∉ (s.reference active pushedIn sym).text.toList := by
  have hlocal := hunbroken.noBreak_localName hsym
  rw [reference]
  split
  · have howner := owner_induction (s := s) (Q := fun text => '\n' ∉ text.toList) (by decide)
      (fun sym hsym => ⟨hunbroken.names sym hsym, hunbroken.noBreak_localName hsym⟩) pushedIn
    exact noBreak_append (noBreak_append howner (by decide)) hlocal
  · split
    · exact hlocal
    · exact hlocal

/-- A variable is within a line, and so is an element of it. -/
theorem variable_within {sym : Symbol} (hsym : sym ∈ s.script.symbols.toList)
    (active pushedIn : Option UInt32) (element : Option Nat) :
    Expr.Within s.script.toTable (.variable (s.reference active pushedIn sym) element) := by
  refine .variable element (noBreak_reference hunbroken hsym active pushedIn) fun own hown => ?_
  -- The only local that a reference is made to is the symbol itself.
  rw [reference] at hown
  split at hown
  · cases hown
  · split at hown
    · exact Reference.ownLocal.inj hown ▸ hsym
    · cases hown

/-- The expression of a pushed variable is within a line. -/
theorem variableExpr_within (active pushedIn : Option UInt32) (symbol : UInt32) :
    (s.variableExpr active pushedIn symbol).Within s.script.toTable := by
  rw [variableExpr]
  split
  · exact unknown_within symbol none
  · next sym hsymbol =>
    have hsym := Table.mem_of_symbolAt? hsymbol
    split
    · -- The literal is a string of the table, or empty.
      refine .of_text (Expr.noBreak_quoted ?_) rfl
      cases hstring : sym.string? 0 with
      | none => exact List.not_mem_nil
      | some text => exact hunbroken.noBreak_string hsym hstring
    · exact variable_within hunbroken hsym active pushedIn _

/-- The expression of a pushed array element is within a line. -/
theorem elementExpr_within (active pushedIn : Option UInt32) (symbol : UInt32)
    (element : UInt8) :
    (s.elementExpr active pushedIn symbol element).Within s.script.toTable := by
  rw [elementExpr]
  split
  · exact unknown_within symbol _
  · next sym hsymbol =>
    exact variable_within hunbroken (Table.mem_of_symbolAt? hsymbol) active pushedIn _

/-- A function used as a value is within a line. -/
theorem readFunction_within {read : Reader} (h : read.GivesWithin s.script.toTable) :
    (s.readFunction read).GivesWithin s.script.toTable := by
  intro frame stack
  unfold readFunction
  split
  · split
    · next sym hsymbol =>
      split at hsymbol
      · have hsym := Table.mem_of_symbolAt? hsymbol
        exact .of_text (hunbroken.names sym hsym) rfl
      · cases hsymbol
    · exact h frame stack
  · exact h frame stack

/-- An argument is within a line. -/
theorem readArg_within {read : Reader} (h : read.GivesWithin s.script.toTable)
    (param : Symbol) : (s.readArg read param).GivesWithin s.script.toTable := by
  unfold readArg
  split
  · exact readFunction_within hunbroken h
  · exact h

/-- A value that is stored is within a line. -/
theorem readValue_within {read : Reader} (h : read.GivesWithin s.script.toTable)
    (kind : Option Kind) : (s.readValue read kind).GivesWithin s.script.toTable := by
  intro frame stack
  unfold readValue
  split
  · exact .of_text (Binary32.noBreak_text _) rfl
  · exact readFunction_within hunbroken h frame stack
  · exact h frame stack

/-- A call is within a line: its callee is a symbol of the table or written by a number. -/
theorem readCall_within {read : Reader} (h : read.GivesWithin s.script.toTable)
    {callee : Option Symbol} {unknown : Callee}
    (hcallee : ∀ sym, callee = some sym → sym ∈ s.script.symbols.toList)
    (hunknown : '\n' ∉ unknown.text.toList) (stack : List Frame) :
    (s.readCall read callee unknown stack).1.Within s.script.toTable := by
  cases callee with
  | none => exact .call hunknown (by simp)
  | some sym =>
    exact .call (hunbroken.names sym (hcallee sym rfl))
      (popArgs_within (readArg_within hunbroken h) _ stack)

/-- **Recovered expressions are within a line**, whatever is on the stack. -/
theorem recover_within (active : Option UInt32) (room : Nat) :
    (s.recover active room).GivesWithin s.script.toTable := by
  induction room with
  | zero => exact fun _ _ => .tooDeep
  | succ room ih =>
    -- One level of an expression, with the levels below it by induction; the cases are the
    -- operations.
    intro frame stack
    unfold recover
    split
    · exact .binary _ (pop_within ih _) (pop_within ih stack)
    · exact .unary _ (pop_within ih stack)
    · exact .update _ (pop_within ih stack) (pop_within ih _)
    · split
      · exact .assign .missing .missing
      · exact .assign (ih _ _) (pop_within (readValue_within hunbroken ih _) _)
    · split
      · exact .retValue (pop_within ih stack)
      · exact .ret
    · refine readCall_within hunbroken ih (fun sym hsym => ?_) (Expr.noBreak_address _) stack
      exact Table.mem_of_callableAt? hsym
    · refine readCall_within hunbroken ih (fun sym hsym => ?_) (Expr.noBreak_unknown _) stack
      exact Table.mem_of_symbolAt? hsym
    · exact .of_text (noBreak_int _) rfl
    · exact variableExpr_within hunbroken active _ _
    · exact variableExpr_within hunbroken active _ _
    · exact elementExpr_within hunbroken active _ _ _
    · exact .setInstance _
    · exact .branch (by decide) _
    · exact .branch (by decide) _
    · exact .nothing

/-- Conditions and statements are within a line, and so are the results that statements leave unused.
-/
theorem recovers_within : s.Recovers (Expr.Within s.script.toTable) :=
  .of_recover .missing fun active frame stack _ => recover_within hunbroken active s.limit frame stack

end Unbroken

/-! ### How texts start -/

/-- A statement may start with the mark of a position without a symbol. -/
theorem isOpened_unknown (symbol : UInt32) : isOpened (Reference.unknown symbol).text = true := by
  have hmark : isOpened "???_" = true := by decide
  exact isOpened_append hmark (toString symbol.toNat)

/-- A statement may start with the mark of an address at which no function starts. -/
theorem isOpened_address (target : UInt32) : isOpened (Callee.address target).text = true := by
  have hmark : isOpened "???" = true := by decide
  exact isOpened_append hmark (hex target.toNat)

/-- A statement may start with the mark of a host function without a symbol. -/
theorem isOpened_unknownCallee (symbol : UInt32) :
    isOpened (Callee.unknown symbol).text = true := by
  have hmark : isOpened "???_" = true := by decide
  exact isOpened_append hmark (toString symbol.toNat)

/-- A statement may start with the mark of an operand that is missing. -/
theorem isOpened_missing : isOpened Expr.missing.text = true := by decide

/-- A statement may start with the mark of an operand that is too deep. -/
theorem isOpened_tooDeep : isOpened Expr.tooDeep.text = true := by decide

/-- A statement may start with an element of what it may start with. -/
theorem isOpened_variable {ref : Reference} (h : isOpened ref.text = true) (element : Option Nat) :
    isOpened (Expr.variable ref element).text = true := by
  cases element with
  | none => exact h
  | some i => exact isOpened_append (isOpened_append (isOpened_append h "[") (toString i)) "]"

section Named

variable (hnamed : s.script.Named)
include hnamed

/-- A statement may start with the name by which a variable is written. -/
theorem isOpened_reference {sym : Symbol} (hsym : sym ∈ s.script.symbols.toList)
    (active pushedIn : Option UInt32) : isOpened (s.reference active pushedIn sym).text = true := by
  have hlocal : isOpened sym.localName = true := (hnamed.names sym hsym).localName.isOpened
  rw [reference]
  split
  · have howner := owner_induction (s := s) (Q := fun text => isOpened text = true) (by decide)
      (fun sym hsym => ⟨(hnamed.names sym hsym).isOpened, (hnamed.names sym hsym).localName.isOpened⟩)
      pushedIn
    exact isOpened_append (isOpened_append howner ".") sym.localName
  · split
    · exact hlocal
    · exact hlocal

/-- A statement may start with a pushed variable. -/
theorem isOpened_variableExpr (active pushedIn : Option UInt32) (symbol : UInt32) :
    isOpened (s.variableExpr active pushedIn symbol).text = true := by
  rw [variableExpr]
  split
  · exact isOpened_variable (isOpened_unknown symbol) none
  · next sym hsymbol =>
    have hsym := Table.mem_of_symbolAt? hsymbol
    split
    · have hquote : isOpened "\"" = true := by decide
      exact isOpened_append (isOpened_append hquote _) "\""
    · exact isOpened_variable (isOpened_reference hnamed hsym active pushedIn) _

/-- A statement may start with a pushed array element. -/
theorem isOpened_elementExpr (active pushedIn : Option UInt32) (symbol : UInt32)
    (element : UInt8) : isOpened (s.elementExpr active pushedIn symbol element).text = true := by
  rw [elementExpr]
  split
  · exact isOpened_variable (isOpened_unknown symbol) _
  · next sym hsymbol =>
    have hsym := Table.mem_of_symbolAt? hsymbol
    exact isOpened_variable (isOpened_reference hnamed hsym active pushedIn) _

/-- A statement may start with a call: its callee is named or marked as unknown. -/
theorem isOpened_readCall {read : Reader} {callee : Option Symbol} {unknown : Callee}
    (hcallee : ∀ sym, callee = some sym → sym ∈ s.script.symbols.toList)
    (hunknown : isOpened unknown.text = true) (stack : List Frame) :
    isOpened (s.readCall read callee unknown stack).1.text = true := by
  cases callee with
  | none => exact isOpened_append (isOpened_append (isOpened_append hunknown "(") _) ")"
  | some sym =>
    have hname : isOpened sym.name = true := (hnamed.names sym (hcallee sym rfl)).isOpened
    exact isOpened_append (isOpened_append (isOpened_append hname "(") _) ")"

/-- **A statement may start with whatever is recovered from operands**: with a name, a number, a
quote, an opening parenthesis, an operator in front of its operand or the mark of what is missing.
Only an instruction that does nothing has no text. -/
theorem recover_isOpened (active : Option UInt32) (room : Nat) {frame : Frame} {stack : List Frame}
    (hstack : Operands stack) (hframe : frame.instr.op ≠ .nop) :
    isOpened (s.recover active room frame stack).1.text = true := by
  induction room generalizing frame stack with
  | zero => exact isOpened_tooDeep
  | succ room ih =>
    -- The target of an assignment comes off the stack first, and it is an operand.
    have htarget {stack : List Frame} (hstack : Operands stack) :
        isOpened (pop (s.recover active room) stack).1.text = true := by
      cases stack with
      | nil => exact isOpened_missing
      | cons dest rest =>
        obtain ⟨hdest, hrest⟩ := List.forall_mem_cons.mp hstack
        refine ih hrest fun hnop => ?_
        rw [hnop] at hdest
        cases hdest
    unfold recover
    split
    · have hparenthesis : isOpened "(" = true := by decide
      simp only [Expr.text_binary, String.append_assoc]
      exact isOpened_append hparenthesis _
    · next op _ =>
      have hop : isOpened op.text = true := by cases op <;> decide
      exact isOpened_append (isOpened_append (isOpened_append hop "(") _) ")"
    · simp only [Expr.text_update, String.append_assoc]
      exact isOpened_append (htarget hstack) _
    · split
      · exact isOpened_append (isOpened_append isOpened_missing " = ") _
      · simp only [Expr.text_assign, String.append_assoc]
        exact isOpened_append (htarget hstack) _
    · split
      · have hword : isOpened "return " = true := by decide
        exact isOpened_append hword _
      · have hword : isOpened Expr.ret.text = true := by decide
        exact hword
    · refine isOpened_readCall hnamed (fun sym hsym => ?_) (isOpened_address _) stack
      exact Table.mem_of_callableAt? hsym
    · refine isOpened_readCall hnamed (fun sym hsym => ?_) (isOpened_unknownCallee _) stack
      exact Table.mem_of_symbolAt? hsym
    · exact isOpened_int _
    · exact isOpened_variableExpr hnamed active _ _
    · exact isOpened_variableExpr hnamed active _ _
    · exact isOpened_elementExpr hnamed active _ _ _
    · have hcomment : isOpened "/* set_instance(" = true := by decide
      exact isOpened_append (isOpened_append hcomment _) _
    · have hcomment : isOpened "/* " = true := by decide
      exact isOpened_append (isOpened_append (isOpened_append (isOpened_append hcomment _) _) _) _
    · have hcomment : isOpened "/* " = true := by decide
      exact isOpened_append (isOpened_append (isOpened_append (isOpened_append hcomment _) _) _) _
    · next hop => exact absurd hop hframe

/-- What is recovered from a stack of operands is inline. -/
theorem isInline_recover (active : Option UInt32) {frame : Frame} {stack : List Frame}
    (hstack : Operands stack) :
    isInline (s.recover active s.limit frame stack).1.text = true := by
  refine isInline_of_opened (recover_within hnamed.unbroken active s.limit frame stack).text ?_
  by_cases hframe : frame.instr.op = .nop
  · cases hlimit : s.limit with
    | zero => exact .inr isOpened_tooDeep
    | succ room =>
      simp only [recover, hframe]
      exact .inl rfl
  · exact .inr (recover_isOpened hnamed active s.limit hstack hframe)

/-- **Conditions and statements are inline**, and so are the results that statements leave unused. -/
theorem recovers_inline : s.Recovers fun e => isInline e.text = true := by
  have hmissing : isInline Expr.missing.text = true := by decide
  exact .of_recover hmissing fun active frame stack => isInline_recover hnamed active

end Named

end Setting

end Daedalus
