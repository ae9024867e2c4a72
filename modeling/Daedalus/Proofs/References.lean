import Daedalus.Proofs.Lookups
import Daedalus.Proofs.TakenOnce

/-! # References to variables

The variables that are written in a text are those of the pushes from which it is recovered. A reader
takes frames off the top of a stack, and the references of the expression that it gives are those of
the frames, from the top down: the right operand comes before the left one, the last argument before
the first one, the target of an assignment before its value. Only frames below the depth to which
expressions are recovered are left out. -/

namespace Daedalus

mutual
/-- The references of an expression, in the order in which their values leave the stack. -/
def Expr.references : Expr → List Reference
  | .variable ref _ => [ref]
  | .unary _ operand => operand.references
  | .binary _ left right => right.references ++ left.references
  | .call _ args => Expr.argReferences args
  | .assign target value => target.references ++ value.references
  | .update _ target value => target.references ++ value.references
  | .retValue value => value.references
  | .missing | .tooDeep | .int _ | .float _ | .quoted _ | .functionName _ | .ret | .setInstance _
  | .branch _ _ | .nothing => []
/-- The references of a list of arguments, the last argument first. -/
def Expr.argReferences : List Expr → List Reference
  | [] => []
  | arg :: args => Expr.argReferences args ++ arg.references
end

/-! ### Reading references off a stack -/

/-- What is read off the top of a stack down to a rest gives these references, each of the frames its
own ones if it gives any. -/
def ReadsOff (f : Frame → List Reference) (stack : List Frame) (refs : List Reference)
    (rest : List Frame) : Prop :=
  ∃ taken shown : List Frame, stack = taken ++ rest ∧ shown.Sublist taken ∧ refs = shown.flatMap f

namespace ReadsOff

variable {f : Frame → List Reference} {stack rest rest' : List Frame} {refs refs' : List Reference}

/-- Nothing is read off a stack that is left as it is. -/
theorem nothing : ReadsOff f stack [] stack := ⟨[], [], rfl, .slnil, rfl⟩

/-- What is read off one after the other is read off together. -/
theorem append (h : ReadsOff f stack refs rest) (h' : ReadsOff f rest refs' rest') :
    ReadsOff f stack (refs ++ refs') rest' := by
  obtain ⟨taken, shown, rfl, hshown, rfl⟩ := h
  obtain ⟨taken', shown', rfl, hshown', rfl⟩ := h'
  exact ⟨taken ++ taken', shown ++ shown', (List.append_assoc _ _ _).symm, hshown.append hshown',
    List.flatMap_append.symm⟩

/-- A frame need not give its references. -/
theorem skip (frame : Frame) (h : ReadsOff f stack refs rest) :
    ReadsOff f (frame :: stack) refs rest := by
  obtain ⟨taken, shown, rfl, hshown, rfl⟩ := h
  exact ⟨frame :: taken, shown, rfl, hshown.cons frame, rfl⟩

/-- One frame is read off by taking it. -/
theorem single (frame : Frame) : ReadsOff f (frame :: stack) (f frame) stack :=
  ⟨[frame], [frame], rfl, .refl _, (List.flatMap_singleton f frame).symm⟩

end ReadsOff

/-- The expressions of a reader have the references of the frames that it takes. -/
def Reader.ShowsTaken (read : Reader) (f : Frame → List Reference) : Prop :=
  ∀ frame stack, ReadsOff f (frame :: stack) (read frame stack).1.references (read frame stack).2

variable {f : Frame → List Reference}

/-- The operand that is taken has the references of the frames that are gone. -/
theorem pop_readsOff {read : Reader} (h : read.ShowsTaken f) (stack : List Frame) :
    ReadsOff f stack (pop read stack).1.references (pop read stack).2 := by
  cases stack with
  | nil => exact .nothing
  | cons frame stack => exact h frame stack

/-- The arguments that are taken have the references of the frames that are gone. -/
theorem popArgs_readsOff {read : Symbol → Reader} (h : ∀ param, (read param).ShowsTaken f)
    (params : List Symbol) (stack : List Frame) :
    ReadsOff f stack (Expr.argReferences (popArgs read params stack).1)
      (popArgs read params stack).2 := by
  induction params with
  | nil => exact .nothing
  | cons param params ih => exact ih.append (pop_readsOff (h param) _)

namespace Setting

variable (s : Setting)

/-- The references of a push, when `active` is the active instance. -/
def frameReferences (active : Option UInt32) (frame : Frame) : List Reference :=
  match frame.instr.op with
  | .pushVar symbol | .pushInstance symbol => (s.variableExpr active frame.active symbol).references
  | .pushElement symbol element => (s.elementExpr active frame.active symbol element).references
  | _ => []

/-- Writing a function by its name leaves references out and adds none. -/
theorem readFunction_showsTaken {read : Reader} (h : read.ShowsTaken f) :
    (s.readFunction read).ShowsTaken f := by
  intro frame stack
  unfold readFunction
  split
  · split
    · exact .skip frame .nothing
    · exact h frame stack
  · exact h frame stack

/-- Reading an argument adds no references. -/
theorem readArg_showsTaken {read : Reader} (h : read.ShowsTaken f) (param : Symbol) :
    (s.readArg read param).ShowsTaken f := by
  unfold readArg
  split
  · exact s.readFunction_showsTaken h
  · exact h

/-- Reading an assigned value adds no references. -/
theorem readValue_showsTaken {read : Reader} (h : read.ShowsTaken f) (kind : Option Kind) :
    (s.readValue read kind).ShowsTaken f := by
  intro frame stack
  unfold readValue
  split
  · exact .skip frame .nothing
  · exact s.readFunction_showsTaken h frame stack
  · exact h frame stack

/-- The references of a call are those of its arguments. -/
theorem readCall_readsOff {read : Reader} (h : read.ShowsTaken f) (callee : Option Symbol)
    (unknown : Callee) (stack : List Frame) :
    ReadsOff f stack (s.readCall read callee unknown stack).1.references
      (s.readCall read callee unknown stack).2 := by
  cases callee with
  | none => exact .nothing
  | some sym => exact popArgs_readsOff (s.readArg_showsTaken h) _ stack

/-- A push is read off with its own references. -/
theorem push_readsOff {active : Option UInt32} {frame : Frame} {stack : List Frame} {e : Expr}
    (h : s.frameReferences active frame = e.references) :
    ReadsOff (s.frameReferences active) (frame :: stack) e.references stack := by
  rw [← h]
  exact .single frame

/-- **The references of an expression are those of the frames from which it is recovered.** -/
theorem recover_showsTaken (active : Option UInt32) (room : Nat) :
    (s.recover active room).ShowsTaken (s.frameReferences active) := by
  induction room with
  | zero =>
    -- A frame that is too deep is taken, but its references are not written.
    exact fun frame _ => .skip frame .nothing
  | succ room ih =>
    intro frame stack
    unfold recover
    -- An operator has no references of its own, and its operands are read one behind the other.
    split
    · exact .skip frame ((pop_readsOff ih stack).append (pop_readsOff ih _))
    · exact .skip frame (pop_readsOff ih stack)
    · exact .skip frame ((pop_readsOff ih stack).append (pop_readsOff ih _))
    · split
      · exact .skip frame .nothing
      · next dest rest =>
        exact .skip frame
          ((ih dest rest).append (pop_readsOff (s.readValue_showsTaken ih _) _))
    · split
      · exact .skip frame (pop_readsOff ih stack)
      · exact .skip frame .nothing
    · exact .skip frame (s.readCall_readsOff ih _ _ stack)
    · exact .skip frame (s.readCall_readsOff ih _ _ stack)
    · exact .skip frame .nothing
    -- Only pushes give references.
    · next symbol hop => exact s.push_readsOff (by rw [frameReferences, hop])
    · next symbol hop => exact s.push_readsOff (by rw [frameReferences, hop])
    · next symbol element hop => exact s.push_readsOff (by rw [frameReferences, hop])
    all_goals exact .skip frame .nothing

/-- What is left on a stack is read off down to its end. -/
theorem unwind_readsOff (active : Option UInt32) (stack : List Frame) :
    ReadsOff (s.frameReferences active) stack
      ((s.unwind active stack).flatMap Expr.references) [] := by
  fun_induction Setting.unwind s active stack with
  | case1 => exact .nothing
  | case2 frame stack read ih => exact (s.recover_showsTaken active s.limit frame stack).append ih

/-- A statement and the results that it leaves unused are read off all of its frames. -/
theorem statement_readsOff (c : Cut) :
    ReadsOff (s.frameReferences c.active) (c.last :: c.stack)
      (((s.statement c).1 :: (s.statement c).2).flatMap Expr.references) [] :=
  (s.recover_showsTaken c.active s.limit c.last c.stack).append (s.unwind_readsOff c.active _)

/-- **What is recovered behind a cut is recovered from the frames that it shows**: the references are
those of some of these frames, one behind the other. -/
theorem exists_references_recoveredBehind (c : Cut) :
    ∃ frames : List Frame, frames.Sublist (s.shownBehind c) ∧
      (s.recoveredBehind c).flatMap Expr.references = frames.flatMap (s.frameReferences c.active) := by
  cases hflow : c.flow with
  | jump target =>
    simp only [recoveredBehind, shownBehind, hflow]
    exact ⟨[], .slnil, rfl⟩
  | branch target =>
    obtain ⟨taken, shown, htaken, hshown, hrefs⟩ :=
      pop_readsOff (s.recover_showsTaken c.active s.limit) c.stack
    -- The condition takes the frames above what it leaves on the stack.
    have hfront : c.stack.take (c.stack.length - (s.popExpr c.active c.stack).2.length) = taken :=
      List.append_cancel_right ((take_append_popExpr c.active c.stack).trans htaken)
    simp only [recoveredBehind, shownBehind, hflow, List.flatMap_singleton, hfront]
    exact ⟨shown, hshown.cons c.last, hrefs⟩
  | ret | next =>
    obtain ⟨taken, shown, htaken, hshown, hrefs⟩ := s.statement_readsOff c
    rw [List.append_nil] at htaken
    simp only [recoveredBehind, shownBehind, hflow]
    exact ⟨shown, htaken ▸ hshown, hrefs⟩

/-! ### What a push refers to -/

variable {s} {active : Option UInt32} {frame : Frame} {ref : Reference}

/-- A reference to a symbol of the script, or to a number that has none. -/
theorem resolved_of_mem_variableExpr {pushedIn : Option UInt32} {symbol : UInt32}
    (h : ref ∈ (s.variableExpr active pushedIn symbol).references) :
    (∃ symbol, ref = .unknown symbol) ∨
      ∃ sym ∈ s.script.symbols.toList, ref = s.reference active pushedIn sym := by
  rw [variableExpr] at h
  split at h
  · exact .inl ⟨symbol, List.mem_singleton.mp h⟩
  · next sym hsym =>
    split at h
    · cases h
    · exact .inr ⟨sym, Table.mem_of_symbolAt? hsym, List.mem_singleton.mp h⟩

/-- A push refers to a symbol of the table, or to none. -/
theorem resolved_of_mem_frameReferences (h : ref ∈ s.frameReferences active frame) :
    (∃ symbol, ref = .unknown symbol) ∨
      ∃ sym ∈ s.script.symbols.toList, ref = s.reference active frame.active sym := by
  rw [frameReferences] at h
  split at h
  · exact resolved_of_mem_variableExpr h
  · exact resolved_of_mem_variableExpr h
  · next symbol element _ =>
    rw [elementExpr] at h
    split at h
    · exact .inl ⟨symbol, List.mem_singleton.mp h⟩
    · next sym hsym => exact .inr ⟨sym, Table.mem_of_symbolAt? hsym, List.mem_singleton.mp h⟩
  · cases h

end Setting

end Daedalus
