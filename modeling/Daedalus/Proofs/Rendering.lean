import Daedalus.Proofs.Locals

/-! # Rendering touches only its own operands

A reader is given the active instance and the levels that are left, and it gives an expression with
its locals back. Rendered in place, the same expression comes off a desk: a stack that all frames of
a statement share, the active instance, two counters of depth, and the locals that have been recorded
so far. `Setting.render` works on the desk, one operand after the other, and `Setting.emit` renders a
statement together with the results that it leaves unused.

The main result is `Setting.touchesOperands`: what is rendered is what the reader reads, and it
leaves the desk as it was, apart from its operands and from locals that are recorded. Unless an
operand is missing, nothing depends on what lies below the operands. -/

namespace Daedalus

/-! ### Missing operands -/

mutual
/-- The number of operands of an expression that the stack did not hold. -/
def Expr.holes : Expr → Nat
  | .missing => 1
  | .unary _ operand => operand.holes
  | .binary _ left right => right.holes + left.holes
  | .call _ args => Expr.argHoles args
  | .assign target value => target.holes + value.holes
  | .update _ target value => target.holes + value.holes
  | .retValue value => value.holes
  | .tooDeep | .int _ | .float _ | .quoted _ | .functionName _ | .variable _ _ | .ret
  | .setInstance _ | .branch _ _ | .nothing => 0
/-- The number of operands of a list of arguments that the stack did not hold. -/
def Expr.argHoles : List Expr → Nat
  | [] => 0
  | arg :: args => Expr.argHoles args + arg.holes
end

/-- Nothing is recorded for an expression, and nothing is missing in it. -/
structure Expr.IsLiteral (e : Expr) : Prop where
  locals : e.locals = []
  holes : e.holes = 0

/-! ### Operands that are written without being rendered -/

/-- Takes an operand from a state: by its shortcut if the frame has one, and by rendering it
otherwise. -/
def shortcutOr {σ : Type} (shortcut : Frame → Option Expr) (read : Frame → σ → Expr × σ) :
    Frame → σ → Expr × σ := fun frame state =>
  match shortcut frame with
  | some e => (e, state)
  | none => read frame state

namespace Setting

variable (s : Setting)

/-- The function that a pushed integer numbers. -/
def functionName? (frame : Frame) : Option Expr :=
  match frame.instr.op with
  | .pushInt value =>
    (if 0 ≤ value then s.script.symbolAt? value.toInt.toNat else none).map Expr.functionName
  | _ => none

/-- The shortcut for an argument: a function is written by its name. -/
def argument? (param : Symbol) (frame : Frame) : Option Expr :=
  if param.kind = .func then s.functionName? frame else none

/-- The shortcut for a value that is stored into a target of a kind: an integer is written as the
number with its bits, or as the function that it numbers. -/
def stored? (kind : Option Kind) (frame : Frame) : Option Expr :=
  match kind, frame.instr.op with
  | some .float, .pushInt value => some (.float ⟨value.toUInt32⟩)
  | some .func, _ => s.functionName? frame
  | _, _ => none

/-- Reading an operand as a function is its shortcut, and the reader otherwise. -/
theorem readFunction_eq (read : Reader) :
    s.readFunction read = shortcutOr s.functionName? read := by
  funext frame stack
  unfold readFunction shortcutOr functionName?
  cases frame.instr.op with
  | pushInt value =>
    dsimp only
    cases (if 0 ≤ value then s.script.symbolAt? value.toInt.toNat else none) with
    | none => rfl
    | some sym => rfl
  | _ => rfl

/-- Reading an argument is its shortcut, and the reader otherwise. -/
theorem readArg_eq (read : Reader) (param : Symbol) :
    s.readArg read param = shortcutOr (s.argument? param) read := by
  unfold readArg
  split
  · next hfunc =>
    rw [readFunction_eq]
    congr 1
    funext frame
    exact (if_pos hfunc).symm
  · next hfunc =>
    funext frame stack
    have hnone : s.argument? param frame = none := if_neg hfunc
    rw [shortcutOr, hnone]

/-- Reading an assigned value is its shortcut, and the reader otherwise. -/
theorem readValue_eq_shortcutOr (read : Reader) (kind : Option Kind) :
    s.readValue read kind = shortcutOr (s.stored? kind) read := by
  funext frame stack
  cases kind with
  | none => rfl
  | some kind =>
    cases kind with
    | func => exact congrFun (congrFun (s.readFunction_eq read) frame) stack
    | float =>
      unfold readValue shortcutOr stored?
      cases frame.instr.op <;> rfl
    | _ => rfl

end Setting

/-! ### What lies below the operands -/

/-- A reader that misses no operand leaves what lies below its operands in place. -/
def Reader.IsLocal (read : Reader) : Prop :=
  ∀ frame stack below, (read frame stack).1.holes = 0 →
    read frame (stack ++ below) = ((read frame stack).1, (read frame stack).2 ++ below)

section IsLocal

variable {read : Reader} {stack : List Frame}

/-- An operand that is not missing is taken alike above other frames. -/
theorem pop_append (h : read.IsLocal) (below : List Frame) (hheld : (pop read stack).1.holes = 0) :
    pop read (stack ++ below) = ((pop read stack).1, (pop read stack).2 ++ below) := by
  cases stack with
  | nil =>
    -- What is asked for on the empty stack is missing.
    cases hheld
  | cons frame stack => exact h frame stack below hheld

/-- Arguments that are not missing are taken alike above other frames. -/
theorem popArgs_append {read : Symbol → Reader} (h : ∀ param, (read param).IsLocal)
    (params : List Symbol) (below : List Frame)
    (hheld : Expr.argHoles (popArgs read params stack).1 = 0) :
    popArgs read params (stack ++ below) =
      ((popArgs read params stack).1, (popArgs read params stack).2 ++ below) := by
  induction params with
  | nil => rfl
  | cons param params ih =>
    obtain ⟨hargs, harg⟩ := Nat.add_eq_zero_iff.mp hheld
    simp only [popArgs, ih hargs, pop_append (h param) below harg]

/-- A shortcut takes nothing off the stack, so it may stand in front of any reader. -/
theorem shortcutOr_isLocal (h : read.IsLocal) (shortcut : Frame → Option Expr) :
    Reader.IsLocal (shortcutOr shortcut read) := by
  intro frame stack below hheld
  unfold shortcutOr at hheld ⊢
  cases hshortcut : shortcut frame with
  | some e => rfl
  | none =>
    rw [hshortcut] at hheld
    exact h frame stack below hheld

end IsLocal

namespace Setting

variable (s : Setting)

/-- A call without missing arguments is read alike above other frames. -/
theorem readCall_append {read : Reader} (h : read.IsLocal) (callee : Option Symbol)
    (unknown : Callee) (stack below : List Frame)
    (hheld : (s.readCall read callee unknown stack).1.holes = 0) :
    s.readCall read callee unknown (stack ++ below) =
      ((s.readCall read callee unknown stack).1,
        (s.readCall read callee unknown stack).2 ++ below) := by
  cases callee with
  | none => rfl
  | some sym =>
    have hlocal : ∀ param, (s.readArg read param).IsLocal := fun param => by
      rw [readArg_eq]
      exact shortcutOr_isLocal h _
    simp only [readCall, popArgs_append hlocal _ below hheld]

/-- **An expression without missing operands does not depend on what lies below them.** -/
theorem recover_isLocal (active : Option UInt32) (room : Nat) :
    (s.recover active room).IsLocal := by
  induction room with
  | zero =>
    -- What is too deep takes no operands.
    exact fun _ _ _ _ => rfl
  | succ room ih =>
    intro frame stack below hheld
    -- None of the operands has a hole, so each of them leaves the next one where it was.
    cases hop : frame.instr.op with
    | binary op =>
      simp only [recover, hop] at hheld ⊢
      obtain ⟨hright, hleft⟩ := Nat.add_eq_zero_iff.mp hheld
      simp only [pop_append ih below hright, pop_append ih below hleft]
    | unary op =>
      simp only [recover, hop] at hheld ⊢
      simp only [pop_append ih below hheld]
    | compound op =>
      simp only [recover, hop] at hheld ⊢
      obtain ⟨htarget, hvalue⟩ := Nat.add_eq_zero_iff.mp hheld
      simp only [pop_append ih below htarget, pop_append ih below hvalue]
    | move kind =>
      cases stack with
      | nil =>
        simp only [recover, hop] at hheld
        cases hheld
      | cons dest stack =>
        simp only [recover, hop, readValue_eq_shortcutOr, List.cons_append] at hheld ⊢
        obtain ⟨htarget, hvalue⟩ := Nat.add_eq_zero_iff.mp hheld
        simp only [ih dest stack below htarget,
          pop_append (shortcutOr_isLocal ih _) below hvalue]
    | ret =>
      simp only [recover, hop] at hheld ⊢
      split
      · next hgives =>
        rw [if_pos hgives] at hheld
        simp only [pop_append ih below hheld]
      · rfl
    | call target =>
      simp only [recover, hop] at hheld ⊢
      exact s.readCall_append ih _ _ stack below hheld
    | callExternal symbol =>
      simp only [recover, hop] at hheld ⊢
      exact s.readCall_append ih _ _ stack below hheld
    | _ => simp only [recover, hop]

end Setting

/-! ### Rendering on a desk -/

/-- What rendering is given besides the stack. -/
structure Context where
  /-- The active instance. -/
  active : Option UInt32
  /-- The depth of the block. -/
  depth : Nat
  /-- The depth of the expression. -/
  nested : Nat
  /-- The locals that have been recorded. -/
  locals : List Symbol
  deriving DecidableEq, Repr

/-- Where frames are rendered. -/
structure Desk extends Context where
  /-- The frames whose values are still to be used; the top comes first. -/
  stack : List Frame
  /-- The frames that have been rendered, the earliest one first. -/
  rendered : List Frame
  /-- How often a frame was to be taken from the empty stack. -/
  misses : Nat
  deriving DecidableEq, Repr

/-- Renders a frame on a desk. -/
abbrev Renderer := Frame → Desk → Expr × Desk

namespace Desk

/-- The desk with more frames below its stack. -/
def above (d : Desk) (below : List Frame) : Desk := { d with stack := d.stack ++ below }

/-- Records the variable that an expression is, if it is a local of the callable. -/
def record (d : Desk) : Expr → Desk
  | .variable (.ownLocal sym) _ => { d with locals := recordLocal d.locals sym }
  | _ => d

/-- The desk when a frame was to be taken from the empty stack once more. -/
def miss (d : Desk) : Desk := { d with misses := d.misses + 1 }

/-- The desk when one more frame is rendered. -/
def log (d : Desk) (frame : Frame) : Desk := { d with rendered := d.rendered ++ [frame] }

/-- The desk one level further down in an expression. -/
def enter (d : Desk) : Desk := { d with nested := d.nested + 1 }

/-- The desk one level further up. -/
def leave (d : Desk) : Desk := { d with nested := d.nested - 1 }

/-- Renders the frame on top of the stack. -/
def pop (render : Renderer) (d : Desk) : Expr × Desk :=
  match d.stack with
  | [] => (.missing, d.miss)
  | frame :: stack => render frame { d with stack := stack }

/-- Renders one argument for each parameter, the last one first. -/
def popArgs (render : Symbol → Renderer) : List Symbol → Desk → List Expr × Desk
  | [], d => ([], d)
  | param :: params, d =>
    let (args, d) := popArgs render params d
    let (arg, d) := d.pop (render param)
    (arg :: args, d)

end Desk

namespace Setting

variable (s : Setting)

/-- Renders a call: one argument for each parameter if the callee is known, and none otherwise. -/
def renderCall (render : Renderer) (callee : Option Symbol) (unknown : Callee) (d : Desk) :
    Expr × Desk :=
  match callee with
  | none => (.call unknown [], d)
  | some sym =>
    let (args, d) := d.popArgs (fun param => shortcutOr (s.argument? param) render)
      (s.script.parametersOf sym)
    (.call (.known sym) args, d)

/-- Renders an assignment. Where the stack holds no target, a value is asked for all the same. -/
def renderMove (render : Renderer) (d : Desk) : Expr × Desk :=
  match d.stack with
  | [] =>
    let (value, d) := d.miss.pop render
    (.assign .missing value, d)
  | dest :: stack =>
    let (target, d) := render dest { d with stack := stack }
    let (value, d) := d.pop (shortcutOr (s.stored? (s.targetKind dest)) render)
    (.assign target value, d)

/-- Renders a frame, and its operands with `render`. -/
def renderFrame (render : Renderer) : Renderer := fun frame d =>
  match frame.instr.op with
  | .binary op =>
    -- The right operand was pushed last.
    let (right, d) := d.pop render
    let (left, d) := d.pop render
    (.binary op left right, d)
  | .unary op =>
    let (operand, d) := d.pop render
    (.unary op operand, d)
  | .compound op =>
    let (target, d) := d.pop render
    let (value, d) := d.pop render
    (.update op target value, d)
  | .move _ => s.renderMove render d
  | .ret =>
    if s.callable.returnsValue then
      let (value, d) := d.pop render
      (.retValue value, d)
    else
      (.ret, d)
  | .call target => s.renderCall render (s.script.callableAt? target) (.address target) d
  | .callExternal symbol => s.renderCall render (s.script.symbolOf? symbol) (.unknown symbol) d
  | .pushInt value => (.int value, d)
  | .pushVar symbol | .pushInstance symbol =>
    -- A string literal is pushed as a variable too, but it is none to be recorded.
    let e := s.variableExpr d.active frame.active symbol
    (e, d.record e)
  | .pushElement symbol element =>
    let e := s.elementExpr d.active frame.active symbol element
    (e, d.record e)
  | .setInstance symbol => (.setInstance symbol, d)
  | .jump target => (.branch .jump target, d)
  | .jumpIfZero target => (.branch .jumpIfZero target, d)
  | .nop => (.nothing, d)

/-- Renders a frame and counts it as one level of the expression, unless the limit is reached. No
more than `room` levels are ever entered. -/
def renderWithin : Nat → Renderer
  | 0 => fun frame d => (.tooDeep, d.log frame)
  | room + 1 => fun frame d =>
    if s.limit ≤ d.nested then (.tooDeep, d.log frame)
    else
      let (e, d) := s.renderFrame (renderWithin room) frame (d.log frame).enter
      (e, d.leave)

/-- Renders a frame. -/
def render : Renderer := s.renderWithin s.limit

end Setting

/-! ### What rendering leaves of a desk -/

/-- A desk is left behind when operands are taken from another one: at most the frames in hand and
those that were taken have been rendered, each of them once, the given locals have been recorded,
and as many operands were missing. -/
def Desk.Leaves (hand : List Frame) (d : Desk) (locals : List Symbol) (holes : Nat) (d' : Desk) :
    Prop :=
  ∃ taken shown : List Frame, d.stack = taken ++ d'.stack ∧ shown.Sublist (hand ++ taken) ∧
    d' = { d with
      stack := d'.stack
      locals := locals.foldl recordLocal d.locals
      rendered := d.rendered ++ shown
      misses := d.misses + holes }

namespace Desk.Leaves

variable {hand : List Frame} {d d' d'' : Desk} {locals locals' : List Symbol} {holes holes' : Nat}

/-- A desk on which nothing is done. -/
theorem refl (hand : List Frame) (d : Desk) : Leaves hand d [] 0 d :=
  ⟨[], [], rfl, List.nil_sublist _, by simp⟩

/-- A desk on which one operand was missing. -/
theorem miss (d : Desk) : Leaves [] d [] 1 d.miss :=
  ⟨[], [], rfl, .slnil, by simp [Desk.miss]⟩

/-- What is done on a desk in two parts is done as a whole; only the first part may use the hand. -/
theorem trans (h : Leaves hand d locals holes d') (h' : Leaves [] d' locals' holes' d'') :
    Leaves hand d (locals ++ locals') (holes + holes') d'' := by
  obtain ⟨taken, shown, hstack, hshown, hd'⟩ := h
  obtain ⟨taken', shown', hstack', hshown', hd''⟩ := h'
  refine ⟨taken ++ taken', shown ++ shown', ?_, ?_, ?_⟩
  · rw [hstack, hstack', List.append_assoc]
  · rw [← List.append_assoc]
    exact hshown.append hshown'
  · rw [hd'', hd']
    simp only [List.foldl_append, List.append_assoc, Nat.add_assoc]

/-- A frame that is taken from the stack is in hand. -/
theorem of_cons {frame : Frame} {stack : List Frame} (hstack : d.stack = frame :: stack)
    (h : Leaves [frame] { d with stack := stack } locals holes d') :
    Leaves [] d locals holes d' := by
  obtain ⟨taken, shown, htaken, hshown, hd'⟩ := h
  exact ⟨frame :: taken, shown, hstack.trans (congrArg (List.cons frame) htaken), hshown, hd'⟩

/-- A frame whose rendering has begun was in hand, and the level that was entered is left again. -/
theorem leave (frame : Frame) (h : Leaves [] (d.log frame).enter locals holes d') :
    Leaves [frame] d locals holes d'.leave := by
  obtain ⟨taken, shown, htaken, hshown, hd'⟩ := h
  refine ⟨taken, frame :: shown, htaken, hshown.cons_cons frame, ?_⟩
  rw [hd']
  simp [Desk.leave, Desk.enter, Desk.log]

/-- The active instance stays. -/
theorem active (h : Leaves hand d locals holes d') : d'.active = d.active := by
  obtain ⟨taken, shown, -, -, hd'⟩ := h
  rw [hd']

/-- The depth of the expression stays. -/
theorem nested (h : Leaves hand d locals holes d') : d'.nested = d.nested := by
  obtain ⟨taken, shown, -, -, hd'⟩ := h
  rw [hd']

/-- Each missing operand is counted. -/
theorem misses (h : Leaves hand d locals holes d') : d'.misses = d.misses + holes := by
  obtain ⟨taken, shown, -, -, hd'⟩ := h
  rw [hd']

/-- Of what is given besides the stack, only the recorded locals change. -/
theorem context (h : Leaves hand d locals holes d') :
    d'.toContext = { d.toContext with locals := locals.foldl recordLocal d.locals } := by
  obtain ⟨taken, shown, -, -, hd'⟩ := h
  rw [hd']

/-- What is left on the stack is its bottom. -/
theorem suffix (h : Leaves hand d locals holes d') : d'.stack <:+ d.stack := by
  obtain ⟨taken, -, hstack, -, -⟩ := h
  exact ⟨taken, hstack.symm⟩

end Desk.Leaves

/-- What is done on a desk is what is read off its stack. -/
structure Desk.Does (hand : List Frame) (d : Desk) (read : Expr × List Frame)
    (done : Expr × Desk) : Prop where
  expr : done.1 = read.1
  stack : done.2.stack = read.2
  leaves : d.Leaves hand done.1.locals done.1.holes done.2

/-- A renderer renders what a reader reads, with an active instance and at a depth of the
expression. -/
def Renderer.Renders (render : Renderer) (active : Option UInt32) (nested : Nat) (read : Reader) :
    Prop :=
  ∀ (frame : Frame) (d : Desk), d.active = active → d.nested = nested →
    d.Does [frame] (read frame d.stack) (render frame d)

section Renders

variable {render : Renderer} {read : Reader} {active : Option UInt32} {nested : Nat}

/-- A shortcut that gives literals may stand in front of a renderer and its reader. -/
theorem shortcutOr_renders (h : render.Renders active nested read)
    {shortcut : Frame → Option Expr}
    (hliteral : ∀ frame e, shortcut frame = some e → e.IsLiteral) :
    Renderer.Renders (shortcutOr shortcut render) active nested (shortcutOr shortcut read) := by
  intro frame d hactive hnested
  unfold shortcutOr
  cases hshortcut : shortcut frame with
  | some e =>
    obtain ⟨hlocals, hholes⟩ := hliteral frame e hshortcut
    refine ⟨rfl, rfl, ?_⟩
    rw [hlocals, hholes]
    exact .refl [frame] d
  | none => exact h frame d hactive hnested

namespace Desk

/-- Taking an operand on a desk is taking it from the stack of the desk. -/
theorem pop_does (h : render.Renders active nested read) {d : Desk} (hactive : d.active = active)
    (hnested : d.nested = nested) : d.Does [] (Daedalus.pop read d.stack) (d.pop render) := by
  unfold Desk.pop
  cases hstack : d.stack with
  | nil => exact ⟨rfl, hstack, .miss d⟩
  | cons frame stack =>
    have hdoes := h frame { d with stack := stack } hactive hnested
    exact ⟨hdoes.expr, hdoes.stack, hdoes.leaves.of_cons hstack⟩

/-- Taking arguments on a desk is taking them from the stack of the desk. -/
theorem popArgs_does {render : Symbol → Renderer} {read : Symbol → Reader}
    (h : ∀ param, (render param).Renders active nested (read param)) (params : List Symbol)
    {d : Desk} (hactive : d.active = active) (hnested : d.nested = nested) :
    (d.popArgs render params).1 = (Daedalus.popArgs read params d.stack).1 ∧
      (d.popArgs render params).2.stack = (Daedalus.popArgs read params d.stack).2 ∧
      d.Leaves [] (Expr.argLocals (d.popArgs render params).1)
        (Expr.argHoles (d.popArgs render params).1) (d.popArgs render params).2 := by
  induction params with
  | nil => exact ⟨rfl, rfl, .refl [] d⟩
  | cons param params ih =>
    -- The last argument is on top, so the others are taken before the first one.
    obtain ⟨hargs, hrest, hleaves⟩ := ih
    have harg := pop_does (h param) (hleaves.active.trans hactive) (hleaves.nested.trans hnested)
    refine ⟨?_, ?_, hleaves.trans harg.leaves⟩
    · exact congrArg₂ List.cons (by rw [← hrest]; exact harg.expr) hargs
    · rw [hrest] at harg
      exact harg.stack

/-- One more operand is rendered behind what has been done. -/
theorem Does.pop {hand : List Frame} {d : Desk} {first : Expr × List Frame} {done : Expr × Desk}
    (hdone : d.Does hand first done) (h : render.Renders active nested read)
    (hactive : d.active = active) (hnested : d.nested = nested) :
    done.2.Does [] (Daedalus.pop read first.2) (done.2.pop render) := by
  rw [← hdone.stack]
  exact pop_does h (hdone.leaves.active.trans hactive) (hdone.leaves.nested.trans hnested)

end Desk

end Renders

namespace Setting

variable {s : Setting}

/-- The name of a function records nothing. -/
theorem functionName?_isLiteral {frame : Frame} {e : Expr} (h : s.functionName? frame = some e) :
    e.IsLiteral := by
  unfold functionName? at h
  split at h
  · obtain ⟨sym, -, rfl⟩ := Option.map_eq_some_iff.mp h
    exact ⟨rfl, rfl⟩
  · cases h

/-- The shortcut of an argument records nothing. -/
theorem argument?_isLiteral {param : Symbol} {frame : Frame} {e : Expr}
    (h : s.argument? param frame = some e) : e.IsLiteral := by
  unfold argument? at h
  split at h
  · exact functionName?_isLiteral h
  · cases h

/-- The shortcut of an assigned value records nothing. -/
theorem stored?_isLiteral {kind : Option Kind} {frame : Frame} {e : Expr}
    (h : s.stored? kind frame = some e) : e.IsLiteral := by
  unfold stored? at h
  split at h
  · obtain rfl := Option.some.inj h
    exact ⟨rfl, rfl⟩
  · exact functionName?_isLiteral h
  · cases h

/-- A variable takes nothing from the stack, and it is recorded if it is a local. -/
theorem variable_does (d : Desk) (ref : Reference) (element : Option Nat) :
    d.Does [] (.variable ref element, d.stack)
      (.variable ref element, d.record (.variable ref element)) := by
  cases ref with
  | ownLocal sym =>
    exact ⟨rfl, rfl, [], [], rfl, .slnil, by simp [Desk.record, Expr.locals, Expr.holes]⟩
  | _ => exact ⟨rfl, rfl, .refl [] d⟩

/-- A variable takes no operands and is recorded if it is a local. -/
theorem variableExpr_does (d : Desk) (pushedIn : Option UInt32) (symbol : UInt32) :
    d.Does [] (s.variableExpr d.active pushedIn symbol, d.stack)
      (s.variableExpr d.active pushedIn symbol,
        d.record (s.variableExpr d.active pushedIn symbol)) := by
  unfold variableExpr
  split
  · exact variable_does d _ _
  · split
    · exact ⟨rfl, rfl, .refl [] d⟩
    · exact variable_does d _ _

/-- An element of an array takes no operands and is recorded if its array is a local. -/
theorem elementExpr_does (d : Desk) (pushedIn : Option UInt32) (symbol : UInt32)
    (element : UInt8) :
    d.Does [] (s.elementExpr d.active pushedIn symbol element, d.stack)
      (s.elementExpr d.active pushedIn symbol element,
        d.record (s.elementExpr d.active pushedIn symbol element)) := by
  unfold elementExpr
  split
  · exact variable_does d _ _
  · exact variable_does d _ _

section Operands

variable {render : Renderer} {active : Option UInt32} {room nested : Nat} {d : Desk}

/-- Rendering a call on a desk is reading it off the stack of the desk. -/
theorem renderCall_does {read : Reader} (h : render.Renders active nested read)
    (callee : Option Symbol) (unknown : Callee) (hactive : d.active = active)
    (hnested : d.nested = nested) :
    d.Does [] (s.readCall read callee unknown d.stack) (s.renderCall render callee unknown d) := by
  cases callee with
  | none => exact ⟨rfl, rfl, .refl [] d⟩
  | some sym =>
    have harg : ∀ param, Renderer.Renders (shortcutOr (s.argument? param) render) active nested
        (s.readArg read param) := fun param => by
      rw [readArg_eq]
      exact shortcutOr_renders h fun _ _ => argument?_isLiteral
    obtain ⟨hargs, hstack, hleaves⟩ :=
      Desk.popArgs_does harg (s.script.parametersOf sym) hactive hnested
    exact ⟨congrArg (Expr.call (.known sym)) hargs, hstack, hleaves⟩

/-- Rendering an assignment on a desk is reading it off the stack of the desk, one level down. -/
theorem renderMove_does (h : render.Renders active nested (s.recover active room))
    {frame : Frame} {move : MoveKind} (hop : frame.instr.op = .move move)
    (hactive : d.active = active) (hnested : d.nested = nested) :
    d.Does [] (s.recover active (room + 1) frame d.stack) (s.renderMove render d) := by
  unfold renderMove
  cases hstack : d.stack with
  | nil =>
    simp only [recover, hop]
    -- A second frame is asked for, which is missing too.
    have hvalue := Desk.pop_does h (d := d.miss) hactive hnested
    have hread : pop (s.recover active room) d.miss.stack = (.missing, []) := by
      rw [show d.miss.stack = [] from hstack, pop]
    rw [hread] at hvalue
    exact ⟨congrArg (Expr.assign .missing) hvalue.expr, hvalue.stack,
      (Desk.Leaves.miss d).trans hvalue.leaves⟩
  | cons dest stack =>
    simp only [recover, hop, readValue_eq_shortcutOr]
    have htarget := h dest { d with stack := stack } hactive hnested
    have hstored : Renderer.Renders (shortcutOr (s.stored? (s.targetKind dest)) render) active
        nested (shortcutOr (s.stored? (s.targetKind dest)) (s.recover active room)) :=
      shortcutOr_renders h fun _ _ => stored?_isLiteral
    have hvalue := htarget.pop hstored hactive hnested
    exact ⟨congrArg₂ Expr.assign htarget.expr hvalue.expr, hvalue.stack,
      (htarget.leaves.trans hvalue.leaves).of_cons hstack⟩

/-- **Rendering a frame does what is read off the stack**, if rendering its operands does. -/
theorem renderFrame_does (h : render.Renders active nested (s.recover active room))
    (frame : Frame) (hactive : d.active = active) (hnested : d.nested = nested) :
    d.Does [] (s.recover active (room + 1) frame d.stack) (s.renderFrame render frame d) := by
  -- The first operand is taken alike in all operations; the second one is taken from what that
  -- leaves.
  have hpop := Desk.pop_does h hactive hnested
  subst hactive
  cases hop : frame.instr.op with
  | binary op =>
    simp only [recover, renderFrame, hop]
    have hleft := hpop.pop h rfl hnested
    exact ⟨congrArg₂ (Expr.binary op) hleft.expr hpop.expr, hleft.stack,
      hpop.leaves.trans hleft.leaves⟩
  | unary op =>
    simp only [recover, renderFrame, hop]
    exact ⟨congrArg (Expr.unary op) hpop.expr, hpop.stack, hpop.leaves⟩
  | compound op =>
    simp only [recover, renderFrame, hop]
    have hvalue := hpop.pop h rfl hnested
    exact ⟨congrArg₂ (Expr.update op) hpop.expr hvalue.expr, hvalue.stack,
      hpop.leaves.trans hvalue.leaves⟩
  | move move =>
    have hmove := renderMove_does h hop rfl hnested
    simpa only [renderFrame, hop] using hmove
  | ret =>
    simp only [recover, renderFrame, hop]
    split
    · exact ⟨congrArg Expr.retValue hpop.expr, hpop.stack, hpop.leaves⟩
    · exact ⟨rfl, rfl, .refl [] d⟩
  | call target =>
    simp only [recover, renderFrame, hop]
    exact renderCall_does h _ _ rfl hnested
  | callExternal symbol =>
    simp only [recover, renderFrame, hop]
    exact renderCall_does h _ _ rfl hnested
  | pushVar symbol | pushInstance symbol =>
    simp only [recover, renderFrame, hop]
    exact variableExpr_does d frame.active symbol
  | pushElement symbol element =>
    simp only [recover, renderFrame, hop]
    exact elementExpr_does d frame.active symbol element
  -- What is left takes no operands.
  | _ =>
    simp only [recover, renderFrame, hop]
    exact ⟨rfl, rfl, .refl [] d⟩

end Operands

/-- A frame that is too deep is rendered, but none of its operands are. -/
theorem tooDeep_does (d : Desk) (frame : Frame) :
    d.Does [frame] (.tooDeep, d.stack) (.tooDeep, d.log frame) :=
  ⟨rfl, rfl, [], [frame], rfl, .refl _, rfl⟩

/-- **Rendering does what is read off the stack with the levels that are left.** -/
theorem renderWithin_renders (active : Option UInt32) {room nested : Nat}
    (hroom : s.limit ≤ room + nested) :
    (s.renderWithin room).Renders active nested (s.recover active (s.limit - nested)) := by
  -- Every level that is entered takes one of the levels that are left and one of the room.
  induction room generalizing nested with
  | zero =>
    intro frame d _ _
    rw [Nat.sub_eq_zero_of_le (by omega)]
    exact tooDeep_does d frame
  | succ room ih =>
    intro frame d hactive hnested
    dsimp only [renderWithin]
    by_cases hlimit : s.limit ≤ nested
    · rw [Nat.sub_eq_zero_of_le hlimit, if_pos (hnested ▸ hlimit)]
      exact tooDeep_does d frame
    · have hlevels : s.limit - nested = (s.limit - (nested + 1)) + 1 := by omega
      have hoperands : (s.renderWithin room).Renders active (nested + 1)
          (s.recover active (s.limit - (nested + 1))) := ih (by omega)
      have hdoes := renderFrame_does hoperands frame (d := (d.log frame).enter) hactive
        (congrArg (· + 1) hnested)
      rw [hlevels, if_neg (hnested ▸ hlimit)]
      exact ⟨hdoes.expr, hdoes.stack, hdoes.leaves.leave frame⟩

/-- Rendering a frame on a desk is recovering it with the levels that are left. -/
theorem render_does (frame : Frame) (d : Desk) :
    d.Does [frame] (s.recover d.active (s.limit - d.nested) frame d.stack) (s.render frame d) :=
  renderWithin_renders d.active (Nat.le_add_right s.limit d.nested) frame d rfl rfl

/-! ### Statements -/

variable (s) in
/-- Renders all that is left on the stack, from the top down. -/
def clear (d : Desk) : List Expr × Desk :=
  match _h : d.stack with
  | [] => ([], d)
  | frame :: stack =>
    let done := s.render frame { d with stack := stack }
    let rest := clear done.2
    (done.1 :: rest.1, rest.2)
termination_by d.stack.length
decreasing_by
  rw [_h]
  exact Nat.lt_succ_of_le (render_does frame { d with stack := stack }).leaves.suffix.length_le

variable (s) in
/-- Renders the statement that ends with a frame, and then what it leaves unused on the stack. -/
def emit (last : Frame) (d : Desk) : (Expr × List Expr) × Desk :=
  let (main, d) := s.render last d
  let (unused, d) := s.clear d
  ((main, unused), d)

/-- Nothing is left on the stack. -/
theorem clear_stack (d : Desk) : (s.clear d).2.stack = [] := by
  fun_induction Setting.clear s d with
  | case1 d hstack => exact hstack
  | case2 d frame stack hstack done rest ih => exact ih

/-- Rendering what is left records the locals of all of these expressions. -/
theorem clear_leaves (d : Desk) :
    d.Leaves [] ((s.clear d).1.flatMap Expr.locals) (Expr.argHoles (s.clear d).1)
      (s.clear d).2 := by
  fun_induction Setting.clear s d with
  | case1 d hstack => exact .refl [] d
  | case2 d frame stack hstack done rest ih =>
    have hleaves : d.Leaves [] done.1.locals done.1.holes done.2 :=
      (render_does frame { d with stack := stack }).leaves.of_cons hstack
    rw [List.flatMap_cons, Expr.argHoles, Nat.add_comm]
    exact hleaves.trans ih

/-- What is left on the stack is rendered as it is recovered. -/
theorem clear_eq_unwind {d : Desk} (h : d.nested = 0) :
    (s.clear d).1 = s.unwind d.active d.stack := by
  fun_induction Setting.clear s d with
  | case1 d hstack => rw [hstack, unwind]
  | case2 d frame stack hstack done rest ih =>
    have hdone := render_does (s := s) frame { d with stack := stack }
    have hrest := ih (hdone.leaves.nested.trans h)
    rw [hdone.leaves.active, hdone.stack] at hrest
    have hexpr := hdone.expr
    simp only [h, Nat.sub_zero] at hrest hexpr
    rw [hstack, unwind]
    exact congrArg₂ List.cons hexpr hrest

/-- Rendering a frame on a desk touches no more than the operands of the frame, and a statement uses
up what is on the stack. -/
structure TouchesOperands (s : Setting) (frame : Frame) (d : Desk) : Prop where
  /-- What is rendered is what is read off the stack with the levels that are left. -/
  reads : (s.render frame d).1 =
      (s.recover d.active (s.limit - d.nested) frame d.stack).1 ∧
    (s.render frame d).2.stack = (s.recover d.active (s.limit - d.nested) frame d.stack).2
  /-- The bottom of the stack is left. -/
  bottom : (s.render frame d).2.stack <:+ d.stack
  /-- Locals may have been recorded behind the others. All else is as it was: the active instance
  and both depths. -/
  context : ∃ added, (s.render frame d).2.toContext =
    { d.toContext with locals := d.locals ++ added }
  /-- If no frame was to be taken from the empty stack, then what lies below it makes no difference,
  and it stays below what is left. -/
  apart : (s.render frame d).2.misses = d.misses → ∀ below : List Frame,
    (s.render frame (d.above below)).1 = (s.render frame d).1 ∧
      (s.render frame (d.above below)).2.toContext = (s.render frame d).2.toContext ∧
      (s.render frame (d.above below)).2.stack = (s.render frame d).2.stack ++ below
  /-- Behind a statement the stack is empty. -/
  emptied : (s.emit frame d).2.stack = []
  /-- No frame of a statement is rendered more than once. -/
  once : ∃ shown : List Frame, shown.Sublist (frame :: d.stack) ∧
    (s.emit frame d).2.rendered = d.rendered ++ shown
  /-- A statement is rendered as it is recovered. -/
  statement : d.nested = 0 → d.active = frame.active →
    (s.emit frame d).1 = s.statement ⟨frame, d.stack⟩

/-- What an expression without missing operands is rendered to, above other frames. -/
theorem render_above {frame : Frame} {d : Desk} (h : (s.render frame d).2.misses = d.misses)
    (below : List Frame) :
    (s.render frame (d.above below)).1 = (s.render frame d).1 ∧
      (s.render frame (d.above below)).2.toContext = (s.render frame d).2.toContext ∧
      (s.render frame (d.above below)).2.stack = (s.render frame d).2.stack ++ below := by
  have hdoes := render_does (s := s) frame d
  have habove := render_does (s := s) frame (d.above below)
  have hheld : (s.recover d.active (s.limit - d.nested) frame d.stack).1.holes = 0 := by
    have hmisses := hdoes.leaves.misses
    rw [← hdoes.expr]
    omega
  -- Both desks have the same context, so the reader is the same, and it misses nothing.
  have hread := s.recover_isLocal d.active (s.limit - d.nested) frame d.stack below hheld
  have hexpr : (s.render frame (d.above below)).1 = (s.render frame d).1 :=
    habove.expr.trans ((congrArg Prod.fst hread).trans hdoes.expr.symm)
  refine ⟨hexpr, ?_, ?_⟩
  · rw [habove.leaves.context, hdoes.leaves.context, hexpr]
    rfl
  · rw [habove.stack, hdoes.stack]
    exact congrArg Prod.snd hread

/-- **Rendering touches only the operands that it needs**, whatever the desk is. -/
theorem touchesOperands (s : Setting) (frame : Frame) (d : Desk) : s.TouchesOperands frame d := by
  have hdoes := render_does (s := s) frame d
  have hemit : d.Leaves [frame] _ _ (s.emit frame d).2 :=
    hdoes.leaves.trans (clear_leaves (s.render frame d).2)
  refine ⟨⟨hdoes.expr, hdoes.stack⟩, hdoes.leaves.suffix, ?_, render_above,
    clear_stack (s.render frame d).2, ?_, fun hnested hactive => ?_⟩
  · obtain ⟨added, hadded⟩ := prefix_foldl_recordLocal d.locals (s.render frame d).1.locals
    exact ⟨added, by rw [hdoes.leaves.context, hadded]⟩
  · -- All frames have been taken, since none is left.
    obtain ⟨taken, shown, htaken, hshown, hdesk⟩ := hemit
    have hempty : (s.emit frame d).2.stack = [] := clear_stack (s.render frame d).2
    rw [hempty, List.append_nil] at htaken
    exact ⟨shown, htaken ▸ hshown, by rw [hdesk]⟩
  · -- At the top of an expression, all levels are left to what stands unused on the stack.
    have hunused := clear_eq_unwind (s := s) (hdoes.leaves.nested.trans hnested)
    have hexpr := hdoes.expr
    rw [hdoes.leaves.active, hdoes.stack] at hunused
    simp only [hnested, hactive, Nat.sub_zero] at hunused hexpr
    exact congrArg₂ Prod.mk hexpr hunused

/-- The move of the function of `storingSetting` that stores its argument. -/
def storingMove : Frame := ⟨⟨16, .move .string⟩, none⟩

/-- The target and the value of the move on a stack. -/
def storingDesk : Desk where
  active := none
  depth := 1
  nested := 0
  locals := []
  stack := [⟨⟨11, .pushVar 2⟩, none⟩, ⟨⟨6, .pushVar 1⟩, none⟩]
  rendered := []
  misses := 0

/-- A result that was left unused. -/
def unusedResult : Frame := ⟨⟨0, .pushInt 7⟩, none⟩

/-- An assignment with its operands on the stack, by themselves and above an unused result. -/
theorem touchesOperands_storingDesk :
    (storingSetting.render storingMove storingDesk).2.misses = storingDesk.misses ∧
    (storingSetting.render storingMove storingDesk).2.locals.map Symbol.name = ["f.X"] ∧
    (storingSetting.render storingMove (storingDesk.above [unusedResult])).1.text = "X = ARG" ∧
    (storingSetting.render storingMove (storingDesk.above [unusedResult])).2.stack =
      [unusedResult] := by
  have hmisses : (storingSetting.render storingMove storingDesk).2.misses = storingDesk.misses := by
    decide +kernel
  obtain ⟨hexpr, -, hstack⟩ :=
    (touchesOperands storingSetting storingMove storingDesk).apart hmisses [unusedResult]
  refine ⟨hmisses, by decide +kernel, ?_, ?_⟩
  · rw [hexpr]
    decide +kernel
  · rw [hstack]
    decide +kernel

end Setting

end Daedalus
