import Mathlib.Data.List.Infix
import Daedalus.Proofs.FinalReturn
import Daedalus.Proofs.SideBySide

/-! # Limits of nesting

One limit holds for blocks and for expressions. Blocks that nest deeper are a fault, and expressions
that nest deeper are cut off with a placeholder in the text. A limit does nothing else: a higher one
gives the same text where no placeholder shows, and every other fault stays.

An operand that is cut off takes nothing off the stack, so the statements behind it may differ in
any way. The placeholder shows in the text of every expression around it and is never in the return
that a body loses. So a text without placeholder is one in which no expression was cut off. -/

namespace Daedalus

namespace Text

/-- A text stands somewhere in another one. -/
def Occurs (part text : String) : Prop := part.toList <:+: text.toList

instance (part text : String) : Decidable (Occurs part text) :=
  inferInstanceAs (Decidable (part.toList <:+: text.toList))

variable {part text : String}

/-- A text stands in itself. -/
theorem Occurs.refl (text : String) : Occurs text text := List.infix_refl text.toList

/-- What stands in a text still does so with another text in front. -/
theorem Occurs.append_left (h : Occurs part text) (front : String) : Occurs part (front ++ text) := by
  rw [Occurs, String.toList_append]
  exact h.trans (List.suffix_append front.toList text.toList).isInfix

/-- What stands in a text still does so with another text behind. -/
theorem Occurs.append_right (h : Occurs part text) (back : String) : Occurs part (text ++ back) := by
  rw [Occurs, String.toList_append]
  exact h.trans (List.prefix_append text.toList back.toList).isInfix

/-- What stands in one of several texts stands in the text that joins them. -/
theorem Occurs.intercalate {texts : List String} (h : Occurs part text) (hmem : text ∈ texts)
    (separator : String) : Occurs part (separator.intercalate texts) := by
  induction texts with
  | nil => cases hmem
  | cons first texts ih =>
    by_cases hnil : texts = []
    · rw [hnil, List.mem_singleton] at hmem
      rw [hnil, String.intercalate_singleton, ← hmem]
      exact h
    · rw [String.intercalate_cons_of_ne_nil hnil]
      rcases List.mem_cons.mp hmem with rfl | hmem
      · exact (h.append_right separator).append_right _
      · exact (ih hmem).append_left (first ++ separator)

/-- What stands in a line stands in the text of the lines. -/
theorem Occurs.unlines {lines : List String} (h : Occurs part text) (hmem : text ∈ lines) :
    Occurs part (unlines lines) := by
  obtain ⟨before, after, rfl⟩ := List.append_of_mem hmem
  rw [Occurs, toList_unlines, List.flatMap_append, List.flatMap_cons]
  have hline : text.toList <:+: text.toList ++ ['\n'] := (List.prefix_append _ _).isInfix
  have hlines : text.toList ++ ['\n'] <:+: before.flatMap (fun line => line.toList ++ ['\n']) ++
      ((text.toList ++ ['\n']) ++ after.flatMap fun line => line.toList ++ ['\n']) :=
    List.infix_append' _ _ _
  exact (h.trans hline).trans hlines

end Text

open Text

/-! ### Expressions that are not cut off -/

/-- The text of an expression does not show that it was cut off. -/
def Expr.Uncut (e : Expr) : Prop := ¬Occurs Expr.tooDeep.text e.text

namespace Expr

/-- The placeholder is itself cut off. -/
theorem not_uncut_tooDeep : ¬Expr.tooDeep.Uncut := fun h => h (Occurs.refl _)

namespace Uncut

variable {e e' target value : Expr}

/-- The operand of an operation that is not cut off is not either. -/
theorem operand {op : UnaryOp} (h : (Expr.unary op e).Uncut) : e.Uncut :=
  fun hcut => h ((hcut.append_left (op.text ++ "(")).append_right ")")

/-- The left operand of an operation that is not cut off is not either. -/
theorem left {op : BinaryOp} (h : (Expr.binary op e e').Uncut) : e.Uncut := by
  intro hcut
  have hopened := ((hcut.append_left "(").append_right ") ").append_right op.text
  exact h (((hopened.append_right " (").append_right e'.text).append_right ")")

/-- The right operand of an operation that is not cut off is not either. -/
theorem right {op : BinaryOp} (h : (Expr.binary op e e').Uncut) : e'.Uncut :=
  fun hcut => h ((hcut.append_left ("(" ++ e.text ++ ") " ++ op.text ++ " (")).append_right ")")

/-- The target of an assignment that is not cut off is not either. -/
theorem assignTarget (h : (Expr.assign target value).Uncut) : target.Uncut :=
  fun hcut => h ((hcut.append_right " = ").append_right value.text)

/-- The value of an assignment that is not cut off is not either. -/
theorem assignValue (h : (Expr.assign target value).Uncut) : value.Uncut :=
  fun hcut => h (hcut.append_left (target.text ++ " = "))

/-- The target of a compound assignment that is not cut off is not either. -/
theorem updateTarget {op : CompoundOp} (h : (Expr.update op target value).Uncut) : target.Uncut := by
  intro hcut
  have hnamed := (hcut.append_right " ").append_right op.text
  exact h ((hnamed.append_right " ").append_right value.text)

/-- The value of a compound assignment that is not cut off is not either. -/
theorem updateValue {op : CompoundOp} (h : (Expr.update op target value).Uncut) : value.Uncut :=
  fun hcut => h (hcut.append_left (target.text ++ " " ++ op.text ++ " "))

/-- The result of a return that is not cut off is not either. -/
theorem result (h : (Expr.retValue value).Uncut) : value.Uncut :=
  fun hcut => h (hcut.append_left "return ")

/-- The arguments of a call that is not cut off are not either. -/
theorem args {callee : Callee} {args : List Expr} (h : (Expr.call callee args).Uncut) :
    ∀ arg ∈ args, arg.Uncut := by
  intro arg harg hcut
  have hmem : arg.text ∈ texts args := by
    rw [texts_eq_map]
    exact List.mem_map_of_mem harg
  exact h (((hcut.intercalate hmem ", ").append_left (callee.text ++ "(")).append_right ")")

end Uncut

end Expr

/-! ### Expressions that are read from the stack -/

/-- What was read is what `result'` is, if it was not cut off. -/
def KeptBy (result result' : Expr × List Frame) : Prop := result.1.Uncut → result' = result

/-- Whatever a reader reads without a cut, another one reads as well. -/
def Reader.ReadBy (read read' : Reader) : Prop :=
  ∀ frame stack, KeptBy (read frame stack) (read' frame stack)

/-- An operand that is taken without a cut is taken alike by the other reader. -/
theorem Reader.ReadBy.pop_eq {read read' : Reader} (h : read.ReadBy read') {stack : List Frame}
    (huncut : (pop read stack).1.Uncut) : pop read' stack = pop read stack := by
  cases stack with
  | nil => rfl
  | cons frame stack => exact h frame stack huncut

/-- Arguments that are taken without a cut are taken alike by the other readers. -/
theorem popArgs_eq_of_readBy {read read' : Symbol → Reader}
    (h : ∀ param, (read param).ReadBy (read' param)) {params : List Symbol} {stack : List Frame}
    (huncut : ∀ arg ∈ (popArgs read params stack).1, arg.Uncut) :
    popArgs read' params stack = popArgs read params stack := by
  induction params with
  | nil => rfl
  | cons param params ih =>
    obtain ⟨hfirst, hlater⟩ := List.forall_mem_cons.mp huncut
    -- The later arguments are on top, so the first one is read from what they leave.
    have hlater : popArgs read' params stack = popArgs read params stack := ih hlater
    have hfirst : pop (read' param) (popArgs read params stack).2 =
        pop (read param) (popArgs read params stack).2 := (h param).pop_eq hfirst
    simp only [popArgs, hlater, hfirst]

namespace Setting

variable {s : Setting} {read read' : Reader}

/-- Operands that may be functions are read alike where the reader behind reads alike. -/
theorem readFunction_readBy (h : read.ReadBy read') :
    (s.readFunction read).ReadBy (s.readFunction read') := by
  intro frame stack
  unfold readFunction
  split
  · split
    · exact fun _ => rfl
    · exact h frame stack
  · exact h frame stack

/-- Arguments are read alike where the reader behind reads alike. -/
theorem readArg_readBy (h : read.ReadBy read') (param : Symbol) :
    (s.readArg read param).ReadBy (s.readArg read' param) := by
  unfold readArg
  split
  · exact readFunction_readBy h
  · exact h

/-- Assigned values are read alike where the reader behind reads alike. -/
theorem readValue_readBy (h : read.ReadBy read') (kind : Option Kind) :
    (s.readValue read kind).ReadBy (s.readValue read' kind) := by
  intro frame stack
  unfold readValue
  split
  · exact fun _ => rfl
  · exact readFunction_readBy h frame stack
  · exact h frame stack

/-- A call without a cut is read alike where its arguments are. -/
theorem readCall_keptBy (h : read.ReadBy read') (callee : Option Symbol) (unknown : Callee)
    (stack : List Frame) :
    KeptBy (s.readCall read callee unknown stack) (s.readCall read' callee unknown stack) := by
  cases callee with
  | none => exact fun _ => rfl
  | some sym =>
    intro huncut
    have hargs := popArgs_eq_of_readBy (fun param => s.readArg_readBy h param) huncut.args
    simp only [readCall, hargs]

/-- **What is recovered without a cut is recovered with more room as well.** -/
theorem recover_readBy (active : Option UInt32) {room room' : Nat} (hroom : room ≤ room') :
    (s.recover active room).ReadBy (s.recover active room') := by
  induction room generalizing room' with
  | zero => exact fun _ _ huncut => absurd huncut Expr.not_uncut_tooDeep
  | succ room ih =>
    obtain ⟨more, rfl⟩ := Nat.exists_eq_add_of_le' hroom
    have ih : (s.recover active room).ReadBy (s.recover active (more + room)) :=
      ih (Nat.le_add_left room more)
    intro frame stack
    rw [← Nat.add_assoc]
    -- An operand is read alike if the ones above it are, since those decide what is left for it.
    unfold recover
    split
    · intro huncut
      simp only [ih.pop_eq huncut.right, ih.pop_eq huncut.left]
    · intro huncut
      simp only [ih.pop_eq huncut.operand]
    · intro huncut
      simp only [ih.pop_eq huncut.updateTarget, ih.pop_eq huncut.updateValue]
    · split
      · exact fun _ => rfl
      · next dest rest =>
        intro huncut
        have hvalue := (readValue_readBy ih (s.targetKind dest)).pop_eq huncut.assignValue
        simp only [ih dest rest huncut.assignTarget, hvalue]
    · split
      · intro huncut
        simp only [ih.pop_eq huncut.result]
      · exact fun _ => rfl
    · exact readCall_keptBy ih _ _ stack
    · exact readCall_keptBy ih _ _ stack
    all_goals exact fun _ => rfl

/-- Walks take the same way at a higher limit, and recover alike what they do not cut off. -/
theorem shadows_of_limit_le (script : Script) (callable : Symbol) {limit limit' : Nat}
    (hlimit : limit ≤ limit') (start : Nat) :
    Shadows ⟨script, callable, limit⟩ ⟨script, callable, limit'⟩ start Expr.Uncut := by
  let s : Setting := ⟨script, callable, limit⟩
  let s' : Setting := ⟨script, callable, limit'⟩
  have htable : s.script.toTable = s'.script.toTable := rfl
  have hcallable : s.callable = s'.callable := rfl
  have hrecover := recover_eq_of_toTable htable hcallable
  refine shadows_of_recover ⟨fun _ _ => rfl, fun _ _ _ _ => rfl⟩ hlimit fun active frame stack h => ?_
  calc s.recover active limit frame stack
      = s.recover active limit' frame stack := (recover_readBy active hlimit frame stack h).symm
    _ = s'.recover active limit' frame stack := by rw [hrecover]

end Setting

/-! ### Lines without a placeholder -/

/-- A statement whose line shows no cut is not cut off, and neither is one without a line. -/
theorem Expr.uncut_of_stepLine {indent : Nat} {e : Expr}
    (h : ∀ line ∈ stepLine indent e, ¬Occurs Expr.tooDeep.text line) : e.Uncut := by
  intro hcut
  by_cases htext : e.text = ""
  · rw [htext] at hcut
    exact absurd hcut (by decide)
  · have hline : spaces indent ++ e.text ++ ";" ∈ stepLine indent e := by
      rw [stepLine, if_neg htext]
      exact List.mem_singleton_self _
    exact h _ hline ((hcut.append_left (spaces indent)).append_right ";")

mutual
/-- A block whose lines show no cut consists of expressions that are not cut off. -/
theorem Block.all_uncut {indent : Nat} : ∀ {block : Block},
    (∀ line ∈ block.lines indent, ¬Occurs Expr.tooDeep.text line) → block.All Expr.Uncut
  | .done, _ => trivial
  | .step main unused rest, h => by
    simp only [Block.lines, List.forall_mem_append, List.forall_mem_flatMap, List.mem_reverse] at h
    obtain ⟨⟨hunused, hmain⟩, hrest⟩ := h
    exact ⟨Expr.uncut_of_stepLine hmain, fun e he => Expr.uncut_of_stepLine (hunused e he),
      Block.all_uncut hrest⟩
  | .chain condition body arms rest, h => by
    simp only [Block.lines, List.forall_mem_cons, List.forall_mem_append] at h
    obtain ⟨hopen, ⟨hbody, harms⟩, hrest⟩ := h
    have hcondition : condition.Uncut :=
      fun hcut => hopen ((hcut.append_left (spaces indent ++ "if (")).append_right ") \x7b")
    exact ⟨hcondition, Block.all_uncut hbody, Arms.all_uncut harms, Block.all_uncut hrest⟩
/-- Further arms whose lines show no cut consist of expressions that are not cut off. -/
theorem Arms.all_uncut {indent : Nat} : ∀ {arms : Arms},
    (∀ line ∈ arms.lines indent, ¬Occurs Expr.tooDeep.text line) → arms.All Expr.Uncut
  | .done, _ => trivial
  | .elseIf condition body rest, h => by
    simp only [Arms.lines, List.forall_mem_cons, List.forall_mem_append] at h
    obtain ⟨hopen, hbody, hrest⟩ := h
    have hcondition : condition.Uncut := fun hcut =>
      hopen ((hcut.append_left (spaces indent ++ "\x7d else if (")).append_right ") \x7b")
    exact ⟨hcondition, Block.all_uncut hbody, Arms.all_uncut hrest⟩
  | .otherwise body, h => by
    simp only [Arms.lines, List.forall_mem_cons, List.forall_mem_append] at h
    exact Block.all_uncut h.2.1
end

/-! ### Texts without a placeholder -/

/-- What ends with an element that a tail does not have stands in front of the tail. -/
theorem infix_of_infix_append {α : Type} {part front tail : List α} {a : α} (ha : a ∉ tail)
    (h : part ++ [a] <:+: front ++ tail) : part ++ [a] <:+: front := by
  rcases List.infix_append_iff.mp h with hfront | htail | ⟨left, right, heq, hleft, hright⟩
  · exact hfront
  · exact absurd (htail.subset (List.mem_append_right part List.mem_cons_self)) ha
  · rcases List.eq_nil_or_concat right with rfl | ⟨init, last, rfl⟩
    · rw [List.append_nil] at heq
      exact heq ▸ hleft.isInfix
    · -- Then the element ends the part that stands in the tail.
      rw [List.concat_eq_append] at heq hright
      rw [← List.append_assoc] at heq
      obtain rfl : a = last := List.singleton_inj.mp (List.append_inj_right' heq rfl)
      exact absurd (hright.subset (List.mem_append_right init List.mem_cons_self)) ha

/-- The placeholder never stands in the final return. -/
theorem occurs_dropFinalReturn {text : String} (h : Occurs Expr.tooDeep.text text) :
    Occurs Expr.tooDeep.text (dropFinalReturn text) := by
  obtain ⟨tail, htext, htail⟩ := exists_append_dropFinalReturn text
  have hslash : '/' ∉ tail := fun hmem => absurd (htail _ hmem) (by decide)
  have hplaceholder : Expr.tooDeep.text.toList =
      "0 /* !expression too deep! *".toList ++ ['/'] := by decide
  rw [Occurs, htext, hplaceholder] at h
  rw [Occurs, hplaceholder]
  exact infix_of_infix_append hslash h

namespace Script

/-- A body whose text shows no cut consists of expressions that are not cut off. -/
theorem all_uncut_of_bodyText {script : Script} {sym : Symbol} {indent : Nat} {block : Block}
    (h : ¬Occurs Expr.tooDeep.text (script.bodyText sym indent block)) : block.All Expr.Uncut := by
  have hlines : ∀ line ∈ block.lines indent, ¬Occurs Expr.tooDeep.text line := by
    intro line hline hcut
    have hstatements : Occurs Expr.tooDeep.text (block.text indent) := hcut.unlines hline
    refine h (Occurs.append_left ?_ _)
    split
    · exact hstatements
    · exact occurs_dropFinalReturn hstatements
  exact block.all_uncut hlines

/-- **A limit only cuts.** What is recovered at a limit without a placeholder is recovered at every
higher limit, and so is every fault but the one that blocks nest too deep. -/
theorem decompileBody_limit_mono (script : Script) (sym : Symbol) (indent : Nat) {limit limit' : Nat}
    (hlimit : limit ≤ limit') :
    (∀ text, script.decompileBody sym indent limit = .ok text →
      ¬Occurs "0 /* !expression too deep! */" text →
        script.decompileBody sym indent limit' = .ok text) ∧
    ∀ fault, script.decompileBody sym indent limit = .error fault →
      (∀ depth pc, fault ≠ .nestingTooDeep depth pc) →
        script.decompileBody sym indent limit' = .error fault := by
  let s : Setting := ⟨script, sym, limit⟩
  let s' : Setting := ⟨script, sym, limit'⟩
  -- Both runs side by side: they agree unless the first one is cut short, and on trees without a
  -- placeholder.
  have hagree : Agree (s.CutShort s')
      (fun block block' => True → block.All Expr.Uncut → block = block')
      (s.script.bodyBlock s.callable s.limit) (s'.script.bodyBlock s'.callable s'.limit) :=
    Setting.bodyBlock_agree rfl rfl rfl (fun _ => rfl) fun start _ =>
      Setting.shadows_of_limit_le script sym hlimit start
  constructor
  · intro text h huncut
    obtain ⟨block, hblock, rfl⟩ := exists_of_map_eq_ok h
    obtain ⟨block', (hblock' : script.bodyBlock sym limit' = .ok block'), heq⟩ :=
      hagree.exists_of_ok hblock
    rw [decompileBody, hblock', ← heq trivial (all_uncut_of_bodyText huncut)]
    rfl
  · intro fault h hnesting
    -- Only a nesting that is too deep cuts the first run short.
    have hcut : ¬s.CutShort s' fault := fun hshort =>
      hshort.2.elim fun pc hdepth => hnesting limit pc hdepth
    have hfault : script.bodyBlock sym limit' = .error fault :=
      hagree.eq_error (eq_error_of_map h) hcut
    rw [decompileBody, hfault]
    rfl

/-- A function that stores a sum in an arm, and one behind it that branches back. -/
def limitedScript : Script :=
  ofParts
    #[0x41, 2, 0, 0, 0, 0x4c, 27, 0, 0, 0, 0x41, 2, 0, 0, 0, 0x40, 1, 0, 0, 0, 0x00, 0x41, 2, 0, 0, 0,
      0x09, 0x3c, 0x41, 2, 0, 0, 0, 0x4c, 0, 0, 0, 0]
    [{ name := "F", kind := .func, flags := Flags.none.add .const },
      { name := "G", kind := .func, flags := Flags.none.add .const, address := 28 },
      { name := "A", kind := .int }]

/-- The function that stores the sum. -/
def storingFunction : Symbol := { name := "F", kind := .func, flags := Flags.none.add .const }

/-- The function that branches back. -/
def loopingFunction : Symbol :=
  { name := "G", kind := .func, flags := Flags.none.add .const, address := 28 }

/-- The body of the function that stores the sum. -/
def storingBody : String := "    if (A) \x7b\n        A = (A) + (1);\n    \x7d;\n"

/-- The sum takes three levels: at a limit of two, its operands are cut off. -/
theorem decompileBody_limitedScript :
    (∃ text, limitedScript.decompileBody storingFunction 4 2 = .ok text ∧
      Occurs "0 /* !expression too deep! */" text) ∧
    limitedScript.decompileBody storingFunction 4 3 = .ok storingBody ∧
    ¬Occurs "0 /* !expression too deep! */" storingBody ∧
    limitedScript.decompileBody storingFunction 4 256 = .ok storingBody ∧
    limitedScript.decompileBody loopingFunction 4 3 = .error (.backwardBranch 33 0) ∧
    limitedScript.decompileBody loopingFunction 4 256 = .error (.backwardBranch 33 0) := by
  have hcut : limitedScript.decompileBody storingFunction 4 2 = .ok
      ("    if (A) \x7b\n        A = (0 /* !expression too deep! */) + " ++
        "(0 /* !expression too deep! */);\n    \x7d;\n") := by decide +kernel
  have hbody : limitedScript.decompileBody storingFunction 4 3 = .ok storingBody := by
    decide +kernel
  have huncut : ¬Occurs "0 /* !expression too deep! */" storingBody := by decide +kernel
  have hfault : limitedScript.decompileBody loopingFunction 4 3 = .error (.backwardBranch 33 0) := by
    decide +kernel
  have hlimit : 3 ≤ 256 := by decide
  -- The higher limit is not evaluated but follows.
  obtain ⟨hstoring, -⟩ := decompileBody_limit_mono limitedScript storingFunction 4 hlimit
  obtain ⟨-, hlooping⟩ := decompileBody_limit_mono limitedScript loopingFunction 4 hlimit
  exact ⟨⟨_, hcut, by decide +kernel⟩, hbody, huncut, hstoring _ hbody huncut, hfault,
    hlooping _ hfault fun _ _ => Fault.noConfusion⟩

end Script

end Daedalus
