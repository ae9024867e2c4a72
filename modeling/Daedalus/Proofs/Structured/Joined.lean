import Daedalus.Proofs.Structured.Shape

/-! # Joined chains

A chain that is all of an arm without a condition has the code of further arms of the chain around
it, so it is written back as such. `Program.joined` is the program with all these chains joined, and
`Program.block` is the block of a program, statement for statement. -/

namespace Daedalus.Structured

open Text

/-! ### Blocks of programs -/

mutual
/-- The block of a sequence, with one line per step. -/
def Program.block (script : Script) : Program → Block
  | .done => .done
  | .ret result => .step (result.expr script) [] .done
  | .step statement rest => .step (statement.expr script) [] (rest.block script)
  | .chain condition body arms rest =>
    .chain (condition.expr script) (body.block script) (arms.arms script) (rest.block script)
/-- The arms of a block for the further arms of a chain. -/
def Branches.arms (script : Script) : Branches → Arms
  | .done => .done
  | .elseIf condition body arms =>
    .elseIf (condition.expr script) (body.block script) (arms.arms script)
  | .otherwise body => .otherwise (body.block script)
end

/-- A statement with a text has one line. -/
theorem stepLine_eq {indent : Nat} {e : Expr} {text : String} (he : e.text = text)
    (htext : text ≠ "") : stepLine indent e = [lineOf indent text] := by
  rw [stepLine, he, if_neg htext, lineOf]

variable {s : Setting}

mutual
/-- **Lines of a program.** The block of a sequence has the lines of the sequence. -/
theorem Program.Fits.lines_block : ∀ {p : Program} {depth : Nat}, p.Fits s depth → ∀ indent,
    (p.block s.script).lines indent = p.lines s.script indent
  | .done, _, _, _ => rfl
  | .ret result, _, hfits, indent => by
    simp [Program.block, Block.lines, Program.lines,
      stepLine_eq hfits.2.text_expr (result.text_ne_empty _)]
  | .step st rest, _, hfits, indent => by
    have hrest := Program.Fits.lines_block (p := rest) hfits.2 indent
    simp [Program.block, Block.lines, Program.lines,
      stepLine_eq hfits.1.text_expr (st.text_ne_empty _), hrest]
  | .chain condition body arms rest, _, hfits, indent => by
    obtain ⟨hcondition, -, hbody, harms, hrest⟩ := hfits
    rw [Program.block, Block.lines, Program.lines, Term.text_expr hcondition,
      hbody.lines_block (indent + 4), harms.lines_arms indent, hrest.lines_block indent]
/-- The arms of a block are printed as the source lines of the further arms of a chain. -/
theorem Branches.Fits.lines_arms : ∀ {b : Branches} {depth : Nat}, b.Fits s depth → ∀ indent,
    (b.arms s.script).lines indent = b.lines s.script indent
  | .done, _, _, _ => rfl
  | .elseIf condition body arms, _, hfits, indent => by
    obtain ⟨hcondition, -, hbody, harms⟩ := hfits
    rw [Branches.arms, Arms.lines, Branches.lines, Term.text_expr hcondition,
      hbody.lines_block (indent + 4), harms.lines_arms indent]
  | .otherwise body, _, hfits, indent => by
    rw [Branches.arms, Arms.lines, Branches.lines, hfits.2.lines_block (indent + 4)]
end

mutual
/-- The block of a program uses no local variables. -/
theorem Program.locals_block (script : Script) : ∀ p : Program, (p.block script).locals = []
  | .done => rfl
  | .ret result => by simp [Program.block, Block.locals, result.locals_expr]
  | .step st rest => by
    simp [Program.block, Block.locals, st.locals_expr, rest.locals_block script]
  | .chain condition body arms rest => by
    simp [Program.block, Block.locals, condition.locals_expr, body.locals_block script,
      arms.locals_arms script, rest.locals_block script]
/-- No locals are recorded for the further arms of a chain. -/
theorem Branches.locals_arms (script : Script) : ∀ b : Branches, (b.arms script).locals = []
  | .done => rfl
  | .elseIf condition body arms => by
    simp [Branches.arms, Arms.locals, condition.locals_expr, body.locals_block script,
      arms.locals_arms script]
  | .otherwise body => by simp [Branches.arms, Arms.locals, body.locals_block script]
end

/-! ### Joining -/

mutual
/-- The sequence with all its chains joined. -/
def Program.joined : Program → Program
  | .done => .done
  | .ret result => .ret result
  | .step statement rest => .step statement rest.joined
  | .chain condition body arms rest => .chain condition body.joined arms.joined rest.joined
/-- The last arms of a chain for the sequence that is the body of an arm without a condition. An empty
chain in front of other statements becomes an arm of its own. -/
def Program.joinedElse : Program → Branches
  | .done => .otherwise .done
  | .ret result => .otherwise (.ret result)
  | .step statement rest => .otherwise (.step statement rest.joined)
  | .chain condition body arms more =>
    if more.isDone then .elseIf condition body.joined arms.joined
    else if body.isDone && arms.isDone then .elseIf condition .done (.otherwise more.joined)
    else .otherwise (.chain condition body.joined arms.joined more.joined)
/-- The further arms of a chain with all chains joined. -/
def Branches.joined : Branches → Branches
  | .done => .done
  | .elseIf condition body arms => .elseIf condition body.joined arms.joined
  | .otherwise body => body.joinedElse
end

namespace Program

/-- Only a chain at the start is joined with the chain around an arm without a condition. -/
theorem joinedElse_eq {p : Program} (h : p.startsWithChain = false) :
    p.joinedElse = .otherwise p.joined := by
  cases p with
  | chain => cases h
  | _ => rfl

/-- A chain that is all of an arm is joined. -/
theorem joinedElse_chain (condition : Term) (body : Program) (arms : Branches) :
    (chain condition body arms .done).joinedElse = .elseIf condition body.joined arms.joined := rfl

/-- An empty chain in front of other statements is an arm of its own. -/
theorem joinedElse_passed (condition : Term) {more : Program} (h : more.isDone = false) :
    (chain condition .done .done more).joinedElse =
      .elseIf condition .done (.otherwise more.joined) := by
  rw [joinedElse, h]
  rfl

/-- Joining leaves no statement out. -/
@[simp] theorem isDone_joined (p : Program) : p.joined.isDone = p.isDone := by
  cases p <;> rfl

/-- Joining does not change how a sequence ends. -/
theorem returns_joined : ∀ p : Program, p.joined.returns = p.returns
  | .done | .ret _ => rfl
  | .step _ rest => returns_joined rest
  | .chain _ _ _ rest => returns_joined rest

end Program

mutual
/-- A joined program is still what its place asks for. -/
theorem Program.Fits.joined : ∀ {p : Program} {depth : Nat}, p.Fits s depth → p.joined.Fits s depth
  | .done, _, h | .ret _, _, h => h
  | .step _ rest, _, h => ⟨h.1, Program.Fits.joined (p := rest) h.2⟩
  | .chain _ _ _ _, _, ⟨hcondition, hheight, hbody, harms, hrest⟩ =>
    ⟨hcondition, hheight, hbody.joined, harms.joined, hrest.joined⟩
/-- The last arms for the body of an arm without a condition are what their places ask for. -/
theorem Program.Fits.joinedElse : ∀ {p : Program} {depth : Nat}, p.Fits s (depth + 1) →
    p.isDone = false → p.joinedElse.Fits s depth
  | .done, _, _, hsome => by cases hsome
  | .ret _, _, h, _ => ⟨rfl, h⟩
  | .step _ rest, _, h, _ => ⟨rfl, h.1, Program.Fits.joined (p := rest) h.2⟩
  | .chain condition body arms more, depth, ⟨hcondition, hheight, hbody, harms, hmore⟩, _ => by
    -- The arms come one level up when the chain is joined.
    have hbody := hbody.joined
    have harms := harms.joined
    have hmore := hmore.joined
    have hdepth := hmore.depth_lt
    rw [Program.joinedElse]
    split
    · exact ⟨hcondition, hheight, hbody.mono (Nat.le_succ _), harms.mono (Nat.le_succ _)⟩
    · next hsome =>
      rw [Bool.not_eq_true] at hsome
      split
      · exact ⟨hcondition, hheight, hdepth, by rw [Program.isDone_joined, hsome], hmore⟩
      · exact ⟨rfl, hcondition, hheight, hbody, harms, hmore⟩
/-- Joined arms are what their places ask for. -/
theorem Branches.Fits.joined : ∀ {b : Branches} {depth : Nat}, b.Fits s depth →
    b.joined.Fits s depth
  | .done, _, h => h
  | .elseIf _ _ _, _, ⟨hcondition, hheight, hbody, harms⟩ =>
    ⟨hcondition, hheight, hbody.joined, harms.joined⟩
  | .otherwise _, _, ⟨hsome, hbody⟩ => hbody.joinedElse hsome
end

mutual
/-- Where no arm without a condition starts with a chain, there is nothing to join. -/
theorem Program.joined_eq : ∀ {p : Program}, p.plainElses = true → p.joined = p
  | .done, _ | .ret _, _ => rfl
  | .step _ rest, h => by rw [Program.joined, Program.joined_eq (p := rest) h]
  | .chain _ body arms rest, h => by
    simp only [Program.plainElses, Bool.and_eq_true] at h
    rw [Program.joined, body.joined_eq h.1.1, arms.joined_eq h.1.2, rest.joined_eq h.2]
/-- Arms whose last one does not start with a chain are joined already. -/
theorem Branches.joined_eq : ∀ {b : Branches}, b.plainElses = true → b.joined = b
  | .done, _ => rfl
  | .elseIf _ body arms, h => by
    simp only [Branches.plainElses, Bool.and_eq_true] at h
    rw [Branches.joined, body.joined_eq h.1, arms.joined_eq h.2]
  | .otherwise body, h => by
    simp only [Branches.plainElses, Bool.and_eq_true, Bool.not_eq_true'] at h
    rw [Branches.joined, Program.joinedElse_eq h.1, body.joined_eq h.2]
end

mutual
/-- **Joining is a way to show a program**, as long as nothing follows a chain that is joined. -/
theorem Program.shows_joined (script : Script) : ∀ {p : Program}, p.elsesKept = true →
    p.Shows script (p.joined.block script)
  | .done, _ => .done
  | .ret result, _ => .ret result
  | .step _ rest, h => .step (rest.shows_joined script h)
  | .chain _ body arms rest, h => by
    simp only [Program.elsesKept, Bool.and_eq_true] at h
    exact .chain (body.shows_joined script h.1.1) (arms.shows_joined script h.1.2)
      (rest.shows_joined script h.2)
/-- The joined last arms show the arm without a condition. -/
theorem Program.shows_joinedElse (script : Script) : ∀ {p : Program}, p.elseKept = true →
    (Branches.otherwise p).Shows script (p.joinedElse.arms script)
  | .done, _ => .otherwise .done
  | .ret result, _ => .otherwise (.ret result)
  | .step _ rest, h => .otherwise (.step (rest.shows_joined script h))
  | .chain condition body arms more, h => by
    rw [Program.elseKept] at h
    cases hdone : more.isDone with
    | true =>
      rw [hdone, if_pos rfl, Bool.and_eq_true] at h
      obtain rfl := Program.eq_done_of_isDone hdone
      exact .joined (body.shows_joined script h.1) (arms.shows_joined script h.2)
    | false =>
      -- Something follows the chain, so the chain is empty and becomes an arm of its own.
      rw [hdone, if_neg Bool.false_ne_true] at h
      simp only [Bool.and_eq_true] at h
      obtain ⟨⟨⟨hbody, harms⟩, -⟩, hmore⟩ := h
      obtain rfl := Program.eq_done_of_isDone hbody
      obtain rfl := Branches.eq_done_of_isDone harms
      rw [Program.joinedElse_passed condition hdone]
      exact .passed hdone (more.shows_joined script hmore)
/-- The joined further arms of a chain show them. -/
theorem Branches.shows_joined (script : Script) : ∀ {b : Branches}, b.elsesKept = true →
    b.Shows script (b.joined.arms script)
  | .done, _ => .done
  | .elseIf _ body arms, h => by
    rw [Branches.elsesKept, Bool.and_eq_true] at h
    exact .elseIf (body.shows_joined script h.1) (arms.shows_joined script h.2)
  | .otherwise body, h => body.shows_joinedElse script h
end

end Daedalus.Structured
