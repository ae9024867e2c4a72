import Daedalus.Proofs.Blocks
import Daedalus.Proofs.Structured.Program

/-! # Shapes of structured programs

`Program.Shows` says that a block shows a program: statement for statement and in the same order,
and with each statement in the block in which it was written, apart from what an `else` starts with.
An `else` with nothing but a chain may be shown as the further arms of the chain around it. And where
an `else` starts with a condition that has an empty body and no further arms, the statements behind
this empty chain may be shown in an `else` of the arm that the condition becomes: they are not in the
block in which they were written, but in one that is left out where the condition holds.

A program can be shown from its code only if it has a certain shape. `Program.sound` is the exact
condition. It has two sides: unused results must stand where they are still on the stack at the end
of a statement of their block (`Program.callsSafe`), and what starts with a chain behind an `else`
must not go on behind that chain (`Program.elsesKept`). -/

namespace Daedalus.Structured

open Text

/-! ### Shown programs -/

mutual
/-- A block with one line per step shows a program. Its statements are in the blocks in which they were
written, apart from those that `Branches.Shows.passed` moves. -/
inductive Program.Shows (script : Script) : Program → Block → Prop
  | done : Program.Shows script .done .done
  | ret (result : Result) : Program.Shows script (.ret result) (.step (result.expr script) [] .done)
  | step {statement : Statement} {rest : Program} {block : Block}
    (hrest : Program.Shows script rest block) :
    Program.Shows script (.step statement rest) (.step (statement.expr script) [] block)
  | chain {condition : Term} {body rest : Program} {following : Branches} {block block' : Block}
    {arms : Arms}
    (hbody : Program.Shows script body block) (harms : Branches.Shows script following arms)
    (hrest : Program.Shows script rest block') :
    Program.Shows script (.chain condition body following rest)
      (.chain (condition.expr script) block arms block')
/-- The arms of a block show the further arms of a chain. A chain at the start of the last arm may be
shown in place of this arm, with what follows it in an arm of its own. -/
inductive Branches.Shows (script : Script) : Branches → Arms → Prop
  | done : Branches.Shows script .done .done
  | elseIf {condition : Term} {body : Program} {following : Branches} {block : Block} {arms : Arms}
    (hbody : Program.Shows script body block) (harms : Branches.Shows script following arms) :
    Branches.Shows script (.elseIf condition body following) (.elseIf (condition.expr script) block arms)
  | otherwise {body : Program} {block : Block} (hbody : Program.Shows script body block) :
    Branches.Shows script (.otherwise body) (.otherwise block)
  /-- A chain that is all of the last arm is shown as more arms. -/
  | joined {condition : Term} {body : Program} {following : Branches} {block : Block} {arms : Arms}
    (hbody : Program.Shows script body block) (harms : Branches.Shows script following arms) :
    Branches.Shows script (.otherwise (.chain condition body following .done))
      (.elseIf (condition.expr script) block arms)
  /-- An empty chain at the start of the last arm is shown as an arm in front of the rest: the
  statements behind the chain move into an arm without a condition behind that of the chain. -/
  | passed {condition : Term} {more : Program} {block : Block}
    (hsome : more.isDone = false) (hmore : Program.Shows script more block) :
    Branches.Shows script (.otherwise (.chain condition .done .done more))
      (.elseIf (condition.expr script) .done (.otherwise block))
end

/-! ### Conditions on the shape -/

mutual
/-- No arm without a condition starts with a chain. -/
def Program.plainElses : Program → Bool
  | .done | .ret _ => true
  | .step _ rest => rest.plainElses
  | .chain _ body arms rest => body.plainElses && arms.plainElses && rest.plainElses
/-- No arm without a condition starts with a chain, among the further arms of a chain. -/
def Branches.plainElses : Branches → Bool
  | .done => true
  | .elseIf _ body arms => body.plainElses && arms.plainElses
  | .otherwise body => !body.startsWithChain && body.plainElses
end

mutual
/-- Unused results are followed in their block by a statement or a return, with nothing but more
unused results between. The flag tells whether an unused result comes before. -/
def Program.settled (pending : Bool) : Program → Bool
  | .done => !pending
  | .ret _ => true
  | .step statement rest => rest.settled statement.isDiscard
  | .chain _ body arms rest =>
    !pending && body.settled false && arms.settled && rest.settled false
/-- Unused results are followed by a statement or a return in each of the further arms. -/
def Branches.settled : Branches → Bool
  | .done => true
  | .elseIf _ body arms => body.settled false && arms.settled
  | .otherwise body => body.settled false
end

mutual
/-- Where an arm without a condition starts with a chain, this chain is all of the arm; or it is a
condition with an empty body, and what follows does not start with another chain. -/
def Program.elsesKept : Program → Bool
  | .done | .ret _ => true
  | .step _ rest => rest.elsesKept
  | .chain _ body arms rest => body.elsesKept && arms.elsesKept && rest.elsesKept
/-- The same for the sequence that is the body of an arm without a condition. -/
def Program.elseKept : Program → Bool
  | .done | .ret _ => true
  | .step _ rest => rest.elsesKept
  | .chain _ body arms more =>
    if more.isDone then body.elsesKept && arms.elsesKept
    else body.isDone && arms.isDone && !more.startsWithChain && more.elsesKept
/-- The same for the further arms of a chain. -/
def Branches.elsesKept : Branches → Bool
  | .done => true
  | .elseIf _ body arms => body.elsesKept && arms.elsesKept
  | .otherwise body => body.elseKept
end

mutual
/-- Unused results are on the stack at the end of a statement of their block. They may not stand
directly before a chain, nor at the end of a block, unless the walk stops there: `tail` tells whether
it does so at the end of the sequence. -/
def Program.callsSafe (pending tail : Bool) : Program → Bool
  | .done => !pending || tail
  | .ret _ => true
  | .step statement rest => rest.callsSafe statement.isDiscard tail
  | .chain _ body arms rest =>
    !pending && body.callsSafe false arms.isDone && arms.callsSafe (tail && rest.isDone) &&
      rest.callsSafe false tail
/-- The same for an arm without a condition. The walk stops at the end of this arm once its first
statement is complete. -/
def Program.elseSafe (pending tail : Bool) : Program → Bool
  | .done => !pending || tail
  | .ret _ => true
  | .step statement rest =>
    if statement.isDiscard then rest.elseSafe true tail else rest.callsSafe false true
  | .chain _ _ _ _ => false
/-- The same for the further arms of a chain; `tail` tells whether the walk stops behind them. -/
def Branches.callsSafe (tail : Bool) : Branches → Bool
  | .done => true
  | .elseIf _ body arms => body.callsSafe false arms.isDone && arms.callsSafe tail
  | .otherwise body => body.elseSafe false tail
end

mutual
/-- The program can be shown from its code. -/
def Program.sound (pending tail : Bool) : Program → Bool
  | .done => !pending || tail
  | .ret _ => true
  | .step statement rest => rest.sound statement.isDiscard tail
  | .chain _ body arms rest =>
    !pending && body.sound false arms.isDone && arms.sound (tail && rest.isDone) &&
      rest.sound false tail
/-- The sequence can be shown from its code as the body of an arm without a condition. -/
def Program.elseSound (pending tail : Bool) : Program → Bool
  | .done => !pending || tail
  | .ret _ => true
  | .step statement rest =>
    if statement.isDiscard then rest.elseSound true tail else rest.sound false true
  | .chain _ body arms more =>
    !pending &&
      if more.isDone then body.sound false arms.isDone && arms.sound tail
      else body.isDone && arms.isDone && !more.startsWithChain && more.elseSound false tail
/-- The further arms of a chain can be shown from their code. -/
def Branches.sound (tail : Bool) : Branches → Bool
  | .done => true
  | .elseIf _ body arms => body.sound false arms.isDone && arms.sound tail
  | .otherwise body => body.elseSound false tail
end

/-! ### How the conditions are related -/

/-- Only a chain at the start makes a difference behind an `else`. -/
theorem Program.elseKept_eq {p : Program} (h : p.startsWithChain = false) :
    p.elseKept = p.elsesKept := by
  cases p with
  | chain => cases h
  | _ => rfl

/-- An unused result that is settled stands in front of no chain. -/
theorem Program.startsWithChain_of_settled {p : Program} (h : p.settled true = true) :
    p.startsWithChain = false := by
  cases p with
  | chain => simp [settled] at h
  | _ => rfl

/-- In a sound arm without a condition, an unused result stands in front of no chain. -/
theorem Program.startsWithChain_of_elseSound {p : Program} {tail : Bool}
    (h : p.elseSound true tail = true) : p.startsWithChain = false := by
  cases p with
  | chain => cases h
  | _ => rfl

mutual
/-- Arms without a condition that start with no chain are all kept. -/
theorem Program.elsesKept_of_plainElses : ∀ {p : Program}, p.plainElses = true → p.elsesKept = true
  | .done, _ | .ret _, _ => rfl
  | .step _ rest, h => Program.elsesKept_of_plainElses (p := rest) h
  | .chain _ body arms rest, h => by
    simp only [Program.plainElses, Bool.and_eq_true] at h
    simp [Program.elsesKept, Program.elsesKept_of_plainElses h.1.1,
      Branches.elsesKept_of_plainElses h.1.2, Program.elsesKept_of_plainElses h.2]
/-- The same for the further arms of a chain. -/
theorem Branches.elsesKept_of_plainElses :
    ∀ {b : Branches}, b.plainElses = true → b.elsesKept = true
  | .done, _ => rfl
  | .elseIf _ body arms, h => by
    simp only [Branches.plainElses, Bool.and_eq_true] at h
    simp [Branches.elsesKept, Program.elsesKept_of_plainElses h.1,
      Branches.elsesKept_of_plainElses h.2]
  | .otherwise body, h => by
    simp only [Branches.plainElses, Bool.and_eq_true, Bool.not_eq_true'] at h
    rw [Branches.elsesKept, Program.elseKept_eq h.1]
    exact Program.elsesKept_of_plainElses h.2
end

mutual
/-- Where unused results are settled, what matters is how the arms without a condition start. -/
theorem Program.sound_of_settled : ∀ {p : Program} {pending : Bool} (tail : Bool),
    p.settled pending = true → p.sound pending tail = p.elsesKept
  | .done, _, _, h => by
    have hpending : (!_) = true := h
    rw [Program.sound, hpending]
    rfl
  | .ret _, _, _, _ => rfl
  | .step _ rest, _, tail, h => rest.sound_of_settled tail h
  | .chain _ body arms rest, _, tail, h => by
    simp only [Program.settled, Bool.and_eq_true] at h
    obtain ⟨⟨⟨hpending, hbody⟩, harms⟩, hrest⟩ := h
    rw [Program.sound, Program.elsesKept, hpending, body.sound_of_settled _ hbody,
      arms.sound_of_settled _ harms, rest.sound_of_settled _ hrest, Bool.true_and]
/-- The same for the body of an arm without a condition. -/
theorem Program.elseSound_of_settled : ∀ {p : Program} {pending : Bool} (tail : Bool),
    p.settled pending = true → p.elseSound pending tail = p.elseKept
  | .done, _, _, h => by
    have hpending : (!_) = true := h
    rw [Program.elseSound, hpending]
    rfl
  | .ret _, _, _, _ => rfl
  | .step statement rest, _, tail, h => by
    rw [Program.settled] at h
    rw [Program.elseSound, Program.elseKept]
    cases hdiscard : statement.isDiscard with
    | true =>
      -- What follows a settled result is no chain, so it is kept in either way.
      rw [hdiscard] at h
      rw [if_pos rfl, rest.elseSound_of_settled tail h,
        Program.elseKept_eq (Program.startsWithChain_of_settled h)]
    | false =>
      rw [hdiscard] at h
      rw [if_neg (by decide), rest.sound_of_settled true h]
  | .chain _ body arms more, _, tail, h => by
    simp only [Program.settled, Bool.and_eq_true] at h
    obtain ⟨⟨⟨hpending, hbody⟩, harms⟩, hmore⟩ := h
    rw [Program.elseSound, Program.elseKept, hpending, Bool.true_and,
      body.sound_of_settled _ hbody, arms.sound_of_settled _ harms,
      more.elseSound_of_settled _ hmore]
    cases hchain : more.startsWithChain with
    | true => simp
    | false => rw [Program.elseKept_eq hchain]
/-- The same for the further arms of a chain. -/
theorem Branches.sound_of_settled : ∀ {b : Branches} (tail : Bool),
    b.settled = true → b.sound tail = b.elsesKept
  | .done, _, _ => rfl
  | .elseIf _ body arms, tail, h => by
    simp only [Branches.settled, Bool.and_eq_true] at h
    rw [Branches.sound, Branches.elsesKept, body.sound_of_settled _ h.1,
      arms.sound_of_settled _ h.2]
  | .otherwise body, tail, h => body.elseSound_of_settled tail h
end

mutual
/-- Where no arm without a condition starts with a chain, what matters is where unused results
stand. -/
theorem Program.sound_of_plainElses : ∀ {p : Program} (pending tail : Bool),
    p.plainElses = true → p.sound pending tail = p.callsSafe pending tail
  | .done, _, _, _ | .ret _, _, _, _ => rfl
  | .step _ rest, _, tail, h => rest.sound_of_plainElses _ tail h
  | .chain _ body arms rest, _, tail, h => by
    simp only [Program.plainElses, Bool.and_eq_true] at h
    rw [Program.sound, Program.callsSafe, body.sound_of_plainElses _ _ h.1.1,
      arms.sound_of_plainElses _ h.1.2, rest.sound_of_plainElses _ _ h.2]
/-- The same for the body of an arm without a condition. -/
theorem Program.elseSound_of_plainElses : ∀ {p : Program} {pending : Bool} (tail : Bool),
    p.plainElses = true → (p.startsWithChain = true → pending = true) →
      p.elseSound pending tail = p.elseSafe pending tail
  | .done, _, _, _, _ | .ret _, _, _, _, _ => rfl
  | .step statement rest, _, tail, h, _ => by
    rw [Program.elseSound, Program.elseSafe, rest.elseSound_of_plainElses tail h fun _ => rfl,
      rest.sound_of_plainElses _ _ h]
  | .chain _ _ _ _, _, _, _, hpending => by
    rw [Program.elseSound, hpending rfl]
    rfl
/-- The same for the further arms of a chain. -/
theorem Branches.sound_of_plainElses : ∀ {b : Branches} (tail : Bool),
    b.plainElses = true → b.sound tail = b.callsSafe tail
  | .done, _, _ => rfl
  | .elseIf _ body arms, tail, h => by
    simp only [Branches.plainElses, Bool.and_eq_true] at h
    rw [Branches.sound, Branches.callsSafe, body.sound_of_plainElses _ _ h.1,
      arms.sound_of_plainElses _ h.2]
  | .otherwise body, tail, h => by
    simp only [Branches.plainElses, Bool.and_eq_true, Bool.not_eq_true'] at h
    refine body.elseSound_of_plainElses tail h.2 fun hchain => ?_
    rw [h.1] at hchain
    cases hchain
end

mutual
/-- A sound program keeps what follows a chain at the start of an arm without a condition. -/
theorem Program.elsesKept_of_sound : ∀ {p : Program} {pending tail : Bool},
    p.sound pending tail = true → p.elsesKept = true
  | .done, _, _, _ | .ret _, _, _, _ => rfl
  | .step _ rest, _, _, h => by
    rw [Program.sound] at h
    exact rest.elsesKept_of_sound h
  | .chain _ body arms rest, _, _, h => by
    simp only [Program.sound, Bool.and_eq_true] at h
    simp [Program.elsesKept, body.elsesKept_of_sound h.1.1.2, arms.elsesKept_of_sound h.1.2,
      rest.elsesKept_of_sound h.2]
/-- The same for the body of an arm without a condition. -/
theorem Program.elseKept_of_elseSound : ∀ {p : Program} {pending tail : Bool},
    p.elseSound pending tail = true → p.elseKept = true
  | .done, _, _, _ | .ret _, _, _, _ => rfl
  | .step statement rest, _, _, h => by
    rw [Program.elseSound] at h
    rw [Program.elseKept]
    cases hdiscard : statement.isDiscard with
    | false =>
      rw [hdiscard] at h
      exact rest.elsesKept_of_sound h
    | true =>
      -- The rest is still an arm without a condition, but it may not start with a chain.
      rw [hdiscard, if_pos rfl] at h
      rw [← Program.elseKept_eq (Program.startsWithChain_of_elseSound h)]
      exact rest.elseKept_of_elseSound h
  | .chain _ body arms more, _, _, h => by
    simp only [Program.elseSound, Bool.and_eq_true] at h
    rw [Program.elseKept]
    cases hdone : more.isDone with
    | true =>
      rw [hdone, if_pos rfl, Bool.and_eq_true] at h
      simp [body.elsesKept_of_sound h.2.1, arms.elsesKept_of_sound h.2.2]
    | false =>
      rw [hdone, if_neg Bool.false_ne_true] at h
      simp only [Bool.and_eq_true, Bool.not_eq_true'] at h
      obtain ⟨-, ⟨⟨hbody, harms⟩, hchain⟩, hmore⟩ := h
      simp [hbody, harms, hchain, ← Program.elseKept_eq hchain, more.elseKept_of_elseSound hmore]
/-- The same for the further arms of a chain. -/
theorem Branches.elsesKept_of_sound : ∀ {b : Branches} {tail : Bool},
    b.sound tail = true → b.elsesKept = true
  | .done, _, _ => rfl
  | .elseIf _ body arms, _, h => by
    rw [Branches.sound, Bool.and_eq_true] at h
    rw [Branches.elsesKept, body.elsesKept_of_sound h.1, arms.elsesKept_of_sound h.2]
    rfl
  | .otherwise body, _, h => body.elseKept_of_elseSound h
end

end Daedalus.Structured
