import Daedalus.Proofs.Progress

/-! # The turns of a walk

The calls of a walk that cut off a statement are its turns. Each turn recovers the condition of an
arm, or a statement with the results that were left unused before it. A walk that comes to an end
gives these expressions in the order of its turns, which is the order of their lines in the text. -/

namespace Daedalus

mutual
/-- The statements and conditions of a block in the order in which they are recovered. -/
def Block.expressions : Block → List Expr
  | .done => []
  | .step main unused rest => main :: unused ++ rest.expressions
  | .chain condition body arms rest =>
    condition :: (body.expressions ++ arms.expressions ++ rest.expressions)
/-- The statements and conditions of the further arms of a chain. -/
def Arms.expressions : Arms → List Expr
  | .done => []
  | .elseIf condition body rest => condition :: (body.expressions ++ rest.expressions)
  | .otherwise body => body.expressions
end

namespace Setting

/-! ### What a call walks through -/

namespace Call

/-- The bound of the block that a call belongs to. -/
def bound : Call → Nat
  | .block _ bound _ _ | .statements _ bound _ _ _ | .resume _ bound _ _ _
  | .arms _ bound _ _ _ _ | .otherwise _ bound _ _ _ _ _ => bound

/-- The active instance where a call starts. -/
def active : Call → Option UInt32
  | .block _ _ active _ | .statements _ _ active _ _ | .resume _ _ active _ _
  | .arms _ _ active _ _ _ | .otherwise _ _ active _ _ _ _ => active

/-- The operands that a call is handed. -/
def stack : Call → List Frame
  | .block _ _ _ _ => []
  | .statements _ _ _ stack _ | .resume _ _ _ stack _ | .arms _ _ _ stack _ _
  | .otherwise _ _ _ stack _ _ _ => stack

instance : DecidablePred IsTurn
  | .statements _ _ _ _ _ => .isTrue trivial
  | .arms _ bound _ _ exit pc => inferInstanceAs (Decidable (pc < exit ∧ pc < bound))
  | .block _ _ _ _ | .resume _ _ _ _ _ | .otherwise _ _ _ _ _ _ _ => .isFalse id

end Call

variable (s : Setting)

/-- The statement that a turn cuts off. -/
def cut? (call : Call) : Option Cut :=
  if call.IsTurn then (s.script.cut call.bound call.active call.stack call.pc).toOption else none

/-- What is recovered behind a cut: the condition of a branch, or the statement and the results that
it leaves unused. A jump has no text. -/
def recoveredBehind (c : Cut) : List Expr :=
  match c.flow with
  | .branch _ => [(s.popExpr c.active c.stack).1]
  | .jump _ => []
  | .ret | .next => (s.statement c).1 :: (s.statement c).2

/-- What a call recovers by itself. -/
def recovered (call : Call) : List Expr := (s.cut? call).toList.flatMap s.recoveredBehind

/-- What is recovered in the run of a call, turn by turn. -/
def recoveredIn (call : Call) : List Expr := (s.trace call).flatMap s.recovered

variable {s} {depth bound exit pc : Nat} {active : Option UInt32} {stack : List Frame}
  {opening : Block → Block} {c : Cut} {call : Call}

/-- A turn cuts off the statement at its position. -/
theorem cut?_of_isTurn (hturn : call.IsTurn)
    (hcut : s.script.cut call.bound call.active call.stack call.pc = .ok c) :
    s.cut? call = some c := by
  rw [cut?, if_pos hturn, hcut]
  rfl

/-- A call that is no turn cuts off nothing. -/
theorem cut?_of_not_isTurn (h : ¬call.IsTurn) : s.cut? call = none := if_neg h

/-- A turn that fails cuts off nothing. -/
theorem cut?_of_error {fault : Fault}
    (hcut : s.script.cut call.bound call.active call.stack call.pc = .error fault) :
    s.cut? call = none := by
  rw [cut?, hcut]
  split <;> rfl

/-- What is gathered from the cut of a turn. -/
theorem flatMap_cut? {α : Type} (f : Cut → List α) (hturn : call.IsTurn)
    (hcut : s.script.cut call.bound call.active call.stack call.pc = .ok c) :
    (s.cut? call).toList.flatMap f = f c := by
  rw [cut?_of_isTurn hturn hcut]
  exact List.flatMap_singleton f c

/-- A call that is no turn recovers nothing by itself. -/
theorem recovered_of_not_isTurn (h : ¬call.IsTurn) : s.recovered call = [] := by
  rw [recovered, cut?_of_not_isTurn h]
  rfl

/-- What the calls of a run give is what the first call gives, and what the runs of the calls that it
makes give one behind the other. -/
theorem flatMap_trace {α : Type} (f : Call → List α) (call : Call) :
    (s.trace call).flatMap f =
      f call ++ (s.calls call).flatMap fun next => (s.trace next).flatMap f := by
  rw [trace_eq, List.flatMap_cons, List.flatMap_assoc]

/-- A call recovers its own expressions, and then its calls recover theirs. -/
theorem recoveredIn_eq (call : Call) :
    s.recoveredIn call = s.recovered call ++ (s.calls call).flatMap s.recoveredIn :=
  flatMap_trace s.recovered call

/-! ### The order of a text -/

/-- The expressions that a call gives stand in the order of the turns of its run. -/
def InOrder (s : Setting) : Call → Prop
  | .block depth bound active pc =>
    ∀ walk, s.block depth bound active pc = .ok walk →
      walk.block.expressions = s.recoveredIn (.block depth bound active pc)
  | .statements depth bound active stack pc =>
    ∀ walk, s.statements depth bound active stack pc = .ok walk →
      walk.block.expressions = s.recoveredIn (.statements depth bound active stack pc)
  | .resume depth bound active stack pc =>
    ∀ walk, s.resume depth bound active stack pc = .ok walk →
      walk.block.expressions = s.recoveredIn (.resume depth bound active stack pc)
  | .arms depth bound active stack exit pc =>
    ∀ arms walk, s.arms depth bound active stack exit pc = .ok (arms, walk) →
      arms.expressions ++ walk.block.expressions =
        s.recoveredIn (.arms depth bound active stack exit pc)
  | .otherwise depth bound active stack opening exit pc =>
    ∀ before : List Expr, (∀ body, (opening body).expressions = before ++ body.expressions) →
      ∀ arms walk, s.otherwise depth bound active stack opening exit pc = .ok (arms, walk) →
        arms.expressions ++ walk.block.expressions =
          before ++ s.recoveredIn (.otherwise depth bound active stack opening exit pc)

/-- The turn of a block is in order if the calls that it makes are. -/
theorem inOrder_statements
    (ih : ∀ next, s.Makes (.statements depth bound active stack pc) next → s.InOrder next) :
    s.InOrder (.statements depth bound active stack pc) := by
  intro walk h
  rw [statements_eq] at h
  obtain ⟨c, hcut, hafter⟩ := exists_of_bind_eq_ok h
  have hcalls : s.calls (.statements depth bound active stack pc) = s.callsAfterCut depth bound c := by
    rw [calls, hcut]
  have hrecovered : s.recovered (.statements depth bound active stack pc) = s.recoveredBehind c :=
    flatMap_cut? s.recoveredBehind trivial hcut
  rw [recoveredIn_eq, hrecovered, hcalls, recoveredBehind, callsAfterCut]
  -- For each way on behind the cut, the calls are those of the trace, in the order of the lines.
  cases s.walkedFrom_of_afterCut hafter with
  | jump hflow => simp [hflow, Walk.stop, Block.expressions]
  | ret hflow => simp [hflow, Block.expressions]
  | next hflow hrest =>
    simp [hflow, Walk.mapBlock, Block.expressions, ih _ (.next hcut) _ hrest]
  | emptyArm hflow hrest =>
    simp [hflow, Walk.mapBlock, Block.expressions, Arms.expressions, ih _ (.next hcut) _ hrest]
  | arm hflow hforward hbody harms =>
    have hinner := ih _ (.arm hcut hflow hforward) _ hbody
    have hfurther := ih _ (.behindArm hcut hflow hforward hbody) _ _ harms
    have hnot := Nat.not_lt.mpr (Nat.le_of_lt hforward)
    simp only [hflow, Walk.mapBlock, Block.expressions, if_neg hnot, if_neg (Nat.ne_of_lt hforward),
      blockThen, hbody, List.append_assoc, hinner, hfurther]
    simp

/-- The turn of a chain is in order if the calls that it makes are. -/
theorem inOrder_arms
    (ih : ∀ next, s.Makes (.arms depth bound active stack exit pc) next → s.InOrder next) :
    s.InOrder (.arms depth bound active stack exit pc) := by
  intro arms walk h
  by_cases hturn : pc < exit ∧ pc < bound
  · rw [s.arms_eq hturn.1 hturn.2] at h
    obtain ⟨c, hcut, hafter⟩ := exists_of_bind_eq_ok h
    have hcalls : s.calls (.arms depth bound active stack exit pc) =
        s.callsAfterArm depth bound exit c := by
      rw [calls, if_pos hturn, hcut]
    have hrecovered : s.recovered (.arms depth bound active stack exit pc) = s.recoveredBehind c :=
      flatMap_cut? s.recoveredBehind hturn hcut
    rw [recoveredIn_eq, hrecovered, hcalls, recoveredBehind, callsAfterArm]
    generalize hresult : (arms, walk) = result at hafter
    cases s.armsWalkedFrom_of_armAfterCut hafter with
    | jumped hflow hwalk =>
      cases hresult
      have hlast := ih _ (.otherwise hcut) [] (fun _ => rfl) _ _ hwalk
      simp only [hflow, List.nil_append, List.flatMap_singleton]
      exact hlast
    | stepped hflow hwalk =>
      cases hresult
      -- The statement is the first one of the arm without a condition.
      have hlast := ih _ (.otherwise hcut) ((s.statement c).1 :: (s.statement c).2)
        (fun _ => rfl) _ _ hwalk
      rcases hflow with hflow | hflow
      · simp only [hflow, List.flatMap_singleton]
        exact hlast
      · simp only [hflow, List.flatMap_singleton]
        exact hlast
    | emptyElseIf hflow hwalk =>
      cases hresult
      have hfurther := ih _ (.emptyElseIf hcut) _ _ hwalk
      simp [hflow, Arms.expressions, Block.expressions, hfurther]
    | elseIf hflow hforward hbody hwalk =>
      cases hresult
      have hinner := ih _ (.elseIf hcut hflow hforward) _ hbody
      have hfurther := ih _ (.behindElseIf hcut hflow hforward hbody) _ _ hwalk
      have hnot := Nat.not_lt.mpr (Nat.le_of_lt hforward)
      simp only [hflow, Arms.expressions, if_neg hnot, if_neg (Nat.ne_of_lt hforward), blockThen,
        hbody, List.cons_append, List.append_assoc, hinner, hfurther]
      simp
  · rw [Setting.arms, if_neg hturn] at h
    obtain ⟨rest, hrest, heq⟩ := exists_of_map_eq_ok h
    cases heq
    have hrecovered : s.recovered (.arms depth bound active stack exit pc) = [] :=
      recovered_of_not_isTurn hturn
    rw [recoveredIn_eq, hrecovered, calls, if_neg hturn, List.flatMap_singleton]
    exact ih _ (.noArm hturn) _ hrest

/-- The last arm of a chain is in order if the calls that it makes are. -/
theorem inOrder_otherwise
    (ih : ∀ next, s.Makes (.otherwise depth bound active stack opening exit pc) next →
      s.InOrder next) :
    s.InOrder (.otherwise depth bound active stack opening exit pc) := by
  intro before hbefore arms walk h
  rw [recoveredIn_eq, recovered_of_not_isTurn id, calls]
  -- What was opened comes first, then the body of the arm, then what follows the chain.
  rcases Nat.lt_or_ge pc exit with hlt | hge
  · rw [s.otherwise_of_lt hlt] at h
    obtain ⟨body, hbody, hmap⟩ := exists_of_bind_eq_ok h
    obtain ⟨rest, hrest, heq⟩ := exists_of_map_eq_ok hmap
    cases heq
    have hinner := ih _ (.lastArm hlt) _ hbody
    have hbehind := ih _ (.behindLastArm hlt hbody) _ hrest
    simp [if_pos hlt, blockThen, hbody, Arms.expressions, hbefore, hinner, hbehind]
  · rw [s.otherwise_of_le hge] at h
    obtain ⟨rest, hrest, heq⟩ := exists_of_map_eq_ok h
    cases heq
    have hbehind := ih _ (.lastArmEnded hge) _ hrest
    simp [if_neg (Nat.not_lt.mpr hge), Arms.expressions, hbefore, Block.expressions, hbehind]

/-- **The expressions of a walk stand in the order of its turns.** -/
theorem inOrder (call : Call) : s.InOrder call := by
  induction call using s.call_induction with
  | step call ih =>
    cases call with
    | block depth bound active pc =>
      intro walk h
      rw [recoveredIn_eq, recovered_of_not_isTurn id, calls]
      rw [Setting.block] at h
      split at h
      · cases h
      · next hdepth =>
        rw [if_neg hdepth, List.flatMap_singleton]
        exact ih _ (.enter (Nat.not_le.mp hdepth)) walk h
    | statements => exact inOrder_statements ih
    | resume depth bound active stack pc =>
      intro walk h
      rw [recoveredIn_eq, recovered_of_not_isTurn id, calls]
      rw [Setting.resume] at h
      split at h
      · next hbound =>
        cases h
        rw [if_pos hbound]
        rfl
      · next hbound =>
        rw [if_neg hbound, List.flatMap_singleton]
        exact ih _ (.goOn (Nat.not_le.mp hbound)) walk h
    -- The turns themselves have been dealt with; blocks and what resumes them only hand on.
    | arms => exact inOrder_arms ih
    | otherwise => exact inOrder_otherwise ih

end Setting

end Daedalus
