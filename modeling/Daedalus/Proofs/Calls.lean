import Daedalus.Proofs.Walk

/-! # The calls of a walk

A walk through code is a tree of calls of the functions that walk. `calls` gives the calls that one
call makes, in order, and `trace` all calls of a run, a call before those it makes. The trace is
finite because the rank of a call, the code that is left, goes down from call to call. It is all
there is to a run: the fault of a run is the first one that a call of its trace raises by itself. -/

namespace Daedalus

/-- The fault of a computation that failed. -/
def faultOf {α : Type} : Except Fault α → Option Fault
  | .ok _ => none
  | .error fault => some fault

/-- A computation that succeeded has no fault. -/
@[simp] theorem faultOf_ok {α : Type} (x : α) : faultOf (.ok x) = none := rfl

/-- A computation that failed has its fault. -/
@[simp] theorem faultOf_error {α : Type} (fault : Fault) :
    faultOf (.error fault : Except Fault α) = some fault := rfl

/-- The fault of a computation is the one it failed with. -/
theorem faultOf_eq_some {α : Type} {x : Except Fault α} {fault : Fault} :
    faultOf x = some fault ↔ x = .error fault := by
  cases x with
  | ok => simp
  | error other => simp

/-- A fault stays the same whatever is done with results. -/
@[simp] theorem faultOf_map {α β : Type} (f : α → β) (x : Except Fault α) :
    faultOf (f <$> x) = faultOf x := by
  cases x <;> rfl

/-- The branch of a statement goes back. -/
def Cut.backward? (c : Cut) : Option Fault :=
  match c.flow with
  | .branch target =>
    if target < c.next then some (.backwardBranch c.last.instr.pc target) else none
  | _ => none

namespace Setting

/-- A call of one of the functions that walk through code, with its arguments. -/
inductive Call where
  | block (depth bound : Nat) (active : Option UInt32) (pc : Nat)
  | statements (depth bound : Nat) (active : Option UInt32) (stack : List Frame) (pc : Nat)
  | resume (depth bound : Nat) (active : Option UInt32) (stack : List Frame) (pc : Nat)
  | arms (depth bound : Nat) (active : Option UInt32) (stack : List Frame) (exit pc : Nat)
  | otherwise (depth bound : Nat) (active : Option UInt32) (stack : List Frame)
      (opening : Block → Block) (exit pc : Nat)

/-- The position at which a call starts. -/
def Call.pc : Call → Nat
  | .block _ _ _ pc | .statements _ _ _ _ pc | .resume _ _ _ _ pc => pc
  | .arms _ _ _ _ _ pc | .otherwise _ _ _ _ _ _ pc => pc

variable (s : Setting)

/-! ### The calls that a call makes -/

/-- The walk through an inner block, and the call that is made with what it gives. -/
def blockThen (depth bound : Nat) (active : Option UInt32) (pc : Nat) (next : Walk → Call) :
    List Call :=
  .block depth bound active pc ::
    match s.block depth bound active pc with
    | .error _ => []
    | .ok body => [next body]

/-- The calls that the statements of a block make behind the first cut. -/
def callsAfterCut (depth bound : Nat) (c : Cut) : List Call :=
  match c.flow with
  | .branch target =>
    let stack := (s.popExpr c.active c.stack).2
    if target < c.next then []
    else if c.next = target then [.resume depth bound c.active stack c.next]
    else
      s.blockThen (depth + 1) target c.active c.next fun body =>
        .arms depth bound body.active stack body.exit target
  | .jump _ | .ret => []
  | .next => [.resume depth bound c.active [] c.next]

/-- The calls that the further arms of a chain make behind the first cut. -/
def callsAfterArm (depth bound exit : Nat) (c : Cut) : List Call :=
  match c.flow with
  | .branch target =>
    let stack := (s.popExpr c.active c.stack).2
    if target < c.next then []
    else if c.next = target then [.arms depth bound c.active stack exit target]
    else
      s.blockThen (depth + 1) target c.active c.next fun body =>
        .arms depth bound body.active stack body.exit target
  | .jump _ => [.otherwise depth bound c.active c.stack id exit c.next]
  | .ret | .next =>
    let step := s.statement c
    [.otherwise depth bound c.active [] (.step step.1 step.2) exit c.next]

/-- The calls that a call makes, in order. -/
def calls : Call → List Call
  | .block depth bound active pc =>
    if s.limit ≤ depth then [] else [.statements depth bound active [] pc]
  | .statements depth bound active stack pc =>
    match s.script.cut bound active stack pc with
    | .error _ => []
    | .ok c => s.callsAfterCut depth bound c
  | .resume depth bound active stack pc =>
    if bound ≤ pc then [] else [.statements depth bound active stack pc]
  | .arms depth bound active stack exit pc =>
    if pc < exit ∧ pc < bound then
      match s.script.cut bound active stack pc with
      | .error _ => []
      | .ok c => s.callsAfterArm depth bound exit c
    else [.resume depth bound active stack pc]
  | .otherwise depth bound active stack _ exit pc =>
    if pc < exit then
      s.blockThen (depth + 1) exit active pc fun body => .resume depth bound body.active stack exit
    else [.resume depth bound active stack pc]

variable {s} {call next : Call} {depth bound exit pc target : Nat} {active : Option UInt32}
  {stack : List Frame} {opening : Block → Block} {c : Cut}

/-! ### Faults -/

/-- The walk that a call gives. -/
def walk (s : Setting) : Call → Except Fault Walk
  | .block depth bound active pc => s.block depth bound active pc
  | .statements depth bound active stack pc => s.statements depth bound active stack pc
  | .resume depth bound active stack pc => s.resume depth bound active stack pc
  | .arms depth bound active stack exit pc => Prod.snd <$> s.arms depth bound active stack exit pc
  | .otherwise depth bound active stack opening exit pc =>
    Prod.snd <$> s.otherwise depth bound active stack opening exit pc

/-- The fault that a call fails with. -/
def fault? (s : Setting) (call : Call) : Option Fault := faultOf (s.walk call)

/-- A call for a block fails as the walk through the block does. -/
@[simp] theorem fault?_block : s.fault? (.block depth bound active pc) =
    faultOf (s.block depth bound active pc) := rfl

/-- A call for statements fails as the walk through them does. -/
@[simp] theorem fault?_statements : s.fault? (.statements depth bound active stack pc) =
    faultOf (s.statements depth bound active stack pc) := rfl

/-- A call to go on fails as the rest of the walk does. -/
@[simp] theorem fault?_resume : s.fault? (.resume depth bound active stack pc) =
    faultOf (s.resume depth bound active stack pc) := rfl

/-- A call for further arms fails as the walk through them does. -/
@[simp] theorem fault?_arms : s.fault? (.arms depth bound active stack exit pc) =
    faultOf (s.arms depth bound active stack exit pc) := faultOf_map _ _

/-- A call for an arm without a condition fails as the walk through it does. -/
@[simp] theorem fault?_otherwise : s.fault? (.otherwise depth bound active stack opening exit pc) =
    faultOf (s.otherwise depth bound active stack opening exit pc) := faultOf_map _ _

/-- The fault of the statement that is cut off first: the code cannot be decoded, or goes back. -/
def cutFault? (s : Setting) (bound : Nat) (active : Option UInt32) (stack : List Frame)
    (pc : Nat) : Option Fault :=
  match s.script.cut bound active stack pc with
  | .error fault => some fault
  | .ok c => c.backward?

/-- The fault that a call raises by itself, and not in one of the calls that it makes. -/
def raised? (s : Setting) : Call → Option Fault
  | .block depth _ _ pc => if s.limit ≤ depth then some (.nestingTooDeep s.limit pc) else none
  | .statements _ bound active stack pc => s.cutFault? bound active stack pc
  | .arms _ bound active stack exit pc =>
    if pc < exit ∧ pc < bound then s.cutFault? bound active stack pc else none
  | .resume _ _ _ _ _ | .otherwise _ _ _ _ _ _ _ => none

/-- The fault of a walk through an inner block and of what is done with the outcome. -/
theorem faultOf_block_bind {α : Type} {more : Walk → Call} {value : Walk → Except Fault α}
    (h : ∀ body, faultOf (value body) = s.fault? (more body)) :
    faultOf (s.block depth bound active pc >>= value) =
      (s.blockThen depth bound active pc more).findSome? s.fault? := by
  rw [blockThen, List.findSome?_cons, fault?_block]
  cases s.block depth bound active pc with
  | error fault => rfl
  | ok body =>
    show faultOf (value body) = [more body].findSome? s.fault?
    rw [List.findSome?_singleton, h body]

/-- Behind the first statement, a walk fails because of a branch that goes back, or with the first
fault of the calls that it makes. -/
theorem faultOf_afterCut : faultOf (s.afterCut depth bound c) =
    c.backward?.or ((s.callsAfterCut depth bound c).findSome? s.fault?) := by
  cases hflow : c.flow with
  | jump target => simp [afterCut_jump s hflow, Cut.backward?, callsAfterCut, hflow]
  | ret => simp [afterCut_ret s hflow, Cut.backward?, callsAfterCut, hflow]
  | next => simp [afterCut_next s hflow, Cut.backward?, callsAfterCut, hflow]
  | branch target =>
    -- The branch goes back, or over nothing, or over the code of an arm.
    rcases Nat.lt_trichotomy target c.next with hlt | heq | hgt
    · simp [afterCut, Cut.backward?, hflow, hlt]
    · simp [afterCut_branch_empty s hflow heq.symm, Cut.backward?, callsAfterCut, hflow, heq]
    · have hnot : ¬target < c.next := Nat.not_lt.mpr (Nat.le_of_lt hgt)
      simp only [afterCut_branch s hflow hgt, Cut.backward?, callsAfterCut, hflow, hnot,
        Nat.ne_of_lt hgt, if_false, Option.none_or]
      exact faultOf_block_bind fun body => by simp

/-- Behind the first statement of an arm, a walk fails because of a branch that goes back, or with
the first fault of the calls that it makes. -/
theorem faultOf_armAfterCut : faultOf (s.armAfterCut depth bound exit c) =
    c.backward?.or ((s.callsAfterArm depth bound exit c).findSome? s.fault?) := by
  cases hflow : c.flow with
  | jump target => simp [armAfterCut_jump s hflow, Cut.backward?, callsAfterArm, hflow]
  | ret => simp [armAfterCut_ret s hflow, Cut.backward?, callsAfterArm, hflow]
  | next => simp [armAfterCut_next s hflow, Cut.backward?, callsAfterArm, hflow]
  | branch target =>
    rcases Nat.lt_trichotomy target c.next with hlt | heq | hgt
    · simp [armAfterCut, Cut.backward?, hflow, hlt]
    · simp [armAfterCut_branch_empty s hflow heq.symm, Cut.backward?, callsAfterArm, hflow, heq]
    · have hnot : ¬target < c.next := Nat.not_lt.mpr (Nat.le_of_lt hgt)
      simp only [armAfterCut_branch s hflow hgt, Cut.backward?, callsAfterArm, hflow, hnot,
        Nat.ne_of_lt hgt, if_false, Option.none_or]
      exact faultOf_block_bind fun body => by simp

/-- **A call fails with its own fault or the first one of the calls that it makes.** -/
theorem fault?_eq (call : Call) :
    s.fault? call = (s.raised? call).or ((s.calls call).findSome? s.fault?) := by
  cases call with
  | block depth bound active pc =>
    by_cases hdepth : s.limit ≤ depth
    · simp [raised?, calls, hdepth, Setting.block]
    · simp [raised?, calls, hdepth, Setting.block]
  | statements depth bound active stack pc =>
    -- The cut fails by itself; what comes behind it fails as its calls do.
    rw [fault?_statements, statements_eq, raised?, cutFault?, calls]
    cases s.script.cut bound active stack pc with
    | error fault => rfl
    | ok c => exact faultOf_afterCut
  | resume depth bound active stack pc =>
    by_cases hbound : bound ≤ pc
    · simp [raised?, calls, hbound, Setting.resume]
    · simp [raised?, calls, hbound, Setting.resume]
  | arms depth bound active stack exit pc =>
    by_cases hcont : pc < exit ∧ pc < bound
    · rw [fault?_arms, arms_eq s hcont.1 hcont.2, raised?, if_pos hcont, cutFault?, calls,
        if_pos hcont]
      cases s.script.cut bound active stack pc with
      | error fault => rfl
      | ok c => exact faultOf_armAfterCut
    · simp only [raised?, calls, if_neg hcont, Option.none_or, List.findSome?_singleton]
      rw [fault?_arms, fault?_resume, Setting.arms, if_neg hcont, faultOf_map]
  | otherwise depth bound active stack opening exit pc =>
    rcases Nat.lt_or_ge pc exit with hlt | hge
    · simp only [raised?, calls, if_pos hlt, Option.none_or]
      rw [fault?_otherwise, otherwise_of_lt s hlt]
      exact faultOf_block_bind fun body => by simp
    · simp only [raised?, calls, if_neg (Nat.not_lt.mpr hge), Option.none_or,
        List.findSome?_singleton, fault?_otherwise, fault?_resume, otherwise_of_le s hge,
        faultOf_map]

/-! ### What a call can lead to -/

/-- A call makes another one. Each rule is one place from which the functions call each other. -/
inductive Makes (s : Setting) : Call → Call → Prop where
  | enter {depth bound pc : Nat} {active : Option UInt32} (hdepth : depth < s.limit) :
    Makes s (.block depth bound active pc) (.statements depth bound active [] pc)
  | goOn {depth bound pc : Nat} {active : Option UInt32} {stack : List Frame}
    (hbound : pc < bound) :
    Makes s (.resume depth bound active stack pc) (.statements depth bound active stack pc)
  | next {depth bound pc : Nat} {active : Option UInt32} {stack rest : List Frame} {c : Cut}
    (hcut : s.script.cut bound active stack pc = .ok c) :
    Makes s (.statements depth bound active stack pc) (.resume depth bound c.active rest c.next)
  | arm {depth bound pc target : Nat} {active : Option UInt32} {stack : List Frame} {c : Cut}
    (hcut : s.script.cut bound active stack pc = .ok c) (hflow : c.flow = .branch target)
    (hforward : c.next < target) :
    Makes s (.statements depth bound active stack pc) (.block (depth + 1) target c.active c.next)
  | behindArm {depth bound pc target : Nat} {active : Option UInt32} {stack rest : List Frame}
    {c : Cut} {body : Walk} (hcut : s.script.cut bound active stack pc = .ok c)
    (hflow : c.flow = .branch target) (hforward : c.next < target)
    (hbody : s.block (depth + 1) target c.active c.next = .ok body) :
    Makes s (.statements depth bound active stack pc)
      (.arms depth bound body.active rest body.exit target)
  | noArm {depth bound pc exit : Nat} {active : Option UInt32} {stack : List Frame}
    (hended : ¬(pc < exit ∧ pc < bound)) :
    Makes s (.arms depth bound active stack exit pc) (.resume depth bound active stack pc)
  | emptyElseIf {depth bound pc exit : Nat} {active : Option UInt32} {stack rest : List Frame}
    {c : Cut} (hcut : s.script.cut bound active stack pc = .ok c) :
    Makes s (.arms depth bound active stack exit pc) (.arms depth bound c.active rest exit c.next)
  | elseIf {depth bound pc exit target : Nat} {active : Option UInt32} {stack : List Frame}
    {c : Cut} (hcut : s.script.cut bound active stack pc = .ok c) (hflow : c.flow = .branch target)
    (hforward : c.next < target) :
    Makes s (.arms depth bound active stack exit pc) (.block (depth + 1) target c.active c.next)
  | behindElseIf {depth bound pc exit target : Nat} {active : Option UInt32}
    {stack rest : List Frame} {c : Cut} {body : Walk}
    (hcut : s.script.cut bound active stack pc = .ok c) (hflow : c.flow = .branch target)
    (hforward : c.next < target)
    (hbody : s.block (depth + 1) target c.active c.next = .ok body) :
    Makes s (.arms depth bound active stack exit pc)
      (.arms depth bound body.active rest body.exit target)
  | otherwise {depth bound pc exit : Nat} {active : Option UInt32} {stack rest : List Frame}
    {c : Cut} {opening : Block → Block} (hcut : s.script.cut bound active stack pc = .ok c) :
    Makes s (.arms depth bound active stack exit pc)
      (.otherwise depth bound c.active rest opening exit c.next)
  | lastArm {depth bound pc exit : Nat} {active : Option UInt32} {stack : List Frame}
    {opening : Block → Block} (hexit : pc < exit) :
    Makes s (.otherwise depth bound active stack opening exit pc)
      (.block (depth + 1) exit active pc)
  | behindLastArm {depth bound pc exit : Nat} {active : Option UInt32} {stack : List Frame}
    {opening : Block → Block} {body : Walk} (hexit : pc < exit)
    (hbody : s.block (depth + 1) exit active pc = .ok body) :
    Makes s (.otherwise depth bound active stack opening exit pc)
      (.resume depth bound body.active stack exit)
  | lastArmEnded {depth bound pc exit : Nat} {active : Option UInt32} {stack : List Frame}
    {opening : Block → Block} (hexit : exit ≤ pc) :
    Makes s (.otherwise depth bound active stack opening exit pc)
      (.resume depth bound active stack pc)

/-- A walk through an inner block makes a call for the block and, if it succeeds, the call behind
it. -/
theorem mem_blockThen {more : Walk → Call} (h : next ∈ s.blockThen depth bound active pc more) :
    next = .block depth bound active pc ∨
      ∃ body, s.block depth bound active pc = .ok body ∧ next = more body := by
  rcases List.mem_cons.mp h with rfl | h
  · exact .inl rfl
  · split at h
    · cases h
    · next body hbody => exact .inr ⟨body, hbody, List.mem_singleton.mp h⟩

/-- The calls behind the first statement are calls that the walk makes. -/
theorem makes_of_mem_callsAfterCut (hcut : s.script.cut bound active stack pc = .ok c)
    (h : next ∈ s.callsAfterCut depth bound c) :
    s.Makes (.statements depth bound active stack pc) next := by
  cases hflow : c.flow with
  | jump | ret => simp [callsAfterCut, hflow] at h
  | next =>
    simp only [callsAfterCut, hflow, List.mem_singleton] at h
    exact h ▸ .next hcut
  | branch target =>
    simp only [callsAfterCut, hflow] at h
    -- A branch that goes back makes no calls, and one to its own end only what follows the chain.
    rcases Nat.lt_trichotomy target c.next with hlt | heq | hgt
    · simp [hlt] at h
    · simp only [heq, Nat.lt_irrefl, if_false, if_true, List.mem_singleton] at h
      exact h ▸ .next hcut
    · simp only [Nat.not_lt.mpr (Nat.le_of_lt hgt), Nat.ne_of_lt hgt, if_false] at h
      rcases mem_blockThen h with rfl | ⟨body, hbody, rfl⟩
      · exact .arm hcut hflow hgt
      · exact .behindArm hcut hflow hgt hbody

/-- The calls behind the first statement of an arm are calls that the walk makes. -/
theorem makes_of_mem_callsAfterArm (hcut : s.script.cut bound active stack pc = .ok c)
    (h : next ∈ s.callsAfterArm depth bound exit c) :
    s.Makes (.arms depth bound active stack exit pc) next := by
  cases hflow : c.flow with
  | jump | ret | next =>
    simp only [callsAfterArm, hflow, List.mem_singleton] at h
    exact h ▸ .otherwise hcut
  | branch target =>
    simp only [callsAfterArm, hflow] at h
    rcases Nat.lt_trichotomy target c.next with hlt | heq | hgt
    · simp [hlt] at h
    · simp only [heq, Nat.lt_irrefl, if_false, if_true, List.mem_singleton] at h
      exact h ▸ .emptyElseIf hcut
    · simp only [Nat.not_lt.mpr (Nat.le_of_lt hgt), Nat.ne_of_lt hgt, if_false] at h
      rcases mem_blockThen h with rfl | ⟨body, hbody, rfl⟩
      · exact .elseIf hcut hflow hgt
      · exact .behindElseIf hcut hflow hgt hbody

/-- The calls of a call are made by it. -/
theorem makes_of_mem_calls (h : next ∈ s.calls call) : s.Makes call next := by
  cases call with
  | block depth bound active pc =>
    rw [calls] at h
    split at h
    · cases h
    · next hdepth => exact List.mem_singleton.mp h ▸ .enter (Nat.not_le.mp hdepth)
  | statements depth bound active stack pc =>
    rw [calls] at h
    split at h
    · cases h
    · next c hcut => exact makes_of_mem_callsAfterCut hcut h
  | resume depth bound active stack pc =>
    rw [calls] at h
    split at h
    · cases h
    · next hbound => exact List.mem_singleton.mp h ▸ .goOn (Nat.not_le.mp hbound)
  | arms depth bound active stack exit pc =>
    rw [calls] at h
    split at h
    · split at h
      · cases h
      · next c hcut => exact makes_of_mem_callsAfterArm hcut h
    · next hended => exact List.mem_singleton.mp h ▸ .noArm hended
  | otherwise depth bound active stack opening exit pc =>
    rw [calls] at h
    split at h
    · next hexit =>
      -- The walk of the last arm, and what follows the chain.
      rcases mem_blockThen h with rfl | ⟨body, hbody, rfl⟩
      · exact .lastArm hexit
      · exact .behindLastArm hexit hbody
    · next hexit => exact List.mem_singleton.mp h ▸ .lastArmEnded (Nat.not_lt.mp hexit)

/-! ### All calls of a run -/

/-- The kinds of calls in the order in which they can follow each other at one position. -/
def Call.weight : Call → Nat
  | .statements _ _ _ _ _ => 0
  | .resume _ _ _ _ _ => 1
  | .block _ _ _ _ | .arms _ _ _ _ _ _ => 2
  | .otherwise _ _ _ _ _ _ _ => 3

/-- What goes down from a call to the calls that it makes: the code that is left or, where that
stays the same, the weight. -/
def rank (s : Setting) (call : Call) : Nat := 3 * (s.script.code.size - call.pc) + call.weight

/-- A call has less code left than the call that makes it, or comes before it in the order of the
kinds. -/
theorem rank_lt_of_makes (h : s.Makes call next) : s.rank next < s.rank call := by
  cases h with
  | enter | goOn | noArm | lastArm | lastArmEnded => simp only [rank, Call.pc, Call.weight]; omega
  | behindLastArm => simp only [rank, Call.pc, Call.weight]; omega
  | next hcut | arm hcut | behindArm hcut | emptyElseIf hcut | elseIf hcut | behindElseIf hcut
  | otherwise hcut =>
    have hlt := lt_next_of_cut hcut
    have hle := next_le_of_cut hcut
    simp only [rank, Call.pc, Call.weight]
    omega

/-- All calls of the run of a call, each before the calls that it makes. -/
def trace (s : Setting) (call : Call) : List Call :=
  call :: (s.calls call).attach.flatMap fun next => s.trace next.1
termination_by s.rank call
decreasing_by exact rank_lt_of_makes (makes_of_mem_calls next.2)

/-- A run is its first call and, one behind the other, the runs of the calls that it makes. -/
theorem trace_eq (call : Call) : s.trace call = call :: (s.calls call).flatMap s.trace := by
  rw [trace, ← List.flatMap_map Subtype.val s.trace, List.attach_map_subtype_val]

/-- A run can be followed call by call: what passes from the calls that a call makes to the call
itself holds for every call. -/
theorem call_induction (s : Setting) {motive : Call → Prop}
    (step : ∀ call, (∀ next, s.Makes call next → motive next) → motive call) (call : Call) :
    motive call := by
  apply step
  intro next hmakes
  exact s.call_induction step next
termination_by s.rank call
decreasing_by exact rank_lt_of_makes hmakes

/-- Runs one behind the other fail with the first fault of their calls if each of them does. -/
theorem findSome?_fault?_eq {calls : List Call}
    (h : ∀ call ∈ calls, s.fault? call = (s.trace call).findSome? s.raised?) :
    calls.findSome? s.fault? = (calls.flatMap s.trace).findSome? s.raised? := by
  induction calls with
  | nil => rfl
  | cons call calls ih =>
    have hrest := ih fun next hnext => h next (List.mem_cons_of_mem _ hnext)
    rw [List.findSome?_cons, List.flatMap_cons, List.findSome?_append,
      ← h call List.mem_cons_self, ← hrest]
    cases s.fault? call <;> rfl

/-- **A run fails with the first fault that one of its calls raises.** -/
theorem fault?_eq_findSome?_trace (call : Call) :
    s.fault? call = (s.trace call).findSome? s.raised? := by
  induction call using s.call_induction with
  | step call ih =>
    have hcalls := findSome?_fault?_eq fun next hnext => ih next (makes_of_mem_calls hnext)
    rw [fault?_eq, trace_eq, List.findSome?_cons, hcalls]
    cases s.raised? call <;> rfl

/-- What passes from a call to the calls that it makes holds in the whole run. -/
theorem trace_induction {motive : Call → Prop}
    (step : ∀ call next, s.Makes call next → motive call → motive next)
    {root : Call} (h : motive root) : ∀ call ∈ s.trace root, motive call := by
  induction root using s.call_induction with
  | step root ih =>
    intro call hcall
    rw [trace_eq] at hcall
    rcases List.mem_cons.mp hcall with rfl | hcall
    · exact h
    · obtain ⟨next, hnext, hcall⟩ := List.mem_flatMap.mp hcall
      have hmakes := makes_of_mem_calls hnext
      exact ih next hmakes (step root next hmakes h) call hcall

/-- A run consists of its first call and the later ones. -/
theorem eq_or_mem_tail_of_mem_trace (h : next ∈ s.trace call) :
    next = call ∨ next ∈ (s.trace call).tail := by
  rw [trace_eq] at h ⊢
  exact List.mem_cons.mp h

/-- The later calls of a run belong to the calls that its first call makes. -/
theorem exists_of_mem_tail (h : next ∈ (s.trace call).tail) :
    ∃ made ∈ s.calls call, next ∈ s.trace made := by
  rw [trace_eq, List.tail_cons] at h
  exact List.mem_flatMap.mp h

end Setting

end Daedalus
