import Daedalus.Proofs.Nesting.Gathered
import Daedalus.Proofs.Progress

/-! # Walks side by side

Two settings that decode the same instructions and end statements alike take the same way through
code, whatever is on the operand stack: blocks end at the same positions, and faults are the same
ones. The trees that are gathered on the way may differ. They are equal as long as the walks have
the same operands and active instances and as long as what is recovered from them is the same in
both settings.

One induction along the calls of a walk shows both. The statement carries a proposition `same`,
which stands for all that made the two runs equal up to a call: control does not depend on it, and
the trees do. The limit of the second setting may be the higher one; then the first walk may be cut
short where the second one goes on. -/

namespace Daedalus

/-! ### Outcomes -/

/-- Two outcomes agree: the values are related, or the faults are the same. Where the first
computation is cut short, the second one may have any outcome. -/
inductive Agree {α β : Type} (short : Fault → Prop) (R : α → β → Prop) :
    Except Fault α → Except Fault β → Prop where
  | ok {a : α} {b : β} (h : R a b) : Agree short R (.ok a) (.ok b)
  | error (fault : Fault) : Agree short R (.error fault) (.error fault)
  | short {fault : Fault} (h : short fault) (y : Except Fault β) : Agree short R (.error fault) y

namespace Agree

variable {α β γ δ : Type} {short : Fault → Prop} {R : α → β → Prop} {S : γ → δ → Prop}
  {x : Except Fault α} {y : Except Fault β}

/-- Computations agree if their first parts do and related values are continued alike. -/
theorem bind {f : α → Except Fault γ} {g : β → Except Fault δ} (h : Agree short R x y)
    (hnext : ∀ a b, x = .ok a → R a b → Agree short S (f a) (g b)) :
    Agree short S (x >>= f) (y >>= g) := by
  cases h with
  | ok hab => exact hnext _ _ rfl hab
  | error fault => exact .error fault
  | short hshort => exact .short hshort _

/-- Outcomes agree after functions that keep the values related. -/
theorem map {f : α → γ} {g : β → δ} (h : Agree short R x y) (hvalue : ∀ a b, R a b → S (f a) (g b)) :
    Agree short S (f <$> x) (g <$> y) := by
  cases h with
  | ok hab => exact .ok (hvalue _ _ hab)
  | error fault => exact .error fault
  | short hshort => exact .short hshort _

/-- A value is matched by a related one. -/
theorem exists_of_ok {a : α} (h : Agree short R x y) (hx : x = .ok a) : ∃ b, y = .ok b ∧ R a b := by
  cases h with
  | ok hab =>
    cases hx
    exact ⟨_, rfl, hab⟩
  | error | short => cases hx

/-- A fault is matched by itself, unless the first computation was cut short. -/
theorem eq_error {fault : Fault} (h : Agree short R x y) (hx : x = .error fault)
    (hshort : ¬short fault) : y = .error fault := by
  cases h with
  | ok => cases hx
  | error =>
    cases hx
    rfl
  | short hcut =>
    cases hx
    exact absurd hcut hshort

/-- Where nothing is cut short and related values are equal, the outcomes are. -/
theorem eq {R : α → α → Prop} {x y : Except Fault α} (h : Agree short R x y)
    (hshort : ∀ fault, ¬short fault) (hvalue : ∀ a b, R a b → a = b) : x = y := by
  cases h with
  | ok hab => rw [hvalue _ _ hab]
  | error => rfl
  | short hcut => exact (hshort _ hcut).elim

/-- Where nothing is cut short, the faults are the same. -/
theorem faultOf_eq (h : Agree short R x y) (hshort : ∀ fault, ¬short fault) :
    faultOf x = faultOf y := by
  cases h with
  | ok | error => rfl
  | short hcut => exact (hshort _ hcut).elim

end Agree

/-! ### Cuts -/

/-- Two statements end with the same instruction and, given `same`, are equal. -/
def Cut.Like (same : Prop) (c c' : Cut) : Prop := c.last.instr = c'.last.instr ∧ (same → c = c')

namespace Cut.Like

variable {same : Prop} {c c' : Cut}

/-- Statements that end with the same instruction end at the same position. -/
theorem next_eq (h : c.Like same c') : c.next = c'.next := congrArg Instr.next h.1

/-- Statements that end with the same instruction hand control on alike. -/
theorem flow_eq (h : c.Like same c') : c.flow = c'.flow :=
  congrArg (fun instr : Instr => instr.op.flow) h.1

/-- Equal statements leave the same instance active. -/
theorem active_eq (h : c.Like same c') (hsame : same) : c.active = c'.active :=
  congrArg Cut.active (h.2 hsame)

end Cut.Like

/-- From `start` on, two scripts consist of the same instructions and end statements alike. -/
structure Script.SameFlow (script script' : Script) (start : Nat) : Prop where
  decode_eq : ∀ pc, start ≤ pc → decode script.code pc = decode script'.code pc
  endsStatement_eq : ∀ pc instr, start ≤ pc → decode script.code pc = .ok instr →
    script.endsStatement instr.op = script'.endsStatement instr.op

namespace Script.SameFlow

variable {script script' : Script} {start bound pc : Nat} {active active' : Option UInt32}
  {stack stack' : List Frame} {same : Prop}

/-- The same statements are cut off, up to the active instances and the operands. -/
theorem cut_like {short : Fault → Prop} (h : script.SameFlow script' start) (hpc : start ≤ pc) :
    ∀ (active' : Option UInt32) (stack' : List Frame),
      (same → active = active') → (same → stack = stack') →
        Agree short (Cut.Like same) (script.cut bound active stack pc)
          (script'.cut bound active' stack' pc) := by
  fun_induction Script.cut script bound active stack pc with
  | case1 active stack pc fault hdecode =>
    intro active' stack' _ _
    rw [cut_of_error ((h.decode_eq pc hpc).symm.trans hdecode)]
    exact .error fault
  | case2 active stack pc instr hdecode frame hend =>
    intro active' stack' hactive hstack
    rw [h.endsStatement_eq pc instr hpc hdecode] at hend
    rw [cut_of_ok ((h.decode_eq pc hpc).symm.trans hdecode), if_pos hend]
    exact .ok ⟨rfl, fun hsame => by rw [← hactive hsame, ← hstack hsame]⟩
  -- The next turn needs the frame that this one pushes, which is the same only where the active
  -- instance is.
  | case3 active stack pc instr hdecode frame hend ih =>
    intro active' stack' hactive hstack
    have hle : start ≤ instr.next := Nat.le_trans hpc (Nat.le_of_lt (lt_next_of_decode hdecode))
    have hframe (hsame : same) : frame = Frame.ofInstr instr active' := by rw [← hactive hsame]
    rw [h.endsStatement_eq pc instr hpc hdecode] at hend
    rw [cut_of_ok ((h.decode_eq pc hpc).symm.trans hdecode), if_neg hend]
    exact ih hle _ _ (fun hsame => by rw [hframe hsame])
      fun hsame => by rw [hframe hsame, hstack hsame]

/-- A block that returns is left for the same position in both scripts. -/
theorem exitAfterReturn_eq (h : script.SameFlow script' start) (hpc : start ≤ pc) :
    script.exitAfterReturn bound pc = script'.exitAfterReturn bound pc := by
  rw [exitAfterReturn, exitAfterReturn, instrAt, instrAt, h.decode_eq pc hpc]

end Script.SameFlow

/-! ### Walks -/

/-- Two walks end at the same position. Given `same`, they are equal if the first tree has a
property throughout. -/
def Walk.Like (same : Prop) (P : Expr → Prop) (walk walk' : Walk) : Prop :=
  walk.exit = walk'.exit ∧ (same → walk.block.All P → walk = walk')

/-- The walks behind two chains end at the same position. Given `same`, all is equal if the first
chain and the tree behind it have a property throughout. -/
def Arms.Like (same : Prop) (P : Expr → Prop) (result result' : Arms × Walk) : Prop :=
  result.2.exit = result'.2.exit ∧
    (same → result.1.All P → result.2.block.All P → result = result')

namespace Setting

/-- From `start` on, walks take the same way in two settings, of which the second one goes as deep
as the first one. What has the property `P` is recovered alike. -/
structure Shadows (s s' : Setting) (start : Nat) (P : Expr → Prop) : Prop where
  flow : s.script.SameFlow s'.script start
  limit : s.limit ≤ s'.limit
  condition : ∀ active stack, P (s.popExpr active stack).1 →
    s.popExpr active stack = s'.popExpr active stack
  statement : ∀ c, P (s.statement c).1 → (∀ e ∈ (s.statement c).2, P e) →
    s.statement c = s'.statement c

/-- A walk is cut short by the limit of the first setting, which is lower than that of the second
one. -/
def CutShort (s s' : Setting) (fault : Fault) : Prop :=
  s.limit < s'.limit ∧ ∃ pc, fault = .nestingTooDeep s.limit pc

/-- What a call gives in the first setting agrees with what a call at the same position gives in the
second one. -/
def ShadowedBy (s s' : Setting) (P : Expr → Prop) : Call → Prop
  | .block depth bound active pc => ∀ (same : Prop) (active' : Option UInt32),
    (same → active = active') →
      Agree (s.CutShort s') (Walk.Like same P) (s.block depth bound active pc)
        (s'.block depth bound active' pc)
  | .statements depth bound active stack pc =>
    ∀ (same : Prop) (active' : Option UInt32) (stack' : List Frame),
      (same → active = active') → (same → stack = stack') →
        Agree (s.CutShort s') (Walk.Like same P) (s.statements depth bound active stack pc)
          (s'.statements depth bound active' stack' pc)
  | .resume depth bound active stack pc =>
    ∀ (same : Prop) (active' : Option UInt32) (stack' : List Frame),
      (same → active = active') → (same → stack = stack') →
        Agree (s.CutShort s') (Walk.Like same P) (s.resume depth bound active stack pc)
          (s'.resume depth bound active' stack' pc)
  | .arms depth bound active stack exit pc =>
    ∀ (same : Prop) (active' : Option UInt32) (stack' : List Frame),
      (same → active = active') → (same → stack = stack') →
        Agree (s.CutShort s') (Arms.Like same P) (s.arms depth bound active stack exit pc)
          (s'.arms depth bound active' stack' exit pc)
  | .otherwise depth bound active stack opening exit pc =>
    ∀ (same : Prop) (active' : Option UInt32) (stack' : List Frame) (opening' : Block → Block),
      (same → active = active') → (same → stack = stack') →
        (same → ∀ body, (opening body).All P → opening = opening' ∧ body.All P) →
          Agree (s.CutShort s') (Arms.Like same P)
            (s.otherwise depth bound active stack opening exit pc)
            (s'.otherwise depth bound active' stack' opening' exit pc)

/-- Nothing is cut short if the limits are the same. -/
theorem not_cutShort {s s' : Setting} (h : s.limit = s'.limit) (fault : Fault) :
    ¬s.CutShort s' fault :=
  fun hshort => Nat.ne_of_lt hshort.1 h

variable {s s' : Setting} {P : Expr → Prop} {same : Prop} {start depth bound exit pc target : Nat}
  {active active' : Option UInt32} {stack stack' : List Frame} {c c' : Cut}
  {opening opening' : Block → Block}

/-- The condition on top of the stack is the same if it has the property. -/
theorem Shadows.condition_eq (h : s.Shadows s' start P) (hlike : c.Like same c') (hsame : same)
    (hcondition : P (s.popExpr c.active c.stack).1) :
    s.popExpr c.active c.stack = s'.popExpr c'.active c'.stack := by
  rw [h.condition c.active c.stack hcondition, hlike.2 hsame]

/-- Equal statements are recovered alike if they have the property. -/
theorem Shadows.statement_eq (h : s.Shadows s' start P) (hlike : c.Like same c') (hsame : same)
    (hmain : P (s.statement c).1) (hunused : ∀ e ∈ (s.statement c).2, P e) :
    s.statement c = s'.statement c' := by
  rw [h.statement c hmain hunused, hlike.2 hsame]

/-- An arm with a condition and code is walked alike, and so are the further arms of its chain,
whatever is made of them. -/
theorem Shadows.arm_like {α β : Type} {R : α → β → Prop} (h : s.Shadows s' start P)
    (hlike : c.Like same c')
    (hbody : s.ShadowedBy s' P (.block (depth + 1) target c.active c.next))
    (harms : ∀ body, s.block (depth + 1) target c.active c.next = .ok body → s.ShadowedBy s' P
      (.arms depth bound body.active (s.popExpr c.active c.stack).2 body.exit target))
    (make : Block → Arms × Walk → α) (make' : Block → Arms × Walk → β)
    (hmake : ∀ body body' more more', more.2.exit = more'.2.exit →
      (same → P (s.popExpr c.active c.stack).1 → body.All P → more.1.All P → more.2.block.All P →
        body = body' ∧ more = more') → R (make body more) (make' body' more')) :
    Agree (s.CutShort s') R
      (s.block (depth + 1) target c.active c.next >>= fun body => make body.block <$>
        s.arms depth bound body.active (s.popExpr c.active c.stack).2 body.exit target)
      (s'.block (depth + 1) target c'.active c'.next >>= fun body => make' body.block <$>
        s'.arms depth bound body.active (s'.popExpr c'.active c'.stack).2 body.exit target) := by
  rw [← hlike.next_eq]
  refine (hbody same c'.active hlike.active_eq).bind fun body body' hok hbodyLike => ?_
  -- The arms start alike if the condition and the body before them are the same.
  have hmore := harms body hok (same ∧ P (s.popExpr c.active c.stack).1 ∧ body.block.All P)
    body'.active (s'.popExpr c'.active c'.stack).2
    (fun hsame => by rw [hbodyLike.2 hsame.1 hsame.2.2])
    fun hsame => by rw [h.condition_eq hlike hsame.1 hsame.2.1]
  rw [← hbodyLike.1]
  refine hmore.map fun more more' hmoreLike => hmake _ _ _ _ hmoreLike.1 ?_
  intro hsame hcondition hallBody hallArms hallRest
  rw [hbodyLike.2 hsame hallBody]
  exact ⟨rfl, hmoreLike.2 ⟨hsame, hcondition, hallBody⟩ hallArms hallRest⟩

/-- Blocks go on alike behind the statement that is cut off first. -/
theorem Shadows.afterCut_like (h : s.Shadows s' start P) (hpc : start ≤ pc)
    (hcut : s.script.cut bound active stack pc = .ok c) (hlike : c.Like same c')
    (ih : ∀ next, s.Makes (.statements depth bound active stack pc) next → s.ShadowedBy s' P next) :
    Agree (s.CutShort s') (Walk.Like same P) (s.afterCut depth bound c)
      (s'.afterCut depth bound c') := by
  -- The flow is the same in both settings, so the cases are those of the first one.
  have hle : start ≤ c.next := Nat.le_trans hpc (Nat.le_of_lt (lt_next_of_cut hcut))
  cases hflow : c.flow with
  | jump target =>
    rw [s.afterCut_jump hflow, s'.afterCut_jump (hlike.flow_eq ▸ hflow)]
    exact .ok ⟨rfl, fun hsame _ => by rw [hlike.active_eq hsame]⟩
  | ret =>
    rw [s.afterCut_ret hflow, s'.afterCut_ret (hlike.flow_eq ▸ hflow), ← hlike.next_eq,
      h.flow.exitAfterReturn_eq hle]
    refine .ok ⟨rfl, fun hsame hall => ?_⟩
    rw [h.statement_eq hlike hsame hall.1 hall.2.1, hlike.active_eq hsame]
  | next =>
    rw [s.afterCut_next hflow, s'.afterCut_next (hlike.flow_eq ▸ hflow), ← hlike.next_eq]
    have hrest := ih _ (.next hcut) same c'.active [] hlike.active_eq fun _ => rfl
    refine hrest.map fun rest rest' hrestLike => ⟨hrestLike.1, fun hsame hall => ?_⟩
    rw [h.statement_eq hlike hsame hall.1 hall.2.1, hrestLike.2 hsame hall.2.2]
  | branch target =>
    have hflow' : c'.flow = .branch target := hlike.flow_eq ▸ hflow
    -- A branch goes back, to its own end, or forward.
    rcases Nat.lt_trichotomy target c.next with hlt | rfl | hgt
    · have hlt' : target < c'.next := hlike.next_eq ▸ hlt
      simp only [afterCut, hflow, hflow', if_pos hlt, if_pos hlt', hlike.1]
      exact .error _
    · rw [s.afterCut_branch_empty hflow rfl, s'.afterCut_branch_empty hflow' hlike.next_eq.symm]
      have hmakes : s.Makes (.statements depth bound active stack pc)
          (.resume depth bound c.active (s.popExpr c.active c.stack).2 c.next) := .next hcut
      -- What is left of the stack is the same only if the condition is read alike, so this comes
      -- into the hypothesis under which the rest is compared.
      have hrest := ih _ hmakes (same ∧ P (s.popExpr c.active c.stack).1) c'.active
        (s'.popExpr c'.active c'.stack).2 (fun hsame => hlike.active_eq hsame.1)
        fun hsame => by rw [h.condition_eq hlike hsame.1 hsame.2]
      refine hrest.map fun rest rest' hrestLike => ⟨hrestLike.1, fun hsame hall => ?_⟩
      rw [h.condition_eq hlike hsame hall.1, hrestLike.2 ⟨hsame, hall.1⟩ hall.2.2.2]
    · rw [s.afterCut_branch hflow hgt, s'.afterCut_branch hflow' (hlike.next_eq ▸ hgt)]
      refine h.arm_like hlike (ih _ (.arm hcut hflow hgt))
        (fun body hok => ih _ (.behindArm hcut hflow hgt hok))
        (fun body more => more.2.mapBlock (.chain (s.popExpr c.active c.stack).1 body more.1))
        (fun body more => more.2.mapBlock (.chain (s'.popExpr c'.active c'.stack).1 body more.1))
        fun body body' more more' hexit hmore => ⟨hexit, fun hsame hall => ?_⟩
      obtain ⟨hcondition, hallBody, hallArms, hallRest⟩ := hall
      obtain ⟨rfl, rfl⟩ := hmore hsame hcondition hallBody hallArms hallRest
      rw [h.condition_eq hlike hsame hcondition]

/-- Further arms go on alike behind the statement that is cut off first. -/
theorem Shadows.armAfterCut_like (h : s.Shadows s' start P)
    (hcut : s.script.cut bound active stack pc = .ok c) (hlike : c.Like same c')
    (ih : ∀ next, s.Makes (.arms depth bound active stack exit pc) next → s.ShadowedBy s' P next) :
    Agree (s.CutShort s') (Arms.Like same P) (s.armAfterCut depth bound exit c)
      (s'.armAfterCut depth bound exit c') := by
  -- The statement becomes the first step of the arm without a condition.
  have hopening (hsame : same) (body : Block)
      (hall : (Block.step (s.statement c).1 (s.statement c).2 body).All P) :
      Block.step (s.statement c).1 (s.statement c).2 =
        Block.step (s'.statement c').1 (s'.statement c').2 ∧ body.All P :=
    ⟨by rw [h.statement_eq hlike hsame hall.1 hall.2.1], hall.2.2⟩
  cases hflow : c.flow with
  | jump target =>
    rw [s.armAfterCut_jump hflow, s'.armAfterCut_jump (hlike.flow_eq ▸ hflow), ← hlike.next_eq]
    exact ih _ (.otherwise hcut) same c'.active c'.stack id hlike.active_eq
      (fun hsame => by rw [hlike.2 hsame]) fun _ _ hall => ⟨rfl, hall⟩
  | ret =>
    rw [s.armAfterCut_ret hflow, s'.armAfterCut_ret (hlike.flow_eq ▸ hflow), ← hlike.next_eq]
    exact ih _ (.otherwise hcut) same c'.active [] _ hlike.active_eq (fun _ => rfl) hopening
  | next =>
    rw [s.armAfterCut_next hflow, s'.armAfterCut_next (hlike.flow_eq ▸ hflow), ← hlike.next_eq]
    exact ih _ (.otherwise hcut) same c'.active [] _ hlike.active_eq (fun _ => rfl) hopening
  | branch target =>
    have hflow' : c'.flow = .branch target := hlike.flow_eq ▸ hflow
    rcases Nat.lt_trichotomy target c.next with hlt | rfl | hgt
    · have hlt' : target < c'.next := hlike.next_eq ▸ hlt
      simp only [armAfterCut, hflow, hflow', if_pos hlt, if_pos hlt', hlike.1]
      exact .error _
    · rw [s.armAfterCut_branch_empty hflow rfl,
        s'.armAfterCut_branch_empty hflow' hlike.next_eq.symm]
      have hmakes : s.Makes (.arms depth bound active stack exit pc)
          (.arms depth bound c.active (s.popExpr c.active c.stack).2 exit c.next) :=
        .emptyElseIf hcut
      have harms := ih _ hmakes (same ∧ P (s.popExpr c.active c.stack).1) c'.active
        (s'.popExpr c'.active c'.stack).2 (fun hsame => hlike.active_eq hsame.1)
        fun hsame => by rw [h.condition_eq hlike hsame.1 hsame.2]
      refine harms.map fun more more' hmore => ⟨hmore.1, fun hsame hall hallRest => ?_⟩
      rw [h.condition_eq hlike hsame hall.1, hmore.2 ⟨hsame, hall.1⟩ hall.2.2 hallRest]
    · rw [s.armAfterCut_branch hflow hgt, s'.armAfterCut_branch hflow' (hlike.next_eq ▸ hgt)]
      refine h.arm_like hlike (ih _ (.elseIf hcut hflow hgt))
        (fun body hok => ih _ (.behindElseIf hcut hflow hgt hok))
        (fun body more => (Arms.elseIf (s.popExpr c.active c.stack).1 body more.1, more.2))
        (fun body more => (Arms.elseIf (s'.popExpr c'.active c'.stack).1 body more.1, more.2))
        fun body body' more more' hexit hmore => ⟨hexit, fun hsame hall hallRest => ?_⟩
      obtain ⟨hcondition, hallBody, hallArms⟩ := hall
      obtain ⟨rfl, rfl⟩ := hmore hsame hcondition hallBody hallArms hallRest
      rw [h.condition_eq hlike hsame hcondition]

/-- The arm without a condition is walked alike. -/
theorem otherwise_shadowed
    (ih : ∀ next, s.Makes (.otherwise depth bound active stack opening exit pc) next →
      s.ShadowedBy s' P next) :
    s.ShadowedBy s' P (.otherwise depth bound active stack opening exit pc) := by
  intro same active' stack' opening' hactive hstack hopening
  rcases Nat.lt_or_ge pc exit with hlt | hge
  · rw [s.otherwise_of_lt hlt, s'.otherwise_of_lt hlt]
    refine (ih _ (.lastArm hlt) same active' hactive).bind fun body body' hok hbody => ?_
    -- The active instance behind the arm is the same only if the body of the arm is.
    have hrest := ih _ (.behindLastArm hlt hok) (same ∧ body.block.All P) body'.active stack'
      (fun hsame => by rw [hbody.2 hsame.1 hsame.2]) fun hsame => hstack hsame.1
    refine hrest.map fun rest rest' hrestLike => ⟨hrestLike.1, fun hsame hall hallRest => ?_⟩
    obtain ⟨rfl, hallBody⟩ := hopening hsame body.block hall
    rw [hbody.2 hsame hallBody, hrestLike.2 ⟨hsame, hallBody⟩ hallRest]
  · rw [s.otherwise_of_le hge, s'.otherwise_of_le hge]
    have hrest := ih _ (.lastArmEnded hge) same active' stack' hactive hstack
    refine hrest.map fun rest rest' hrestLike => ⟨hrestLike.1, fun hsame hall hallRest => ?_⟩
    obtain ⟨rfl, -⟩ := hopening hsame .done hall
    rw [hrestLike.2 hsame hallRest]

/-- A block is walked alike where the first setting walks it. The second one goes as deep, so it may
be only the first one that does not. -/
theorem Shadows.block_shadowed (h : s.Shadows s' start P)
    (ih : ∀ next, s.Makes (.block depth bound active pc) next → s.ShadowedBy s' P next) :
    s.ShadowedBy s' P (.block depth bound active pc) := by
  intro same active' hactive
  by_cases hdepth : depth < s.limit
  · rw [s.block_eq hdepth, s'.block_eq (Nat.lt_of_lt_of_le hdepth h.limit)]
    exact ih _ (.enter hdepth) same active' [] hactive fun _ => rfl
  · have hfault : s.block depth bound active pc = .error (.nestingTooDeep s.limit pc) := by
      rw [Setting.block, if_pos (Nat.not_lt.mp hdepth)]
    rw [hfault]
    rcases Nat.lt_or_eq_of_le h.limit with hlt | heq
    · exact .short ⟨hlt, pc, rfl⟩ _
    · rw [Setting.block, if_pos (heq ▸ Nat.not_lt.mp hdepth), ← heq]
      exact .error _

/-- **Walks side by side.** Every call at or behind `start` agrees with the calls at its position
in a setting that shadows the first one. -/
theorem Shadows.shadowedBy (h : s.Shadows s' start P) (call : Call) :
    start ≤ call.pc → s.ShadowedBy s' P call := by
  induction call using s.call_induction with
  | step call ih =>
    intro hpc
    -- The calls that a call makes stand behind `start` as well.
    have ih' (next : Call) (hmakes : s.Makes call next) : s.ShadowedBy s' P next :=
      ih next hmakes (Nat.le_trans hpc (le_pc_of_makes hmakes))
    cases call with
    | block depth bound active pc => exact h.block_shadowed ih'
    | statements depth bound active stack pc =>
      intro same active' stack' hactive hstack
      rw [statements_eq, statements_eq]
      refine (h.flow.cut_like hpc active' stack' hactive hstack).bind fun c c' hcut hlike => ?_
      exact h.afterCut_like hpc hcut hlike ih'
    | resume depth bound active stack pc =>
      intro same active' stack' hactive hstack
      rcases Nat.lt_or_ge pc bound with hlt | hge
      · rw [s.resume_of_lt hlt, s'.resume_of_lt hlt]
        exact ih' _ (.goOn hlt) same active' stack' hactive hstack
      · rw [s.resume_of_le hge, s'.resume_of_le hge]
        exact .ok ⟨rfl, fun hsame _ => by rw [hactive hsame]⟩
    | arms depth bound active stack exit pc =>
      intro same active' stack' hactive hstack
      by_cases hturn : pc < exit ∧ pc < bound
      · rw [s.arms_eq hturn.1 hturn.2, s'.arms_eq hturn.1 hturn.2]
        refine (h.flow.cut_like hpc active' stack' hactive hstack).bind fun c c' hcut hlike => ?_
        exact h.armAfterCut_like hcut hlike ih'
      · rw [Setting.arms, Setting.arms, if_neg hturn, if_neg hturn]
        have hrest := ih' _ (.noArm hturn) same active' stack' hactive hstack
        refine hrest.map fun rest rest' hrestLike => ⟨hrestLike.1, fun hsame _ hallRest => ?_⟩
        rw [hrestLike.2 hsame hallRest]
    | otherwise => exact otherwise_shadowed ih'

/-! ### Recovered trees -/

/-- What is left on a stack is unwound alike if it is read alike. -/
theorem unwind_eq_of_recover
    (hrecover : ∀ frame stack, P (s.recover active s.limit frame stack).1 →
      s.recover active s.limit frame stack = s'.recover active s'.limit frame stack)
    (hall : ∀ e ∈ s.unwind active stack, P e) :
    s.unwind active stack = s'.unwind active stack := by
  fun_induction s.unwind active stack with
  | case1 => rw [unwind_nil]
  | case2 frame stack read ih =>
    obtain ⟨hfirst, hrest⟩ := List.forall_mem_cons.mp hall
    rw [unwind_cons, ← hrecover frame stack hfirst]
    exact congrArg (read.1 :: ·) (ih hrest)

/-- Where control goes alike, a setting shadows one that reads alike what has the property. -/
theorem shadows_of_recover (hflow : s.script.SameFlow s'.script start) (hlimit : s.limit ≤ s'.limit)
    (hrecover : ∀ active frame stack, P (s.recover active s.limit frame stack).1 →
      s.recover active s.limit frame stack = s'.recover active s'.limit frame stack) :
    s.Shadows s' start P where
  flow := hflow
  limit := hlimit
  condition active stack hcondition := by
    cases stack with
    | nil => rfl
    | cons frame stack => exact hrecover active frame stack hcondition
  statement c hmain hunused := by
    have hlast := hrecover c.active c.last c.stack hmain
    have hrest := unwind_eq_of_recover (hrecover c.active) hunused
    simp only [statement, hrest, ← hlast]

/-- What is recovered from a stack depends on the symbols and the callable only. -/
theorem recover_eq_of_toTable (htable : s.script.toTable = s'.script.toTable)
    (hcallable : s.callable = s'.callable) (active : Option UInt32) (room : Nat) :
    s.recover active room = s'.recover active room := by
  obtain ⟨⟨table, code⟩, callable, limit⟩ := s
  obtain ⟨⟨table', code'⟩, callable', limit'⟩ := s'
  obtain rfl : table = table' := htable
  obtain rfl : callable = callable' := hcallable
  induction room with
  | zero => rfl
  | succ room ih =>
    funext frame stack
    unfold recover
    rw [ih]
    rfl

/-! ### Bodies -/

/-- The statements of two bodies agree if the bodies start at the same position. -/
theorem bodyBlock_agree (hsize : s.script.code.size = s'.script.code.size)
    (hbody : s.callable.requireBody = s'.callable.requireBody)
    (hstart : s.script.bodyStart s.callable = s'.script.bodyStart s'.callable)
    (hactive : same → s.callable.initialActive = s'.callable.initialActive)
    (hshadows : ∀ start, s.script.bodyStart s.callable = .ok start → s.Shadows s' start P) :
    Agree (s.CutShort s') (fun block block' => same → block.All P → block = block')
      (s.script.bodyBlock s.callable s.limit) (s'.script.bodyBlock s'.callable s'.limit) := by
  rw [Script.bodyBlock, Script.bodyBlock, ← hbody, ← hstart, ← hsize]
  cases hrefused : s.callable.requireBody with
  | error fault => exact .error fault
  | ok =>
    cases hok : s.script.bodyStart s.callable with
    | error fault => exact .error fault
    | ok start =>
      -- Both bodies are walked as outermost blocks from the same position.
      have hwalk := (hshadows start hok).shadowedBy
        (.block 0 s.script.code.size s.callable.initialActive start) (Nat.le_refl start) same
        s'.callable.initialActive hactive
      refine hwalk.bind fun walk walk' _ hlike => .ok fun hsame hall => ?_
      rw [hlike.2 hsame hall]

end Setting

end Daedalus
