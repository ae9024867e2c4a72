import Daedalus.Proofs.Calls
import Daedalus.Recovery.Body

/-! # Progress of a walk

Every turn of the loops of a walk goes forward: the loop that cuts off a statement, the one over the
statements of a block and the one over the arms of a chain. An inner block starts behind the start
of the block around it, so blocks nest at most as deep as there are positions. All positions are
addresses of 32 bits, which carries from call to call although an exit may be read from the code. -/

namespace Daedalus

/-! ### Decoding and cutting -/

/-- Decoding past the code fails. -/
theorem decode_of_size_le {code : Code} {pc : Nat} (h : code.size ≤ pc) :
    decode code pc = .error (.outOfBounds pc code.size) := by
  have hnone : code[pc]? = none := Array.getElem?_eq_none h
  rw [decode, hnone]

/-- Decoding does not complain about nesting. -/
theorem decode_ne_nestingTooDeep {code : Code} {pc limit start : Nat} :
    decode code pc ≠ .error (.nestingTooDeep limit start) := by
  intro h
  unfold decode at h
  split at h
  · cases h
  · split at h
    · cases h
    · split at h <;> cases h

namespace Script

variable {script : Script} {bound pc : Nat} {active : Option UInt32} {stack : List Frame}

/-- The positions at which instructions are decoded to cut off the statement at `pc`, one for each
turn. -/
def cutTurns (script : Script) (bound pc : Nat) : List Nat :=
  match _h : decode script.code pc with
  | .error _ => [pc]
  | .ok instr =>
    if script.endsStatement instr.op || bound ≤ instr.next then [pc]
    else pc :: cutTurns script bound instr.next
termination_by script.code.size - pc
decreasing_by
  have := lt_next_of_decode _h
  have := next_le_of_decode _h
  omega

/-- Where decoding fails there is no further turn. -/
theorem cutTurns_of_error {fault : Fault} (h : decode script.code pc = .error fault) :
    script.cutTurns bound pc = [pc] := by
  rw [cutTurns]
  split
  · rfl
  · next instr hinstr => cases h.symm.trans hinstr

/-- A turn is the last one if its instruction ends the statement or the block. -/
theorem cutTurns_of_ok {instr : Instr} (h : decode script.code pc = .ok instr) :
    script.cutTurns bound pc =
      if script.endsStatement instr.op || bound ≤ instr.next then [pc]
      else pc :: script.cutTurns bound instr.next := by
  rw [cutTurns]
  split
  · next fault hfault => cases h.symm.trans hfault
  · next instr' hinstr =>
    cases h.symm.trans hinstr
    rfl

/-- There is at least one turn. -/
theorem cutTurns_ne_nil : script.cutTurns bound pc ≠ [] := by
  unfold cutTurns
  split
  · exact List.cons_ne_nil _ _
  · split <;> exact List.cons_ne_nil _ _

/-- The first turn decodes at the start of the statement. -/
theorem mem_cutTurns (script : Script) (bound pc : Nat) : pc ∈ script.cutTurns bound pc := by
  unfold cutTurns
  split
  · exact List.mem_cons_self
  · split <;> exact List.mem_cons_self

/-- What is decoded in the last turn decides: its instruction ends the statement, or its fault is
the fault of the cut. -/
theorem cut_eq_decode_getLast :
    (fun c => c.last.instr) <$> script.cut bound active stack pc =
      decode script.code ((script.cutTurns bound pc).getLast cutTurns_ne_nil) := by
  fun_induction Script.cut script bound active stack pc with
  | case1 active stack pc fault hdecode =>
    simp only [cutTurns_of_error hdecode, List.getLast_singleton, hdecode]
    rfl
  | case2 active stack pc instr hdecode frame hend =>
    simp only [cutTurns_of_ok hdecode, if_pos hend, List.getLast_singleton, hdecode]
    rfl
  | case3 active stack pc instr hdecode frame hend ih =>
    simp only [cutTurns_of_ok hdecode, if_neg hend, List.getLast_cons cutTurns_ne_nil]
    exact ih

/-- **Cutting goes forward.** Each turn decodes at a later position than the ones before. -/
theorem cutTurns_pairwise :
    (script.cutTurns bound pc).Pairwise (· < ·) ∧ ∀ turn ∈ script.cutTurns bound pc, pc ≤ turn := by
  fun_induction Script.cutTurns script bound pc with
  | case1 pc => exact ⟨List.pairwise_singleton _ _, by simp⟩
  | case2 pc => exact ⟨List.pairwise_singleton _ _, by simp⟩
  | case3 pc instr hdecode hend ih =>
    have hlt := lt_next_of_decode hdecode
    have hlater : ∀ turn ∈ script.cutTurns bound instr.next, pc < turn :=
      fun turn hturn => Nat.lt_of_lt_of_le hlt (ih.2 turn hturn)
    refine ⟨List.pairwise_cons.mpr ⟨hlater, ih.1⟩, fun turn hturn => ?_⟩
    rcases List.mem_cons.mp hturn with rfl | hturn
    · exact Nat.le_refl turn
    · exact Nat.le_of_lt (hlater turn hturn)

end Script

/-! ### Positions go up -/

namespace Setting

variable {s : Setting} {root call next outer inner turn : Call}

/-- A call is a turn of a loop: it cuts off a statement, of a block or of the further arms of a
chain. -/
def Call.IsTurn : Call → Prop
  | .statements _ _ _ _ _ => True
  | .arms _ bound _ _ exit pc => pc < exit ∧ pc < bound
  | .block _ _ _ _ | .resume _ _ _ _ _ | .otherwise _ _ _ _ _ _ _ => False

/-- A call is that of an inner block, or of the outermost one. -/
def Call.IsBlock : Call → Prop
  | .block _ _ _ _ => True
  | _ => False

/-- The position does not go back from a call to the calls that it makes. -/
theorem le_pc_of_makes (h : s.Makes call next) : call.pc ≤ next.pc := by
  cases h with
  | enter | goOn | noArm | lastArm | lastArmEnded => exact Nat.le_refl _
  | behindLastArm hexit => exact Nat.le_of_lt hexit
  | next hcut | arm hcut | emptyElseIf hcut | elseIf hcut | otherwise hcut =>
    exact Nat.le_of_lt (lt_next_of_cut hcut)
  | behindArm hcut _ hforward | behindElseIf hcut _ hforward =>
    exact Nat.le_of_lt (Nat.lt_trans (lt_next_of_cut hcut) hforward)

/-- A turn goes forward, as it starts by cutting off a statement. -/
theorem lt_pc_of_makes_of_isTurn (h : s.Makes call next) (hturn : call.IsTurn) :
    call.pc < next.pc := by
  cases h with
  | enter | goOn | lastArm | lastArmEnded | behindLastArm => exact hturn.elim
  | noArm hended => exact absurd hturn hended
  | next hcut | arm hcut | emptyElseIf hcut | elseIf hcut | otherwise hcut =>
    exact lt_next_of_cut hcut
  | behindArm hcut _ hforward | behindElseIf hcut _ hforward =>
    exact Nat.lt_trans (lt_next_of_cut hcut) hforward

/-- No call of a run stands before its start. -/
theorem le_pc_of_mem_trace (h : call ∈ s.trace root) : root.pc ≤ call.pc :=
  trace_induction (motive := fun call => root.pc ≤ call.pc)
    (fun _ _ hmakes hle => Nat.le_trans hle (le_pc_of_makes hmakes))
    (Nat.le_refl _) call h

/-- Every call behind a turn, until the turn is over, stands at a later position. -/
theorem lt_pc_of_mem_tail_of_isTurn (hturn : turn.IsTurn) (h : next ∈ (s.trace turn).tail) :
    turn.pc < next.pc := by
  obtain ⟨made, hmade, hnext⟩ := exists_of_mem_tail h
  exact Nat.lt_of_lt_of_le (lt_pc_of_makes_of_isTurn (makes_of_mem_calls hmade) hturn)
    (le_pc_of_mem_trace hnext)

/-- A block that is walked during the walk through another one starts at a later position. -/
theorem lt_pc_of_mem_tail_of_isBlock (houter : outer.IsBlock) (hinner : inner.IsBlock)
    (h : inner ∈ (s.trace outer).tail) : outer.pc < inner.pc := by
  cases outer with
  | block depth bound active pc =>
    obtain ⟨made, hmade, hinner'⟩ := exists_of_mem_tail h
    -- The block itself does not go forward, but it goes over into the first of its turns.
    cases makes_of_mem_calls hmade with
    | enter =>
      rcases eq_or_mem_tail_of_mem_trace hinner' with rfl | htail
      · exact hinner.elim
      · have hturn : (Call.statements depth bound active [] pc).IsTurn := trivial
        have hlt := lt_pc_of_mem_tail_of_isTurn hturn htail
        exact hlt
  | statements | resume | arms | otherwise => exact houter.elim

/-! ### Nesting -/

/-- The depth of the blocks that a call walks. -/
def Call.level : Call → Nat
  | .block depth _ _ _ | .statements depth _ _ _ _ | .resume depth _ _ _ _ => depth
  | .arms depth _ _ _ _ _ => depth
  | .otherwise depth _ _ _ _ _ _ => depth + 1

/-- There are as many positions before a call, within the code, as blocks around it. -/
def Call.Nests (size : Nat) (call : Call) : Prop := call.level ≤ call.pc ∧ call.level ≤ size

/-- A block that is deeper by one starts at a later position. -/
theorem nests_of_makes (h : s.Makes call next) (hnests : call.Nests s.script.code.size) :
    next.Nests s.script.code.size := by
  obtain ⟨hpc, hsize⟩ := hnests
  cases h with
  | enter | goOn | noArm | lastArm => exact ⟨hpc, hsize⟩
  | lastArmEnded => simp only [Call.Nests, Call.level, Call.pc] at *; omega
  | behindLastArm hexit => simp only [Call.Nests, Call.level, Call.pc] at *; omega
  -- A statement takes at least a byte, which pays for one block more.
  | next hcut | arm hcut | emptyElseIf hcut | elseIf hcut | otherwise hcut | behindArm hcut
  | behindElseIf hcut =>
    have hlt := lt_next_of_cut hcut
    have hle := next_le_of_cut hcut
    simp only [Call.Nests, Call.level, Call.pc] at *
    omega

/-- A cut fails because an instruction cannot be decoded. -/
theorem exists_decode_of_cut_eq_error {bound pc : Nat} {active : Option UInt32} {stack : List Frame}
    {fault : Fault} (h : s.script.cut bound active stack pc = .error fault) :
    ∃ turn ∈ s.script.cutTurns bound pc, decode s.script.code turn = .error fault := by
  have hlast : (fun c => c.last.instr) <$> s.script.cut bound active stack pc = _ :=
    Script.cut_eq_decode_getLast
  rw [h] at hlast
  exact ⟨_, List.getLast_mem Script.cutTurns_ne_nil, hlast.symm⟩

/-- What a call raises by itself: its block is nested too deep, an instruction of the statement that
it cuts off cannot be decoded, or the branch of this statement goes back. -/
theorem cases_of_raised? {fault : Fault} (h : s.raised? call = some fault) :
    (s.limit ≤ call.level ∧ fault = .nestingTooDeep s.limit call.pc) ∨
      call.IsTurn ∧ ((∃ pc, decode s.script.code pc = .error fault) ∨
        ∃ pc target, fault = .backwardBranch pc target) := by
  -- Statements and further arms cut off in the same way, so both take this from here.
  have hcut : ∀ {bound : Nat} {active : Option UInt32} {stack : List Frame} {pc : Nat},
      s.cutFault? bound active stack pc = some fault →
        (∃ pc, decode s.script.code pc = .error fault) ∨
          ∃ pc target, fault = .backwardBranch pc target := by
    intro bound active stack pc hfault
    rw [cutFault?] at hfault
    split at hfault
    · next fault' hcut =>
      obtain ⟨turn, -, hturn⟩ := exists_decode_of_cut_eq_error hcut
      exact .inl ⟨turn, Option.some.inj hfault ▸ hturn⟩
    · next c _ =>
      rw [Cut.backward?] at hfault
      split at hfault
      · split at hfault
        · exact .inr ⟨_, _, (Option.some.inj hfault).symm⟩
        · cases hfault
      · cases hfault
  cases call with
  | block depth bound active pc =>
    rw [raised?] at h
    split at h
    · next hlimit => exact .inl ⟨hlimit, (Option.some.inj h).symm⟩
    · cases h
  | statements depth bound active stack pc => exact .inr ⟨trivial, hcut h⟩
  | arms depth bound active stack exit pc =>
    rw [raised?] at h
    split at h
    · next hturn => exact .inr ⟨hturn, hcut h⟩
    · cases h
  -- The other calls raise nothing by themselves.
  | resume | otherwise => cases h

/-- Where the limit is above the length of the code, no block is nested too deep. -/
theorem raised?_ne_nestingTooDeep (hlimit : s.script.code.size < s.limit)
    (hroot : root.Nests s.script.code.size) (h : call ∈ s.trace root) (limit pc : Nat) :
    s.raised? call ≠ some (.nestingTooDeep limit pc) := by
  have hnests : call.Nests s.script.code.size :=
    trace_induction (fun _ _ hmakes => nests_of_makes hmakes) hroot call h
  intro hraised
  rcases cases_of_raised? hraised with ⟨hle, -⟩ | ⟨-, ⟨pc', hdecode⟩ | ⟨_, _, hbackward⟩⟩
  · exact Nat.not_le.mpr (Nat.lt_of_le_of_lt hnests.2 hlimit) hle
  · exact decode_ne_nestingTooDeep hdecode
  · cases hbackward

/-! ### Addresses -/

/-- The targets of jumps and branches are addresses. -/
theorem lt_of_flow {c : Cut} {target : Nat} (h : c.flow = .jump target ∨ c.flow = .branch target) :
    target < UInt32.size := by
  unfold Cut.flow at h
  -- Both targets are operands of one word.
  cases hop : c.last.instr.op with
  | jump target' =>
    rw [hop] at h
    rcases h with h | h
    · exact Flow.jump.inj h ▸ UInt32.toNat_lt target'
    · cases h
  | jumpIfZero target' =>
    rw [hop] at h
    rcases h with h | h
    · cases h
    · exact Flow.branch.inj h ▸ UInt32.toNat_lt target'
  | _ =>
    rw [hop] at h
    rcases h with h | h <;> cases h

/-- A block that returns is left at an address. -/
theorem exitAfterReturn_lt {script : Script} {bound pc : Nat} (h : pc < UInt32.size) :
    script.exitAfterReturn bound pc < UInt32.size := by
  unfold Script.exitAfterReturn
  split
  · split
    · split
      · exact UInt32.toNat_lt _
      · exact h
    · exact h
  · exact h

/-- A call that `call` makes ends its walk where `walk` ends. -/
def HandsOn (s : Setting) (call : Call) (walk : Walk) : Prop :=
  ∃ next, s.Makes call next ∧ ∃ more, s.walk next = .ok more ∧ more.exit = walk.exit

variable {depth bound exit pc : Nat} {active : Option UInt32} {stack : List Frame} {c : Cut}
  {walk : Walk}

/-- Behind a statement, a walk ends at an address or where a call that it makes does. -/
theorem exit_of_walkedFrom (hcode : s.script.code.size < UInt32.size)
    (hcut : s.script.cut bound active stack pc = .ok c) (h : s.WalkedFrom depth bound c walk) :
    walk.exit < UInt32.size ∨ s.HandsOn (.statements depth bound active stack pc) walk := by
  have hnext : c.next < UInt32.size := Nat.lt_of_le_of_lt (next_le_of_cut hcut) hcode
  cases h with
  | jump hflow => exact .inl (lt_of_flow (.inl hflow))
  | ret hflow =>
    left
    dsimp only
    split
    · exact hnext
    · exact exitAfterReturn_lt hnext
  | next hflow hrest => exact .inr ⟨_, .next hcut, _, hrest, rfl⟩
  | emptyArm hflow hrest => exact .inr ⟨_, .next hcut, _, hrest, rfl⟩
  | arm hflow hforward hbody harms =>
    exact .inr ⟨_, .behindArm hcut hflow hforward hbody, _, congrArg (Prod.snd <$> ·) harms, rfl⟩

/-- The walk behind an arm ends where the arms behind it, or what follows the chain, ends. -/
theorem handsOn_of_armsWalkedFrom {arms : Arms}
    (hcut : s.script.cut bound active stack pc = .ok c)
    (h : s.ArmsWalkedFrom depth bound exit c (arms, walk)) :
    s.HandsOn (.arms depth bound active stack exit pc) walk := by
  cases h with
  | jumped hflow hresult =>
    exact ⟨_, .otherwise hcut, _, congrArg (Prod.snd <$> ·) hresult, rfl⟩
  | stepped hflow hresult =>
    exact ⟨_, .otherwise hcut, _, congrArg (Prod.snd <$> ·) hresult, rfl⟩
  | emptyElseIf hflow harms =>
    exact ⟨_, .emptyElseIf hcut, _, congrArg (Prod.snd <$> ·) harms, rfl⟩
  | elseIf hflow hforward hbody harms =>
    exact ⟨_, .behindElseIf hcut hflow hforward hbody, _, congrArg (Prod.snd <$> ·) harms, rfl⟩

/-- Where a walk ends is an address, or the position of its call, or where a call that it makes has
ended. -/
theorem exit_of_walk (hcode : s.script.code.size < UInt32.size) (h : s.walk call = .ok walk) :
    walk.exit < UInt32.size ∨ walk.exit = call.pc ∨ s.HandsOn call walk := by
  cases call with
  | block depth bound active pc =>
    by_cases hdepth : s.limit ≤ depth
    · simp [Setting.walk, Setting.block, hdepth] at h
    · have hdepth := Nat.not_le.mp hdepth
      rw [Setting.walk, s.block_eq hdepth] at h
      exact .inr (.inr ⟨_, .enter hdepth, walk, h, rfl⟩)
  | statements depth bound active stack pc =>
    rw [Setting.walk, statements_eq] at h
    -- The statement that is cut off says how the walk goes on.
    obtain ⟨c, hcut, hafter⟩ := exists_of_bind_eq_ok h
    have hwalked := s.walkedFrom_of_afterCut hafter
    exact (exit_of_walkedFrom hcode hcut hwalked).imp_right .inr
  | resume depth bound active stack pc =>
    by_cases hbound : bound ≤ pc
    · rw [Setting.walk, s.resume_of_le hbound] at h
      cases h
      exact .inr (.inl rfl)
    · have hbound := Nat.not_le.mp hbound
      rw [Setting.walk, s.resume_of_lt hbound] at h
      exact .inr (.inr ⟨_, .goOn hbound, walk, h, rfl⟩)
  | arms depth bound active stack exit pc =>
    obtain ⟨⟨arms, last⟩, harms, rfl⟩ := exists_of_map_eq_ok h
    right
    right
    -- A chain that has ended, or reaches the bound, hands on to what follows it.
    by_cases hturn : pc < exit ∧ pc < bound
    · rw [s.arms_eq hturn.1 hturn.2] at harms
      obtain ⟨c, hcut, hafter⟩ := exists_of_bind_eq_ok harms
      exact handsOn_of_armsWalkedFrom hcut (s.armsWalkedFrom_of_armAfterCut hafter)
    · rw [Setting.arms, if_neg hturn] at harms
      obtain ⟨rest, hrest, heq⟩ := exists_of_map_eq_ok harms
      cases heq
      exact ⟨_, .noArm hturn, last, hrest, rfl⟩
  | otherwise depth bound active stack opening exit pc =>
    obtain ⟨⟨arms, last⟩, harms, rfl⟩ := exists_of_map_eq_ok h
    right
    right
    -- The last arm may be empty; what follows the chain comes last in both cases.
    rcases Nat.lt_or_ge pc exit with hlt | hge
    · rw [s.otherwise_of_lt hlt] at harms
      obtain ⟨body, hbody, hmap⟩ := exists_of_bind_eq_ok harms
      obtain ⟨rest, hrest, heq⟩ := exists_of_map_eq_ok hmap
      cases heq
      exact ⟨_, .behindLastArm hlt hbody, last, hrest, rfl⟩
    · rw [s.otherwise_of_le hge] at harms
      obtain ⟨rest, hrest, heq⟩ := exists_of_map_eq_ok harms
      cases heq
      exact ⟨_, .lastArmEnded hge, last, hrest, rfl⟩

/-- The positions of a call are addresses. -/
def Call.IsAddressed : Call → Prop
  | .block _ _ _ pc | .statements _ _ _ _ pc | .resume _ _ _ _ pc => pc < UInt32.size
  | .arms _ _ _ _ exit pc | .otherwise _ _ _ _ _ exit pc => pc < UInt32.size ∧ exit < UInt32.size

/-- A call whose positions are addresses starts at one. -/
theorem Call.IsAddressed.pc_lt (h : call.IsAddressed) : call.pc < UInt32.size := by
  cases call with
  | block | statements | resume => exact h
  | arms | otherwise => exact h.1

/-- Addresses lead to addresses if the walks through inner blocks end at addresses. -/
theorem isAddressed_of_makes (hcode : s.script.code.size < UInt32.size)
    (hinner : ∀ inner, s.Makes call inner → inner.IsAddressed →
      ∀ body, s.walk inner = .ok body → body.exit < UInt32.size)
    (h : call.IsAddressed) (hmakes : s.Makes call next) : next.IsAddressed := by
  cases hmakes with
  | enter | goOn => exact h
  | noArm | lastArm | lastArmEnded => exact h.1
  -- Behind a cut, the position is within the code.
  | next hcut | arm hcut | elseIf hcut => exact Nat.lt_of_le_of_lt (next_le_of_cut hcut) hcode
  | emptyElseIf hcut | otherwise hcut =>
    exact ⟨Nat.lt_of_le_of_lt (next_le_of_cut hcut) hcode, h.2⟩
  -- Behind the body of an arm, the chain has the exit of this body.
  | behindArm hcut hflow hforward hbody =>
    have hstart := Nat.lt_of_le_of_lt (next_le_of_cut hcut) hcode
    exact ⟨lt_of_flow (.inr hflow), hinner _ (.arm hcut hflow hforward) hstart _ hbody⟩
  | behindElseIf hcut hflow hforward hbody =>
    have hstart := Nat.lt_of_le_of_lt (next_le_of_cut hcut) hcode
    exact ⟨lt_of_flow (.inr hflow), hinner _ (.elseIf hcut hflow hforward) hstart _ hbody⟩
  | behindLastArm hexit hbody => exact h.2

/-- A walk from an address ends at an address. -/
theorem exit_lt_of_isAddressed (hcode : s.script.code.size < UInt32.size) (call : Call) :
    call.IsAddressed → ∀ walk, s.walk call = .ok walk → walk.exit < UInt32.size := by
  induction call using s.call_induction with
  | step call ih =>
    intro haddressed walk hwalk
    -- The last call of the walk decides, so the bound goes back along the calls that hand on.
    rcases exit_of_walk hcode hwalk with hlt | hpc | ⟨next, hmakes, more, hmore, hexit⟩
    · exact hlt
    · exact hpc ▸ haddressed.pc_lt
    · have hnext : next.IsAddressed := isAddressed_of_makes hcode ih haddressed hmakes
      exact hexit ▸ ih next hmakes hnext more hmore

/-- **All positions of a run are addresses**, if its start is one. -/
theorem isAddressed_of_mem_trace (hcode : s.script.code.size < UInt32.size)
    (hroot : root.IsAddressed) (h : call ∈ s.trace root) : call.IsAddressed :=
  trace_induction (fun _ _ hmakes haddressed =>
    isAddressed_of_makes hcode (fun inner _ => exit_lt_of_isAddressed hcode inner) haddressed hmakes)
    hroot call h

end Setting

/-! ### The walk through a body -/

/-- The start of the statements of a body is computed in 32 bits without a wrap. -/
theorem toNat_start {script : Script} {sym : Symbol} {start : Nat}
    (h : script.bodyStart sym = .ok start) :
    (sym.address + 6 * UInt32.ofNat (script.parametersOf sym).length).toNat = start := by
  rw [Script.bodyStart] at h
  split at h
  · next hlt =>
    have hsix : (6 : UInt32) = UInt32.ofNat 6 := rfl
    rw [← Except.ok.inj h, hsix, ← UInt32.ofNat_mul, UInt32.toNat_add,
      UInt32.toNat_ofNat_of_lt' (by omega)]
    exact Nat.mod_eq_of_lt hlt
  · cases h

/-- The calls of a run go forward, within the addresses of 32 bits. -/
structure Setting.Progresses (s : Setting) (root : Setting.Call) : Prop where
  /-- An inner block starts at a later position than every block around it. -/
  blocks : ∀ outer ∈ s.trace root, ∀ inner ∈ (s.trace outer).tail,
    outer.IsBlock → inner.IsBlock → outer.pc < inner.pc
  /-- Every turn of the loops over statements and arms ends at a later position. -/
  turns : ∀ turn ∈ s.trace root, turn.IsTurn → ∀ later ∈ (s.trace turn).tail, turn.pc < later.pc
  /-- Every turn of the loop that cuts off a statement decodes at a later position, and the last one
  gives the outcome. -/
  cuts : ∀ bound active stack pc, (s.script.cutTurns bound pc).Pairwise (· < ·) ∧
    (fun c => c.last.instr) <$> s.script.cut bound active stack pc =
      decode s.script.code ((s.script.cutTurns bound pc).getLast Script.cutTurns_ne_nil)
  /-- A position behind an instruction is within the code, and computed without a wrap. -/
  nexts : ∀ pc instr, decode s.script.code pc = .ok instr →
    (UInt32.ofNat pc + UInt32.ofNat instr.op.size).toNat = instr.next ∧
      instr.next ≤ s.script.code.size
  /-- There is nothing to decode behind the code. -/
  pastEnd : ∀ pc, s.script.code.size ≤ pc →
    decode s.script.code pc = .error (.outOfBounds pc s.script.code.size)
  /-- All positions are addresses. -/
  addresses : ∀ call ∈ s.trace root, call.pc < UInt32.size
  /-- A limit above the length of the code is never reached. -/
  limit : s.script.code.size < s.limit → ∀ call ∈ s.trace root, ∀ limit pc,
    s.raised? call ≠ some (.nestingTooDeep limit pc)

/-- The call with which the walk through the body of the callable starts. -/
def Setting.root (s : Setting) (start : Nat) : Setting.Call :=
  .block 0 s.script.code.size s.callable.initialActive start

/-- The recovered statements of a body come from the walk through it. -/
theorem Script.exists_walk_of_bodyBlock {script : Script} {sym : Symbol} {limit : Nat} {block : Block}
    (h : script.bodyBlock sym limit = .ok block) :
    ∃ start walk, script.bodyStart sym = .ok start ∧
      Setting.walk ⟨script, sym, limit⟩ (Setting.root ⟨script, sym, limit⟩ start) = .ok walk ∧
      walk.block = block := by
  obtain ⟨_, -, h⟩ := exists_of_bind_eq_ok h
  obtain ⟨start, hstart, h⟩ := exists_of_bind_eq_ok h
  obtain ⟨walk, hwalk, h⟩ := exists_of_bind_eq_ok h
  exact ⟨start, walk, hstart, hwalk, Except.ok.inj h⟩

/-- The walk through a body goes forward. -/
theorem Setting.progresses_root {s : Setting} {start : Nat}
    (hcode : s.script.code.size < UInt32.size) (hstart : start < UInt32.size) :
    s.Progresses (s.root start) where
  blocks _ _ _ hinner houter hblock := lt_pc_of_mem_tail_of_isBlock houter hblock hinner
  turns _ _ hturn _ hlater := lt_pc_of_mem_tail_of_isTurn hturn hlater
  cuts _ _ _ _ := ⟨Script.cutTurns_pairwise.1, Script.cut_eq_decode_getLast⟩
  nexts _ _ hdecode := ⟨toNat_next_of_decode hcode hdecode, next_le_of_decode hdecode⟩
  pastEnd _ hpc := decode_of_size_le hpc
  addresses _ hcall :=
    have hroot : (s.root start).IsAddressed := hstart
    (isAddressed_of_mem_trace hcode hroot hcall).pc_lt
  limit hlimit _ hcall :=
    have hroot : (s.root start).Nests s.script.code.size := ⟨Nat.zero_le _, Nat.zero_le _⟩
    raised?_ne_nestingTooDeep hlimit hroot hcall

/-- How the recovery of the body of the callable ends. -/
inductive Setting.BodyEnds (s : Setting) (indent : Nat) : Prop where
  /-- The callable has no body, or the body has no start: nothing is decoded. -/
  | refused {fault : Fault}
    (hrefused : s.callable.requireBody = .error fault ∨
      s.script.bodyStart s.callable = .error fault)
    (hresult : s.script.decompileBody s.callable indent s.limit = .error fault)
  /-- The code is walked, and gives a text unless a call of the walk raises a fault. -/
  | walked {start : Nat} (hstart : s.script.bodyStart s.callable = .ok start)
    (haddress : (s.callable.address +
      6 * UInt32.ofNat (s.script.parametersOf s.callable).length).toNat = start)
    (hprogress : s.Progresses (s.root start))
    (hresult : faultOf (s.script.decompileBody s.callable indent s.limit) =
      (s.trace (s.root start)).findSome? s.raised?)

/-- **The recovery of a body ends.** For every code of less than 2^32 bytes, every callable and
every limit it gives a text or a fault after finitely many calls, in which every loop goes forward,
inner blocks start at later positions, and no address wraps. -/
theorem Setting.bodyEnds (s : Setting) (indent : Nat) (hcode : s.script.code.size < UInt32.size) :
    s.BodyEnds indent := by
  -- A callable may be refused for two reasons before the walk starts.
  cases hbody : s.callable.requireBody with
  | error fault =>
    refine .refused (.inl hbody) ?_
    rw [Script.decompileBody, Script.bodyBlock, hbody]
    rfl
  | ok =>
    cases hstart : s.script.bodyStart s.callable with
    | error fault =>
      refine .refused (.inr hstart) ?_
      rw [Script.decompileBody, Script.bodyBlock, hbody, hstart]
      rfl
    | ok start =>
      have haddress := toNat_start hstart
      have hlt : start < UInt32.size := haddress ▸ UInt32.toNat_lt _
      refine .walked hstart haddress (progresses_root hcode hlt) ?_
      rw [← fault?_eq_findSome?_trace, Script.decompileBody, faultOf_map, Script.bodyBlock, hbody,
        hstart]
      exact faultOf_map Walk.block _

/-- A body in which an arm contains a chain: behind the condition `A` stand a chain with the
condition `B` and no statement, and a return. -/
def nestedSetting : Setting where
  script := Script.ofParts
    #[0x41, 1, 0, 0, 0, 0x4c, 21, 0, 0, 0, 0x41, 2, 0, 0, 0, 0x4c, 20, 0, 0, 0, 0x3c, 0x3c]
    [{ name := "F", kind := .func, flags := Flags.none.add .const }, { name := "A", kind := .int },
      { name := "B", kind := .int }]
  callable := { name := "F", kind := .func, flags := Flags.none.add .const }
  limit := 256

/-- A body with a chain inside of an arm, whose walk ends. -/
theorem bodyEnds_nestedSetting : nestedSetting.script.bodyStart nestedSetting.callable = .ok 0 ∧
    nestedSetting.script.code.size < UInt32.size ∧ nestedSetting.BodyEnds 4 := by
  have hsize : nestedSetting.script.code.size < UInt32.size := by decide
  exact ⟨rfl, hsize, nestedSetting.bodyEnds 4 hsize⟩

end Daedalus
