import Daedalus.Source.Block

/-! # Blocks line by line

A step of a block holds a statement together with the results that were left unused before it.
`Block.split` gives each unused result a step of its own, in the order of the lines. The lines stay
the same, so two blocks with the same split cannot be told apart in the source text. -/

namespace Daedalus

/-- Unused results as steps of their own in front of a block; the latest result comes first in the
list and last in the block. -/
def Block.prepend (unused : List Expr) (block : Block) : Block :=
  unused.foldl (fun rest e => .step e [] rest) block

/-- Unused results in front of an arm without a condition. -/
def Arms.prepend (unused : List Expr) : Arms → Arms
  | .otherwise body => .otherwise (body.prepend unused)
  | arms => arms

mutual
/-- The block with a step of its own for each unused result. -/
def Block.split : Block → Block
  | .done => .done
  | .step main unused rest => Block.prepend unused (.step main [] rest.split)
  | .chain condition body arms rest => .chain condition body.split arms.split rest.split
/-- The arms with a step of its own for each unused result. -/
def Arms.split : Arms → Arms
  | .done => .done
  | .elseIf condition body rest => .elseIf condition body.split rest.split
  | .otherwise body => .otherwise body.split
end

/-- Without unused results, arms stay as they are. -/
@[simp] theorem Arms.prepend_nil (arms : Arms) : arms.prepend [] = arms := by
  cases arms <;> rfl

namespace Block

/-- Without unused results, a block stays as it is. -/
@[simp] theorem prepend_nil (block : Block) : prepend [] block = block := rfl

/-- The latest unused result is the last one in front of a block. -/
@[simp] theorem prepend_cons (e : Expr) (unused : List Expr) (block : Block) :
    prepend (e :: unused) block = prepend unused (.step e [] block) := rfl

/-- Results can be put in front of a block one list after the other. -/
theorem prepend_append (left right : List Expr) (block : Block) :
    prepend (left ++ right) block = prepend right (prepend left block) := List.foldl_append

/-- Results in front of a block give a step at its start. -/
theorem exists_step_of_prepend {unused : List Expr} (h : unused ≠ []) (block : Block) :
    ∃ e rest, prepend unused block = .step e [] rest := by
  induction unused generalizing block with
  | nil => exact absurd rfl h
  | cons e unused ih =>
    -- The last result of the list gives the first step, so the induction goes to the end.
    cases unused with
    | nil => exact ⟨e, block, rfl⟩
    | cons e' unused => exact ih (List.cons_ne_nil _ _) _

/-- Results can be taken off the front of equal blocks. -/
theorem prepend_inj {unused : List Expr} {block block' : Block}
    (h : prepend unused block = prepend unused block') : block = block' := by
  induction unused generalizing block block' with
  | nil => exact h
  | cons e unused ih =>
    have hstep := ih h
    injection hstep

/-- The lines of unused results stand in front of those of the block, the earliest first. -/
theorem lines_prepend (indent : Nat) (unused : List Expr) (block : Block) :
    (prepend unused block).lines indent =
      unused.reverse.flatMap (stepLine indent) ++ block.lines indent := by
  induction unused generalizing block with
  | nil => rfl
  | cons e unused ih => simp [ih, lines]

end Block

mutual
/-- Splitting keeps the lines of a block. -/
theorem Block.lines_split : ∀ (block : Block) (indent : Nat),
    block.split.lines indent = block.lines indent
  | .done, _ => rfl
  | .step _ _ rest, _ => by
    simp [Block.split, Block.lines_prepend, Block.lines, rest.lines_split]
  | .chain _ body arms rest, _ => by
    simp [Block.split, Block.lines, body.lines_split, arms.lines_split, rest.lines_split]
/-- Splitting keeps the lines of arms. -/
theorem Arms.lines_split : ∀ (arms : Arms) (indent : Nat),
    arms.split.lines indent = arms.lines indent
  | .done, _ => rfl
  | .elseIf _ body rest, _ => by
    simp [Arms.split, Arms.lines, body.lines_split, rest.lines_split]
  | .otherwise body, _ => by simp [Arms.split, Arms.lines, body.lines_split]
end

/-- A block behind unused results has no locals just if neither of them has. -/
theorem Block.locals_prepend_eq_nil {unused : List Expr} {block : Block} :
    (Block.prepend unused block).locals = [] ↔
      unused.flatMap Expr.locals = [] ∧ block.locals = [] := by
  induction unused generalizing block with
  | nil => simp
  | cons e unused ih =>
    simp only [Block.prepend_cons, ih, Block.locals, List.flatMap_nil, List.append_nil,
      List.flatMap_cons, List.append_eq_nil_iff]
    constructor
    · rintro ⟨hunused, he, hblock⟩
      exact ⟨⟨he, hunused⟩, hblock⟩
    · rintro ⟨⟨he, hunused⟩, hblock⟩
      exact ⟨hunused, he, hblock⟩

mutual
/-- Splitting does not change whether a block uses locals. -/
theorem Block.locals_split_eq_nil : ∀ {block : Block}, block.split.locals = [] ↔ block.locals = []
  | .done => Iff.rfl
  | .step main unused rest => by
    simp only [Block.split, Block.locals_prepend_eq_nil, Block.locals, List.flatMap_nil,
      List.append_nil, List.append_eq_nil_iff, rest.locals_split_eq_nil]
    constructor
    · rintro ⟨hunused, hmain, hrest⟩
      exact ⟨⟨hmain, hunused⟩, hrest⟩
    · rintro ⟨⟨hmain, hunused⟩, hrest⟩
      exact ⟨hunused, hmain, hrest⟩
  | .chain condition body arms rest => by
    simp only [Block.split, Block.locals, List.append_eq_nil_iff, body.locals_split_eq_nil,
      arms.locals_split_eq_nil, rest.locals_split_eq_nil]
/-- Splitting does not change whether arms use locals. -/
theorem Arms.locals_split_eq_nil : ∀ {arms : Arms}, arms.split.locals = [] ↔ arms.locals = []
  | .done => Iff.rfl
  | .elseIf condition body rest => by
    simp only [Arms.split, Arms.locals, List.append_eq_nil_iff, body.locals_split_eq_nil,
      rest.locals_split_eq_nil]
  | .otherwise body => by simp only [Arms.split, Arms.locals, body.locals_split_eq_nil]
end

end Daedalus
