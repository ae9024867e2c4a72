import Daedalus.Source.Expr

/-! # Blocks

Bodies of functions as trees: statements of one line, and chains of conditional arms with an
optional last arm without a condition. `Block.lines` writes a block; every arm is closed where it
was opened and indented four spaces more. -/

namespace Daedalus

open Text

mutual
/-- A sequence of statements. -/
inductive Block where
  /-- The end of the block. -/
  | done
  /-- A statement. The results that were left unused before it come with it, the latest one first.
  -/
  | step (main : Expr) (unused : List Expr) (rest : Block)
  /-- A chain of arms, of which the first is given by its condition and body. -/
  | chain (condition : Expr) (body : Block) (arms : Arms) (rest : Block)
  deriving Repr
/-- The arms of a chain behind the first one. -/
inductive Arms where
  /-- No more arms. -/
  | done
  /-- An arm with a condition. -/
  | elseIf (condition : Expr) (body : Block) (rest : Arms)
  /-- The last arm, without a condition. -/
  | otherwise (body : Block)
  deriving Repr
end

/-- The line of a statement, without the line end; a statement without text has no line. -/
def stepLine (indent : Nat) (e : Expr) : List String :=
  if e.text = "" then [] else [spaces indent ++ e.text ++ ";"]

mutual
/-- The lines of a block, without line ends. -/
def Block.lines (indent : Nat) : Block → List String
  | .done => []
  | .step main unused rest =>
      unused.reverse.flatMap (stepLine indent) ++ stepLine indent main ++ rest.lines indent
  | .chain condition body arms rest =>
      (spaces indent ++ "if (" ++ condition.text ++ ") \x7b") ::
        (body.lines (indent + 4) ++ arms.lines indent ++ rest.lines indent)
/-- The lines of the further arms of a chain, without line ends, from the end of the arm before them
on. -/
def Arms.lines (indent : Nat) : Arms → List String
  | .done => [spaces indent ++ "\x7d;"]
  | .elseIf condition body rest =>
      (spaces indent ++ "\x7d else if (" ++ condition.text ++ ") \x7b") ::
        (body.lines (indent + 4) ++ rest.lines indent)
  | .otherwise body =>
      (spaces indent ++ "\x7d else \x7b") :: (body.lines (indent + 4) ++ [spaces indent ++ "\x7d;"])
end

/-- The text of a block. -/
def Block.text (indent : Nat) (block : Block) : String := unlines (block.lines indent)

mutual
/-- The function's own locals in a block, in the order in which its statements are recovered. -/
def Block.locals : Block → List Symbol
  | .done => []
  | .step main unused rest => main.locals ++ unused.flatMap Expr.locals ++ rest.locals
  | .chain condition body arms rest => condition.locals ++ body.locals ++ arms.locals ++ rest.locals
/-- The function's own locals in the further arms of a chain. -/
def Arms.locals : Arms → List Symbol
  | .done => []
  | .elseIf condition body rest => condition.locals ++ body.locals ++ rest.locals
  | .otherwise body => body.locals
end

end Daedalus
