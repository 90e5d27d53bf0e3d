import Reckoner.Expr.Value

/-!
# Walking through a tree

Computing the value of a tree and writing it are both a fold: each node is dealt with once its
operands have been. A fold that may only descend a number of levels gives the same result if that
number is greater than the height of the tree.

## Main definitions

* `Expr.Fold`: what to do at a node of each form;
* `Expr.Fold.run` and `Expr.Fold.runWithin`: a fold, and a fold with a bound on the levels.

## Main results

* `Expr.value_eq_run` and `Expr.render_eq_run`: the value and the text of a tree are folds;
* `Expr.Fold.runWithin_eq`: the bound makes no difference to trees that are not too high.
-/

namespace Reckoner.Expr

/-- What to do at a node of each form, given the results for its operands. -/
structure Fold (α : Type) where
  /-- A literal. -/
  literal : Token → α
  /-- An operator in front of its operand. -/
  unary : Token → α → α
  /-- An operator between its operands. -/
  binary : Token → α → α → α
  /-- A function of one argument. -/
  application : Token → α → α

namespace Fold

variable {α : Type}

/-- The result for a tree. -/
def run (fold : Fold α) : Expr → α
  | .literal token => fold.literal token
  | .unary operator operand => fold.unary operator (fold.run operand)
  | .binary operator left right => fold.binary operator (fold.run left) (fold.run right)
  | .application function argument => fold.application function (fold.run argument)

/-- The result for a tree, unless the fold has to descend more than the given number of levels. -/
def runWithin (fold : Fold α) : Nat → Expr → Option α
  | 0, _ => none
  | _ + 1, .literal token => some (fold.literal token)
  | levels + 1, .unary operator operand => do
    let x ← fold.runWithin levels operand
    return fold.unary operator x
  | levels + 1, .binary operator left right => do
    let x ← fold.runWithin levels left
    let y ← fold.runWithin levels right
    return fold.binary operator x y
  | levels + 1, .application function argument => do
    let x ← fold.runWithin levels argument
    return fold.application function x

/-- The bound makes no difference to a tree that is not too high. -/
theorem runWithin_eq (fold : Fold α) {levels : Nat} {e : Expr} (h : e.height < levels) :
    fold.runWithin levels e = some (fold.run e) := by
  induction levels generalizing e with
  | zero => exact absurd h (Nat.not_lt_zero _)
  | succ levels ih =>
    cases e with
    | literal token => rfl
    | unary operator operand =>
      rw [runWithin, ih (Nat.lt_of_succ_lt_succ h)]
      rfl
    | binary operator left right =>
      have hmax : max left.height right.height < levels := Nat.lt_of_succ_lt_succ h
      rw [runWithin, ih (by omega), ih (by omega)]
      rfl
    | application function argument =>
      rw [runWithin, ih (Nat.lt_of_succ_lt_succ h)]
      rfl

end Fold

/-- Computing a value. The operands are computed first, the left one before the right one. -/
def valueFold : Fold (Except EvalError Float) where
  literal token := token.literalValue
  unary operator x := do operator.unaryValue (← x)
  binary operator x y := do operator.binaryValue (← x) (← y)
  application function x := do function.applicationValue (← x)

/-- Writing a tree. -/
def renderFold : Fold String where
  literal token := token.text
  unary operator operand := s!"({operator.text} {operand})"
  binary operator left right := s!"({operator.text} {left} {right})"
  application function argument := s!"({function.text} {argument})"

theorem value_eq_run (e : Expr) : e.value = valueFold.run e := by
  induction e with
  | literal token => rfl
  | unary operator operand ih => rw [value, Fold.run, ih]; rfl
  | binary operator left right ihl ihr => rw [value, Fold.run, ihl, ihr]; rfl
  | application function argument ih => rw [value, Fold.run, ih]; rfl

theorem render_eq_run (e : Expr) : e.render = renderFold.run e := by
  induction e with
  | literal token => rfl
  | unary operator operand ih => rw [render, Fold.run, ih]; rfl
  | binary operator left right ihl ihr => rw [render, Fold.run, ihl, ihr]; rfl
  | application function argument ih => rw [render, Fold.run, ih]; rfl

end Reckoner.Expr
