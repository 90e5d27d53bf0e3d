import Reckoner.Expr.Basic

/-!
# The grammar of expressions

The grammar that the documentation gives, as a derivation relation. It is stated on its own: it
shares the trees and the kinds of tokens with the reader of expressions, and none of its tables.

## Main definitions

* `Nonterminal`: the nine nonterminals of the grammar;
* `Nonterminal.Covers`: from the looser nonterminals to the tighter ones;
* `Derives x ts e n`: the tokens `ts` are an `x` with the tree `e`, by a derivation on whose paths
  stand at most `n` factors inside one another;
* `Sentence`, `Viable` and `Hopeful`: the token sequences that are expressions, that begin one, and
  that begin one with the end of the text behind it.

## Main results

* `Derives.of_covers`: a tighter nonterminal is any looser one, as a factor is anything looser
  (`Derives.of_factor`), and anything looser is an expression (`Derives.toComplexExpr`);
* `Derives.inorder_eq`: the tree of a derivation holds the very tokens that were derived, in their
  order, without the parentheses.
-/

namespace Reckoner

/-- The nonterminals of the grammar, from the loosest to the tightest binding. -/
inductive Nonterminal where
  | complexExpr
  | xorExpr
  | andExpr
  | shiftExpr
  | arithExpr
  | term
  | factor
  | power
  | atom
  deriving DecidableEq, Repr

/-- The rules of the form `loose := tight (operator tight)*`: for `loose`, the operators and the
tighter nonterminal. All of them group to the left. -/
def Nonterminal.fold? : Nonterminal → Option (List Operator × Nonterminal)
  | complexExpr => some ([.or], xorExpr)
  | xorExpr => some ([.xor], andExpr)
  | andExpr => some ([.and], shiftExpr)
  | shiftExpr => some ([.leftShift, .rightShift], arithExpr)
  | arithExpr => some ([.plus, .minus], term)
  | term => some ([.times, .divide, .modulo, .floorDivide], factor)
  | factor | power | atom => none

/-- `loose.Covers tight`: down from `loose`, from one operand to the next tighter one, one comes to
`tight`. -/
inductive Nonterminal.Covers : Nonterminal → Nonterminal → Prop
  /-- This is where one starts. -/
  | refl (x : Nonterminal) : Covers x x
  /-- The first step is from a looser nonterminal to its operand. -/
  | operand {loose next tight : Nonterminal} {ops : List Operator}
      (hfold : loose.fold? = some (ops, next)) (h : Covers next tight) : Covers loose tight

namespace Nonterminal

variable {x : Nonterminal}

/-- All but powers and atoms are above the factors. -/
theorem covers_factor (hpower : x ≠ .power) (hatom : x ≠ .atom) : x.Covers .factor := by
  cases x with
  | power => exact absurd rfl hpower
  | atom => exact absurd rfl hatom
  -- a nonterminal is taken a level down as often as it has one
  | _ => repeat (first | exact .refl _ | refine .operand rfl ?_)

/-- The expressions are above all but powers and atoms. -/
theorem complexExpr_covers (hpower : x ≠ .power) (hatom : x ≠ .atom) :
    Covers .complexExpr x := by
  cases x with
  | power => exact absurd rfl hpower
  | atom => exact absurd rfl hatom
  | _ => repeat (first | exact .refl _ | refine .operand rfl ?_)

end Nonterminal

/-- `Derives x ts e n`: the tokens `ts` are an `x` with the tree `e`. The number `n` is that of the
factors inside one another on the path of the derivation where they are most. -/
inductive Derives : Nonterminal → List Token → Expr → Nat → Prop
  /-- A looser nonterminal with no operator of its own. -/
  | operand {loose tight : Nonterminal} {ops : List Operator} {ts : List Token} {e : Expr} {n : Nat}
      (hfold : loose.fold? = some (ops, tight)) (h : Derives tight ts e n) : Derives loose ts e n
  /-- One more operator and operand at the end of a looser nonterminal. -/
  | fold {loose tight : Nonterminal} {ops : List Operator} {o : Operator} {op : Token}
      {ts us : List Token} {l r : Expr} {m n : Nat} (hfold : loose.fold? = some (ops, tight))
      (left : Derives loose ts l m) (hop : op.kind = .operator o) (ho : o ∈ ops)
      (right : Derives tight us r n) : Derives loose (ts ++ op :: us) (.binary op l r) (max m n)
  /-- `factor := ('+' | '-' | '~') factor`. -/
  | sign {o : Operator} {op : Token} {ts : List Token} {e : Expr} {n : Nat}
      (hop : op.kind = .operator o) (ho : o ∈ [.plus, .minus, .flip]) (h : Derives .factor ts e n) :
      Derives .factor (op :: ts) (.unary op e) (n + 1)
  /-- `factor := power`. -/
  | unsigned {ts : List Token} {e : Expr} {n : Nat} (h : Derives .power ts e n) :
      Derives .factor ts e (n + 1)
  /-- `power := atom`. -/
  | base {ts : List Token} {e : Expr} {n : Nat} (h : Derives .atom ts e n) : Derives .power ts e n
  /-- `power := atom '**' factor`. -/
  | exponent {op : Token} {ts us : List Token} {l r : Expr} {m n : Nat}
      (left : Derives .atom ts l m) (hop : op.kind = .operator .power)
      (right : Derives .factor us r n) :
      Derives .power (ts ++ op :: us) (.binary op l r) (max m n)
  /-- `atom := FUNC_NAME '(' complex_expr ')'`. -/
  | application {f : Function} {name opening closing : Token} {ts : List Token} {e : Expr} {n : Nat}
      (hname : name.kind = .function f) (hopening : opening.kind = .leftParen)
      (h : Derives .complexExpr ts e n) (hclosing : closing.kind = .rightParen) :
      Derives .atom (name :: opening :: (ts ++ [closing])) (.application name e) n
  /-- `atom := '(' complex_expr ')'`. -/
  | parentheses {opening closing : Token} {ts : List Token} {e : Expr} {n : Nat}
      (hopening : opening.kind = .leftParen) (h : Derives .complexExpr ts e n)
      (hclosing : closing.kind = .rightParen) : Derives .atom (opening :: (ts ++ [closing])) e n
  /-- `atom := NUMBER | PI`. -/
  | literal {token : Token} (h : token.kind = .number ∨ token.kind = .pi) :
      Derives .atom [token] (.literal token) 0

namespace Derives

variable {x : Nonterminal} {ts : List Token} {e : Expr} {n : Nat}

/-- What has a tighter nonterminal for its kind has any looser one too. -/
theorem of_covers {loose tight : Nonterminal} (hcovers : loose.Covers tight)
    (h : Derives tight ts e n) : Derives loose ts e n := by
  induction hcovers with
  | refl => exact h
  | operand hfold _ ih => exact .operand hfold (ih h)

/-- A factor is whatever is looser. -/
theorem of_factor (hpower : x ≠ .power) (hatom : x ≠ .atom) (h : Derives .factor ts e n) :
    Derives x ts e n :=
  h.of_covers (Nonterminal.covers_factor hpower hatom)

/-- Whatever is not tighter than a factor is an expression. -/
theorem toComplexExpr (hpower : x ≠ .power) (hatom : x ≠ .atom) (h : Derives x ts e n) :
    Derives .complexExpr ts e n :=
  h.of_covers (Nonterminal.complexExpr_covers hpower hatom)

end Derives

/-- The tokens are an expression. -/
def Sentence (ts : List Token) : Prop :=
  ∃ e n, Derives .complexExpr ts e n

/-- The tokens begin an expression. -/
def Viable (ts : List Token) : Prop :=
  ∃ us, Sentence (ts ++ us)

/-- The tokens begin an expression with the end of a text behind it. -/
def Hopeful (ts : List Token) : Prop :=
  ∃ us length, Sentence us ∧ ts <+: us ++ [.endOfInput length]

/-- Whether a kind is a parenthesis. -/
def Kind.isParenthesis : Kind → Bool
  | .leftParen | .rightParen => true
  | _ => false

/-- The tokens of a tree in the order of the text: an operator stands between its operands or in
front of its only one, a function in front of its argument. -/
def Expr.inorder : Expr → List Token
  | literal token => [token]
  | unary operator operand => operator :: operand.inorder
  | binary operator left right => left.inorder ++ operator :: right.inorder
  | application function argument => function :: argument.inorder

/-- The trees right below the root. -/
def Expr.operands : Expr → List Expr
  | literal _ => []
  | unary _ operand => [operand]
  | binary _ left right => [left, right]
  | application _ argument => [argument]

/-- The tree of a derivation holds the tokens that were derived, without the parentheses. -/
theorem Derives.inorder_eq {x : Nonterminal} {ts : List Token} {e : Expr} {n : Nat}
    (h : Derives x ts e n) : e.inorder = ts.filter fun token => !token.kind.isParenthesis := by
  induction h with
  | operand _ _ ih => exact ih
  | fold _ _ hop _ _ ihl ihr | exponent _ hop _ ihl ihr =>
    simp [Expr.inorder, ihl, ihr, hop, Kind.isParenthesis]
  | sign hop _ _ ih => simp [Expr.inorder, ih, hop, Kind.isParenthesis]
  | unsigned _ ih | base _ ih => exact ih
  | application hname hopening _ hclosing ih =>
    simp [Expr.inorder, ih, hname, hopening, hclosing, Kind.isParenthesis]
  | parentheses hopening _ hclosing ih => simp [ih, hopening, hclosing, Kind.isParenthesis]
  | literal h => rcases h with h | h <;> simp [Expr.inorder, h, Kind.isParenthesis]

end Reckoner
