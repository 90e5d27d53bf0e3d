import Reckoner.Proofs.Grammar

/-!
# What may come next

An `Outlook` says what may follow some tokens: what kind of place comes next, and how many
parentheses are still to be closed. It is all that has to be known of the tokens in order to tell
which kinds may follow, so that a kind that the outlook refuses is hopeless (`Outlook.step`).

A `Partial` derivation is a derivation that stops behind some of its tokens. It is what a reader has
in hand when it fails: it can be completed, and it determines the outlook.

## Main results

* `Derives.run_eq`: a derivation leads from a place for an operand to the place behind one;
* `Partial.viable`: a partial derivation can be completed;
* `Partial.run_eq`: a partial derivation leads to its outlook;
* `not_hopeful_of_step_eq_none`: a token that the outlook refuses makes the tokens hopeless.
-/

namespace Reckoner

/-- A kind of place between tokens. -/
inductive Place where
  /-- An operand has to come, or something that begins one. -/
  | operand
  /-- The parenthesis behind the name of a function has to come. -/
  | opening
  /-- An operand has ended: an operator, a closing parenthesis or the end may come. -/
  | operator
  deriving DecidableEq, Repr

/-- What may follow some tokens. -/
structure Outlook where
  /-- The place behind the tokens. -/
  place : Place
  /-- The number of parentheses that are not closed yet. -/
  unclosed : Nat
  deriving DecidableEq, Repr

namespace Outlook

/-- The outlook behind one more token, if its kind may come next. -/
def step : Outlook → Kind → Option Outlook
  | ⟨.operand, n⟩, .number | ⟨.operand, n⟩, .pi => some ⟨.operator, n⟩
  | ⟨.operand, n⟩, .function _ => some ⟨.opening, n⟩
  | ⟨.operand, n⟩, .leftParen => some ⟨.operand, n + 1⟩
  | ⟨.operand, n⟩, .operator o => if o ∈ [.plus, .minus, .flip] then some ⟨.operand, n⟩ else none
  | ⟨.opening, n⟩, .leftParen => some ⟨.operand, n + 1⟩
  | ⟨.operator, n⟩, .operator o => if o = .flip then none else some ⟨.operand, n⟩
  | ⟨.operator, n + 1⟩, .rightParen => some ⟨.operator, n⟩
  | _, _ => none

/-- The outlook behind some more tokens. -/
def run (outlook : Outlook) (ts : List Token) : Option Outlook :=
  ts.foldlM (fun outlook token => outlook.step token.kind) outlook

/-- An outlook with `count` more parentheses around it. -/
def within (count : Nat) (outlook : Outlook) : Outlook :=
  ⟨outlook.place, outlook.unclosed + count⟩

@[simp]
theorem within_zero (outlook : Outlook) : outlook.within 0 = outlook := rfl

/-- The outlook behind an expression. -/
def complete : Outlook := ⟨.operator, 0⟩

@[simp]
theorem run_nil (outlook : Outlook) : outlook.run [] = some outlook := rfl

@[simp]
theorem run_cons (outlook : Outlook) (t : Token) (ts : List Token) :
    outlook.run (t :: ts) = (outlook.step t.kind).bind (·.run ts) := rfl

theorem run_append (outlook : Outlook) (ts us : List Token) :
    outlook.run (ts ++ us) = (outlook.run ts).bind (·.run us) := by
  simp [run, List.foldlM_append, Option.bind_eq_bind]

/-- Parentheses around an outlook that is not complete change nothing about what it refuses. -/
theorem step_within_eq_none_iff {outlook : Outlook} (h : outlook ≠ complete) (count : Nat)
    (kind : Kind) : (outlook.within count).step kind = none ↔ outlook.step kind = none := by
  obtain ⟨place, n⟩ := outlook
  cases place with
  | operand => cases kind <;> simp [within, step]
  | opening => cases kind <;> simp [within, step]
  | operator =>
    -- a closing parenthesis could come behind a complete outlook with parentheses around it
    cases n with
    | zero => exact absurd rfl h
    | succ n => cases kind <;> simp [within, step, Nat.succ_add]

end Outlook

/-- The operators of the rules that group to the left stand behind an operand. -/
theorem Nonterminal.step_of_fold? {loose tight : Nonterminal} {ops : List Operator} {o : Operator}
    (hfold : loose.fold? = some (ops, tight)) (ho : o ∈ ops) (n : Nat) :
    Outlook.step ⟨.operator, n⟩ (.operator o) = some ⟨.operand, n⟩ := by
  -- the table of the rules and that of the outlooks are compared entry by entry
  cases loose <;> cases hfold <;> revert ho <;> cases o <;> simp [Outlook.step]

/-- The operators that may go on an `x` behind an operand in it. -/
def Nonterminal.extensions : Nonterminal → List Operator
  | complexExpr => [.or, .xor, .and, .leftShift, .rightShift, .plus, .minus, .times, .divide,
      .modulo, .floorDivide, .power]
  | xorExpr => [.xor, .and, .leftShift, .rightShift, .plus, .minus, .times, .divide, .modulo,
      .floorDivide, .power]
  | andExpr => [.and, .leftShift, .rightShift, .plus, .minus, .times, .divide, .modulo,
      .floorDivide, .power]
  | shiftExpr => [.leftShift, .rightShift, .plus, .minus, .times, .divide, .modulo, .floorDivide,
      .power]
  | arithExpr => [.plus, .minus, .times, .divide, .modulo, .floorDivide, .power]
  | term => [.times, .divide, .modulo, .floorDivide, .power]
  | factor | power => [.power]
  | atom => []

/-- A token of the given kind goes on an `x` that could end in front of it. -/
def Nonterminal.Extends (x : Nonterminal) (kind : Kind) : Prop :=
  ∃ o ∈ x.extensions, kind = .operator o

theorem Nonterminal.extends_operator_iff {x : Nonterminal} {o : Operator} :
    x.Extends (.operator o) ↔ o ∈ x.extensions := by
  simp [Extends]

/-- Nothing goes an atom on. -/
theorem Nonterminal.not_extends_atom (kind : Kind) : ¬atom.Extends kind := by
  rintro ⟨o, ho, -⟩
  simp [extensions] at ho

/-- No closing parenthesis goes a nonterminal on. -/
theorem Nonterminal.not_extends_rightParen (x : Nonterminal) : ¬x.Extends .rightParen := by
  rintro ⟨o, -, hkind⟩
  cases hkind

/-- The end of a text goes no nonterminal on. -/
theorem Nonterminal.not_extends_endOfInput (x : Nonterminal) : ¬x.Extends .endOfInput := by
  rintro ⟨o, -, hkind⟩
  cases hkind

/-- A looser nonterminal goes on with its own operators and with those of the tighter one. -/
theorem Nonterminal.extensions_of_fold? {loose tight : Nonterminal} {ops : List Operator}
    (hfold : loose.fold? = some (ops, tight)) : loose.extensions = ops ++ tight.extensions := by
  cases loose <;> cases hfold <;> rfl

/-- No operator belongs both to a nonterminal and to a tighter one. -/
theorem Nonterminal.not_mem_extensions_of_fold? {loose tight : Nonterminal} {ops : List Operator}
    {o : Operator} (hfold : loose.fold? = some (ops, tight)) (ho : o ∈ ops) :
    o ∉ tight.extensions := by
  cases loose <;> cases hfold <;> revert ho <;> cases o <;> simp [extensions]

/-- Behind an operand in an expression, the operators that do not go it on may not come at all. -/
theorem Nonterminal.step_eq_none_of_not_extends {kind : Kind} {n : Nat}
    (h : ¬complexExpr.Extends kind) (hclosing : kind ≠ .rightParen) :
    Outlook.step ⟨.operator, n⟩ kind = none := by
  cases kind with
  | operator o =>
    rw [extends_operator_iff] at h
    revert h
    cases o <;> simp [extensions, Outlook.step]
  | rightParen => exact absurd rfl hclosing
  | number | pi | function | leftParen | endOfInput => rfl

/-- A derivation leads from a place for an operand to the place behind one. -/
theorem Derives.run_eq {x : Nonterminal} {ts : List Token} {e : Expr} {n : Nat}
    (h : Derives x ts e n) (count : Nat) :
    Outlook.run ⟨.operand, count⟩ ts = some ⟨.operator, count⟩ := by
  -- a part in parentheses starts with one parenthesis more that is not closed
  induction h generalizing count with
  | operand _ _ ih => exact ih count
  | fold hfold _ hop ho _ ihl ihr =>
    simp [Outlook.run_append, ihl, hop, Nonterminal.step_of_fold? hfold ho, ihr]
  | sign hop ho _ ih => simp [hop, Outlook.step, ho, ih]
  | unsigned _ ih | base _ ih => exact ih count
  | exponent _ hop _ ihl ihr => simp [Outlook.run_append, ihl, hop, Outlook.step, ihr]
  | application hname hopening _ hclosing ih =>
    simp [Outlook.run_append, hname, hopening, hclosing, Outlook.step, ih]
  | parentheses hopening _ hclosing ih =>
    simp [Outlook.run_append, hopening, hclosing, Outlook.step, ih]
  | literal h => rcases h with h | h <;> simp [h, Outlook.step]

/-- `Partial x ts outlook`: some derivation of an `x` has the tokens `ts` behind it and the rest of
its tokens, which begin at `outlook`, in front of it. Parentheses around the `x` do not count. -/
inductive Partial : Nonterminal → List Token → Outlook → Prop
  /-- Nothing has been read. -/
  | start (x : Nonterminal) : Partial x [] ⟨.operand, 0⟩
  /-- Everything has been read. -/
  | whole {x : Nonterminal} {ts : List Token} {e : Expr} {n : Nat} (h : Derives x ts e n) :
      Partial x ts .complete
  /-- The first operand of a looser nonterminal is being read. -/
  | operand {loose tight : Nonterminal} {ops : List Operator} {ts : List Token} {outlook : Outlook}
      (hfold : loose.fold? = some (ops, tight)) (h : Partial tight ts outlook) :
      Partial loose ts outlook
  /-- An operand behind an operator is being read. -/
  | fold {loose tight : Nonterminal} {ops : List Operator} {o : Operator} {op : Token}
      {ts us : List Token} {l : Expr} {m : Nat} {outlook : Outlook}
      (hfold : loose.fold? = some (ops, tight)) (left : Derives loose ts l m)
      (hop : op.kind = .operator o) (ho : o ∈ ops) (right : Partial tight us outlook) :
      Partial loose (ts ++ op :: us) outlook
  /-- The factor behind a sign is being read. -/
  | sign {o : Operator} {op : Token} {ts : List Token} {outlook : Outlook}
      (hop : op.kind = .operator o) (ho : o ∈ [.plus, .minus, .flip])
      (h : Partial .factor ts outlook) : Partial .factor (op :: ts) outlook
  /-- The power that is a factor is being read. -/
  | unsigned {ts : List Token} {outlook : Outlook} (h : Partial .power ts outlook) :
      Partial .factor ts outlook
  /-- The base of a power is being read. -/
  | base {ts : List Token} {outlook : Outlook} (h : Partial .atom ts outlook) :
      Partial .power ts outlook
  /-- The exponent of a power is being read. -/
  | exponent {op : Token} {ts us : List Token} {l : Expr} {m : Nat} {outlook : Outlook}
      (left : Derives .atom ts l m) (hop : op.kind = .operator .power)
      (right : Partial .factor us outlook) : Partial .power (ts ++ op :: us) outlook
  /-- The name of a function has been read. -/
  | name {f : Function} {name : Token} (hname : name.kind = .function f) :
      Partial .atom [name] ⟨.opening, 0⟩
  /-- The argument of a function is being read, or has been read. -/
  | application {f : Function} {name opening : Token} {ts : List Token} {outlook : Outlook}
      (hname : name.kind = .function f) (hopening : opening.kind = .leftParen)
      (h : Partial .complexExpr ts outlook) :
      Partial .atom (name :: opening :: ts) (outlook.within 1)
  /-- The expression in parentheses is being read, or has been read. -/
  | parentheses {opening : Token} {ts : List Token} {outlook : Outlook}
      (hopening : opening.kind = .leftParen) (h : Partial .complexExpr ts outlook) :
      Partial .atom (opening :: ts) (outlook.within 1)

/-- A numeral is an `x`, whatever `x` is. -/
theorem Derives.numeral (x : Nonterminal) {token : Token} (h : token.kind = .number) :
    ∃ n, Derives x [token] (.literal token) n := by
  have hliteral : Derives .atom [token] (.literal token) 0 := .literal (.inl h)
  by_cases hatom : x = .atom
  · exact ⟨0, hatom ▸ hliteral⟩
  by_cases hpower : x = .power
  · exact ⟨0, hpower ▸ .base hliteral⟩
  · exact ⟨1, .of_factor hpower hatom (.unsigned (.base hliteral))⟩

/-- A partial derivation can be completed. -/
theorem Partial.exists_derives {x : Nonterminal} {ts : List Token} {outlook : Outlook}
    (h : Partial x ts outlook) : ∃ us e n, Derives x (ts ++ us) e n := by
  -- a missing operand is completed by a numeral, and what is open is closed; where these tokens
  -- stand makes no difference
  let numeral : Token := ⟨.number, "1.0", ⟨0, 0⟩⟩
  let opening : Token := .ofKind .leftParen ⟨0, 0⟩
  let closing : Token := .ofKind .rightParen ⟨0, 0⟩
  have hopening : opening.kind = .leftParen := rfl
  have hclosing : closing.kind = .rightParen := rfl
  induction h with
  | start x =>
    obtain ⟨n, hn⟩ := Derives.numeral x (show numeral.kind = .number from rfl)
    exact ⟨[numeral], _, n, hn⟩
  | whole h => exact ⟨[], _, _, by simpa using h⟩
  | operand hfold _ ih =>
    obtain ⟨us, e, n, h⟩ := ih
    exact ⟨us, e, n, .operand hfold h⟩
  | fold hfold left hop ho _ ih =>
    obtain ⟨us, e, n, h⟩ := ih
    exact ⟨us, _, _, by simpa using Derives.fold hfold left hop ho h⟩
  | sign hop ho _ ih =>
    obtain ⟨us, e, n, h⟩ := ih
    exact ⟨us, _, _, .sign hop ho h⟩
  | unsigned _ ih =>
    obtain ⟨us, e, n, h⟩ := ih
    exact ⟨us, _, _, .unsigned h⟩
  | base _ ih =>
    obtain ⟨us, e, n, h⟩ := ih
    exact ⟨us, _, _, .base h⟩
  | exponent left hop _ ih =>
    obtain ⟨us, e, n, h⟩ := ih
    exact ⟨us, _, _, by simpa using Derives.exponent left hop h⟩
  | name hname =>
    obtain ⟨n, hn⟩ := Derives.numeral .complexExpr (show numeral.kind = .number from rfl)
    exact ⟨[opening, numeral, closing], _, n, .application hname hopening hn hclosing⟩
  | application hname hopening _ ih =>
    obtain ⟨us, e, n, h⟩ := ih
    exact ⟨us ++ [closing], _, n, by simpa using Derives.application hname hopening h hclosing⟩
  | parentheses hopening _ ih =>
    obtain ⟨us, e, n, h⟩ := ih
    exact ⟨us ++ [closing], _, n, by simpa using Derives.parentheses hopening h hclosing⟩

/-- The tokens of a partial derivation of an expression begin an expression. -/
theorem Partial.viable {ts : List Token} {outlook : Outlook}
    (h : Partial .complexExpr ts outlook) : Viable ts :=
  h.exists_derives

/-- A partial derivation leads from a place for an operand to its outlook. -/
theorem Partial.run_eq {x : Nonterminal} {ts : List Token} {outlook : Outlook}
    (h : Partial x ts outlook) (count : Nat) :
    Outlook.run ⟨.operand, count⟩ ts = some (outlook.within count) := by
  induction h generalizing count with
  | start => simp [Outlook.within]
  | whole h => simp [h.run_eq, Outlook.within, Outlook.complete]
  | operand _ _ ih => exact ih count
  | fold hfold left hop ho _ ih =>
    simp [Outlook.run_append, left.run_eq, hop, Nonterminal.step_of_fold? hfold ho, ih]
  | sign hop ho _ ih => simp [hop, Outlook.step, ho, ih]
  | unsigned _ ih | base _ ih => exact ih count
  | exponent left hop _ ih => simp [Outlook.run_append, left.run_eq, hop, Outlook.step, ih]
  | name hname => simp [hname, Outlook.step, Outlook.within]
  | application hname hopening _ ih =>
    simp [hname, hopening, Outlook.step, ih, Outlook.within, Nat.add_comm, Nat.add_left_comm]
  | parentheses hopening _ ih =>
    simp [hopening, Outlook.step, ih, Outlook.within, Nat.add_comm, Nat.add_left_comm]

/-- A token that may not come behind some tokens leaves no hope, be it the end of the text or
not. -/
theorem not_hopeful_of_step_eq_none {ts : List Token} {outlook : Outlook} {t : Token}
    (hrun : Outlook.run ⟨.operand, 0⟩ ts = some outlook) (hstep : outlook.step t.kind = none)
    (hend : t.kind = .endOfInput → outlook ≠ .complete) : ¬Hopeful (ts ++ [t]) := by
  rintro ⟨us, length, ⟨e, n, h⟩, hbegin⟩
  -- the whole expression has an outlook all the way, so that the token may come where it stands
  have hus : Outlook.run ⟨.operand, 0⟩ us = some .complete := h.run_eq 0
  rcases List.prefix_concat_iff.1 hbegin with heq | ⟨vs, rfl⟩
  -- the token is the end itself, behind a whole expression
  · obtain ⟨rfl, ht⟩ := List.append_inj' heq rfl
    obtain rfl : t = .endOfInput length := by simpa using ht
    exact hend rfl (Option.some.inj (hrun.symm.trans hus))
  -- the token is one of the expression
  · simp [Outlook.run_append, hrun, hstep] at hus

end Reckoner
