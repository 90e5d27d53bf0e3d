import Reckoner.Expr.Parse

/-!
# Steps of reading

What the smallest readers do with a stream, in terms of `Stream.head`, the token that comes next,
and of `Stream.behind`, which puts tokens in front of a stream. All proofs about larger readers go
through these lemmas, and through the two that take a sequence of readers apart.

## Main results

* `Stream.exists_behind_of_head`: a stream whose next token is not the end begins with that token;
* `Kind.isFunction_iff`, `Kind.isLiteral_iff` and `Kind.isSign_iff`: what the tests of the readers
  look for;
* `Parse.peek_of_head`, `Parse.advance_of_ok`, `Parse.advance_of_error` and their like for
  `Parse.expect`: the result of a step, given the next token.
-/

namespace Reckoner

namespace Stream

/-- The stream with some tokens in front of it. -/
def behind (ts : List Token) (rest : Stream) : Stream :=
  ⟨ts ++ rest.tokens, rest.stop⟩

@[simp]
theorem behind_nil (rest : Stream) : rest.behind [] = rest := rfl

theorem behind_cons (t : Token) (ts : List Token) (rest : Stream) :
    rest.behind (t :: ts) = (rest.behind ts).behind [t] := rfl

@[simp]
theorem behind_behind (ts us : List Token) (rest : Stream) :
    (rest.behind us).behind ts = rest.behind (ts ++ us) := by
  simp [behind]

@[simp]
theorem head_behind_cons (t : Token) (ts : List Token) (rest : Stream) :
    (rest.behind (t :: ts)).head = .ok t := rfl

theorem length_tokens_behind (ts : List Token) (rest : Stream) :
    (rest.behind ts).tokens.length = ts.length + rest.tokens.length :=
  List.length_append

/-- Only the end of a text comes next when there are no tokens. -/
theorem exists_behind_of_head {s : Stream} {t : Token} (h : s.head = .ok t)
    (ht : t.kind ≠ .endOfInput) : ∃ rest : Stream, s = rest.behind [t] := by
  obtain ⟨ts, stop⟩ := s
  cases ts with
  | nil =>
    cases stop with
    | endOfInput length =>
      obtain rfl : Token.endOfInput length = t := Except.ok.inj h
      exact absurd rfl ht
    | failure error => simp [head] at h
  | cons u us =>
    obtain rfl : u = t := Except.ok.inj h
    exact ⟨⟨us, stop⟩, rfl⟩

end Stream

theorem Level.holds_iff {level : Level} {kind : Kind} :
    level.holds kind = true ↔ ∃ o ∈ level.operators, kind = .operator o := by
  cases kind <;> simp [holds]

namespace Kind

variable {kind : Kind}

theorem isFunction_iff : kind.isFunction ↔ ∃ f, kind = .function f := by
  cases kind <;> simp [isFunction]

theorem isLiteral_iff : kind.isLiteral ↔ kind = .number ∨ kind = .pi := by
  cases kind <;> simp [isLiteral]

theorem isSign_iff : kind.isSign ↔ ∃ o ∈ [.plus, .minus, .flip], kind = .operator o := by
  cases kind with
  | operator o => cases o <;> simp [isSign]
  | _ => simp [isSign]

/-- A kind that passes a test which the end fails is not the end. -/
theorem ne_endOfInput_of {test : Kind → Bool} (h : test kind) (hend : test .endOfInput = false) :
    kind ≠ .endOfInput := by
  rintro rfl
  rw [hend] at h
  cases h

end Kind

namespace Parse

variable {α β σ : Type} {s rest : Stream} {t : Token}

section

variable {p : Parse σ α} {f : α → Parse σ β} {supply left : σ}

theorem bind_of_ok {a : α} (h : p supply = .ok a left) : (p >>= f) supply = f a left := by
  simp [bind, EStateM.bind, h]

theorem bind_of_error {failure : Failure} (h : p supply = .error failure left) :
    (p >>= f) supply = .error failure left := by
  simp [bind, EStateM.bind, h]

variable [Supply σ]

theorem peek_of_supply (h : Supply.head supply = .ok t) : peek supply = .ok t supply := by
  rw [peek, h]

theorem peek_of_supply_error {error : LexicalError} (h : Supply.head supply = .error error) :
    peek supply = .error (.lexical error) supply := by
  rw [peek, h]

end

theorem pure_apply (a : α) (s : Stream) : (pure a : Parse Stream α) s = .ok a s := rfl

theorem throw_apply (failure : Failure) (s : Stream) :
    (throw failure : Parse Stream α) s = .error failure s := rfl

theorem tooDeep_apply (span : Span) (s : Stream) :
    (tooDeep span : Parse Stream α) s = .error (.grammar (.tooDeep span)) s := rfl

theorem peek_of_head (h : s.head = .ok t) : peek s = .ok t s :=
  peek_of_supply h

theorem peek_of_head_error {error : LexicalError} (h : s.head = .error error) :
    peek s = .error (.lexical error) s :=
  peek_of_supply_error h

/-- Looking at a token that is there goes on with that token. -/
theorem peek_bind (h : s.head = .ok t) (f : Token → Parse Stream β) : (peek >>= f) s = f t s :=
  bind_of_ok (peek_of_head h)

theorem peek_bind_behind {ts : List Token} (f : Token → Parse Stream β) :
    (peek >>= f) (rest.behind (t :: ts)) = f t (rest.behind (t :: ts)) :=
  peek_bind (Stream.head_behind_cons t ts rest) f

/-- Taking a token away comes down to looking at the one behind it. -/
theorem advance_apply (t : Token) (rest : Stream) :
    advance (rest.behind [t]) = (discard peek : Parse Stream Unit) rest := by
  -- the stream is changed first, and an error of the look behind it leaves that change in place
  rfl

theorem advance_of_ok {next : Token} (h : rest.head = .ok next) :
    advance (rest.behind [t]) = .ok () rest := by
  rw [advance_apply]
  simp [discard, Functor.mapConst, EStateM.map, peek_of_head h]

theorem advance_of_error {error : LexicalError} (h : rest.head = .error error) :
    advance (rest.behind [t]) = .error (.lexical error) rest := by
  rw [advance_apply]
  simp [discard, Functor.mapConst, EStateM.map, peek_of_head_error h]

theorem expect_of_ne {kind : Kind} (h : s.head = .ok t) (ht : t.kind ≠ kind) :
    expect kind s = .error (.grammar (.missingToken kind t)) s := by
  rw [expect, peek_bind h, if_neg ht, throw_apply]

theorem expect_of_eq {kind : Kind} (ht : t.kind = kind) (rest : Stream) :
    expect kind (rest.behind [t]) = advance (rest.behind [t]) := by
  rw [expect, peek_bind_behind, if_pos ht]

theorem checked_of_le {limit : Nat} {node : Node} (h : node.height ≤ limit) (s : Stream) :
    checked limit node s = .ok node s := by
  rw [checked, if_pos h, pure_apply]

theorem checked_of_lt {limit : Nat} {node : Node} (h : limit < node.height) (s : Stream) :
    checked limit node s = .error (.grammar (.tooDeep node.expr.token.span)) s := by
  rw [checked, if_neg (Nat.not_le.2 h), tooDeep_apply]

/-! ### The larger readers, when no step in them fails -/

variable {limit : Nat} {inner : Parse Stream Node} {next : Token}

/-- A chain ends in front of a token that is no operator of its level. -/
theorem chain_of_not_holds {level : Level} {p : Parse Stream Node} {left : Node}
    (h : s.head = .ok t) (ht : ¬level.holds t.kind) : chain limit level p left s = .ok left s := by
  rw [chain, peek_bind h, if_neg ht, pure_apply]

/-- A chain goes on behind an operator of its level with an operand. -/
theorem chain_of_holds {level : Level} {p : Parse Stream Node} {left : Node}
    (ht : level.holds t.kind) (hnext : rest.head = .ok next) :
    chain limit level p left (rest.behind [t]) =
      (do let right ← p
          if (Node.binary t left right).height ≤ limit then
            chain limit level p (.binary t left right)
          else tooDeep t.span : Parse Stream Node) rest := by
  rw [chain, peek_bind_behind, if_pos ht,
    bind_of_ok (advance_of_ok hnext)]
  rfl

theorem signed_of_isSign (ht : t.kind.isSign) (hnext : rest.head = .ok next) :
    signed limit inner (rest.behind [t]) =
      (inner >>= fun operand => checked limit (.unary t operand)) rest := by
  rw [signed, peek_bind_behind, if_pos ht,
    bind_of_ok (advance_of_ok hnext)]

theorem signed_of_not_isSign (h : s.head = .ok t) (ht : ¬t.kind.isSign) :
    signed limit inner s = power limit inner s := by
  rw [signed, peek_bind h, if_neg ht]

theorem power_of_ne {base : Node} (h : atom limit inner s = .ok base rest)
    (hnext : rest.head = .ok next) (hkind : next.kind ≠ .operator .power) :
    power limit inner s = .ok base rest := by
  rw [power, bind_of_ok h, peek_bind hnext, if_neg hkind, pure_apply]

theorem power_of_eq {base : Node} (h : atom limit inner s = .ok base (rest.behind [t]))
    (ht : t.kind = .operator .power) (hnext : rest.head = .ok next) :
    power limit inner s =
      (inner >>= fun exponent => checked limit (.binary t base exponent)) rest := by
  rw [power, bind_of_ok h, peek_bind_behind, if_pos ht,
    bind_of_ok (advance_of_ok hnext)]

theorem atom_of_isFunction {opening : Token} (ht : t.kind.isFunction)
    (hopening : opening.kind = .leftParen) (hnext : rest.head = .ok next) :
    atom limit inner (rest.behind [t, opening]) =
      (do let argument ← expression limit inner
          expect .rightParen
          checked limit (.application t argument) : Parse Stream Node) rest := by
  have hexpect : expect .leftParen (rest.behind [opening]) = .ok () rest := by
    rw [expect_of_eq hopening, advance_of_ok hnext]
  rw [atom, peek_bind_behind, if_pos ht,
    Stream.behind_cons, bind_of_ok (advance_of_ok (Stream.head_behind_cons opening [] rest)),
    bind_of_ok hexpect]

theorem atom_of_leftParen (ht : t.kind = .leftParen) (hnext : rest.head = .ok next) :
    atom limit inner (rest.behind [t]) =
      (do let node ← expression limit inner
          expect .rightParen
          return node : Parse Stream Node) rest := by
  rw [atom, peek_bind_behind,
    if_neg (by simp [ht, Kind.isFunction]), if_pos ht, bind_of_ok (advance_of_ok hnext)]

theorem atom_of_isLiteral (ht : t.kind.isLiteral) (hnext : rest.head = .ok next) :
    atom limit inner (rest.behind [t]) = .ok (.literal t) rest := by
  have hfunction : ¬t.kind.isFunction := by
    rcases Kind.isLiteral_iff.1 ht with hkind | hkind <;> simp [hkind, Kind.isFunction]
  have hopening : t.kind ≠ .leftParen := by
    rcases Kind.isLiteral_iff.1 ht with hkind | hkind <;> simp [hkind]
  rw [atom, peek_bind_behind, if_neg hfunction,
    if_neg hopening, if_pos ht, bind_of_ok (advance_of_ok hnext), pure_apply]

theorem factor_zero (limit : Nat) (h : s.head = .ok t) :
    factor limit 0 s = .error (.grammar (.tooDeep t.span)) s := by
  rw [factor, peek_bind h, tooDeep_apply]

end Parse

end Reckoner
