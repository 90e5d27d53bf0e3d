import Reckoner.Proofs.Evaluation
import Reckoner.Proofs.Likeness
import Reckoner.Proofs.Truncation

/-!
# The first fault of a tree

A tree has no value if one of its nodes has a fault of its own: a literal that is no number, an
operator or a name with no meaning in a node of its form, or an integer division by what is cut down
to zero. Of all such faults the evaluator reports the first one, the nodes taken in the order in
which their operands come: the left or only operand, the right one, the node itself. This is so for
every tree, however it was made.

## Main definitions

* `Expr.postorder`: the nodes of a tree in the order of evaluation;
* `Expr.Fault d error`: the node at the root of `d` has a fault of its own;
* `FirstFault nodes result`: what the nodes come to, by the first of them that has a fault.

## Main results

* `firstFault_literal`, `firstFault_unary`, `firstFault_binary` and `firstFault_application`: what a
  single node comes to, once its operands have values;
* `Expr.firstFault_value`: the value of a tree, by its nodes;
* `value_eq_error_iff_first_fault`: the error of a tree is that of its first fault.
-/

namespace Reckoner

namespace Expr

/-- The nodes of a tree, each with what is below it, in the order of evaluation: those of the left
or only operand, those of the right operand, and then the node itself. -/
def postorder : Expr → List Expr
  | literal token => [literal token]
  | unary op e => e.postorder ++ [unary op e]
  | binary op l r => l.postorder ++ r.postorder ++ [binary op l r]
  | application name e => e.postorder ++ [application name e]

/-- The node at the root has a fault of its own, and this is the error. -/
inductive Fault : Expr → EvalError → Prop
  /-- The text of a literal is no number. -/
  | literal {token : Token} (h : Number.read? token.text = none) :
      Fault (.literal token) (.misapplied token .literal)
  /-- What stands in front of an operand is none of the operators for it. -/
  | unary {op : Token} {e : Expr} (h : ∀ o ∈ Operator.signs, op.kind ≠ .operator o) :
      Fault (.unary op e) (.misapplied op .unary)
  /-- What stands between two operands is none of the operators for it. -/
  | binary {op : Token} {l r : Expr} (h : ∀ o ∈ Operator.links, op.kind ≠ .operator o) :
      Fault (.binary op l r) (.misapplied op .binary)
  /-- What is applied to an argument is no function. -/
  | application {name : Token} {e : Expr} (h : ∀ f, name.kind ≠ .function f) :
      Fault (.application name e) (.misapplied name .application)
  /-- An integer is divided by a number between minus one and one, or by what is not a number. -/
  | division {op : Token} {l r : Expr} {y : Float} (hop : op.kind = .operator .floorDivide)
      (hr : r.value = .ok y) (hy : y.isNaN = true ∨ (-1 < y ∧ y < 1)) :
      Fault (.binary op l r) (.divisionByZero op.span)

/-- A node has one fault at most. -/
theorem Fault.unique {d : Expr} {error error' : EvalError} (h : d.Fault error)
    (h' : d.Fault error') : error = error' := by
  have hlink : Operator.floorDivide ∈ Operator.links := by decide
  cases h with
  | literal | unary | application =>
    cases h'
    rfl
  | binary hop =>
    cases h' with
    | binary => rfl
    | division hop' => exact absurd hop' (hop _ hlink)
  | division hop =>
    cases h' with
    | binary hop' => exact absurd hop (hop' _ hlink)
    | division => rfl

/-- The error of a node holds its token, or the place of that token if it divides integers. -/
theorem Fault.error_eq {d : Expr} {error : EvalError} (h : d.Fault error) :
    error = .misapplied d.token d.shape ∨
      d.token.kind = .operator .floorDivide ∧ error = .divisionByZero d.token.span := by
  cases h with
  | literal | unary | binary | application => exact .inl rfl
  | division hop => exact .inr ⟨hop, rfl⟩

end Expr

/-- What nodes come to that are dealt with one after another: the error of the first one that has a
fault of its own, or a value if none has. -/
inductive FirstFault (nodes : List Expr) : Except EvalError Float → Prop
  /-- No node has a fault. -/
  | ok {x : Float} (h : ∀ d ∈ nodes, ∀ error, ¬d.Fault error) : FirstFault nodes (.ok x)
  /-- The node `d` has a fault, and none in front of it has one. -/
  | error {before after : List Expr} {d : Expr} {error : EvalError}
      (hnodes : nodes = before ++ d :: after)
      (hbefore : ∀ c ∈ before, ∀ error', ¬c.Fault error') (h : d.Fault error) :
      FirstFault nodes (.error error)

namespace FirstFault

variable {nodes more : List Expr} {result : Except EvalError Float} {error : EvalError}

/-- Nodes behind a fault are not looked at. -/
theorem append_error (h : FirstFault nodes (.error error)) (more : List Expr) :
    FirstFault (nodes ++ more) (.error error) := by
  cases h with
  | error hnodes hbefore h =>
    rw [hnodes, List.append_assoc, List.cons_append]
    exact .error rfl hbefore h

/-- Nodes without a fault leave it to those behind them. -/
theorem append_ok {x : Float} (h : FirstFault nodes (.ok x)) (h' : FirstFault more result) :
    FirstFault (nodes ++ more) result := by
  cases h with
  | ok hnodes =>
    cases h' with
    | ok hmore =>
      refine .ok fun d hd => ?_
      rcases List.mem_append.1 hd with hd | hd
      · exact hnodes d hd
      · exact hmore d hd
    | error hmore hbefore h =>
      rw [hmore, ← List.append_assoc]
      refine .error rfl (fun c hc => ?_) h
      rcases List.mem_append.1 hc with hc | hc
      · exact hnodes c hc
      · exact hbefore c hc

theorem singleton_ok {d : Expr} {x : Float} (h : ∀ error, ¬d.Fault error) :
    FirstFault [d] (.ok x) :=
  .ok fun c hc => by
    obtain rfl := List.mem_singleton.1 hc
    exact h

theorem singleton_error {d : Expr} (h : d.Fault error) : FirstFault [d] (.error error) :=
  .error (List.nil_append _).symm (by simp) h

/-- The first fault decides what the nodes come to. -/
theorem eq_error (h : FirstFault nodes (.error error)) (h' : FirstFault nodes result) :
    result = .error error := by
  cases h with
  | @error before after d _ hnodes hbefore h =>
    cases h' with
    | ok hnone => exact absurd h (hnone d (by simp [hnodes]) error)
    | @error before' after' d' error' hnodes' hbefore' h' =>
      -- neither of the two nodes is in front of the other one, so that they are the same
      rw [hnodes] at hnodes'
      rcases List.append_eq_append_iff.1 hnodes' with ⟨mid, hmid, htail⟩ | ⟨mid, hmid, htail⟩
      · cases mid with
        | nil =>
          obtain ⟨rfl, -⟩ := List.cons.inj htail
          rw [h.unique h']
        | cons c mid =>
          obtain ⟨rfl, -⟩ := List.cons.inj htail
          exact absurd h (hbefore' d (by simp [hmid]) error)
      · cases mid with
        | nil =>
          obtain ⟨rfl, -⟩ := List.cons.inj htail
          rw [h.unique h']
        | cons c mid =>
          obtain ⟨rfl, -⟩ := List.cons.inj htail
          exact absurd h' (hbefore d' (by simp [hmid]) error')

end FirstFault

/-! ### Single nodes -/

namespace Operator

/-- The operators with a meaning in front of an operand are those that the grammar puts there. -/
theorem unary?_eq_none_iff {o : Operator} : o.unary? = none ↔ o ∉ signs := by
  cases o <;> simp [unary?, signs]

/-- The operators with a meaning between operands are those that the grammar puts there. -/
theorem binary?_eq_none_iff {o : Operator} : o.binary? = none ↔ o ∉ links := by
  cases o <;> simp [binary?, links]

end Operator

/-- A literal comes to the number that its text is. -/
theorem firstFault_literal (token : Token) :
    FirstFault [.literal token] token.literalValue := by
  unfold Token.literalValue
  cases hread : Number.read? token.text with
  | some x =>
    refine .singleton_ok fun error hfault => ?_
    cases hfault with
    | literal h => simp [h] at hread
  | none => exact .singleton_error (.literal hread)

/-- A token that stands in front of an operand comes to a value if it is an operator for it. -/
theorem firstFault_unary (op : Token) (e : Expr) (x : Float) :
    FirstFault [.unary op e] (op.unaryValue x) := by
  unfold Token.unaryValue
  cases hmeaning : op.kind.operator?.bind Operator.unary? with
  | some operation =>
    obtain ⟨o, hop, ho⟩ := Option.bind_eq_some_iff.1 hmeaning
    refine .singleton_ok fun error hfault => ?_
    cases hfault with
    | unary h =>
      have hsign : o ∉ Operator.signs := fun hmem => h o hmem (Kind.operator?_eq_some_iff.1 hop)
      simp [Operator.unary?_eq_none_iff.2 hsign] at ho
  | none =>
    refine .singleton_error (.unary fun o ho hop => ?_)
    have hnone : o.unary? = none := by simpa [hop, Kind.operator?] using hmeaning
    exact Operator.unary?_eq_none_iff.1 hnone ho

/-- A name that stands in front of an argument comes to a value if it is that of a function. -/
theorem firstFault_application (name : Token) (e : Expr) (x : Float) :
    FirstFault [.application name e] (name.applicationValue x) := by
  unfold Token.applicationValue
  cases hname : name.kind.function? with
  | some f =>
    refine .singleton_ok fun error hfault => ?_
    cases hfault with
    | application h =>
      cases hkind : name.kind with
      | function g => exact h g hkind
      | _ => simp [hkind, Kind.function?] at hname
  | none =>
    refine .singleton_error (.application fun f hkind => ?_)
    simp [hkind, Kind.function?] at hname

/-- A token that stands between two operands comes to a value if it is an operator for it, unless it
divides integers and the second operand is cut down to zero. -/
theorem firstFault_binary (op : Token) (l : Expr) {r : Expr} (x : Float) {y : Float}
    (hr : r.value = .ok y) : FirstFault [.binary op l r] (op.binaryValue x y) := by
  unfold Token.binaryValue
  cases hmeaning : op.kind.operator?.bind Operator.binary? with
  | none =>
    refine .singleton_error (.binary fun o ho hop => ?_)
    have hnone : o.binary? = none := by simpa [hop, Kind.operator?] using hmeaning
    exact Operator.binary?_eq_none_iff.1 hnone ho
  | some operation =>
    obtain ⟨o, hoperator, hoperation⟩ := Option.bind_eq_some_iff.1 hmeaning
    have hop : op.kind = .operator o := Kind.operator?_eq_some_iff.1 hoperator
    have hlink : o ∈ Operator.links := by
      by_contra hlink
      simp [Operator.binary?_eq_none_iff.2 hlink] at hoperation
    -- what is left is the division, whose divisor decides
    have hdivision : operation x y = none ↔ o = .floorDivide ∧ Number.toWord y = 0 := by
      by_cases ho : o = .floorDivide
      · subst ho
        obtain rfl := Option.some.inj hoperation
        simp
      · have hsome := Operator.isSome_of_binary? hoperation ho x y
        simp only [ho, false_and, iff_false]
        intro hnone
        simp [hnone] at hsome
    dsimp only
    cases hvalue : operation x y with
    | some value =>
      refine .singleton_ok fun error hfault => ?_
      cases hfault with
      | binary h => exact h o hlink hop
      | division hop' hr' hy =>
        have hkind : o = .floorDivide := Kind.operator.inj (hop.symm.trans hop')
        obtain rfl := Except.ok.inj (hr.symm.trans hr')
        have hnone := hdivision.2 ⟨hkind, (Number.toWord_eq_zero_iff y).2 hy⟩
        simp [hnone] at hvalue
    | none =>
      obtain ⟨rfl, hzero⟩ := hdivision.1 hvalue
      exact .singleton_error (.division hop hr ((Number.toWord_eq_zero_iff y).1 hzero))

/-! ### Trees -/

/-- A tree comes to what its nodes come to in the order of evaluation. -/
theorem Expr.firstFault_value (e : Expr) : FirstFault e.postorder e.value := by
  induction e with
  | literal token => exact firstFault_literal token
  | unary op e ih =>
    rw [value, postorder]
    cases hvalue : e.value with
    | error error =>
      rw [hvalue] at ih
      exact ih.append_error _
    | ok x =>
      rw [hvalue] at ih
      exact ih.append_ok (firstFault_unary op e x)
  | application name e ih =>
    rw [value, postorder]
    cases hvalue : e.value with
    | error error =>
      rw [hvalue] at ih
      exact ih.append_error _
    | ok x =>
      rw [hvalue] at ih
      exact ih.append_ok (firstFault_application name e x)
  | binary op l r ihl ihr =>
    rw [value, postorder, List.append_assoc]
    cases hleft : l.value with
    | error error =>
      rw [hleft] at ihl
      exact ihl.append_error _
    | ok x =>
      rw [hleft] at ihl
      -- the left operand has no fault, so that the right one is next
      refine ihl.append_ok ?_
      cases hright : r.value with
      | error error =>
        rw [hright] at ihr
        exact ihr.append_error _
      | ok y =>
        rw [hright] at ihr
        exact ihr.append_ok (firstFault_binary op l x hright)

/-- Every tree has a value exactly if none of its nodes has a fault, and else the error is that of
the first node with a fault in the order of evaluation. The error of a node holds the token and the
form of the node, or the place of the token if it divides by zero. So the error of an operand is
that of the whole node, whatever the node is and whatever its right operand is, if it was the left
one that has the error. -/
theorem value_eq_error_iff_first_fault (e : Expr) :
    ((∃ x, e.value = .ok x) ↔ ∀ d ∈ e.postorder, ∀ error, ¬d.Fault error) ∧
    (∀ error, e.value = .error error ↔ ∃ before d after, e.postorder = before ++ d :: after ∧
      (∀ c ∈ before, ∀ error', ¬c.Fault error') ∧ d.Fault error) ∧
    (∀ (d : Expr) error, d.Fault error → error.span = d.token.span ∧
      (error = .misapplied d.token d.shape ∨
        d.token.kind = .operator .floorDivide ∧ error = .divisionByZero d.token.span)) ∧
    (∀ error, e.value = .error error → ∀ op : Token,
      (Expr.unary op e).value = .error error ∧ (Expr.application op e).value = .error error ∧
      (∀ r, (Expr.binary op e r).value = .error error) ∧
      ∀ l x, l.value = .ok x → (Expr.binary op l e).value = .error error) := by
  have hfirst := e.firstFault_value
  refine ⟨⟨fun ⟨x, hx⟩ => ?_, fun hnone => ?_⟩, fun error => ⟨fun herror => ?_, ?_⟩,
    fun d error hfault => ⟨?_, hfault.error_eq⟩, fun error herror op => ⟨?_, ?_, ?_, ?_⟩⟩
  · rw [hx] at hfirst
    cases hfirst with
    | ok h => exact h
  · cases hvalue : e.value with
    | ok x => exact ⟨x, rfl⟩
    | error error =>
      have hok : FirstFault e.postorder (.ok 0) := .ok hnone
      rw [hvalue] at hfirst
      cases hfirst.eq_error hok
  · rw [herror] at hfirst
    cases hfirst with
    | error hnodes hbefore h => exact ⟨_, _, _, hnodes, hbefore, h⟩
  · rintro ⟨before, d, after, hnodes, hbefore, h⟩
    exact (FirstFault.error hnodes hbefore h).eq_error hfirst
  · rcases hfault.error_eq with rfl | ⟨-, rfl⟩ <;> rfl
  · rw [Expr.value, herror]
    rfl
  · rw [Expr.value, herror]
    rfl
  · intro r
    rw [Expr.value, herror]
    rfl
  · intro l x hx
    rw [Expr.value, hx, herror]
    rfl

/-- A divisor that is cut down to zero comes before the numeral on the right that is none and the
operator above both that stands between no operands. -/
theorem value_division_before_numeral :
    let one : Expr := .literal ⟨.number, "1.0", ⟨0, 1⟩⟩
    let half : Expr := .literal ⟨.number, "0.5", ⟨5, 3⟩⟩
    let quotient : Expr := .binary ⟨.operator .floorDivide, "//", ⟨2, 2⟩⟩ one half
    let broken : Expr := .literal ⟨.number, "1..", ⟨11, 3⟩⟩
    (Expr.binary ⟨.operator .flip, "~", ⟨9, 1⟩⟩ quotient broken).value =
      .error (.divisionByZero ⟨2, 2⟩) := by
  intro one half quotient broken
  have hhalf : half.value = .ok 0.5 := by decide +kernel
  have hnumeral : ∀ (token : Token) error, Number.read? token.text ≠ none →
      ¬(Expr.literal token).Fault error := by
    rintro token error hread ⟨hnone⟩
    exact hread hnone
  have hfault : quotient.Fault (.divisionByZero ⟨2, 2⟩) :=
    .division rfl hhalf (.inr ⟨by decide +kernel, by decide +kernel⟩)
  refine ((value_eq_error_iff_first_fault _).2.1 _).2 ⟨[one, half], quotient, _, rfl, ?_, hfault⟩
  -- the two numerals in front of the division have no fault
  intro c hc error hc'
  rcases List.mem_pair.1 hc with rfl | rfl
  · exact hnumeral _ _ (by decide +kernel) hc'
  · exact hnumeral _ _ (by decide +kernel) hc'

end Reckoner
