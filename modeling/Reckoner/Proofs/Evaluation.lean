import Reckoner.Proofs.Acceptance
import Reckoner.Proofs.NumeralText
import Reckoner.Proofs.Scanning
import Reckoner.Text

/-!
# Expressions that are read can be evaluated

Every node of a tree that is read is one that the evaluator knows: the operators of the grammar are
those with a meaning, and the literals of the scanner are numerals. So the value of an expression is
missing only where an integer is divided by zero.

## Main definitions

* `Meaningful shape token`: the evaluator knows what a token in a node of this form means;
* `Expr.Evaluable`: this is so for all nodes of a tree.

## Main results

* `Derives.evaluable`: the nodes of a derived tree are meaningful;
* `Expr.Evaluable.value_cases`: a tree of such nodes has a value, or an integer division has none;
* `valueOf_ne_misapplied`: so it is with every text, and no text fails since a token has no meaning.
-/

namespace Reckoner

/-- The operators that the grammar puts in front of an operand. -/
def Operator.signs : List Operator :=
  [.plus, .minus, .flip]

/-- The operators that the grammar puts between two operands. -/
def Operator.links : List Operator :=
  [.plus, .minus, .times, .divide, .floorDivide, .modulo, .power, .and, .or, .xor, .leftShift,
    .rightShift]

/-- The evaluator knows what the token in a node of this form means. -/
inductive Meaningful : Shape → Token → Prop
  /-- A numeral or π, with a text that is a number. -/
  | literal {token : Token} (hkind : token.kind = .number ∨ token.kind = .pi)
      (hread : (Number.read? token.text).isSome) : Meaningful .literal token
  /-- An operator that has a meaning in front of an operand. -/
  | unary {token : Token} {o : Operator} (hkind : token.kind = .operator o)
      (ho : o ∈ Operator.signs) (hmeaning : o.unary?.isSome) : Meaningful .unary token
  /-- An operator that has a meaning between operands. -/
  | binary {token : Token} {o : Operator} (hkind : token.kind = .operator o)
      (ho : o ∈ Operator.links) (hmeaning : o.binary?.isSome) : Meaningful .binary token
  /-- A function. -/
  | application {token : Token} {f : Function} (hkind : token.kind = .function f) :
      Meaningful .application token

/-- The evaluator knows what every node means. -/
def Expr.Evaluable (e : Expr) : Prop :=
  ∀ node ∈ e.nodes, Meaningful node.1 node.2

/-- The text of the token is a number if the token is a literal. -/
def Token.Readable (token : Token) : Prop :=
  token.kind = .number ∨ token.kind = .pi → (Number.read? token.text).isSome

namespace Operator

/-- Every operator that the grammar puts in front of an operand has a meaning there. -/
theorem isSome_unary?_of_mem_signs {o : Operator} (h : o ∈ signs) : o.unary?.isSome := by
  cases o with
  | plus | minus | flip => rfl
  | _ => exact absurd h (by decide)

/-- Every operator that the grammar puts between operands has a meaning there. -/
theorem isSome_binary?_of_mem_links {o : Operator} (h : o ∈ links) : o.binary?.isSome := by
  cases o with
  | flip => exact absurd h (by decide)
  | _ => rfl

/-- Between operands, only integer division may lack a value. -/
theorem isSome_of_binary? {o : Operator} {operation : Float → Float → Option Float}
    (h : o.binary? = some operation) (ho : o ≠ .floorDivide) (x y : Float) :
    (operation x y).isSome := by
  cases o with
  | flip => cases h
  | floorDivide => exact absurd rfl ho
  | _ =>
    obtain rfl := Option.some.inj h
    rfl

end Operator

/-- The operators of the rules that group to the left stand between operands. -/
theorem Nonterminal.mem_links_of_fold? {loose tight : Nonterminal} {ops : List Operator}
    {o : Operator} (hfold : loose.fold? = some (ops, tight)) (ho : o ∈ ops) :
    o ∈ Operator.links := by
  -- the table of the rules is compared with the list entry by entry
  cases loose <;> cases hfold <;> revert o <;> decide

namespace Expr

theorem evaluable_literal_iff {token : Token} :
    (literal token).Evaluable ↔ Meaningful .literal token := by
  simp [Evaluable, nodes]

theorem evaluable_unary_iff {op : Token} {e : Expr} :
    (unary op e).Evaluable ↔ Meaningful .unary op ∧ e.Evaluable := by
  simp [Evaluable, nodes]

theorem evaluable_binary_iff {op : Token} {l r : Expr} :
    (binary op l r).Evaluable ↔ Meaningful .binary op ∧ l.Evaluable ∧ r.Evaluable := by
  simp [Evaluable, nodes, or_imp, forall_and]

theorem evaluable_application_iff {name : Token} {e : Expr} :
    (application name e).Evaluable ↔ Meaningful .application name ∧ e.Evaluable := by
  simp [Evaluable, nodes]

end Expr

/-- The tree of a derivation can be evaluated if its literals are numbers. -/
theorem Derives.evaluable {x : Nonterminal} {ts : List Token} {e : Expr} {n : Nat}
    (h : Derives x ts e n) (hts : ∀ t ∈ ts, t.Readable) : e.Evaluable := by
  induction h with
  | operand _ _ ih | unsigned _ ih | base _ ih => exact ih hts
  | fold hfold _ hop ho _ ihl ihr =>
    have hlink := Nonterminal.mem_links_of_fold? hfold ho
    exact Expr.evaluable_binary_iff.2
      ⟨.binary hop hlink (Operator.isSome_binary?_of_mem_links hlink),
        ihl fun t ht => hts t (by simp [ht]), ihr fun t ht => hts t (by simp [ht])⟩
  | exponent _ hop _ ihl ihr =>
    have hlink : Operator.power ∈ Operator.links := by decide
    exact Expr.evaluable_binary_iff.2
      ⟨.binary hop hlink (Operator.isSome_binary?_of_mem_links hlink),
        ihl fun t ht => hts t (by simp [ht]), ihr fun t ht => hts t (by simp [ht])⟩
  | sign hop ho _ ih =>
    exact Expr.evaluable_unary_iff.2
      ⟨.unary hop ho (Operator.isSome_unary?_of_mem_signs ho), ih fun t ht => hts t (by simp [ht])⟩
  | application hname _ _ _ ih =>
    exact Expr.evaluable_application_iff.2
      ⟨.application hname, ih fun t ht => hts t (by simp [ht])⟩
  | parentheses _ _ _ ih => exact ih fun t ht => hts t (by simp [ht])
  | literal hkind =>
    exact Expr.evaluable_literal_iff.2 (.literal hkind (hts _ (.head _) hkind))

namespace Meaningful

variable {token : Token}

theorem exists_literalValue (h : Meaningful .literal token) :
    ∃ x, token.literalValue = .ok x := by
  cases h with
  | literal hkind hread =>
    obtain ⟨x, hx⟩ := Option.isSome_iff_exists.1 hread
    exact ⟨x, by rw [Token.literalValue, hx]⟩

theorem exists_unaryValue (h : Meaningful .unary token) (x : Float) :
    ∃ y, token.unaryValue x = .ok y := by
  cases h with
  | unary hkind ho hmeaning =>
    obtain ⟨operation, hoperation⟩ := Option.isSome_iff_exists.1 hmeaning
    exact ⟨operation x, by simp [Token.unaryValue, hkind, Kind.operator?, hoperation]⟩

theorem exists_applicationValue (h : Meaningful .application token) (x : Float) :
    ∃ y, token.applicationValue x = .ok y := by
  cases h with
  | @application _ f hkind =>
    exact ⟨f.apply x, by simp [Token.applicationValue, hkind, Kind.function?]⟩

/-- Between two operands, only integer division may have no value. -/
theorem binaryValue_cases (h : Meaningful .binary token) (x y : Float) :
    (∃ z, token.binaryValue x y = .ok z) ∨ token.kind = .operator .floorDivide ∧
      token.binaryValue x y = .error (.divisionByZero token.span) := by
  cases h with
  | @binary _ o hkind ho hmeaning =>
    obtain ⟨operation, hoperation⟩ := Option.isSome_iff_exists.1 hmeaning
    have hbound : token.kind.operator?.bind Operator.binary? = some operation := by
      rw [hkind]
      exact hoperation
    rw [Token.binaryValue, hbound]
    -- the one operation without a value is an integer division
    cases hvalue : operation x y with
    | some z => exact .inl ⟨z, by simp only [hvalue]⟩
    | none =>
      refine .inr ⟨?_, by simp only [hvalue]⟩
      by_cases hdivide : o = .floorDivide
      · rw [hkind, hdivide]
      · have hsome := Operator.isSome_of_binary? hoperation hdivide x y
        rw [hvalue] at hsome
        cases hsome

end Meaningful

/-- The value of such a tree is missing only where an integer is divided by zero. -/
theorem Expr.Evaluable.value_cases {e : Expr} (h : e.Evaluable) :
    (∃ x, e.value = .ok x) ∨
      ∃ token, (.binary, token) ∈ e.nodes ∧ token.kind = .operator .floorDivide ∧
        e.value = .error (.divisionByZero token.span) := by
  induction e with
  | literal token => exact .inl (evaluable_literal_iff.1 h).exists_literalValue
  | unary op e ih =>
    obtain ⟨hop, he⟩ := evaluable_unary_iff.1 h
    rcases ih he with ⟨x, hx⟩ | ⟨token, hmem, hkind, herror⟩
    · obtain ⟨y, hy⟩ := hop.exists_unaryValue x
      exact .inl ⟨y, by rw [value, hx]; exact hy⟩
    · exact .inr ⟨token, .tail _ hmem, hkind, by rw [value, herror]; rfl⟩
  | binary op l r ihl ihr =>
    obtain ⟨hop, hl, hr⟩ := evaluable_binary_iff.1 h
    -- the left operand comes first, and its error is the result
    rcases ihl hl with ⟨x, hx⟩ | ⟨token, hmem, hkind, herror⟩
    · rcases ihr hr with ⟨y, hy⟩ | ⟨token, hmem, hkind, herror⟩
      · have hvalue : (binary op l r).value = op.binaryValue x y := by
          rw [value, hx, hy]
          rfl
        rcases hop.binaryValue_cases x y with ⟨z, hz⟩ | ⟨hkind, herror⟩
        · exact .inl ⟨z, hvalue.trans hz⟩
        · exact .inr ⟨op, .head _, hkind, hvalue.trans herror⟩
      · exact .inr ⟨token, .tail _ (List.mem_append_right _ hmem), hkind,
          by rw [value, hx, herror]; rfl⟩
    · exact .inr ⟨token, .tail _ (List.mem_append_left _ hmem), hkind,
        by rw [value, herror]; rfl⟩
  | application name e ih =>
    obtain ⟨hname, he⟩ := evaluable_application_iff.1 h
    rcases ih he with ⟨x, hx⟩ | ⟨token, hmem, hkind, herror⟩
    · obtain ⟨y, hy⟩ := hname.exists_applicationValue x
      exact .inl ⟨y, by rw [value, hx]; exact hy⟩
    · exact .inr ⟨token, .tail _ hmem, hkind, by rw [value, herror]; rfl⟩

/-- The literals that a text is cut into are numbers. -/
theorem Cut.readable {offset : Nat} {text : List Char} {ts : List Token} (h : Cut offset text ts) :
    ∀ t ∈ ts, t.Readable := by
  induction h with
  | blank => simp
  | @token _ token _ _ _ ts hleads _ ih =>
    intro t ht
    rcases List.mem_cons.1 ht with rfl | ht
    · have hcanonical := hleads.canonical
      rintro (hkind | hkind)
      · rw [hkind] at hcanonical
        obtain ⟨x, -, htext⟩ := hcanonical
        exact htext ▸ Number.isSome_read?_text x
      · rw [hkind] at hcanonical
        exact hcanonical ▸ Number.isSome_read?_text piValue
    · exact ih t ht

/-- The tree of a text can be evaluated. -/
theorem evaluable_of_parse_eq_ok {text : String} {e : Expr} (h : (parse text).result = .ok e) :
    e.Evaluable := by
  obtain ⟨ts, length, n, hs, hderives, -⟩ := exists_derives_of_parse_eq_ok h
  exact hderives.evaluable (Stream.scanFrom_eq_iff_cut.1 hs).1.readable

/-- The value of an expression is that of its tree. -/
theorem valueOf_of_parse_eq_ok {text : String} {e : Expr} (h : (parse text).result = .ok e) :
    valueOf text = e.value.mapError .value := by
  simp only [valueOf, calculate, h]
  cases e.value <;> rfl

theorem valueOf_of_parse_eq_error {text : String} {failure : Failure}
    (h : (parse text).result = .error failure) : valueOf text = .error failure := by
  simp only [valueOf, calculate, h]

/-- Reading a text does not fail for the reasons of the evaluator. -/
theorem Refuses.ne_value {outlook : Outlook} {rest : Stream} {failure : Failure}
    (h : Refuses outlook rest failure) (error : EvalError) : failure ≠ .value error := by
  rintro rfl
  cases h

/-- Whatever a source is called and whatever it says: if it is an expression, the evaluator knows
what every node of the tree means, and the tree has a value unless it divides an integer by zero at
one of its nodes for integer division. In no case does a source fail since a token has no meaning in
its node. -/
theorem valueOf_ne_misapplied (source : Source) :
    (∀ e, (parse source.text).result = .ok e →
      (∀ node ∈ e.nodes, Meaningful node.1 node.2) ∧
      ((∃ x, e.value = .ok x) ∨
        ∃ token, (.binary, token) ∈ e.nodes ∧ token.kind = .operator .floorDivide ∧
          e.value = .error (.divisionByZero token.span))) ∧
    ∀ token shape, valueOf source.text ≠ .error (.value (.misapplied token shape)) := by
  refine ⟨fun e h => ?_, fun token shape hvalue => ?_⟩
  · have hevaluable := evaluable_of_parse_eq_ok h
    exact ⟨hevaluable, hevaluable.value_cases⟩
  · cases h : (parse source.text).result with
    | error failure =>
      -- the failure is one of the scanner or of the reader
      obtain ⟨ts, rest, outlook, -, -, hrefuses⟩ := exists_refuses_of_parse_eq_error h
      rw [valueOf_of_parse_eq_error h] at hvalue
      exact hrefuses.ne_value _ (Except.error.inj hvalue)
    | ok e =>
      rw [valueOf_of_parse_eq_ok h] at hvalue
      rcases (evaluable_of_parse_eq_ok h).value_cases with ⟨x, hx⟩ | ⟨divide, -, -, herror⟩
      · rw [hx] at hvalue
        cases hvalue
      · rw [herror] at hvalue
        cases hvalue

end Reckoner
