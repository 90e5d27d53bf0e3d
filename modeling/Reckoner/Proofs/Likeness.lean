import Mathlib.Data.List.Forall2
import Reckoner.Proofs.Evaluation

/-!
# Alike but for the places

Tokens, trees and failures that say the same at different places of a text, or in different texts.
The places that belong together are given by a relation `R` on spans.

Trees may also differ in some subtrees, which stand for one another by a relation `H`. If these have
the same values, the whole trees have.

## Main definitions

* `Token.Alike`, `Failure.Alike`: the same but for places that `R` relates;
* `Expr.AlikeBut H R`: the same but for places, and for subtrees that `H` relates;
* `Token.AlikeBut H R`: the same but for places, or literals that `H` relates as leaves;
* `Agree`: two results are the same, or both are errors and these are alike.

## Main results

* `Expr.AlikeBut.agree_value`: the values of trees that are alike agree;
* `Expr.AlikeBut.concurAt`: if two trees have no value, it is missing at the same node of both;
* `Derives.alikeBut`: tokens that are alike but for some literals have derivations of trees that are
  alike but for these leaves.
-/

namespace Reckoner

variable {R : Span → Span → Prop}

/-- Two tokens that say the same, at places that belong together. -/
structure Token.Alike (R : Span → Span → Prop) (t u : Token) : Prop where
  /-- The tokens are of one kind. -/
  kind_eq : t.kind = u.kind
  /-- The tokens have one text. -/
  text_eq : t.text = u.text
  /-- Their places belong together. -/
  span : R t.span u.span

/-- Two errors of the scanner that say the same, at places that belong together. -/
inductive LexicalError.Alike (R : Span → Span → Prop) : LexicalError → LexicalError → Prop
  | strayCharacter {c : Char} {offset offset' : Nat}
      (h : R ⟨offset, c.utf8Size⟩ ⟨offset', c.utf8Size⟩) :
      Alike R (.strayCharacter c offset) (.strayCharacter c offset')
  | malformedNumeral {span span' : Span} (h : R span span') :
      Alike R (.malformedNumeral span) (.malformedNumeral span')
  | halfOperator {c : Char} {offset offset' : Nat}
      (h : R ⟨offset, c.utf8Size⟩ ⟨offset', c.utf8Size⟩) :
      Alike R (.halfOperator c offset) (.halfOperator c offset')
  | unknownWord {word : String} {offset offset' : Nat}
      (h : R ⟨offset, word.utf8ByteSize⟩ ⟨offset', word.utf8ByteSize⟩) :
      Alike R (.unknownWord word offset) (.unknownWord word offset')

/-- Two errors of the reader that say the same, at places that belong together. -/
inductive GrammarError.Alike (R : Span → Span → Prop) : GrammarError → GrammarError → Prop
  | missingToken {kind : Kind} {t u : Token} (h : t.Alike R u) :
      Alike R (.missingToken kind t) (.missingToken kind u)
  | missingOperand {t u : Token} (h : t.Alike R u) : Alike R (.missingOperand t) (.missingOperand u)
  | leftover {t u : Token} (h : t.Alike R u) : Alike R (.leftover t) (.leftover u)
  | tooDeep {span span' : Span} (h : R span span') : Alike R (.tooDeep span) (.tooDeep span')

/-- Two errors of the evaluator that say the same, at places that belong together. -/
inductive EvalError.Alike (R : Span → Span → Prop) : EvalError → EvalError → Prop
  | misapplied {t u : Token} {shape : Shape} (h : t.Alike R u) :
      Alike R (.misapplied t shape) (.misapplied u shape)
  | divisionByZero {span span' : Span} (h : R span span') :
      Alike R (.divisionByZero span) (.divisionByZero span')

/-- Two failures that say the same, at places that belong together. -/
inductive Failure.Alike (R : Span → Span → Prop) : Failure → Failure → Prop
  | lexical {error error' : LexicalError} (h : error.Alike R error') :
      Alike R (.lexical error) (.lexical error')
  | grammar {error error' : GrammarError} (h : error.Alike R error') :
      Alike R (.grammar error) (.grammar error')
  | value {error error' : EvalError} (h : error.Alike R error') :
      Alike R (.value error) (.value error')

/-- Two results are the same, or both are errors, which are related. -/
inductive Agree {ε α : Type} (E : ε → ε → Prop) : Except ε α → Except ε α → Prop
  | ok (a : α) : Agree E (.ok a) (.ok a)
  | error {error error' : ε} (h : E error error') : Agree E (.error error) (.error error')

/-- Two trees that are the same but for their places, which belong together, and but for subtrees
that `H` relates. -/
inductive Expr.AlikeBut (H : Expr → Expr → Prop) (R : Span → Span → Prop) : Expr → Expr → Prop
  | hole {e e' : Expr} (h : H e e') : AlikeBut H R e e'
  | literal {t u : Token} (h : t.Alike R u) : AlikeBut H R (.literal t) (.literal u)
  | unary {t u : Token} {e e' : Expr} (h : t.Alike R u) (operand : AlikeBut H R e e') :
      AlikeBut H R (.unary t e) (.unary u e')
  | binary {t u : Token} {l l' r r' : Expr} (h : t.Alike R u) (left : AlikeBut H R l l')
      (right : AlikeBut H R r r') : AlikeBut H R (.binary t l r) (.binary u l' r')
  | application {t u : Token} {e e' : Expr} (h : t.Alike R u) (argument : AlikeBut H R e e') :
      AlikeBut H R (.application t e) (.application u e')

/-- Two trees that are the same but for their places. -/
def Expr.Alike (R : Span → Span → Prop) : Expr → Expr → Prop :=
  AlikeBut (fun _ _ => False) R

/-- Two tokens that are alike, or two literals that `H` relates as leaves. -/
def Token.AlikeBut (H : Expr → Expr → Prop) (R : Span → Span → Prop) (t u : Token) : Prop :=
  t.Alike R u ∨ (t.kind = .number ∨ t.kind = .pi) ∧ (u.kind = .number ∨ u.kind = .pi) ∧
    H (.literal t) (.literal u)

/-! ### At the same places -/

theorem Token.Alike.eq {t u : Token} (h : t.Alike (· = ·) u) : t = u := by
  obtain ⟨kind, text, span⟩ := t
  obtain ⟨rfl, rfl, rfl⟩ := h
  rfl

theorem GrammarError.Alike.eq {error error' : GrammarError} (h : error.Alike (· = ·) error') :
    error = error' := by
  cases h with
  | missingToken h => rw [h.eq]
  | missingOperand h => rw [h.eq]
  | leftover h => rw [h.eq]
  | tooDeep h => rw [h]

theorem Expr.Alike.eq {e e' : Expr} (h : e.Alike (· = ·) e') : e = e' := by
  induction h with
  | hole h => exact h.elim
  | literal h => rw [h.eq]
  | unary h _ ih | application h _ ih => rw [h.eq, ih]
  | binary h _ _ ihl ihr => rw [h.eq, ihl, ihr]

/-! ### Values -/

/-- The value of a node of the given form, in two trees: both have it, or both lack it for the same
reason. -/
inductive Concur (shape : Shape) (t u : Token) :
    Except EvalError Float → Except EvalError Float → Prop
  | ok (x : Float) : Concur shape t u (.ok x) (.ok x)
  | misapplied : Concur shape t u (.error (.misapplied t shape)) (.error (.misapplied u shape))
  | divisionByZero (hshape : shape = .binary) (hkind : t.kind = .operator .floorDivide) :
      Concur shape t u (.error (.divisionByZero t.span)) (.error (.divisionByZero u.span))

theorem Concur.agree {shape : Shape} {t u : Token} {x y : Except EvalError Float}
    (hconcur : Concur shape t u x y) (h : t.Alike R u) : Agree (EvalError.Alike R) x y := by
  cases hconcur with
  | ok x => exact .ok x
  | misapplied => exact .error (.misapplied h)
  | divisionByZero => exact .error (.divisionByZero h.span)

theorem Kind.operator?_eq_some_iff {kind : Kind} {o : Operator} :
    kind.operator? = some o ↔ kind = .operator o := by
  cases kind <;> simp [operator?]

/-- Of a literal only the text counts. -/
theorem Token.concur_literal {t u : Token} (h : t.text = u.text) :
    Concur .literal t u t.literalValue u.literalValue := by
  rw [literalValue, literalValue, h]
  cases Number.read? u.text with
  | some x => exact .ok x
  | none => exact .misapplied

namespace Token.Alike

variable {t u : Token}

/-- What a token means depends on what it says only. -/
theorem concur_unary (h : t.Alike R u) (x : Float) :
    Concur .unary t u (t.unaryValue x) (u.unaryValue x) := by
  rw [unaryValue, unaryValue, h.kind_eq]
  cases u.kind.operator?.bind Operator.unary? with
  | some operation => exact .ok _
  | none => exact .misapplied

theorem concur_binary (h : t.Alike R u) (x y : Float) :
    Concur .binary t u (t.binaryValue x y) (u.binaryValue x y) := by
  rw [binaryValue, binaryValue, ← h.kind_eq]
  cases hoperation : t.kind.operator?.bind Operator.binary? with
  | none => exact .misapplied
  | some operation =>
    dsimp only
    cases hvalue : operation x y with
    | some value => exact .ok value
    | none =>
      -- the one operation that may lack a value is an integer division
      obtain ⟨o, ho, hbinary⟩ := Option.bind_eq_some_iff.1 hoperation
      refine .divisionByZero rfl ?_
      rw [Kind.operator?_eq_some_iff.1 ho]
      by_contra hdivide
      have hsome := Operator.isSome_of_binary? hbinary (fun h => hdivide (h ▸ rfl)) x y
      rw [hvalue] at hsome
      cases hsome

theorem concur_application (h : t.Alike R u) (x : Float) :
    Concur .application t u (t.applicationValue x) (u.applicationValue x) := by
  rw [applicationValue, applicationValue, h.kind_eq]
  cases u.kind.function? with
  | some function => exact .ok _
  | none => exact .misapplied

end Token.Alike

theorem Agree.eq_ok {ε α : Type} {E : ε → ε → Prop} {a : α} {y : Except ε α}
    (h : Agree E (.ok a) y) : y = .ok a := by
  cases h
  rfl

/-- Results that agree are used in the same way. -/
theorem Agree.bind {ε α β : Type} {E : ε → ε → Prop} {x y : Except ε α} {f g : α → Except ε β}
    (h : Agree E x y) (hf : ∀ a, Agree E (f a) (g a)) : Agree E (x >>= f) (y >>= g) := by
  cases h with
  | ok a => exact hf a
  | error h => exact .error h

/-- The values of two trees with these nodes concur at one of them. -/
def ConcurAt (nodes nodes' : List (Shape × Token)) (x y : Except EvalError Float) : Prop :=
  ∃ (k : Nat) (shape : Shape) (t u : Token), nodes[k]? = some (shape, t) ∧
    nodes'[k]? = some (shape, u) ∧ Concur shape t u x y

namespace ConcurAt

variable {nodes nodes' : List (Shape × Token)} {x y : Except EvalError Float}

theorem head {shape : Shape} {t u : Token} (h : Concur shape t u x y) :
    ConcurAt ((shape, t) :: nodes) ((shape, u) :: nodes') x y :=
  ⟨0, shape, t, u, rfl, rfl, h⟩

theorem append (h : ConcurAt nodes nodes' x y) (more more' : List (Shape × Token)) :
    ConcurAt (nodes ++ more) (nodes' ++ more') x y := by
  obtain ⟨k, shape, t, u, ht, hu, hconcur⟩ := h
  refine ⟨k, shape, t, u, ?_, ?_, hconcur⟩
  · rw [List.getElem?_append_left (List.getElem?_eq_some_iff.1 ht).1, ht]
  · rw [List.getElem?_append_left (List.getElem?_eq_some_iff.1 hu).1, hu]

/-- Nodes in front, as many in both trees, move the place. -/
theorem behind (h : ConcurAt nodes nodes' x y) (before before' : List (Shape × Token))
    (hlength : before.length = before'.length) :
    ConcurAt (before ++ nodes) (before' ++ nodes') x y := by
  obtain ⟨k, shape, t, u, ht, hu, hconcur⟩ := h
  refine ⟨before.length + k, shape, t, u, ?_, ?_, hconcur⟩
  · rw [List.getElem?_append_right (Nat.le_add_right _ _), Nat.add_sub_cancel_left, ht]
  · rw [hlength, List.getElem?_append_right (Nat.le_add_right _ _), Nat.add_sub_cancel_left, hu]

/-- What is computed from values concurs where the values do, if there are none. -/
theorem bind {f g : Float → Except EvalError Float} (h : ConcurAt nodes nodes' x y)
    (hf : ∀ a, ConcurAt nodes nodes' (f a) (g a)) :
    ConcurAt nodes nodes' (x >>= f) (y >>= g) := by
  obtain ⟨k, shape, t, u, ht, hu, hconcur⟩ := h
  -- an error is passed on, and a value gives the place up to what is computed from it
  cases hconcur with
  | ok a => exact hf a
  | misapplied => exact ⟨k, shape, t, u, ht, hu, .misapplied⟩
  | divisionByZero hshape hkind => exact ⟨k, shape, t, u, ht, hu, .divisionByZero hshape hkind⟩

/-- Values that concur are the same, or both are missing at the same node. -/
theorem cases (h : ConcurAt nodes nodes' x y) :
    (∃ a, x = .ok a ∧ y = .ok a) ∨
      ∃ (k : Nat) (shape : Shape) (t u : Token),
        nodes[k]? = some (shape, t) ∧ nodes'[k]? = some (shape, u) ∧
          (x = .error (.misapplied t shape) ∧ y = .error (.misapplied u shape) ∨
            shape = .binary ∧ t.kind = .operator .floorDivide ∧
              x = .error (.divisionByZero t.span) ∧ y = .error (.divisionByZero u.span)) := by
  obtain ⟨k, shape, t, u, ht, hu, hconcur⟩ := h
  cases hconcur with
  | ok a => exact .inl ⟨a, rfl, rfl⟩
  | misapplied => exact .inr ⟨k, shape, t, u, ht, hu, .inl ⟨rfl, rfl⟩⟩
  | divisionByZero hshape hkind =>
    exact .inr ⟨k, shape, t, u, ht, hu, .inr ⟨hshape, hkind, rfl, rfl⟩⟩

end ConcurAt

namespace Expr

variable {H : Expr → Expr → Prop} {e e' : Expr}

/-- The values of trees that are alike agree, if they do for the subtrees that differ. -/
theorem AlikeBut.agree_value (h : AlikeBut H R e e')
    (hH : ∀ a b, H a b → Agree (EvalError.Alike R) a.value b.value) :
    Agree (EvalError.Alike R) e.value e'.value := by
  induction h with
  | hole h => exact hH _ _ h
  | literal h => exact (Token.concur_literal h.text_eq).agree h
  | unary h _ ih => exact ih.bind fun x => (h.concur_unary x).agree h
  | binary h _ _ ihl ihr =>
    exact ihl.bind fun x => ihr.bind fun y => (h.concur_binary x y).agree h
  | application h _ ih => exact ih.bind fun x => (h.concur_application x).agree h

/-- Trees stay alike if less is asked of their places and of the subtrees that differ. -/
theorem AlikeBut.mono {H' : Expr → Expr → Prop} {R' : Span → Span → Prop} (h : AlikeBut H R e e')
    (hH : ∀ a b, H a b → H' a b) (hR : ∀ span span', R span span' → R' span span') :
    AlikeBut H' R' e e' := by
  have htoken : ∀ {t u : Token}, t.Alike R u → t.Alike R' u := fun h =>
    ⟨h.kind_eq, h.text_eq, hR _ _ h.span⟩
  induction h with
  | hole h => exact .hole (hH _ _ h)
  | literal h => exact .literal (htoken h)
  | unary h _ ih => exact .unary (htoken h) ih
  | binary h _ _ ihl ihr => exact .binary (htoken h) ihl ihr
  | application h _ ih => exact .application (htoken h) ih

theorem Alike.alikeBut (h : Alike R e e') : AlikeBut H R e e' :=
  AlikeBut.mono h (fun _ _ h => h.elim) fun _ _ h => h

/-- Trees that are alike have the same height, if the subtrees that differ have. -/
theorem AlikeBut.height_eq (h : AlikeBut H R e e') (hH : ∀ a b, H a b → a.height = b.height) :
    e.height = e'.height := by
  induction h with
  | hole h => exact hH _ _ h
  | literal => rfl
  | unary _ _ ih | application _ _ ih => exact congrArg (· + 1) ih
  | binary _ _ _ ihl ihr => rw [height, height, ihl, ihr]

theorem Alike.height_eq (h : Alike R e e') : e.height = e'.height :=
  AlikeBut.height_eq h fun _ _ h => h.elim

/-- The nodes of trees that are alike are of the same forms, with tokens that are alike. -/
theorem Alike.nodes (h : Alike R e e') :
    List.Forall₂ (fun node node' => node.1 = node'.1 ∧ node.2.Alike R node'.2)
      e.nodes e'.nodes := by
  induction h with
  | hole h => exact h.elim
  | literal h => exact .cons ⟨rfl, h⟩ .nil
  | unary h _ ih | application h _ ih => exact .cons ⟨rfl, h⟩ ih
  | binary h _ _ ihl ihr => exact .cons ⟨rfl, h⟩ (List.rel_append ihl ihr)

/-- There are as many nodes in both trees, if there are in the subtrees that differ. -/
theorem AlikeBut.length_nodes_eq (h : AlikeBut H R e e')
    (hH : ∀ a b, H a b → a.nodes.length = b.nodes.length) :
    e.nodes.length = e'.nodes.length := by
  induction h with
  | hole h => exact hH _ _ h
  | literal => rfl
  | unary _ _ ih | application _ _ ih => exact congrArg (· + 1) ih
  | binary _ _ _ ihl ihr =>
    rw [nodes, nodes, List.length_cons, List.length_cons, List.length_append, List.length_append,
      ihl, ihr]

/-- Trees that are alike have values that concur at the same node of both, if the subtrees that
differ have such values. -/
theorem AlikeBut.concurAt (h : AlikeBut H R e e')
    (hH : ∀ a b, H a b →
      a.nodes.length = b.nodes.length ∧ ConcurAt a.nodes b.nodes a.value b.value) :
    ConcurAt e.nodes e'.nodes e.value e'.value := by
  induction h with
  | hole h => exact (hH _ _ h).2
  | literal h => exact .head (Token.concur_literal h.text_eq)
  | @unary t u e e' h _ ih =>
    exact (ih.behind [(.unary, t)] [(.unary, u)] rfl).bind fun x => .head (h.concur_unary x)
  | @application t u e e' h _ ih =>
    exact (ih.behind [(.application, t)] [(.application, u)] rfl).bind fun x =>
      .head (h.concur_application x)
  | @binary t u l l' r r' h hl hr ihl ihr =>
    -- the nodes of the left operand come first, and there are as many in both trees
    have hlength : ((Shape.binary, t) :: l.nodes).length = ((Shape.binary, u) :: l'.nodes).length :=
      congrArg (· + 1) (hl.length_nodes_eq fun a b hab => (hH a b hab).1)
    have hleft := (ihl.append r.nodes r'.nodes).behind [(.binary, t)] [(.binary, u)] rfl
    have hright := ihr.behind ((.binary, t) :: l.nodes) ((.binary, u) :: l'.nodes) hlength
    exact hleft.bind fun x => hright.bind fun y => .head (h.concur_binary x y)

/-- If trees that are alike lack a value, they do so at the same node. -/
theorem Alike.value_cases (h : Alike R e e') :
    (∃ x, e.value = .ok x ∧ e'.value = .ok x) ∨
      ∃ (k : Nat) (shape : Shape) (t u : Token),
        e.nodes[k]? = some (shape, t) ∧ e'.nodes[k]? = some (shape, u) ∧
          (e.value = .error (.misapplied t shape) ∧ e'.value = .error (.misapplied u shape) ∨
            shape = .binary ∧ t.kind = .operator .floorDivide ∧
              e.value = .error (.divisionByZero t.span) ∧
                e'.value = .error (.divisionByZero u.span)) :=
  (AlikeBut.concurAt h fun _ _ h => h.elim).cases

end Expr

/-- Texts have values that agree if their trees have. -/
theorem agree_valueOf_of_agree_value {text text' : String} {e e' : Expr}
    (h : (parse text).result = .ok e) (h' : (parse text').result = .ok e')
    (hvalue : Agree (EvalError.Alike R) e.value e'.value) :
    Agree (Failure.Alike R) (valueOf text) (valueOf text') := by
  rw [valueOf_of_parse_eq_ok h, valueOf_of_parse_eq_ok h']
  generalize e.value = x, e'.value = y at hvalue
  cases hvalue with
  | ok x => exact .ok x
  | error herror => exact .error (.value herror)

/-! ### Derivations -/

/-- A list that is related to two lists in a row is in two parts as well. -/
theorem exists_of_forall₂_append {α β : Type} {r : α → β → Prop} {xs ys : List α} {zs : List β}
    (h : List.Forall₂ r (xs ++ ys) zs) :
    ∃ xs' ys', List.Forall₂ r xs xs' ∧ List.Forall₂ r ys ys' ∧ zs = xs' ++ ys' := by
  induction xs generalizing zs with
  | nil => exact ⟨[], zs, .nil, h, rfl⟩
  | cons x xs ih =>
    obtain ⟨z, zs, hx, hzs, rfl⟩ := List.forall₂_cons_left_iff.1 h
    obtain ⟨xs', ys', hxs, hys, rfl⟩ := ih hzs
    exact ⟨z :: xs', ys', .cons hx hxs, hys, rfl⟩

theorem exists_of_forall₂_append_cons {α β : Type} {r : α → β → Prop} {x : α} {xs ys : List α}
    {zs : List β} (h : List.Forall₂ r (xs ++ x :: ys) zs) :
    ∃ xs' x' ys', List.Forall₂ r xs xs' ∧ r x x' ∧ List.Forall₂ r ys ys' ∧
      zs = xs' ++ x' :: ys' := by
  obtain ⟨xs', ws, hxs, hws, rfl⟩ := exists_of_forall₂_append h
  obtain ⟨x', ys', hx, hys, rfl⟩ := List.forall₂_cons_left_iff.1 hws
  exact ⟨xs', x', ys', hxs, hx, hys, rfl⟩

theorem exists_of_forall₂_concat {α β : Type} {r : α → β → Prop} {x : α} {xs : List α}
    {zs : List β} (h : List.Forall₂ r (xs ++ [x]) zs) :
    ∃ xs' x', List.Forall₂ r xs xs' ∧ r x x' ∧ zs = xs' ++ [x'] := by
  obtain ⟨xs', x', ys', hxs, hx, hys, rfl⟩ := exists_of_forall₂_append_cons h
  obtain rfl := List.forall₂_nil_left_iff.1 hys
  exact ⟨xs', x', hxs, hx, rfl⟩

/-- A token that is no literal is alike. -/
theorem Token.AlikeBut.alike {H : Expr → Expr → Prop} {t u : Token} {kind : Kind}
    (h : t.AlikeBut H R u) (hkind : t.kind = kind) (hnumber : kind ≠ .number) (hpi : kind ≠ .pi) :
    t.Alike R u := by
  rcases h with halike | ⟨hliteral, -, -⟩
  · exact halike
  · rw [hkind] at hliteral
    exact hliteral.elim (absurd · hnumber) (absurd · hpi)

/-- Tokens that are alike but for some literals have derivations of trees that are alike but for
these leaves. -/
theorem Derives.alikeBut {H : Expr → Expr → Prop} {x : Nonterminal} {ts us : List Token} {e : Expr}
    {n : Nat} (h : Derives x ts e n) (hts : List.Forall₂ (Token.AlikeBut H R) ts us) :
    ∃ e', Derives x us e' n ∧ e.AlikeBut H R e' := by
  induction h generalizing us with
  | operand hfold _ ih =>
    obtain ⟨e', h, halike⟩ := ih hts
    exact ⟨e', .operand hfold h, halike⟩
  | unsigned _ ih =>
    obtain ⟨e', h, halike⟩ := ih hts
    exact ⟨e', .unsigned h, halike⟩
  | base _ ih =>
    obtain ⟨e', h, halike⟩ := ih hts
    exact ⟨e', .base h, halike⟩
  | fold hfold _ hop ho _ ihl ihr =>
    obtain ⟨us, op', vs, hus, hop', hvs, rfl⟩ := exists_of_forall₂_append_cons hts
    obtain ⟨l, hl, hleft⟩ := ihl hus
    obtain ⟨r, hr, hright⟩ := ihr hvs
    have hop' := hop'.alike hop nofun nofun
    exact ⟨_, .fold hfold hl (hop'.kind_eq ▸ hop) ho hr, .binary hop' hleft hright⟩
  | exponent _ hop _ ihl ihr =>
    obtain ⟨us, op', vs, hus, hop', hvs, rfl⟩ := exists_of_forall₂_append_cons hts
    obtain ⟨l, hl, hleft⟩ := ihl hus
    obtain ⟨r, hr, hright⟩ := ihr hvs
    have hop' := hop'.alike hop nofun nofun
    exact ⟨_, .exponent hl (hop'.kind_eq ▸ hop) hr, .binary hop' hleft hright⟩
  | sign hop ho _ ih =>
    obtain ⟨op', us, hop', hus, rfl⟩ := List.forall₂_cons_left_iff.1 hts
    obtain ⟨e', h, halike⟩ := ih hus
    have hop' := hop'.alike hop nofun nofun
    exact ⟨_, .sign (hop'.kind_eq ▸ hop) ho h, .unary hop' halike⟩
  | application hname hopening _ hclosing ih =>
    obtain ⟨name', ws, hname', hws, rfl⟩ := List.forall₂_cons_left_iff.1 hts
    obtain ⟨opening', vs, hopening', hvs, rfl⟩ := List.forall₂_cons_left_iff.1 hws
    obtain ⟨us, closing', hus, hclosing', rfl⟩ := exists_of_forall₂_concat hvs
    obtain ⟨e', h, halike⟩ := ih hus
    have hname' := hname'.alike hname nofun nofun
    have hopening' := hopening'.alike hopening nofun nofun
    have hclosing' := hclosing'.alike hclosing nofun nofun
    exact ⟨_, .application (hname'.kind_eq ▸ hname) (hopening'.kind_eq ▸ hopening) h
      (hclosing'.kind_eq ▸ hclosing), .application hname' halike⟩
  | parentheses hopening _ hclosing ih =>
    obtain ⟨opening', vs, hopening', hvs, rfl⟩ := List.forall₂_cons_left_iff.1 hts
    obtain ⟨us, closing', hus, hclosing', rfl⟩ := exists_of_forall₂_concat hvs
    obtain ⟨e', h, halike⟩ := ih hus
    have hopening' := hopening'.alike hopening nofun nofun
    have hclosing' := hclosing'.alike hclosing nofun nofun
    exact ⟨e', .parentheses (hopening'.kind_eq ▸ hopening) h (hclosing'.kind_eq ▸ hclosing), halike⟩
  | literal hkind =>
    obtain ⟨t', us, ht', hus, rfl⟩ := List.forall₂_cons_left_iff.1 hts
    obtain rfl := List.forall₂_nil_left_iff.1 hus
    rcases ht' with halike | ⟨-, hkind', hliteral⟩
    · exact ⟨_, .literal (halike.kind_eq ▸ hkind), .literal halike⟩
    · exact ⟨_, .literal hkind', .hole hliteral⟩

/-- Tokens that are alike have derivations of trees that are alike. -/
theorem Derives.alike {x : Nonterminal} {ts us : List Token} {e : Expr} {n : Nat}
    (h : Derives x ts e n) (hts : List.Forall₂ (Token.Alike R) ts us) :
    ∃ e', Derives x us e' n ∧ e.Alike R e' :=
  h.alikeBut (hts.imp fun _ _ halike => .inl halike)

end Reckoner
