import Reckoner.Proofs.Places
import Reckoner.Proofs.Reading.Step

/-!
# Reading streams that are alike

The readers look at the kinds of tokens and never at their places, which they only pass on. From two
streams that say the same, at places that a relation `R` puts together, they read trees that say the
same, or fail with failures that do, also where a limit is passed. An error of the scanner is passed
on as a whole, so that errors are put together by a relation `L` of their own: no other failure gets
a place from them.

## Main definitions

* `Stream.Related R L`, `Failure.Related R L`: two streams and two failures that belong together;
* `ResultAlike R L A`: two results of readers that say the same;
* `Parse.Alike R L A p p'`: two readers that come to such results on streams that belong together.

## Main results

* `Parse.Alike.bind`: readers in a row, by the readers that they are made of;
* `Parse.alike_chain`, `Parse.alike_factor` and their like: each reader is like itself;
* `Stream.Related.parse_cases`: what comes of reading streams that belong together;
* `valueOf_alike`: the values of texts whose streams are alike.
-/

namespace Reckoner

/-- Two ends of streams, at places that `R` relates or with errors that `L` relates. -/
inductive Stop.Related (R : Span → Span → Prop) (L : LexicalError → LexicalError → Prop) :
    Stop → Stop → Prop
  | endOfInput {length length' : Nat} (h : R ⟨length, 0⟩ ⟨length', 0⟩) :
      Related R L (.endOfInput length) (.endOfInput length')
  | failure {error error' : LexicalError} (h : L error error') :
      Related R L (.failure error) (.failure error')

/-- Two streams with tokens that are alike and ends that are related. -/
structure Stream.Related (R : Span → Span → Prop) (L : LexicalError → LexicalError → Prop)
    (s s' : Stream) : Prop where
  /-- The tokens are alike. -/
  tokens : List.Forall₂ (Token.Alike R) s.tokens s'.tokens
  /-- The ends are related. -/
  stop : s.stop.Related R L s'.stop

/-- Two failures of readers, by errors of the scanner that `L` relates or in the same way at places
that `R` relates. -/
inductive Failure.Related (R : Span → Span → Prop) (L : LexicalError → LexicalError → Prop) :
    Failure → Failure → Prop
  | lexical {error error' : LexicalError} (h : L error error') :
      Related R L (.lexical error) (.lexical error')
  | grammar {error error' : GrammarError} (h : error.Alike R error') :
      Related R L (.grammar error) (.grammar error')

variable {R : Span → Span → Prop} {L : LexicalError → LexicalError → Prop}

/-- Two results of readers that say the same, with streams left that are related. -/
inductive ResultAlike {α : Type} (R : Span → Span → Prop) (L : LexicalError → LexicalError → Prop)
    (A : α → α → Prop) :
    EStateM.Result Failure Stream α → EStateM.Result Failure Stream α → Prop
  | ok {a a' : α} {s s' : Stream} (h : A a a') (hs : s.Related R L s') :
      ResultAlike R L A (.ok a s) (.ok a' s')
  | error {failure failure' : Failure} {s s' : Stream} (h : failure.Related R L failure')
      (hs : s.Related R L s') : ResultAlike R L A (.error failure s) (.error failure' s')

/-- Two nodes with trees that are alike. -/
structure Node.Alike (R : Span → Span → Prop) (node node' : Node) : Prop where
  /-- The trees are alike. -/
  expr : node.expr.Alike R node'.expr
  /-- The heights beside the trees are the same. -/
  height_eq : node.height = node'.height

/-- The tokens at the roots of trees that are alike. -/
theorem Expr.Alike.token {e e' : Expr} (h : e.Alike R e') : e.token.Alike R e'.token := by
  cases h with
  | hole h => exact h.elim
  | literal h => exact h
  | unary h _ | application h _ => exact h
  | binary h _ _ => exact h

namespace Node.Alike

variable {t u : Token} {node node' left left' right right' : Node}

theorem literal (h : t.Alike R u) : (Node.literal t).Alike R (Node.literal u) :=
  ⟨.literal h, rfl⟩

theorem unary (h : t.Alike R u) (hnode : node.Alike R node') :
    (Node.unary t node).Alike R (Node.unary u node') :=
  ⟨.unary h hnode.expr, congrArg (· + 1) hnode.height_eq⟩

theorem binary (h : t.Alike R u) (hleft : left.Alike R left') (hright : right.Alike R right') :
    (Node.binary t left right).Alike R (Node.binary u left' right') :=
  ⟨.binary h hleft.expr hright.expr, by
    rw [Node.binary, Node.binary, hleft.height_eq, hright.height_eq]⟩

theorem application (h : t.Alike R u) (hnode : node.Alike R node') :
    (Node.application t node).Alike R (Node.application u node') :=
  ⟨.application h hnode.expr, congrArg (· + 1) hnode.height_eq⟩

end Node.Alike

namespace Parse

/-- On streams that are related, two readers come to results that say the same. -/
def Alike {α : Type} (R : Span → Span → Prop) (L : LexicalError → LexicalError → Prop)
    (A : α → α → Prop) (p p' : Parse Stream α) : Prop :=
  ∀ ⦃s s' : Stream⦄, s.Related R L s' → ResultAlike R L A (p s) (p' s')

section

variable {α β : Type} {A : α → α → Prop} {B : β → β → Prop}

theorem alike_pure {a a' : α} (h : A a a') : Alike R L A (pure a) (pure a') :=
  fun _ _ hs => .ok h hs

theorem alike_throw {failure failure' : Failure} (h : failure.Related R L failure') :
    Alike R L A (throw failure) (throw failure') :=
  fun _ _ hs => .error h hs

theorem Alike.bind {p p' : Parse Stream α} {f f' : α → Parse Stream β} (h : Alike R L A p p')
    (hf : ∀ a a', A a a' → Alike R L B (f a) (f' a')) : Alike R L B (p >>= f) (p' >>= f') := by
  intro s s' hs
  have hresult := h hs
  generalize hp : p s = result, hp' : p' s' = result' at hresult
  cases hresult with
  | ok ha hrest =>
    rw [bind_of_ok hp, bind_of_ok hp']
    exact hf _ _ ha hrest
  | error hfailure hrest =>
    rw [bind_of_error hp, bind_of_error hp']
    exact .error hfailure hrest

theorem Alike.discard {p p' : Parse Stream α} (h : Alike R L A p p') :
    Alike R L (fun _ _ => True) (discard p) (discard p') := by
  change Alike R L _ (p >>= fun _ => pure ()) (p' >>= fun _ => pure ())
  exact h.bind fun _ _ _ => alike_pure trivial

theorem Alike.ite {p p' q q' : Parse Stream α} {c : Prop} [Decidable c] (h : Alike R L A p p')
    (h' : Alike R L A q q') : Alike R L A (if c then p else q) (if c then p' else q') := by
  split
  · exact h
  · exact h'

end

/-! ### The smallest readers -/

theorem alike_peek : Alike R L (Token.Alike R) peek peek := by
  rintro ⟨ts, stop⟩ ⟨us, stop'⟩ hs
  obtain ⟨htokens, hstop⟩ := hs
  dsimp only at htokens hstop
  cases htokens with
  | cons ht hts => exact .ok ht ⟨.cons ht hts, hstop⟩
  | nil =>
    cases hstop with
    | endOfInput h => exact .ok ⟨rfl, rfl, h⟩ ⟨.nil, .endOfInput h⟩
    | failure h => exact .error (.lexical h) ⟨.nil, .failure h⟩

theorem alike_advance : Alike R L (fun _ _ => True) advance advance := by
  have htail : Alike R L (fun _ _ => True)
      (modify fun s => { s with tokens := s.tokens.tail } : Parse Stream Unit)
      (modify fun s => { s with tokens := s.tokens.tail }) := by
    rintro ⟨ts, stop⟩ ⟨us, stop'⟩ ⟨htokens, hstop⟩
    cases htokens with
    | nil => exact .ok trivial ⟨.nil, hstop⟩
    | cons _ hts => exact .ok trivial ⟨hts, hstop⟩
  exact htail.bind fun _ _ _ => alike_peek.discard

theorem alike_expect (kind : Kind) : Alike R L (fun _ _ => True) (expect kind) (expect kind) := by
  refine alike_peek.bind fun t u h => ?_
  rw [h.kind_eq]
  exact alike_advance.ite (alike_throw (.grammar (.missingToken h)))

theorem alike_tooDeep {α : Type} {A : α → α → Prop} {span span' : Span} (h : R span span') :
    Alike R L A (tooDeep span) (tooDeep span') :=
  alike_throw (.grammar (.tooDeep h))

theorem alike_checked (limit : Nat) {node node' : Node} (h : node.Alike R node') :
    Alike R L (Node.Alike R) (checked limit node) (checked limit node') := by
  rw [checked, checked, h.height_eq]
  exact (alike_pure h).ite (alike_tooDeep h.expr.token.span)

/-! ### The larger readers -/

variable {limit : Nat} {p p' inner inner' : Parse Stream Node}

theorem alike_chain (level : Level) (h : Alike R L (Node.Alike R) p p') {left left' : Node}
    (hleft : left.Alike R left') :
    Alike R L (Node.Alike R) (chain limit level p left) (chain limit level p' left') := by
  -- a chain goes on with a higher tree, up to the limit
  induction hk : limit - left.height using Nat.strongRecOn generalizing left left' with
  | ind k ih =>
    rw [chain, chain]
    refine alike_peek.bind fun t u ht => ?_
    rw [ht.kind_eq]
    refine Alike.ite ?_ (alike_pure hleft)
    refine alike_advance.bind fun _ _ _ => h.bind fun right right' hright => ?_
    have hbinary := Node.Alike.binary ht hleft hright
    by_cases hle : (Node.binary t left right).height ≤ limit
    · rw [dif_pos hle, dif_pos (hbinary.height_eq ▸ hle)]
      refine ih _ ?_ hbinary rfl
      simp only [Node.binary] at hle ⊢
      omega
    · rw [dif_neg hle, dif_neg (hbinary.height_eq ▸ hle)]
      exact alike_tooDeep ht.span

theorem alike_expression (h : Alike R L (Node.Alike R) inner inner') :
    Alike R L (Node.Alike R) (expression limit inner) (expression limit inner') := by
  rw [expression, expression]
  induction Level.all with
  | nil => exact h
  | cons level levels ih => exact ih.bind fun _ _ hleft => alike_chain level ih hleft

theorem alike_atom (h : Alike R L (Node.Alike R) inner inner') :
    Alike R L (Node.Alike R) (atom limit inner) (atom limit inner') := by
  refine alike_peek.bind fun t u ht => ?_
  rw [ht.kind_eq]
  refine Alike.ite ?_ (Alike.ite ?_ (Alike.ite ?_ ?_))
  · refine alike_advance.bind fun _ _ _ => (alike_expect .leftParen).bind fun _ _ _ => ?_
    refine (alike_expression h).bind fun _ _ hargument => ?_
    refine (alike_expect .rightParen).bind fun _ _ _ => ?_
    exact alike_checked limit (.application ht hargument)
  · refine alike_advance.bind fun _ _ _ => (alike_expression h).bind fun _ _ hnode => ?_
    exact (alike_expect .rightParen).bind fun _ _ _ => alike_pure hnode
  · exact alike_advance.bind fun _ _ _ => alike_pure (.literal ht)
  · exact alike_throw (.grammar (.missingOperand ht))

theorem alike_power (h : Alike R L (Node.Alike R) inner inner') :
    Alike R L (Node.Alike R) (power limit inner) (power limit inner') := by
  refine (alike_atom h).bind fun base base' hbase => alike_peek.bind fun t u ht => ?_
  rw [ht.kind_eq]
  refine Alike.ite ?_ (alike_pure hbase)
  refine alike_advance.bind fun _ _ _ => h.bind fun _ _ hexponent => ?_
  exact alike_checked limit (.binary ht hbase hexponent)

theorem alike_signed (h : Alike R L (Node.Alike R) inner inner') :
    Alike R L (Node.Alike R) (signed limit inner) (signed limit inner') := by
  refine alike_peek.bind fun t u ht => ?_
  rw [ht.kind_eq]
  refine Alike.ite ?_ (alike_power h)
  refine alike_advance.bind fun _ _ _ => h.bind fun _ _ hoperand => ?_
  exact alike_checked limit (.unary ht hoperand)

theorem alike_factor (limit depth : Nat) :
    Alike R L (Node.Alike R) (factor limit depth) (factor limit depth) := by
  induction depth with
  | zero => exact alike_peek.bind fun _ _ ht => alike_tooDeep ht.span
  | succ depth ih => exact alike_signed ih

theorem alike_whole (limit : Nat) : Alike R L (Expr.Alike R) (whole limit) (whole limit) := by
  refine (alike_expression (alike_factor limit limit)).bind fun _ _ hnode => ?_
  refine alike_peek.bind fun t u ht => ?_
  rw [ht.kind_eq]
  exact (alike_pure hnode.expr).ite (alike_throw (.grammar (.leftover ht)))

end Parse

/-- What comes of reading streams that are related. -/
theorem Stream.Related.parse_cases {s s' : Stream} (h : s.Related R L s') :
    (∃ e e', s.parse.result = .ok e ∧ s'.parse.result = .ok e' ∧ e.Alike R e') ∨
      ∃ failure failure', s.parse.result = .error failure ∧ s'.parse.result = .error failure' ∧
        failure.Related R L failure' := by
  have hwhole := Parse.alike_whole depthLimit h
  rw [parse_result, parse_result]
  generalize Parse.whole depthLimit s = result, Parse.whole depthLimit s' = result' at hwhole
  cases hwhole with
  | ok h _ => exact .inl ⟨_, _, rfl, rfl, h⟩
  | error h _ => exact .inr ⟨_, _, rfl, rfl, h⟩

/-! ### Streams that are alike -/

theorem Stream.Alike.related {s s' : Stream} (h : s.Alike R s') :
    s.Related R (LexicalError.Alike R) s' := by
  obtain ⟨ts, stop⟩ := s
  obtain ⟨us, stop'⟩ := s'
  obtain ⟨htokens, hstop⟩ := h
  cases hstop with
  | endOfInput h => exact ⟨htokens, .endOfInput h⟩
  | failure h => exact ⟨htokens, .failure h⟩

theorem Failure.Related.alike {failure failure' : Failure}
    (h : failure.Related R (LexicalError.Alike R) failure') : failure.Alike R failure' := by
  cases h with
  | lexical h => exact .lexical h
  | grammar h => exact .grammar h

/-- Texts whose streams are alike have the same value, or fail alike. -/
theorem valueOf_alike {text text' : String}
    (h : (Stream.ofText text).Alike R (Stream.ofText text')) :
    Agree (Failure.Alike R) (valueOf text) (valueOf text') := by
  rcases h.related.parse_cases with ⟨e, e', he, he', halike⟩ | ⟨failure, failure', hf, hf', halike⟩
  · exact agree_valueOf_of_agree_value he he'
      (Expr.AlikeBut.agree_value halike fun _ _ h => h.elim)
  · rw [valueOf_of_parse_eq_error hf, valueOf_of_parse_eq_error hf']
    exact .error halike.alike

end Reckoner
