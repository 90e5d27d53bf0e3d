import Reckoner.Proofs.Seams
import Reckoner.Proofs.Verdict

/-!
# Putting one expression in the place of another

Parentheses keep what stands between them together: in a derivation of a longer text, the expression
between a pair of parentheses can be replaced by any other one. So the value of a text depends on an
expression in parentheses only by way of the value of that expression.

## Main definitions

* `balance`: how many more parentheses are opened than closed;
* `Exchange`: an expression between two parentheses, and another one that is to come in its place;
* `Around`: the places that belong together when one expression is put in the place of another.

## Main results

* `Derives.balance_eq_zero` and `Derives.balance_nonneg`: a derivation closes what it opens, and not
  earlier;
* `Derives.serves`: a derivation with another expression between two parentheses;
* `Exchange.verdict_andThen`: what is wrong with the text around the parentheses stays wrong;
* `valueOf_substitute`: the value of a text with another expression of the same value in it.
-/

namespace Reckoner

/-! ### Parentheses keep together -/

/-- What a kind of token adds to the number of parentheses that are open. -/
def Kind.balance : Kind → Int
  | .leftParen => 1
  | .rightParen => -1
  | _ => 0

/-- How many more parentheses are opened than closed. -/
def balance : List Token → Int
  | [] => 0
  | t :: ts => t.kind.balance + balance ts

@[simp]
theorem balance_nil : balance [] = 0 := rfl

@[simp]
theorem balance_cons (t : Token) (ts : List Token) :
    balance (t :: ts) = t.kind.balance + balance ts := rfl

@[simp]
theorem balance_append (ts us : List Token) : balance (ts ++ us) = balance ts + balance us := by
  induction ts with
  | nil => simp
  | cons t ts ih => rw [List.cons_append, balance_cons, balance_cons, ih, Int.add_assoc]

namespace Outlook

/-- A step counts the parentheses. -/
theorem unclosed_of_step {outlook next : Outlook} {kind : Kind}
    (h : outlook.step kind = some next) :
    (next.unclosed : Int) = outlook.unclosed + kind.balance := by
  obtain ⟨place, n⟩ := outlook
  cases place with
  | operand =>
    cases kind with
    | operator o =>
      rw [step] at h
      split at h
      · obtain rfl := Option.some.inj h
        simp [Kind.balance]
      · cases h
    | rightParen | endOfInput => cases h
    | number | pi | function | leftParen =>
      obtain rfl := Option.some.inj h
      simp [Kind.balance]
  | opening =>
    cases kind with
    | leftParen =>
      obtain rfl := Option.some.inj h
      simp [Kind.balance]
    | _ => cases h
  | operator =>
    cases kind with
    | operator o =>
      rw [step] at h
      split at h
      · cases h
      · obtain rfl := Option.some.inj h
        simp [Kind.balance]
    | rightParen =>
      cases n with
      | zero => cases h
      | succ n =>
        obtain rfl := Option.some.inj h
        dsimp only [Kind.balance]
        omega
    | _ => cases h

theorem unclosed_of_run {outlook next : Outlook} {ts : List Token}
    (h : outlook.run ts = some next) : (next.unclosed : Int) = outlook.unclosed + balance ts := by
  induction ts generalizing outlook with
  | nil =>
    obtain rfl := Option.some.inj h
    simp
  | cons t ts ih =>
    obtain ⟨outlook', hstep, hrun⟩ := Option.bind_eq_some_iff.1 h
    rw [ih hrun, unclosed_of_step hstep, balance_cons, Int.add_assoc]

end Outlook

namespace Derives

variable {x : Nonterminal} {ts : List Token} {e : Expr} {n : Nat}

/-- A derivation closes the parentheses that it opens. -/
theorem balance_eq_zero (h : Derives x ts e n) : balance ts = 0 := by
  have hrun := Outlook.unclosed_of_run (h.run_eq 0)
  simpa using hrun.symm

/-- A derivation closes no parenthesis before it is opened. -/
theorem balance_nonneg (h : Derives x ts e n) {before after : List Token}
    (hts : ts = before ++ after) : 0 ≤ balance before := by
  have hrun := h.run_eq 0
  rw [hts, Outlook.run_append] at hrun
  obtain ⟨outlook, hbefore, -⟩ := Option.bind_eq_some_iff.1 hrun
  have hunclosed := Outlook.unclosed_of_run hbefore
  dsimp only at hunclosed
  omega

section Substitute

variable {as bs pre post : List Token} {a b : Expr} {m k : Nat} {opening closing : Token}

/-- Of two parts with a token between them that is no parenthesis, one holds the expression between
the parentheses with these. -/
theorem split_of_eq_append {us : List Token} {op : Token} {y : Nonterminal} {e' : Expr} {n' : Nat}
    (hleft : Derives x ts e n) (has : Derives y as e' n') (hop : op.kind.balance = 0)
    (hopening : opening.kind = .leftParen) (hclosing : closing.kind = .rightParen)
    (h : ts ++ op :: us = pre ++ opening :: (as ++ closing :: post)) :
    (∃ mid, ts = pre ++ opening :: (as ++ closing :: mid) ∧ post = mid ++ op :: us) ∨
      ∃ mid, us = mid ++ opening :: (as ++ closing :: post) ∧ pre = ts ++ op :: mid := by
  have hne : ∀ t : Token, t.kind = .leftParen ∨ t.kind = .rightParen → op ≠ t := by
    rintro t (ht | ht) rfl <;> rw [ht] at hop <;> cases hop
  -- either the token between the parts stands in front of the parenthesis, or behind it
  rcases List.append_eq_append_iff.1 h with ⟨mid, hpre, hmid⟩ | ⟨mid, hts, hmid⟩
  · cases mid with
    | nil => exact absurd (List.cons.inj hmid).1 (hne opening (.inl hopening))
    | cons t mid =>
      obtain ⟨rfl, hus⟩ := List.cons.inj hmid
      exact .inr ⟨mid, hus, hpre⟩
  · cases mid with
    | nil => exact absurd (List.cons.inj hmid).1.symm (hne opening (.inl hopening))
    | cons t mid =>
      obtain ⟨rfl, hrest⟩ := List.cons.inj hmid
      rcases List.append_eq_append_iff.1 hrest with ⟨mid', hmid', hclose⟩ | ⟨mid', has', hclose⟩
      · cases mid' with
        | nil => exact absurd (List.cons.inj hclose).1.symm (hne closing (.inr hclosing))
        | cons t mid' =>
          obtain ⟨rfl, hpost⟩ := List.cons.inj hclose
          exact .inl ⟨mid', by rw [hts, hmid'], hpost⟩
      · -- the left part would end between the parentheses
        have hzero := hleft.balance_eq_zero
        have hpre := hleft.balance_nonneg hts
        have hinner := has.balance_nonneg has'
        rw [hts, balance_append, balance_cons, hopening] at hzero
        simp only [Kind.balance] at hzero
        omega

/-- The parenthesis that closes an expression is not one that closes another inside it. -/
theorem split_of_concat {y : Nonterminal} {e' : Expr} {n' : Nat} {last : Token}
    (hts : Derives x ts e n) (has : Derives y as e' n') (hopening : opening.kind = .leftParen)
    (h : ts ++ [last] = pre ++ opening :: (as ++ closing :: post)) :
    ∃ mid, ts = pre ++ opening :: (as ++ closing :: mid) ∧ post = mid ++ [last] := by
  rcases List.eq_nil_or_concat' post with rfl | ⟨mid, t, rfl⟩
  · -- the expression would open a parenthesis that it does not close
    have hconcat : ts ++ [last] = (pre ++ opening :: as) ++ [closing] := by simpa using h
    obtain ⟨rfl, -⟩ := List.append_inj' hconcat rfl
    have hzero := hts.balance_eq_zero
    have hpre := hts.balance_nonneg rfl
    have has := has.balance_eq_zero
    simp only [balance_append, balance_cons, hopening, Kind.balance] at hzero
    omega
  · have hconcat : ts ++ [last] = (pre ++ opening :: (as ++ closing :: mid)) ++ [t] := by
      simpa using h
    obtain ⟨hts, hlast⟩ := List.append_inj' hconcat rfl
    obtain rfl : last = t := by simpa using hlast
    exact ⟨mid, hts, rfl⟩

/-- An expression between parentheses is all that stands between them. -/
theorem eq_of_concat {y : Nonterminal} {e' : Expr} {n' : Nat} {last : Token}
    (hts : Derives x ts e n) (has : Derives y as e' n') (hclosing : closing.kind = .rightParen)
    (h : ts ++ [last] = as ++ closing :: post) : ts = as ∧ last = closing ∧ post = [] := by
  rcases List.eq_nil_or_concat' post with rfl | ⟨mid, t, rfl⟩
  · obtain ⟨heq, hlast⟩ := List.append_inj' h rfl
    exact ⟨heq, by simpa using hlast, rfl⟩
  · -- the expression would close a parenthesis that it does not open
    have hconcat : ts ++ [last] = ((as ++ [closing]) ++ mid) ++ [t] := by simpa using h
    obtain ⟨heq, -⟩ := List.append_inj' hconcat rfl
    have hnonneg := hts.balance_nonneg heq
    have hzero := has.balance_eq_zero
    simp only [balance_append, balance_cons, balance_nil, hclosing, Kind.balance] at hnonneg
    omega

end Substitute

end Derives

/-- An expression between two parentheses, and another one that is to come in its place. -/
structure Exchange (R : Span → Span → Prop) where
  /-- The tokens of the expression that is replaced. -/
  old : List Token
  /-- Its tree. -/
  oldTree : Expr
  /-- The tokens of the other expression. -/
  new : List Token
  /-- Its tree. -/
  newTree : Expr
  /-- The parenthesis in front of the expression that is replaced. -/
  opening : Token
  /-- The parenthesis behind it. -/
  closing : Token
  /-- The parenthesis in front of the other expression. -/
  opening' : Token
  /-- The parenthesis behind it. -/
  closing' : Token
  /-- What is replaced is an expression. -/
  exists_derives_old : ∃ n, Derives .complexExpr old oldTree n
  /-- So is what comes in its place. -/
  exists_derives_new : ∃ n, Derives .complexExpr new newTree n
  opening_kind : opening.kind = .leftParen
  closing_kind : closing.kind = .rightParen
  opening_alike : opening.Alike R opening'
  closing_alike : closing.Alike R closing'

namespace Exchange

variable {R : Span → Span → Prop}

/-- Tokens with the expression that is replaced between them. -/
def before (exchange : Exchange R) (pre post : List Token) : List Token :=
  pre ++ exchange.opening :: (exchange.old ++ exchange.closing :: post)

/-- Tokens with the other expression between them. -/
def after (exchange : Exchange R) (pre post : List Token) : List Token :=
  pre ++ exchange.opening' :: (exchange.new ++ exchange.closing' :: post)

/-- The tree changes in the place of the expression only. -/
def AlikeBut (exchange : Exchange R) : Expr → Expr → Prop :=
  Expr.AlikeBut (fun e e' => e = exchange.oldTree ∧ e' = exchange.newTree) R

/-- Wherever the expression stands in these tokens, it can be replaced by the other one. -/
def Serves (exchange : Exchange R) (x : Nonterminal) (ts : List Token) (e : Expr) : Prop :=
  ∀ ⦃pre post pre' post' : List Token⦄, ts = exchange.before pre post →
    List.Forall₂ (Token.Alike R) pre pre' → List.Forall₂ (Token.Alike R) post post' →
    ∃ e' n, Derives x (exchange.after pre' post') e' n ∧ exchange.AlikeBut e e'

variable {exchange : Exchange R} {x y z : Nonterminal} {ts us : List Token} {e l r : Expr}
  {m n : Nat}

/-- Tokens with a parenthesis among them do not begin with a token that is none, unless there are
tokens in front of the parenthesis. -/
theorem exists_of_cons_eq_before {t : Token} {pre post : List Token} (ht : t.kind ≠ .leftParen)
    (h : t :: ts = exchange.before pre post) :
    ∃ rest, pre = t :: rest ∧ ts = exchange.before rest post := by
  cases pre with
  | nil =>
    obtain ⟨rfl, -⟩ := List.cons.inj h
    exact absurd exchange.opening_kind ht
  | cons u rest =>
    obtain ⟨rfl, hts⟩ := List.cons.inj h
    exact ⟨rest, rfl, hts⟩

/-- A nonterminal that is another one with the same tokens. -/
theorem Serves.of_rule (h : exchange.Serves y ts e)
    (rule : ∀ ⦃us e' k⦄, Derives y us e' k → ∃ k', Derives x us e' k') :
    exchange.Serves x ts e := by
  intro pre post pre' post' hts hpre hpost
  obtain ⟨e', n, hderives, halike⟩ := h hts hpre hpost
  obtain ⟨n', hderives'⟩ := rule hderives
  exact ⟨e', n', hderives', halike⟩

/-- Two operands with an operator between them. The expression stands in one of them. -/
theorem Serves.binary {op : Token} (hl : Derives y ts l m) (hr : Derives z us r n)
    (hop : op.kind.balance = 0) (left : exchange.Serves y ts l) (right : exchange.Serves z us r)
    (rule : ∀ ⦃op' ts' us' l' r' m' n'⦄, op'.kind = op.kind → Derives y ts' l' m' →
      Derives z us' r' n' → Derives x (ts' ++ op' :: us') (.binary op' l' r') (max m' n')) :
    exchange.Serves x (ts ++ op :: us) (.binary op l r) := by
  intro pre post pre' post' hts hpre hpost
  obtain ⟨k, hold⟩ := exchange.exists_derives_old
  rcases hl.split_of_eq_append hold hop exchange.opening_kind exchange.closing_kind hts with
    ⟨mid, rfl, rfl⟩ | ⟨mid, rfl, rfl⟩
  · obtain ⟨mid', op', us', hmid, hop', hus, rfl⟩ := exists_of_forall₂_append_cons hpost
    obtain ⟨l', m', hl', hleft⟩ := left rfl hpre hmid
    obtain ⟨r', hr', hright⟩ := hr.alike hus
    have hderives := rule hop'.kind_eq.symm hl' hr'
    exact ⟨_, _, by simpa [after] using hderives, .binary hop' hleft hright.alikeBut⟩
  · obtain ⟨ts', op', mid', hts', hop', hmid, rfl⟩ := exists_of_forall₂_append_cons hpre
    obtain ⟨l', hl', hleft⟩ := hl.alike hts'
    obtain ⟨r', n', hr', hright⟩ := right rfl hmid hpost
    have hderives := rule hop'.kind_eq.symm hl' hr'
    exact ⟨_, _, by simpa [after] using hderives, .binary hop' hleft.alikeBut hright⟩

/-- An expression between two parentheses, with another tree for the whole or the same one. It is
the expression that is replaced, or it holds this one. -/
theorem Serves.parenthesized {opening closing : Token}
    (h : Derives .complexExpr ts e n) (inner : exchange.Serves .complexExpr ts e)
    (hopening : opening.kind = .leftParen)
    (hclosing : closing.kind = .rightParen)
    {pre post pre' post' : List Token}
    (hts : opening :: (ts ++ [closing]) = exchange.before pre post)
    (hpre : List.Forall₂ (Token.Alike R) pre pre')
    (hpost : List.Forall₂ (Token.Alike R) post post') :
    ∃ opening' ts' closing' e' k, exchange.after pre' post' = opening' :: (ts' ++ [closing']) ∧
      opening'.kind = .leftParen ∧ closing'.kind = .rightParen ∧ Derives .complexExpr ts' e' k ∧
        exchange.AlikeBut e e' := by
  obtain ⟨k, hold⟩ := exchange.exists_derives_old
  cases pre with
  | nil =>
    -- the tokens begin with the parenthesis, so that the expression is all there is in it
    obtain ⟨rfl, hrest⟩ := List.cons.inj hts
    obtain ⟨rfl, rfl, rfl⟩ := h.eq_of_concat hold exchange.closing_kind hrest
    obtain rfl := h.unique hold
    obtain rfl := List.forall₂_nil_left_iff.1 hpre
    obtain rfl := List.forall₂_nil_left_iff.1 hpost
    obtain ⟨k', hnew⟩ := exchange.exists_derives_new
    exact ⟨exchange.opening', exchange.new, exchange.closing', exchange.newTree, k', rfl,
      exchange.opening_alike.kind_eq ▸ exchange.opening_kind,
      exchange.closing_alike.kind_eq ▸ exchange.closing_kind, hnew, .hole ⟨rfl, rfl⟩⟩
  | cons t pre =>
    obtain ⟨rfl, hrest⟩ := List.cons.inj hts
    obtain ⟨mid, hinner, rfl⟩ := h.split_of_concat hold exchange.opening_kind hrest
    obtain ⟨opening', pre', hopening', hbefore, rfl⟩ := List.forall₂_cons_left_iff.1 hpre
    obtain ⟨mid', closing', hmid, hclosing', rfl⟩ := exists_of_forall₂_concat hpost
    obtain ⟨e', n', h', halike⟩ := inner hinner hbefore hmid
    exact ⟨opening', _, closing', e', n', by simp [after], hopening'.kind_eq ▸ hopening,
      hclosing'.kind_eq ▸ hclosing, h', halike⟩

end Exchange

/-- In a derivation, the expression between two parentheses can be replaced by another one. The
tree changes in that place only. -/
theorem Derives.serves {R : Span → Span → Prop} {x : Nonterminal} {ts : List Token} {e : Expr}
    {n : Nat} (h : Derives x ts e n) (exchange : Exchange R) : exchange.Serves x ts e := by
  induction h with
  | operand hfold _ ih => exact ih.of_rule fun _ _ k h => ⟨k, .operand hfold h⟩
  | unsigned _ ih => exact ih.of_rule fun _ _ k h => ⟨k + 1, .unsigned h⟩
  | base _ ih => exact ih.of_rule fun _ _ k h => ⟨k, .base h⟩
  | fold hfold hl hop ho hr ihl ihr =>
    refine .binary hl hr (by rw [hop]; rfl) ihl ihr ?_
    exact fun _ _ _ _ _ _ _ hop' hl' hr' => .fold hfold hl' (hop'.trans hop) ho hr'
  | exponent hl hop hr ihl ihr =>
    refine .binary hl hr (by rw [hop]; rfl) ihl ihr ?_
    exact fun _ _ _ _ _ _ _ hop' hl' hr' => .exponent hl' (hop'.trans hop) hr'
  | sign hop ho _ ih =>
    intro pre post pre' post' hts hpre hpost
    obtain ⟨rest, rfl, hrest⟩ := Exchange.exists_of_cons_eq_before (by simp [hop]) hts
    obtain ⟨op', rest', hop', hbefore, rfl⟩ := List.forall₂_cons_left_iff.1 hpre
    obtain ⟨e', n', h, halike⟩ := ih hrest hbefore hpost
    exact ⟨_, _, .sign (hop'.kind_eq ▸ hop) ho h, .unary hop' halike⟩
  | application hname hopening h hclosing ih =>
    intro pre post pre' post' hts hpre hpost
    obtain ⟨rest, rfl, hrest⟩ := Exchange.exists_of_cons_eq_before (by simp [hname]) hts
    obtain ⟨name', rest', hname', hbefore, rfl⟩ := List.forall₂_cons_left_iff.1 hpre
    obtain ⟨opening', us, closing', e', k, heq, hopening', hclosing', h', halike⟩ :=
      ih.parenthesized h hopening hclosing hrest hbefore hpost
    refine ⟨_, k, ?_, .application hname' halike⟩
    change Derives _ (name' :: exchange.after rest' post') _ _
    rw [heq]
    exact .application (hname'.kind_eq ▸ hname) hopening' h' hclosing'
  | parentheses hopening h hclosing ih =>
    intro pre post pre' post' hts hpre hpost
    obtain ⟨opening', us, closing', e', k, heq, hopening', hclosing', h', halike⟩ :=
      ih.parenthesized h hopening hclosing hts hpre hpost
    exact ⟨e', k, heq ▸ .parentheses hopening' h' hclosing', halike⟩
  | literal hkind =>
    -- there is only one token
    intro pre post pre' post' hts
    have hlength := congrArg List.length hts
    simp [Exchange.before] at hlength
    omega

/-- An opening parenthesis is followed by an operand. -/
theorem Outlook.eq_of_step_leftParen {outlook next : Outlook}
    (h : outlook.step .leftParen = some next) :
    ∃ n, next = ⟨.operand, n + 1⟩ := by
  obtain ⟨place, n⟩ := outlook
  cases place with
  | operand | opening => exact ⟨n, (Option.some.inj h).symm⟩
  | operator => cases h

/-- What is due for the tokens is the same with the other expression. -/
theorem Exchange.verdict_alike {R : Span → Span → Prop} (exchange : Exchange R)
    {pre pre' : List Token} {post post' : Stream} (hpre : List.Forall₂ (Token.Alike R) pre pre')
    (hpost : post.Alike R post') (outlook : Outlook) :
    Option.Rel (Failure.Alike R)
      (outlook.verdict (exchange.before pre post.tokens) post.stop)
      (outlook.verdict (exchange.after pre' post'.tokens) post'.stop) := by
  induction hpre generalizing outlook with
  | @cons t u pre pre' h _ ih =>
    change Option.Rel _ (outlook.verdict (t :: exchange.before pre post.tokens) _)
      (outlook.verdict (u :: exchange.after pre' post'.tokens) _)
    cases hstep : outlook.step t.kind with
    | none =>
      rw [Outlook.verdict_cons_of_none hstep, Outlook.verdict_cons_of_none (h.kind_eq ▸ hstep)]
      exact .some (.grammar (Outlook.complaint_alike h outlook))
    | some next =>
      rw [Outlook.verdict_cons_of_some hstep, Outlook.verdict_cons_of_some (h.kind_eq ▸ hstep)]
      exact ih next
  | nil =>
    change Option.Rel _
      (outlook.verdict (exchange.opening :: (exchange.old ++ exchange.closing :: post.tokens)) _)
      (outlook.verdict (exchange.opening' :: (exchange.new ++ exchange.closing' :: post'.tokens)) _)
    have hopening' := exchange.opening_alike.kind_eq ▸ exchange.opening_kind
    have hclosing' := exchange.closing_alike.kind_eq ▸ exchange.closing_kind
    cases hstep : outlook.step .leftParen with
    | none =>
      rw [← exchange.opening_kind] at hstep
      rw [Outlook.verdict_cons_of_none hstep,
        Outlook.verdict_cons_of_none (exchange.opening_alike.kind_eq ▸ hstep)]
      exact .some (.grammar (Outlook.complaint_alike exchange.opening_alike outlook))
    | some next =>
      obtain ⟨n, rfl⟩ := Outlook.eq_of_step_leftParen hstep
      -- either expression leads from the parenthesis in front of it to the one behind it
      have hclose : ∀ {closing : Token}, closing.kind = .rightParen →
          Outlook.step ⟨.operator, n + 1⟩ closing.kind = some ⟨.operator, n⟩ := by
        rintro closing hclosing
        rw [hclosing]
        rfl
      obtain ⟨m, hold⟩ := exchange.exists_derives_old
      obtain ⟨k, hnew⟩ := exchange.exists_derives_new
      rw [← exchange.opening_kind] at hstep
      rw [Outlook.verdict_cons_of_some hstep, Outlook.verdict_append (hold.run_eq (n + 1)),
        Outlook.verdict_cons_of_some (hclose exchange.closing_kind)]
      rw [Outlook.verdict_cons_of_some (exchange.opening_alike.kind_eq ▸ hstep),
        Outlook.verdict_append (hnew.run_eq (n + 1)),
        Outlook.verdict_cons_of_some (hclose hclosing')]
      exact Outlook.verdict_alike hpost ⟨.operator, n⟩

section Streams

variable {R : Span → Span → Prop} {front post post' : Stream}

/-- What stands around the parentheses may be a stream that ends early, or none. -/
theorem Exchange.verdict_andThen (exchange : Exchange R) (hfront : front.Alike R front)
    (hpost : post.Alike R post') :
    Option.Rel (Failure.Alike R)
      (front.andThen
        (post.behind (exchange.opening :: (exchange.old ++ [exchange.closing])))).verdict
      (front.andThen
        (post'.behind (exchange.opening' :: (exchange.new ++ [exchange.closing'])))).verdict := by
  obtain ⟨pre, stop⟩ := front
  cases stop with
  | failure error => exact Outlook.verdict_alike hfront ⟨.operand, 0⟩
  | endOfInput length =>
    have hverdict := exchange.verdict_alike hfront.tokens hpost ⟨.operand, 0⟩
    simpa [Stream.andThen, Stream.behind, Stream.verdict, before, after] using hverdict

/-- If both streams are expressions, their trees differ in the place of the expression only. -/
theorem Exchange.alikeBut_andThen (exchange : Exchange R) (hfront : front.Alike R front)
    (hpost : post.Alike R post') {ts us : List Token} {length length' m n : Nat} {e e' : Expr}
    (hs : front.andThen (post.behind (exchange.opening :: (exchange.old ++ [exchange.closing]))) =
      ⟨ts, .endOfInput length⟩)
    (hs' : front.andThen
      (post'.behind (exchange.opening' :: (exchange.new ++ [exchange.closing']))) =
      ⟨us, .endOfInput length'⟩)
    (h : Derives .complexExpr ts e m) (h' : Derives .complexExpr us e' n) :
    exchange.AlikeBut e e' := by
  obtain ⟨pre, stop⟩ := front
  cases stop with
  | failure error => cases hs
  | endOfInput =>
    have hts : exchange.before pre post.tokens = ts := by
      simpa [Stream.andThen, Stream.behind, before] using congrArg Stream.tokens hs
    have hus : exchange.after pre post'.tokens = us := by
      simpa [Stream.andThen, Stream.behind, after] using congrArg Stream.tokens hs'
    obtain ⟨e'', n', hderives, halike⟩ :=
      h.serves exchange hts.symm hfront.tokens hpost.tokens
    rw [hus] at hderives
    exact h'.unique hderives ▸ halike

end Streams

/-! ### Texts -/

/-- The places of two texts that belong together when an expression of `size` bytes behind `place`
is replaced by one of `size'` bytes: those in front of it, and those behind it. -/
def Around (place size size' : Nat) (span span' : Span) : Prop :=
  span.length = span'.length ∧
    (span.offset = span'.offset ∧ span.offset + span.length ≤ place ∨
      place + size ≤ span.offset ∧ span'.offset + size = span.offset + size')

/-- The text in front of the expression stays where it is. -/
theorem Stream.alike_around_front (front : String) (size size' : Nat) :
    (ofText front).Alike (Around (front.utf8ByteSize + 1) size size') (ofText front) :=
  alike_self (inside_ofText front) fun _ h => ⟨rfl, .inl ⟨rfl, Nat.le_succ_of_le h.2⟩⟩

/-- The text behind the expression moves with the end of the expression. -/
theorem Stream.alike_around_back (back : String) (place size size' : Nat) :
    ((ofText back).moved (place + size + 1)).Alike (Around place size size')
      ((ofText back).moved (place + size' + 1)) := by
  refine alike_moved (ofText back) fun span => ⟨rfl, .inr ⟨?_, ?_⟩⟩
  · simp only [Span.moved]
    omega
  · simp only [Span.moved]
    omega

/-- The tokens of a text with another text between parentheses in it. -/
theorem Stream.ofText_enclosed {inner : String} {ts : List Token} {length : Nat}
    (h : Stream.ofText inner = ⟨ts, .endOfInput length⟩) (front back : String) :
    Stream.ofText (front ++ "(" ++ inner ++ ")" ++ back) =
      (Stream.ofText front).andThen
        (((Stream.ofText back).moved (front.utf8ByteSize + 1 + inner.utf8ByteSize + 1)).behind
          (.ofKind .leftParen ⟨front.utf8ByteSize, 1⟩ ::
            (ts.map (Token.moved (front.utf8ByteSize + 1)) ++
              [.ofKind .rightParen ⟨front.utf8ByteSize + 1 + inner.utf8ByteSize, 1⟩]))) := by
  have hchars : (front ++ "(" ++ inner ++ ")" ++ back).toList =
      front.toList ++ '(' :: (inner.toList ++ ')' :: back.toList) := by
    simp [String.toList_append]
  rw [ofText, Cursor.start, hchars, scanFrom_leftParen, scanFrom_rightParen, Nat.zero_add,
    utf8Length_toList, utf8Length_toList, scanFrom_toList _ inner, scanFrom_toList _ back, h]
  simp [moved, Stop.moved, andThen, ofText, Cursor.start]

/-- The tree of a text that has a value. -/
theorem exists_parse_of_valueOf_eq_ok {text : String} {x : Float} (h : valueOf text = .ok x) :
    ∃ e, (parse text).result = .ok e ∧ e.value = .ok x := by
  cases hparse : (parse text).result with
  | error failure =>
    rw [valueOf_of_parse_eq_error hparse] at h
    cases h
  | ok e =>
    rw [valueOf_of_parse_eq_ok hparse] at h
    cases hvalue : e.value with
    | error error =>
      rw [hvalue] at h
      cases h
    | ok y =>
      rw [hvalue] at h
      obtain rfl := Except.ok.inj h
      exact ⟨e, rfl, hvalue⟩

/-- The tokens of a text that has a value, further back in another text. -/
theorem exists_derives_moved_of_valueOf_eq_ok {text : String} {x : Float}
    (h : valueOf text = .ok x) (count : Nat) :
    ∃ ts length e, Stream.ofText text = ⟨ts, .endOfInput length⟩ ∧
      (∃ n, Derives .complexExpr (ts.map (Token.moved count)) e n) ∧ e.value = .ok x := by
  obtain ⟨e, hparse, hvalue⟩ := exists_parse_of_valueOf_eq_ok h
  obtain ⟨ts, length, n, hs, hderives, -⟩ := exists_derives_of_parse_eq_ok hparse
  obtain ⟨e', hmoved, halike⟩ := hderives.moved count
  have hagree := halike.agree_value fun _ _ h => h.elim
  rw [hvalue] at hagree
  exact ⟨ts, length, e', hs, ⟨n, hmoved⟩, hagree.eq_ok⟩

/-- Texts whose tokens fail alike, and whose trees have values that agree, have values that agree if
neither is too deep. -/
theorem agree_valueOf {R : Span → Span → Prop} {text text' : String}
    (hverdict : Option.Rel (Failure.Alike R) (Stream.ofText text).verdict
      (Stream.ofText text').verdict)
    (hvalue : ∀ e e', (parse text).result = .ok e → (parse text').result = .ok e' →
      Agree (EvalError.Alike R) e.value e'.value)
    (hdeep : ∀ span, valueOf text ≠ .error (.grammar (.tooDeep span)))
    (hdeep' : ∀ span, valueOf text' ≠ .error (.grammar (.tooDeep span))) :
    Agree (Failure.Alike R) (valueOf text) (valueOf text') := by
  rcases parse_cases text with ⟨e, hparse, hnone⟩ | ⟨failure, hparse, hsome⟩ | ⟨span, hparse⟩
  · rcases parse_cases text' with
      ⟨e', hparse', -⟩ | ⟨failure, -, hsome⟩ | ⟨span, hparse'⟩
    · have hagree := hvalue e e' hparse hparse'
      rw [valueOf_of_parse_eq_ok hparse, valueOf_of_parse_eq_ok hparse']
      generalize e.value = x, e'.value = y at hagree
      cases hagree with
      | ok x => exact .ok x
      | error h => exact .error (.value h)
    · rw [hnone, hsome] at hverdict
      cases hverdict
    · exact absurd (valueOf_of_parse_eq_error hparse') (hdeep' span)
  · rcases parse_cases text' with
      ⟨e', -, hnone⟩ | ⟨failure', hparse', hsome'⟩ | ⟨span, hparse'⟩
    · rw [hsome, hnone] at hverdict
      cases hverdict
    · rw [hsome, hsome'] at hverdict
      cases hverdict with
      | some h =>
        rw [valueOf_of_parse_eq_error hparse, valueOf_of_parse_eq_error hparse']
        exact .error h
    · exact absurd (valueOf_of_parse_eq_error hparse') (hdeep' span)
  · exact absurd (valueOf_of_parse_eq_error hparse) (hdeep span)

/-- The value of a text depends on an expression in parentheses in it only by way of the value of
that expression, whatever text stands around the parentheses. If there is no value, the failure is
the same, at the same place in front of the expression or behind it, unless one of the texts is
nested too deeply. -/
theorem valueOf_substitute {front back first second : String} {x : Float}
    (hfirst : valueOf first = .ok x) (hsecond : valueOf second = .ok x)
    (hdeep : ∀ span, valueOf (front ++ "(" ++ first ++ ")" ++ back) ≠
      .error (.grammar (.tooDeep span)))
    (hdeep' : ∀ span, valueOf (front ++ "(" ++ second ++ ")" ++ back) ≠
      .error (.grammar (.tooDeep span))) :
    Agree
      (Failure.Alike (Around (front.utf8ByteSize + 1) first.utf8ByteSize second.utf8ByteSize))
      (valueOf (front ++ "(" ++ first ++ ")" ++ back))
      (valueOf (front ++ "(" ++ second ++ ")" ++ back)) := by
  let R := Around (front.utf8ByteSize + 1) first.utf8ByteSize second.utf8ByteSize
  -- the two expressions, in the places that they have in the longer texts
  obtain ⟨ts, length, a, hs, hold, ha⟩ :=
    exists_derives_moved_of_valueOf_eq_ok hfirst (front.utf8ByteSize + 1)
  obtain ⟨us, length', b, hs', hnew, hb⟩ :=
    exists_derives_moved_of_valueOf_eq_ok hsecond (front.utf8ByteSize + 1)
  let exchange : Exchange R := {
    old := ts.map (Token.moved (front.utf8ByteSize + 1))
    oldTree := a
    new := us.map (Token.moved (front.utf8ByteSize + 1))
    newTree := b
    opening := .ofKind .leftParen ⟨front.utf8ByteSize, 1⟩
    closing := .ofKind .rightParen ⟨front.utf8ByteSize + 1 + first.utf8ByteSize, 1⟩
    opening' := .ofKind .leftParen ⟨front.utf8ByteSize, 1⟩
    closing' := .ofKind .rightParen ⟨front.utf8ByteSize + 1 + second.utf8ByteSize, 1⟩
    exists_derives_old := hold
    exists_derives_new := hnew
    opening_kind := rfl
    closing_kind := rfl
    opening_alike := ⟨rfl, rfl, rfl, .inl ⟨rfl, Nat.le_refl _⟩⟩
    closing_alike := ⟨rfl, rfl, rfl, .inr ⟨Nat.le_refl _, by simp only [Token.ofKind]; omega⟩⟩ }
  have hfront := Stream.alike_around_front front first.utf8ByteSize second.utf8ByteSize
  have hback := Stream.alike_around_back back (front.utf8ByteSize + 1) first.utf8ByteSize
    second.utf8ByteSize
  have htokens := Stream.ofText_enclosed hs front back
  have htokens' := Stream.ofText_enclosed hs' front back
  refine agree_valueOf ?_ (fun e e' hparse hparse' => ?_) hdeep hdeep'
  · rw [htokens, htokens']
    exact exchange.verdict_andThen hfront hback
  -- the trees differ in one place only, and there they have the same value
  · obtain ⟨_, _, _, hstream, hderives, -⟩ := exists_derives_of_parse_eq_ok hparse
    obtain ⟨_, _, _, hstream', hderives', -⟩ := exists_derives_of_parse_eq_ok hparse'
    rw [htokens] at hstream
    rw [htokens'] at hstream'
    have halike := exchange.alikeBut_andThen hfront hback hstream hstream' hderives hderives'
    refine halike.agree_value fun t t' h => ?_
    obtain ⟨rfl, rfl⟩ := h
    rw [ha, hb]
    exact .ok x

/-- A sum in parentheses and its value are followed by a numeral that may not come there. It is the
same failure, four bytes further back. -/
theorem valueOf_substitute_leftover :
    valueOf "1 + 1" = .ok 2 ∧ valueOf "2" = .ok 2 ∧
      valueOf ("2 * " ++ "(" ++ "1 + 1" ++ ")" ++ " 3") =
        .error (.grammar (.leftover ⟨.number, "3.0", ⟨12, 1⟩⟩)) ∧
      valueOf ("2 * " ++ "(" ++ "2" ++ ")" ++ " 3") =
        .error (.grammar (.leftover ⟨.number, "3.0", ⟨8, 1⟩⟩)) ∧
      Agree (Failure.Alike (Around ("2 * ".utf8ByteSize + 1) "1 + 1".utf8ByteSize "2".utf8ByteSize))
        (valueOf ("2 * " ++ "(" ++ "1 + 1" ++ ")" ++ " 3"))
        (valueOf ("2 * " ++ "(" ++ "2" ++ ")" ++ " 3")) := by
  have hsum : valueOf "1 + 1" = .ok 2 := by decide +kernel
  have hvalue : valueOf "2" = .ok 2 := by decide +kernel
  have hfails : valueOf ("2 * " ++ "(" ++ "1 + 1" ++ ")" ++ " 3") =
      .error (.grammar (.leftover ⟨.number, "3.0", ⟨12, 1⟩⟩)) := by decide +kernel
  have hfails' : valueOf ("2 * " ++ "(" ++ "2" ++ ")" ++ " 3") =
      .error (.grammar (.leftover ⟨.number, "3.0", ⟨8, 1⟩⟩)) := by decide +kernel
  exact ⟨hsum, hvalue, hfails, hfails', valueOf_substitute hsum hvalue
    (fun span h => by rw [hfails] at h; cases h) (fun span h => by rw [hfails'] at h; cases h)⟩

end Reckoner
