import Reckoner.Proofs.Substitution

/-!
# Parentheses that change nothing

Wherever an expression stands in a text, parentheses around it may be added. The text keeps its tree
but for the places, and with it its value, unless the one more factor that is open between these
parentheses is one too many.

## Main definitions

* `Expr.subtree?`: the part of a tree to which a path leads;
* `Occurs x ts e n path pre us post e'`: in a derivation of an `x` with the tree `e`, the subtree
  `e'` is derived from the tokens `us`, which stand between `pre` and `post`;
* `Parts`: the part of a text on which some of its tokens stand;
* `Redundant`: parentheses around this part change nothing.

## Main results

* `Derives.exists_occurs`: every subtree is derived from some of the tokens;
* `Occurs.enclosed`: these tokens may be put in parentheses;
* `Cut.exists_split` and `Cut.exists_split_behind`: a text may be cut at a token;
* `parse_enclosed`: the part of a text on which the tokens stand may be put in parentheses.
-/

namespace Reckoner

/-- The part of a tree to which a path leads: `true` leads to the right one of two operands, and
`false` to the left one or to the only one. -/
def Expr.subtree? : Expr → List Bool → Option Expr
  | e, [] => some e
  | unary _ e, false :: path | application _ e, false :: path => e.subtree? path
  | binary _ l _, false :: path => l.subtree? path
  | binary _ _ r, true :: path => r.subtree? path
  | _, _ :: _ => none

/-- `Occurs x ts e n path pre us post e'`: the tokens `ts` are an `x` with the tree `e`, by a
derivation on whose paths stand at most `n` factors inside one another. In this derivation the
tokens `us`, which stand between `pre` and `post`, are derived with the tree `e'`, to which `path`
leads in `e`. -/
inductive Occurs : Nonterminal → List Token → Expr → Nat → List Bool → List Token → List Token →
    List Token → Expr → Prop
  /-- The tokens are all there are. -/
  | here {x : Nonterminal} {ts : List Token} {e : Expr} {n : Nat} (h : Derives x ts e n) :
      Occurs x ts e n [] [] ts [] e
  /-- The tokens belong to the first operand of a looser nonterminal. -/
  | operand {loose tight : Nonterminal} {ops : List Operator} {ts pre us post : List Token}
      {e e' : Expr} {n : Nat} {path : List Bool} (hfold : loose.fold? = some (ops, tight))
      (h : Occurs tight ts e n path pre us post e') : Occurs loose ts e n path pre us post e'
  /-- The tokens belong to what stands in front of an operator. -/
  | foldLeft {loose tight : Nonterminal} {ops : List Operator} {o : Operator} {op : Token}
      {ts vs pre us post : List Token} {l r e' : Expr} {m n : Nat} {path : List Bool}
      (hfold : loose.fold? = some (ops, tight)) (left : Occurs loose ts l m path pre us post e')
      (hop : op.kind = .operator o) (ho : o ∈ ops) (right : Derives tight vs r n) :
      Occurs loose (ts ++ op :: vs) (.binary op l r) (max m n) (false :: path) pre us
        (post ++ op :: vs) e'
  /-- The tokens belong to the operand behind an operator. -/
  | foldRight {loose tight : Nonterminal} {ops : List Operator} {o : Operator} {op : Token}
      {ts vs pre us post : List Token} {l r e' : Expr} {m n : Nat} {path : List Bool}
      (hfold : loose.fold? = some (ops, tight)) (left : Derives loose ts l m)
      (hop : op.kind = .operator o) (ho : o ∈ ops)
      (right : Occurs tight vs r n path pre us post e') :
      Occurs loose (ts ++ op :: vs) (.binary op l r) (max m n) (true :: path) (ts ++ op :: pre) us
        post e'
  /-- The tokens belong to the factor behind a sign. -/
  | sign {o : Operator} {op : Token} {ts pre us post : List Token} {e e' : Expr} {n : Nat}
      {path : List Bool} (hop : op.kind = .operator o) (ho : o ∈ [.plus, .minus, .flip])
      (h : Occurs .factor ts e n path pre us post e') :
      Occurs .factor (op :: ts) (.unary op e) (n + 1) (false :: path) (op :: pre) us post e'
  /-- The tokens belong to the power that is a factor. -/
  | unsigned {ts pre us post : List Token} {e e' : Expr} {n : Nat} {path : List Bool}
      (h : Occurs .power ts e n path pre us post e') :
      Occurs .factor ts e (n + 1) path pre us post e'
  /-- The tokens belong to the atom that is a power. -/
  | base {ts pre us post : List Token} {e e' : Expr} {n : Nat} {path : List Bool}
      (h : Occurs .atom ts e n path pre us post e') : Occurs .power ts e n path pre us post e'
  /-- The tokens belong to the base of a power. -/
  | exponentLeft {op : Token} {ts vs pre us post : List Token} {l r e' : Expr} {m n : Nat}
      {path : List Bool} (left : Occurs .atom ts l m path pre us post e')
      (hop : op.kind = .operator .power) (right : Derives .factor vs r n) :
      Occurs .power (ts ++ op :: vs) (.binary op l r) (max m n) (false :: path) pre us
        (post ++ op :: vs) e'
  /-- The tokens belong to the exponent of a power. -/
  | exponentRight {op : Token} {ts vs pre us post : List Token} {l r e' : Expr} {m n : Nat}
      {path : List Bool} (left : Derives .atom ts l m) (hop : op.kind = .operator .power)
      (right : Occurs .factor vs r n path pre us post e') :
      Occurs .power (ts ++ op :: vs) (.binary op l r) (max m n) (true :: path) (ts ++ op :: pre) us
        post e'
  /-- The tokens belong to the argument of a function. -/
  | application {f : Function} {name opening closing : Token} {ts pre us post : List Token}
      {e e' : Expr} {n : Nat} {path : List Bool} (hname : name.kind = .function f)
      (hopening : opening.kind = .leftParen) (h : Occurs .complexExpr ts e n path pre us post e')
      (hclosing : closing.kind = .rightParen) :
      Occurs .atom (name :: opening :: (ts ++ [closing])) (.application name e) n (false :: path)
        (name :: opening :: pre) us (post ++ [closing]) e'
  /-- The tokens belong to what stands in parentheses. -/
  | parentheses {opening closing : Token} {ts pre us post : List Token} {e e' : Expr} {n : Nat}
      {path : List Bool} (hopening : opening.kind = .leftParen)
      (h : Occurs .complexExpr ts e n path pre us post e') (hclosing : closing.kind = .rightParen) :
      Occurs .atom (opening :: (ts ++ [closing])) e n path (opening :: pre) us
        (post ++ [closing]) e'

namespace Occurs

variable {x : Nonterminal} {ts pre us post : List Token} {e e' : Expr} {n : Nat} {path : List Bool}

/-- The whole is derived. -/
theorem derives (h : Occurs x ts e n path pre us post e') : Derives x ts e n := by
  induction h with
  | here h => exact h
  | operand hfold _ ih => exact .operand hfold ih
  | foldLeft hfold _ hop ho right ih => exact .fold hfold ih hop ho right
  | foldRight hfold left hop ho _ ih => exact .fold hfold left hop ho ih
  | sign hop ho _ ih => exact .sign hop ho ih
  | unsigned _ ih => exact .unsigned ih
  | base _ ih => exact .base ih
  | exponentLeft _ hop right ih => exact .exponent ih hop right
  | exponentRight left hop _ ih => exact .exponent left hop ih
  | application hname hopening _ hclosing ih => exact .application hname hopening ih hclosing
  | parentheses hopening _ hclosing ih => exact .parentheses hopening ih hclosing

/-- The part is derived. -/
theorem exists_derives (h : Occurs x ts e n path pre us post e') : ∃ y m, Derives y us e' m := by
  induction h with
  | here h => exact ⟨_, _, h⟩
  | _ => assumption

/-- The tokens of the part stand among those of the whole. -/
theorem append_eq (h : Occurs x ts e n path pre us post e') : ts = pre ++ us ++ post := by
  induction h with
  | here => simp
  | operand _ _ ih | unsigned _ ih | base _ ih => exact ih
  | foldLeft _ _ _ _ _ ih | exponentLeft _ _ _ ih => rw [ih]; simp
  | foldRight _ _ _ _ _ ih | exponentRight _ _ _ ih => rw [ih]; simp
  | sign _ _ _ ih | application _ _ _ _ ih | parentheses _ _ _ ih => rw [ih]; simp

end Occurs

/-- The empty path leads to the whole. -/
theorem Derives.exists_occurs_nil {x : Nonterminal} {ts : List Token} {e e' : Expr} {n : Nat}
    (h : Derives x ts e n) (hpath : e.subtree? [] = some e') :
    ∃ pre us post, Occurs x ts e n [] pre us post e' := by
  rw [Expr.subtree?] at hpath
  obtain rfl := Option.some.inj hpath
  exact ⟨[], ts, [], .here h⟩

/-- Every subtree is derived from some of the tokens. -/
theorem Derives.exists_occurs {x : Nonterminal} {ts : List Token} {e e' : Expr} {n : Nat}
    (h : Derives x ts e n) {path : List Bool} (hpath : e.subtree? path = some e') :
    ∃ pre us post, Occurs x ts e n path pre us post e' := by
  induction h generalizing path with
  | operand hfold _ ih =>
    obtain ⟨pre, us, post, h⟩ := ih hpath
    exact ⟨pre, us, post, .operand hfold h⟩
  | unsigned _ ih =>
    obtain ⟨pre, us, post, h⟩ := ih hpath
    exact ⟨pre, us, post, .unsigned h⟩
  | base _ ih =>
    obtain ⟨pre, us, post, h⟩ := ih hpath
    exact ⟨pre, us, post, .base h⟩
  | parentheses hopening _ hclosing ih =>
    obtain ⟨pre, us, post, h⟩ := ih hpath
    exact ⟨_, us, _, .parentheses hopening h hclosing⟩
  | literal hkind =>
    match path with
    | [] => exact exists_occurs_nil (.literal hkind) hpath
    | false :: _ | true :: _ => cases hpath
  | fold hfold left hop ho right ihl ihr =>
    match path with
    | [] => exact exists_occurs_nil (.fold hfold left hop ho right) hpath
    | false :: path =>
      obtain ⟨pre, us, post, h⟩ := ihl hpath
      exact ⟨_, us, _, .foldLeft hfold h hop ho right⟩
    | true :: path =>
      obtain ⟨pre, us, post, h⟩ := ihr hpath
      exact ⟨_, us, _, .foldRight hfold left hop ho h⟩
  | exponent left hop right ihl ihr =>
    match path with
    | [] => exact exists_occurs_nil (.exponent left hop right) hpath
    | false :: path =>
      obtain ⟨pre, us, post, h⟩ := ihl hpath
      exact ⟨_, us, _, .exponentLeft h hop right⟩
    | true :: path =>
      obtain ⟨pre, us, post, h⟩ := ihr hpath
      exact ⟨_, us, _, .exponentRight left hop h⟩
  | sign hop ho h ih =>
    match path with
    | [] => exact exists_occurs_nil (.sign hop ho h) hpath
    | false :: path =>
      obtain ⟨pre, us, post, h⟩ := ih hpath
      exact ⟨_, us, _, .sign hop ho h⟩
    | true :: path => cases hpath
  | application hname hopening h hclosing ih =>
    match path with
    | [] => exact exists_occurs_nil (.application hname hopening h hclosing) hpath
    | false :: path =>
      obtain ⟨pre, us, post, h⟩ := ih hpath
      exact ⟨_, us, _, .application hname hopening h hclosing⟩
    | true :: path => cases hpath

/-! ### Putting tokens in parentheses -/

namespace Derives

variable {x : Nonterminal} {ts : List Token} {e : Expr} {n : Nat}

/-- Tokens in parentheses are whatever they are without, by a derivation with one factor more. -/
theorem enclosed {opening closing : Token} (h : Derives x ts e n)
    (hopening : opening.kind = .leftParen) (hclosing : closing.kind = .rightParen) :
    Derives x (opening :: (ts ++ [closing])) e (n + 1) := by
  -- a power or an atom takes the factor more in the parentheses, and anything looser around them
  have hpower : Derives .power ts e n → Derives .atom (opening :: (ts ++ [closing])) e (n + 1) :=
    fun h => .parentheses hopening (.of_factor (by decide) (by decide) (.unsigned h)) hclosing
  by_cases hx : x = .power
  · subst hx
    exact .base (hpower h)
  by_cases hx' : x = .atom
  · subst hx'
    exact hpower (.base h)
  · exact .of_factor hx hx' (.unsigned (.base (.parentheses hopening (h.toComplexExpr hx hx')
      hclosing)))

end Derives

/-- What comes of putting the tokens `us` in parentheses, where they stand between `pre` and `post`
and the whole is an `x` with the tree `e`: the tree stays, and there is one factor more at most. The
places of all tokens may change. -/
def Encloses (R : Span → Span → Prop) (opening closing : Token) (x : Nonterminal) (e : Expr)
    (n : Nat) (pre us post : List Token) : Prop :=
  ∀ ⦃pre' us' post' : List Token⦄, List.Forall₂ (Token.Alike R) pre pre' →
    List.Forall₂ (Token.Alike R) us us' → List.Forall₂ (Token.Alike R) post post' →
    ∃ e' n', Derives x (pre' ++ opening :: (us' ++ closing :: post')) e' n' ∧ e.Alike R e' ∧
      n ≤ n' ∧ n' ≤ n + 1

namespace Encloses

variable {R : Span → Span → Prop} {opening closing : Token} {x y z : Nonterminal} {e l r : Expr}
  {m n : Nat} {pre us post vs ts : List Token}

/-- A nonterminal that is another one with the same tokens and, maybe, a factor more. -/
theorem of_rule (extra : Nat) (h : Encloses R opening closing y e n pre us post)
    (rule : ∀ ⦃ts e' k⦄, Derives y ts e' k → Derives x ts e' (k + extra)) :
    Encloses R opening closing x e (n + extra) pre us post := by
  intro pre' us' post' hpre hus hpost
  obtain ⟨e', n', hderives, halike, hle, hlt⟩ := h hpre hus hpost
  exact ⟨e', _, rule hderives, halike, by omega, by omega⟩

/-- The tokens stand in front of an operator. -/
theorem left {op : Token} (h : Encloses R opening closing y l m pre us post)
    (hr : Derives z vs r n)
    (rule : ∀ ⦃op' ts' us' l' r' m' n'⦄, op'.kind = op.kind → Derives y ts' l' m' →
      Derives z us' r' n' → Derives x (ts' ++ op' :: us') (.binary op' l' r') (max m' n')) :
    Encloses R opening closing x (.binary op l r) (max m n) pre us (post ++ op :: vs) := by
  intro pre' us' post' hpre hus hpost
  obtain ⟨mid, op', vs', hmid, hop, hvs, rfl⟩ := exists_of_forall₂_append_cons hpost
  obtain ⟨l', m', hl', hleft, hle, hlt⟩ := h hpre hus hmid
  obtain ⟨r', hr', hright⟩ := hr.alike hvs
  have hderives := rule hop.kind_eq.symm hl' hr'
  exact ⟨_, _, by simpa using hderives, .binary hop hleft hright, by omega, by omega⟩

/-- The tokens stand behind an operator. -/
theorem right {op : Token} (hl : Derives y ts l m)
    (h : Encloses R opening closing z r n pre us post)
    (rule : ∀ ⦃op' ts' us' l' r' m' n'⦄, op'.kind = op.kind → Derives y ts' l' m' →
      Derives z us' r' n' → Derives x (ts' ++ op' :: us') (.binary op' l' r') (max m' n')) :
    Encloses R opening closing x (.binary op l r) (max m n) (ts ++ op :: pre) us post := by
  intro pre' us' post' hpre hus hpost
  obtain ⟨ts', op', mid, hts, hop, hmid, rfl⟩ := exists_of_forall₂_append_cons hpre
  obtain ⟨l', hl', hleft⟩ := hl.alike hts
  obtain ⟨r', n', hr', hright, hle, hlt⟩ := h hmid hus hpost
  have hderives := rule hop.kind_eq.symm hl' hr'
  exact ⟨_, _, by simpa using hderives, .binary hop hleft hright, by omega, by omega⟩

end Encloses

/-- The tokens of any part may be put in parentheses. -/
theorem Occurs.enclosed {R : Span → Span → Prop} {x : Nonterminal} {ts pre us post : List Token}
    {e e' : Expr} {n : Nat} {path : List Bool} {opening closing : Token}
    (h : Occurs x ts e n path pre us post e') (hopening : opening.kind = .leftParen)
    (hclosing : closing.kind = .rightParen) : Encloses R opening closing x e n pre us post := by
  induction h with
  | here h =>
    intro pre' us' post' hpre hus hpost
    obtain rfl := List.forall₂_nil_left_iff.1 hpre
    obtain rfl := List.forall₂_nil_left_iff.1 hpost
    obtain ⟨e', h', halike⟩ := h.alike hus
    exact ⟨e', _, h'.enclosed hopening hclosing, halike, Nat.le_succ _, Nat.le_refl _⟩
  | operand hfold _ ih => exact ih.of_rule 0 fun _ _ _ h => .operand hfold h
  | unsigned _ ih => exact ih.of_rule 1 fun _ _ _ h => .unsigned h
  | base _ ih => exact ih.of_rule 0 fun _ _ _ h => .base h
  | foldLeft hfold _ hop ho right ih =>
    exact ih.left right fun _ _ _ _ _ _ _ hop' hl hr => .fold hfold hl (hop'.trans hop) ho hr
  | foldRight hfold left hop ho _ ih =>
    exact .right left ih fun _ _ _ _ _ _ _ hop' hl hr => .fold hfold hl (hop'.trans hop) ho hr
  | exponentLeft _ hop right ih =>
    exact ih.left right fun _ _ _ _ _ _ _ hop' hl hr => .exponent hl (hop'.trans hop) hr
  | exponentRight left hop _ ih =>
    exact .right left ih fun _ _ _ _ _ _ _ hop' hl hr => .exponent hl (hop'.trans hop) hr
  | sign hop ho _ ih =>
    intro pre' us' post' hpre hus hpost
    obtain ⟨op', before, hop', hbefore, rfl⟩ := List.forall₂_cons_left_iff.1 hpre
    obtain ⟨e', n', h', halike, hle, hlt⟩ := ih hbefore hus hpost
    exact ⟨_, _, .sign (hop'.kind_eq ▸ hop) ho h', .unary hop' halike, by omega, by omega⟩
  | application hname hopen _ hclose ih =>
    intro pre' us' post' hpre hus hpost
    obtain ⟨name', ws, hname', hws, rfl⟩ := List.forall₂_cons_left_iff.1 hpre
    obtain ⟨open', before, hopen', hbefore, rfl⟩ := List.forall₂_cons_left_iff.1 hws
    obtain ⟨behind, close', hbehind, hclose', rfl⟩ := exists_of_forall₂_concat hpost
    obtain ⟨e', n', h', halike, hle, hlt⟩ := ih hbefore hus hbehind
    have hderives := Derives.application (hname'.kind_eq ▸ hname) (hopen'.kind_eq ▸ hopen) h'
      (hclose'.kind_eq ▸ hclose)
    exact ⟨_, n', by simpa using hderives, .application hname' halike, hle, hlt⟩
  | parentheses hopen _ hclose ih =>
    intro pre' us' post' hpre hus hpost
    obtain ⟨open', before, hopen', hbefore, rfl⟩ := List.forall₂_cons_left_iff.1 hpre
    obtain ⟨behind, close', hbehind, hclose', rfl⟩ := exists_of_forall₂_concat hpost
    obtain ⟨e', n', h', halike, hle, hlt⟩ := ih hbefore hus hbehind
    have hderives := Derives.parentheses (hopen'.kind_eq ▸ hopen) h' (hclose'.kind_eq ▸ hclose)
    exact ⟨e', n', by simpa using hderives, halike, hle, hlt⟩

/-! ### Texts -/

/-- A lexeme that is the longest in its place is so if less follows. -/
theorem Longest.of_append {kind : Kind} {lexeme front back : List Char}
    (h : Longest kind lexeme (front ++ back)) : Longest kind lexeme front := by
  refine ⟨h.spells, fun other longer hother hlonger => h.length_le other longer hother ?_⟩
  rw [← List.append_assoc]
  exact hlonger.trans (List.prefix_append _ _)

/-- A token that leads a text leads the beginning of the text. -/
theorem Token.Leads.of_append {token : Token} {offset : Nat} {blanks lexeme front back : List Char}
    (h : token.Leads offset blanks lexeme (front ++ back)) :
    token.Leads offset blanks lexeme front :=
  ⟨h.blank, h.longest.of_append, h.canonical, h.span_eq⟩

namespace Cut

variable {offset : Nat} {text : List Char} {ts us : List Token}

/-- A text may be cut in front of a token. -/
theorem exists_split {first : Token} (h : Cut offset text (ts ++ first :: us)) :
    ∃ front back, text = front ++ back ∧ Cut offset front ts ∧
      Cut (offset + utf8Length front) back (first :: us) ∧
      first.span.offset = offset + utf8Length front := by
  induction ts generalizing offset text with
  | nil =>
    cases h with
    | @token _ _ blanks lexeme after _ hleads hrest =>
      have hspan := hleads.span_eq
      have hfirst : first.Leads (offset + utf8Length blanks) [] lexeme after :=
        ⟨by simp, hleads.longest, hleads.canonical, hspan⟩
      rw [utf8Length_append, ← Nat.add_assoc] at hrest
      exact ⟨blanks, lexeme ++ after, List.append_assoc .., .blank hleads.blank,
        .token hfirst hrest, by rw [hspan]⟩
  | cons t ts ih =>
    cases h with
    | @token _ _ blanks lexeme after _ hleads hrest =>
      obtain ⟨front, back, rfl, hfront, hback, hfirst⟩ := ih hrest
      rw [Nat.add_assoc, ← utf8Length_append] at hback hfirst
      exact ⟨blanks ++ lexeme ++ front, back, (List.append_assoc ..).symm,
        .token hleads.of_append hfront, hback, hfirst⟩

/-- A text may be cut behind a token. -/
theorem exists_split_behind {last : Token} (h : Cut offset text (ts ++ last :: us)) :
    ∃ front back, text = front ++ back ∧ Cut offset front (ts ++ [last]) ∧
      Cut (offset + utf8Length front) back us ∧
      last.span.offset + last.span.length = offset + utf8Length front := by
  induction ts generalizing offset text with
  | nil =>
    cases h with
    | @token _ _ blanks lexeme after _ hleads hrest =>
      have hlast : last.Leads offset blanks lexeme ([] ++ after) := hleads
      have hcut := Cut.token hlast.of_append (.blank (by simp))
      rw [List.append_nil] at hcut
      refine ⟨blanks ++ lexeme, after, rfl, hcut, hrest, ?_⟩
      rw [hleads.span_eq, utf8Length_append, Nat.add_assoc]
  | cons t ts ih =>
    cases h with
    | @token _ _ blanks lexeme after _ hleads hrest =>
      obtain ⟨front, back, rfl, hfront, hback, hlast⟩ := ih hrest
      rw [Nat.add_assoc, ← utf8Length_append] at hback hlast
      exact ⟨blanks ++ lexeme ++ front, back, (List.append_assoc ..).symm,
        .token hleads.of_append hfront, hback, hlast⟩

/-- The tokens of a part of a text are those that it has by itself, further back. -/
theorem exists_ofText {text : String} (h : Cut offset text.toList ts) :
    ∃ us length, Stream.ofText text = ⟨us, .endOfInput length⟩ ∧
      ts = us.map (Token.moved offset) := by
  have hs := Stream.scanFrom_eq_iff_cut.2 ⟨h, rfl⟩
  rw [Stream.scanFrom_toList] at hs
  generalize Stream.ofText text = s at hs
  obtain ⟨us, stop⟩ := s
  obtain ⟨rfl, hstop⟩ := Stream.mk.inj hs
  cases stop with
  | endOfInput length => exact ⟨us, length, rfl, rfl⟩
  | failure error => cases hstop

end Cut

/-- The places that belong together when the text between two places is put in parentheses: each has
as many more bytes in front of it as it has parentheses. -/
def Shifted (place place' : Nat) (span span' : Span) : Prop :=
  span.Inside 0 place ∧ span' = span ∨ span.Inside place place' ∧ span' = span.moved 1 ∨
    place' ≤ span.offset ∧ span' = span.moved 2

/-- The part of a text from the first to the last of the tokens `us`, which stand between `pre` and
`post`, with the text in front of it and behind it. -/
structure Parts (text : String) (pre us post : List Token) (front inner back : String) : Prop where
  /-- The text consists of these three. -/
  text_eq : text = front ++ inner ++ back
  /-- The part begins with the first token. -/
  front_size : ∀ first ∈ us.head?, front.utf8ByteSize = first.span.offset
  /-- The part ends with the last token. -/
  inner_size : ∀ last ∈ us.getLast?,
    front.utf8ByteSize + inner.utf8ByteSize = last.span.offset + last.span.length
  front_tokens : Cut 0 front.toList pre
  inner_tokens : Cut front.utf8ByteSize inner.toList us
  back_tokens : Cut (front.utf8ByteSize + inner.utf8ByteSize) back.toList post

/-- Tokens in a row stand on a part of the text. -/
theorem exists_parts {text : String} {pre us post : List Token}
    (h : Cut 0 text.toList (pre ++ us ++ post)) (hne : us ≠ []) :
    ∃ front inner back, Parts text pre us post front inner back := by
  obtain ⟨first, us', rfl⟩ := List.exists_cons_of_ne_nil hne
  rw [List.append_assoc, List.cons_append] at h
  obtain ⟨front, rest, htext, hfront, hrest, hfirst⟩ := h.exists_split
  obtain ⟨most, last, hus⟩ := (List.eq_nil_or_concat' (first :: us')).resolve_left hne
  rw [← List.cons_append, hus, List.append_assoc] at hrest
  obtain ⟨inner, back, rfl, hinner, hback, hlast⟩ := hrest.exists_split_behind
  have hsize : ∀ chars : List Char, (String.ofList chars).utf8ByteSize = utf8Length chars := by
    intro chars
    rw [← utf8Length_toList, String.toList_ofList]
  refine ⟨.ofList front, .ofList inner, .ofList back, ?_, ?_, ?_, ?_, ?_, ?_⟩
  · rw [← String.toList_inj, htext]
    simp
  · rintro first' hfirst'
    obtain rfl := Option.some.inj hfirst'
    rw [hsize, hfirst, Nat.zero_add]
  · rintro last' hlast'
    rw [hus, List.getLast?_concat] at hlast'
    obtain rfl := Option.some.inj hlast'
    rw [hsize, hsize, hlast, Nat.zero_add]
  · rwa [String.toList_ofList]
  · rwa [hsize, String.toList_ofList, hus, ← Nat.zero_add (utf8Length front)]
  · rwa [hsize, hsize, String.toList_ofList, ← Nat.zero_add (utf8Length front)]

namespace Parts

variable {text front inner back : String} {pre us post : List Token}

/-- The tokens of the text with the part in parentheses. -/
theorem exists_ofText_enclosed (h : Parts text pre us post front inner back) :
    ∃ (pre' us' post' : List Token) (opening closing : Token) (length : Nat),
      opening.kind = .leftParen ∧ closing.kind = .rightParen ∧
      Stream.ofText (front ++ "(" ++ inner ++ ")" ++ back) =
        ⟨pre' ++ opening :: (us' ++ closing :: post'), .endOfInput length⟩ ∧
      let R := Shifted front.utf8ByteSize (front.utf8ByteSize + inner.utf8ByteSize)
      List.Forall₂ (Token.Alike R) pre pre' ∧ List.Forall₂ (Token.Alike R) us us' ∧
        List.Forall₂ (Token.Alike R) post post' := by
  obtain ⟨pre, _, hfront, rfl⟩ := h.front_tokens.exists_ofText
  obtain ⟨us, _, hinner, rfl⟩ := h.inner_tokens.exists_ofText
  obtain ⟨post, length, hback, rfl⟩ := h.back_tokens.exists_ofText
  have hinside : ∀ t ∈ pre, t.span.Inside 0 front.utf8ByteSize := by
    have hinside := (Stream.inside_ofText front).tokens
    rwa [hfront] at hinside
  have hinside' : ∀ t ∈ us, t.span.Inside 0 inner.utf8ByteSize := by
    have hinside := (Stream.inside_ofText inner).tokens
    rwa [hinner] at hinside
  refine ⟨pre, us.map (Token.moved (front.utf8ByteSize + 1)),
    post.map (Token.moved (front.utf8ByteSize + 1 + inner.utf8ByteSize + 1)),
    .ofKind .leftParen ⟨front.utf8ByteSize, 1⟩,
    .ofKind .rightParen ⟨front.utf8ByteSize + 1 + inner.utf8ByteSize, 1⟩,
    length + (front.utf8ByteSize + 1 + inner.utf8ByteSize + 1), rfl, rfl, ?_, ?_, ?_, ?_⟩
  · rw [Stream.ofText_enclosed hinner, hfront, hback]
    simp [Stream.andThen, Stream.behind, Stream.moved, Stop.moved]
  · rw [List.forall₂_map_left_iff]
    exact List.forall₂_same.2 fun t ht => ⟨rfl, rfl, .inl ⟨hinside t ht, rfl⟩⟩
  · rw [List.forall₂_map_left_iff, List.forall₂_map_right_iff]
    refine List.forall₂_same.2 fun t ht => ⟨rfl, rfl, .inr (.inl ⟨?_, rfl⟩)⟩
    obtain ⟨-, hle⟩ := hinside' t ht
    exact ⟨Nat.le_add_left _ _, by simp only [Token.moved, Span.moved]; omega⟩
  · rw [List.forall₂_map_left_iff, List.forall₂_map_right_iff]
    refine List.forall₂_same.2 fun t ht => ⟨rfl, rfl, .inr (.inr ⟨Nat.le_add_left _ _, ?_⟩)⟩
    simp only [Token.moved, Span.moved, Span.mk.injEq, and_true]
    omega

end Parts

/-- What was read as the tree `e` before is read again: the tree is the same but for its places, and
the value is the same, or it is missing since an integer is divided by zero at the same node. -/
def ReadsAgain (R : Span → Span → Prop) (e : Expr) (text text' : String) : Prop :=
  ∃ e', (parse text').result = .ok e' ∧ e.Alike R e' ∧
    ((∃ x, valueOf text = .ok x ∧ valueOf text' = .ok x) ∨
      ∃ (k : Nat) (t u : Token), e.nodes[k]? = some (.binary, t) ∧
        e'.nodes[k]? = some (.binary, u) ∧ t.kind = .operator .floorDivide ∧
        valueOf text = .error (.value (.divisionByZero t.span)) ∧
        valueOf text' = .error (.value (.divisionByZero u.span)))

/-- Texts with trees that are alike have the same value. -/
theorem Expr.Alike.readsAgain {R : Span → Span → Prop} {e e' : Expr} {text text' : String}
    (halike : e.Alike R e') (h : (parse text).result = .ok e)
    (h' : (parse text').result = .ok e') : ReadsAgain R e text text' := by
  refine ⟨e', h', halike, ?_⟩
  rw [valueOf_of_parse_eq_ok h, valueOf_of_parse_eq_ok h']
  rcases halike.value_cases with
    ⟨x, hx, hx'⟩ | ⟨k, shape, t, u, ht, hu, ⟨hmisapplied, -⟩ | ⟨rfl, hkind, hzero, hzero'⟩⟩
  · exact .inl ⟨x, by rw [hx]; rfl, by rw [hx']; rfl⟩
  · -- every node of a tree that is read has a meaning
    rcases (evaluable_of_parse_eq_ok h).value_cases with ⟨x, hx⟩ | ⟨token, -, -, hzero⟩
    · cases hmisapplied.symm.trans hx
    · cases hmisapplied.symm.trans hzero
  · exact .inr ⟨k, t, u, ht, hu, hkind, by rw [hzero]; rfl, by rw [hzero']; rfl⟩

/-- Parentheses around the part of a text from the first to the last of the tokens `us` change
nothing. The text, whose derivation nests `n` factors, is read as the same tree `e` with the same
value, unless it nests as many factors as it may, so that one factor more is too many. -/
def Redundant (text : String) (e : Expr) (n : Nat) (us : List Token) : Prop :=
  ∃ first last front inner back, us.head? = some first ∧ us.getLast? = some last ∧
    text = front ++ inner ++ back ∧ front.utf8ByteSize = first.span.offset ∧
    front.utf8ByteSize + inner.utf8ByteSize = last.span.offset + last.span.length ∧
    let text' := front ++ "(" ++ inner ++ ")" ++ back
    ReadsAgain (Shifted front.utf8ByteSize (front.utf8ByteSize + inner.utf8ByteSize)) e text text' ∨
      n = depthLimit ∧
        (∃ ts length e', Stream.ofText text' = ⟨ts, .endOfInput length⟩ ∧
          Derives .complexExpr ts e' (depthLimit + 1)) ∧
        ∃ span, (parse text').result = .error (.grammar (.tooDeep span))

/-- Whatever subtree an expression has, it is derived from some of the tokens, with parentheses
around them or without, and wherever it is, parentheses around these tokens are redundant. -/
theorem parse_enclosed {text : String} {e e' : Expr} {path : List Bool}
    (h : (parse text).result = .ok e) (hpath : e.subtree? path = some e') :
    ∃ ts length, Stream.ofText text = ⟨ts, .endOfInput length⟩ ∧
      (∃ n pre us post, Occurs .complexExpr ts e n path pre us post e') ∧
      ∀ n pre us post, Occurs .complexExpr ts e n path pre us post e' → Redundant text e n us := by
  obtain ⟨ts, length, n, hs, hderives, -, hheight⟩ := exists_derives_of_parse_eq_ok h
  have hcut := (Stream.scanFrom_eq_iff_cut.1 hs).1
  refine ⟨ts, length, hs, ⟨n, hderives.exists_occurs hpath⟩, fun n pre us post hoccurs => ?_⟩
  obtain ⟨_, _, hpart⟩ := hoccurs.exists_derives
  have hne := hpart.ne_nil
  rw [hoccurs.append_eq] at hcut
  obtain ⟨front, inner, back, hparts⟩ := exists_parts hcut hne
  have hfirst := List.head?_eq_some_head hne
  have hlast := List.getLast?_eq_some_getLast hne
  refine ⟨us.head hne, us.getLast hne, front, inner, back, hfirst, hlast, hparts.text_eq,
    hparts.front_size _ hfirst, hparts.inner_size _ hlast, ?_⟩
  obtain ⟨pre', us', post', opening, closing, length', hopening, hclosing, hs', hpre, hus, hpost⟩ :=
    hparts.exists_ofText_enclosed
  obtain ⟨e'', n', hderives', halike, hle, hlt⟩ :=
    hoccurs.enclosed hopening hclosing hpre hus hpost
  rcases parse_of_derives hs' hderives' with ⟨-, -, hparse⟩ | ⟨hbeyond, hdeep⟩
  · exact .inl (halike.readsAgain h hparse)
  -- the tree is as high as before, so that the factors are too many
  · rw [← halike.height_eq] at hbeyond
    have hn : n ≤ depthLimit := by
      rcases parse_of_derives hs hoccurs.derives with ⟨hn, -⟩ | ⟨-, span, herror⟩
      · exact hn
      · cases h.symm.trans herror
    obtain rfl : n' = depthLimit + 1 := by omega
    exact .inr ⟨by omega, ⟨_, length', e'', hs', hderives'⟩, hdeep⟩

/-- The divisor of an integer division by zero may get another pair of parentheses. -/
theorem parse_enclosed_divisor :
    let divide : Token := ⟨.operator .floorDivide, "//", ⟨2, 2⟩⟩
    let minus : Token := ⟨.operator .minus, "-", ⟨8, 1⟩⟩
    let divisor : Expr :=
      .binary minus (.literal ⟨.number, "2.0", ⟨6, 1⟩⟩) (.literal ⟨.number, "2.0", ⟨10, 1⟩⟩)
    let e : Expr := .binary divide (.literal ⟨.number, "1.0", ⟨0, 1⟩⟩) divisor
    (parse "1 // (2 - 2)").result = .ok e ∧ e.subtree? [true] = some divisor ∧
      ∃ ts length, Stream.ofText "1 // (2 - 2)" = ⟨ts, .endOfInput length⟩ ∧
        (∃ n pre us post, Occurs .complexExpr ts e n [true] pre us post divisor) ∧
        ∀ n pre us post, Occurs .complexExpr ts e n [true] pre us post divisor →
          Redundant "1 // (2 - 2)" e n us := by
  intro divide minus divisor e
  have h : (parse "1 // (2 - 2)").result = .ok e := by decide +kernel
  have hpath : e.subtree? [true] = some divisor := rfl
  exact ⟨h, hpath, parse_enclosed h hpath⟩

end Reckoner
