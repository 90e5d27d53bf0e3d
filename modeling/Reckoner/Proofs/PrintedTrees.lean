import Reckoner.Proofs.Diagnostics
import Reckoner.Proofs.Likeness
import Reckoner.Proofs.Listings

/-!
# The printed tree tells what the tree is

A tree is printed with the operator or the function in front of its operands. The text of a token
has no blank and no parenthesis in it, so that the words of the text are the tokens, and behind each
operand either a blank stands, for another operand, or the closing parenthesis. Nothing else tells
a sign from an operator between operands. So two trees with one text are the same tree, but for
their places, and but for the constant π in the place of its digits.

## Main definitions

* `Genuine shape t`: a token of the scanner in a node that the evaluator knows;
* `PiForNumber e e'`: one of two leaves is π, and the other one a number with the same text;
* `Expr.ReadOff e`: no text begins both with the tree and with another one.

## Main results

* `Genuine.operation_inj`: the word behind an opening parenthesis tells the token of an operation;
* `Expr.operandsText_inj`: operands can be told apart, and so can what stands behind the last one;
* `Expr.Genuine.readOff`: a tree can be read off every text that begins with it;
* `render_eq_iff`: which trees have one text, and what this says about their values.
-/

namespace Reckoner

/-- The token is one that the scanner makes, in a node of a form that the evaluator knows. -/
structure Genuine (shape : Shape) (t : Token) : Prop where
  /-- The evaluator knows what the node means. -/
  meaningful : Meaningful shape t
  /-- The token has the text of one of its lexemes. -/
  canonical : ∃ lexeme, Spells t.kind lexeme ∧ CanonicalText t.kind lexeme t.text

/-- The tokens of all nodes are genuine. -/
def Expr.Genuine (e : Expr) : Prop :=
  ∀ node ∈ e.nodes, Reckoner.Genuine node.1 node.2

/-- The trees are leaves with the same text, one for the constant π and one for a number. -/
inductive PiForNumber : Expr → Expr → Prop
  | pi {t u : Token} (ht : t.kind = .pi) (hu : u.kind = .number) (htext : t.text = u.text) :
      PiForNumber (.literal t) (.literal u)
  | number {t u : Token} (ht : t.kind = .number) (hu : u.kind = .pi) (htext : t.text = u.text) :
      PiForNumber (.literal t) (.literal u)

namespace PiForNumber

variable {e e' : Expr}

theorem length_nodes_eq (h : PiForNumber e e') : e.nodes.length = e'.nodes.length := by
  cases h with
  | pi | number => rfl

theorem concurAt (h : PiForNumber e e') : ConcurAt e.nodes e'.nodes e.value e'.value := by
  cases h with
  | pi _ _ htext | number _ _ htext => exact .head (Token.concur_literal htext)

end PiForNumber

/-- Whether a character stands in the words of a printed tree. -/
def inWord (c : Char) : Bool :=
  c != ' ' && c != '(' && c != ')'

theorem inWord_of_isNumeric {c : Char} (h : IsNumeric c) : inWord c := by
  have hall : [' ', '(', ')'].all fun d =>
      ¬d.isDigit ∧ d ∉ ['.', '-', 'e', 'i', 'n', 'f', 'N', 'a'] := by decide
  have hne : ∀ d ∈ [' ', '(', ')'], c ≠ d := by
    rintro d hd rfl
    obtain ⟨hdigit, hmark⟩ := of_decide_eq_true (List.all_eq_true.1 hall c hd)
    exact h.elim hdigit hmark
  simp [inWord, hne]

/-! ### Words -/

namespace Genuine

variable {shape shape' : Shape} {t u : Token} {xs ys : List Char}

theorem mem_vocabulary (h : Genuine shape t) (hshape : shape ≠ .literal) :
    t.kind ∈ Kind.vocabulary ∧ t.kind ≠ .pi ∧ t.kind.isParenthesis = false := by
  cases h.meaningful with
  | literal => exact absurd rfl hshape
  | unary hkind | binary hkind | application hkind =>
    rw [hkind]
    exact ⟨Kind.mem_vocabulary nofun nofun, nofun, rfl⟩

/-- Operators and functions have the symbol of their kind for a text. -/
theorem text_eq (h : Genuine shape t) (hshape : shape ≠ .literal) : t.text = t.kind.symbol := by
  obtain ⟨lexeme, -, hcanonical⟩ := h.canonical
  obtain ⟨hmem, hpi, -⟩ := h.mem_vocabulary hshape
  rw [(Lexeme.canonicalText_iff hmem lexeme t.text).1 hcanonical, Lexeme.textOfKind]
  exact hpi

/-- No blank and no parenthesis stands in the text of a token. -/
theorem inWord_of_mem (h : Genuine shape t) : ∀ c ∈ t.text.toList, inWord c := by
  by_cases hshape : shape = .literal
  · subst hshape
    obtain ⟨lexeme, -, hcanonical⟩ := h.canonical
    intro c hc
    cases h.meaningful with
    | literal hkind =>
      obtain ⟨x, htext⟩ : ∃ x, t.text = Number.text x := by
        rcases hkind with hkind | hkind
        · rw [hkind] at hcanonical
          obtain ⟨x, -, htext⟩ := hcanonical
          exact ⟨x, htext⟩
        · rw [hkind] at hcanonical
          exact ⟨piValue, hcanonical⟩
      rw [htext] at hc
      exact inWord_of_isNumeric (Number.isNumeric_text x c hc)
  · obtain ⟨hmem, -, hparenthesis⟩ := h.mem_vocabulary hshape
    have hall : Kind.vocabulary.all fun kind =>
        kind.isParenthesis ∨ kind.symbol.toList.all inWord := by decide +kernel
    have hsymbol := of_decide_eq_true (List.all_eq_true.1 hall _ hmem)
    rw [h.text_eq hshape]
    exact List.all_eq_true.1 (hsymbol.resolve_left (by simp [hparenthesis]))

/-- The text of a leaf is not empty. -/
theorem exists_cons (h : Genuine .literal t) : ∃ c chars, t.text.toList = c :: chars := by
  cases h.meaningful with
  | literal _ hread =>
    refine List.exists_cons_of_ne_nil fun hempty => ?_
    rw [Number.read?, hempty] at hread
    exact absurd hread (by decide)

/-- The text of a leaf is no operation. -/
theorem append_ne_operation (h : Genuine .literal t) : t.text.toList ++ xs ≠ '(' :: ys := by
  obtain ⟨c, chars, hchars⟩ := h.exists_cons
  have hc : inWord c := h.inWord_of_mem c (hchars ▸ .head _)
  rw [hchars]
  intro heq
  obtain ⟨rfl, -⟩ := List.cons.inj heq
  exact absurd hc (by decide)

/-- Leaves with one text are the same, but for π in the place of a number. -/
theorem alikeBut_literal (ht : Genuine .literal t) (hu : Genuine .literal u)
    (htext : t.text = u.text) :
    (Expr.literal t).AlikeBut PiForNumber (fun _ _ => True) (.literal u) := by
  cases ht.meaningful with
  | literal ht =>
    cases hu.meaningful with
    | literal hu =>
      rcases ht with ht | ht
      · rcases hu with hu | hu
        · exact .literal ⟨ht.trans hu.symm, htext, trivial⟩
        · exact .hole (.number ht hu htext)
      · rcases hu with hu | hu
        · exact .hole (.pi ht hu htext)
        · exact .literal ⟨ht.trans hu.symm, htext, trivial⟩

/-- The first word of an operation tells its token. -/
theorem operation_inj (ht : Genuine shape t) (hu : Genuine shape' u) (hshape : shape ≠ .literal)
    (hshape' : shape' ≠ .literal) (hxs : ∀ c rest, xs = c :: rest → ¬inWord c)
    (hys : ∀ c rest, ys = c :: rest → ¬inWord c)
    (h : t.text.toList ++ xs = u.text.toList ++ ys) : t.Alike (fun _ _ => True) u ∧ xs = ys := by
  obtain ⟨hchars, hrest⟩ := MaximalRun.unique ⟨ht.inWord_of_mem, hxs⟩ ⟨hu.inWord_of_mem, hys⟩ h
  have hsymbol : t.kind.symbol.toList = u.kind.symbol.toList := by
    rw [← ht.text_eq hshape, ← hu.text_eq hshape', hchars]
  have hkind := Kind.eq_of_symbol_eq (ht.mem_vocabulary hshape).1 (hu.mem_vocabulary hshape').1
    hsymbol
  exact ⟨⟨hkind, String.toList_inj.1 hchars, trivial⟩, hrest⟩

/-- No operator is a function. -/
theorem kind_ne (ht : Genuine .unary t) (hu : Genuine .application u) : t.kind ≠ u.kind := by
  cases ht.meaningful with
  | unary hkind =>
    cases hu.meaningful with
    | application hkind' =>
      rw [hkind, hkind']
      exact nofun

end Genuine

/-! ### Trees -/

namespace Expr

/-- What is printed for operands, each with a blank in front, with the closing parenthesis and what
stands behind it. -/
def operandsText (xs : List Char) : List Expr → List Char
  | [] => ')' :: xs
  | e :: es => ' ' :: (e.render.toList ++ operandsText xs es)

theorem render_append {e : Expr} (h : e.shape ≠ .literal) (xs : List Char) :
    e.render.toList ++ xs = '(' :: (e.token.text.toList ++ operandsText xs e.operands) := by
  cases e with
  | literal t => exact absurd rfl h
  | unary | binary | application =>
    simp only [render, String.toList_append, List.append_assoc]
    rfl

/-- A word ends where operands begin, or where there are none. -/
theorem not_inWord_operandsText {xs : List Char} {es : List Expr} (c : Char) (rest : List Char)
    (h : operandsText xs es = c :: rest) : ¬inWord c := by
  cases es with
  | nil => exact (List.cons.inj h).1 ▸ by decide
  | cons => exact (List.cons.inj h).1 ▸ by decide

theorem height_lt_of_mem_operands {e o : Expr} (h : o ∈ e.operands) : o.height < e.height := by
  cases e with
  | literal => cases h
  | unary | application =>
    obtain rfl := List.mem_singleton.1 h
    exact Nat.lt_succ_self _
  | binary op l r =>
    rw [height]
    simp only [operands, List.mem_cons, List.not_mem_nil, or_false] at h
    rcases h with rfl | rfl <;> omega

namespace Genuine

variable {e e' : Expr}

theorem token (h : e.Genuine) : Reckoner.Genuine e.shape e.token := by
  cases e with
  | literal | unary | binary | application => exact h _ (.head _)

theorem operands (h : e.Genuine) : ∀ o ∈ e.operands, o.Genuine := by
  intro o ho node hnode
  refine h node ?_
  cases e with
  | literal => cases ho
  | unary | application =>
    obtain rfl := List.mem_singleton.1 ho
    exact .tail _ hnode
  | binary op l r =>
    simp only [Expr.operands, List.mem_cons, List.not_mem_nil, or_false] at ho
    refine .tail _ (List.mem_append.2 ?_)
    rcases ho with rfl | rfl
    · exact .inl hnode
    · exact .inr hnode

/-- Operations with the same token, and with as many operands that are the same, are the same: the
number of operands tells signs from operators between operands. -/
theorem alikeBut_of_operands {R : Span → Span → Prop} {H : Expr → Expr → Prop} (he : e.Genuine)
    (he' : e'.Genuine) (hshape : e.shape ≠ .literal) (hshape' : e'.shape ≠ .literal)
    (htoken : e.token.Alike R e'.token)
    (hoperands : List.Forall₂ (Expr.AlikeBut H R) e.operands e'.operands) :
    e.AlikeBut H R e' := by
  have hlength := hoperands.length_eq
  cases e with
  | literal => exact absurd rfl hshape
  | unary t a =>
    cases e' with
    | literal => exact absurd rfl hshape'
    | unary u b => exact .unary htoken (List.forall₂_cons.1 hoperands).1
    | binary => cases hlength
    | application => exact absurd htoken.kind_eq (he.token.kind_ne he'.token)
  | binary t l r =>
    cases e' with
    | literal => exact absurd rfl hshape'
    | binary u l' r' =>
      obtain ⟨hleft, hrest⟩ := List.forall₂_cons.1 hoperands
      exact .binary htoken hleft (List.forall₂_cons.1 hrest).1
    | unary | application => cases hlength
  | application t a =>
    cases e' with
    | literal => exact absurd rfl hshape'
    | unary => exact absurd htoken.kind_eq.symm (he'.token.kind_ne he.token)
    | binary => cases hlength
    | application u b => exact .application htoken (List.forall₂_cons.1 hoperands).1

end Genuine

/-- The tree is read off any text that begins with it, up to its places and to π in the place of a
number. -/
def ReadOff (e : Expr) : Prop :=
  ∀ ⦃e' : Expr⦄ ⦃xs ys : List Char⦄, e'.Genuine → (∀ c rest, xs = c :: rest → ¬inWord c) →
    (∀ c rest, ys = c :: rest → ¬inWord c) → e.render.toList ++ xs = e'.render.toList ++ ys →
    e.AlikeBut PiForNumber (fun _ _ => True) e' ∧ xs = ys

/-- Operands are read off one after another. Behind each a blank announces the next one. -/
theorem operandsText_inj {es es' : List Expr} {xs ys : List Char} (hes : ∀ e ∈ es, e.ReadOff)
    (hes' : ∀ e ∈ es', e.Genuine) (h : operandsText xs es = operandsText ys es') :
    List.Forall₂ (AlikeBut PiForNumber fun _ _ => True) es es' ∧ xs = ys := by
  induction es generalizing es' with
  | nil =>
    cases es' with
    | nil => exact ⟨.nil, (List.cons.inj h).2⟩
    | cons e' es' => exact absurd (List.cons.inj h).1 (by decide)
  | cons e es ih =>
    cases es' with
    | nil => exact absurd (List.cons.inj h).1 (by decide)
    | cons e' es' =>
      obtain ⟨he, hmore⟩ := hes e (.head _) (hes' e' (.head _)) not_inWord_operandsText
        not_inWord_operandsText (List.cons.inj h).2
      obtain ⟨hrest, hend⟩ := ih (fun o ho => hes o (.tail _ ho)) (fun o ho => hes' o (.tail _ ho))
        hmore
      exact ⟨.cons he hrest, hend⟩

/-- Every tree of genuine tokens is read off its text. -/
theorem Genuine.readOff {e : Expr} (he : e.Genuine) : e.ReadOff := by
  induction hk : e.height using Nat.strongRecOn generalizing e with
  | ind k ih =>
    intro e' xs ys he' hxs hys h
    by_cases hshape : e.shape = .literal
    · cases e with
      | unary | binary | application => cases hshape
      | literal t =>
        have ht : Reckoner.Genuine .literal t := he.token
        by_cases hshape' : e'.shape = .literal
        · cases e' with
          | unary | binary | application => cases hshape'
          | literal u =>
            have hu : Reckoner.Genuine .literal u := he'.token
            obtain ⟨hchars, hrest⟩ :=
              MaximalRun.unique ⟨ht.inWord_of_mem, hxs⟩ ⟨hu.inWord_of_mem, hys⟩ h
            exact ⟨ht.alikeBut_literal hu (String.toList_inj.1 hchars), hrest⟩
        · rw [render_append hshape'] at h
          exact absurd h ht.append_ne_operation
    · rw [render_append hshape] at h
      by_cases hshape' : e'.shape = .literal
      · cases e' with
        | unary | binary | application => cases hshape'
        | literal u => exact absurd h.symm he'.token.append_ne_operation
      · rw [render_append hshape'] at h
        obtain ⟨htoken, hrest⟩ := he.token.operation_inj he'.token hshape hshape'
          not_inWord_operandsText not_inWord_operandsText (List.cons.inj h).2
        have hread : ∀ o ∈ e.operands, o.ReadOff := fun o ho =>
          ih _ (hk ▸ height_lt_of_mem_operands ho) (he.operands o ho) rfl
        obtain ⟨hoperands, hend⟩ := operandsText_inj hread he'.operands hrest
        exact ⟨he.alikeBut_of_operands he' hshape hshape' htoken hoperands, hend⟩

/-- Trees that are the same but for their places, and for π in the place of a number, have one
text. -/
theorem AlikeBut.render_eq {e e' : Expr} (h : e.AlikeBut PiForNumber (fun _ _ => True) e') :
    e.render = e'.render := by
  induction h with
  | hole h =>
    cases h with
    | pi _ _ htext | number _ _ htext => exact htext
  | literal h => exact h.text_eq
  | unary h _ ih | application h _ ih => rw [render, render, h.text_eq, ih]
  | binary h _ _ ihl ihr => rw [render, render, h.text_eq, ihl, ihr]

end Expr

/-- The tree of a text holds tokens of the scanner in nodes that the evaluator knows. -/
theorem genuine_of_parse_eq_ok {text : String} {e : Expr} (h : (parse text).result = .ok e) :
    e.Genuine := by
  rintro ⟨shape, t⟩ hmem
  obtain ⟨_, _, lexeme, _, -, hleads⟩ := Stream.exists_leads (mem_tokens_of_parse_eq_ok h hmem)
  exact ⟨evaluable_of_parse_eq_ok h _ hmem, lexeme, hleads.longest.spells, hleads.canonical⟩

/-- Two expressions have one printed tree if and only if their trees are the same, but for the
places of the tokens, and but for leaves of which one is π and the other one a number with the same
text. Then both have the same value, or neither has one, since both divide an integer by zero at the
same node. -/
theorem render_eq_iff {text text' : String} {e e' : Expr} (h : (parse text).result = .ok e)
    (h' : (parse text').result = .ok e') :
    (e.render = e'.render ↔ e.AlikeBut PiForNumber (fun _ _ => True) e') ∧
    (e.render = e'.render →
      (∃ x, e.value = .ok x ∧ e'.value = .ok x) ∨
        ∃ (k : Nat) (t u : Token), e.nodes[k]? = some (.binary, t) ∧
          e'.nodes[k]? = some (.binary, u) ∧ t.kind = .operator .floorDivide ∧
          e.value = .error (.divisionByZero t.span) ∧
          e'.value = .error (.divisionByZero u.span)) := by
  have halike : e.render = e'.render → e.AlikeBut PiForNumber (fun _ _ => True) e' := by
    intro heq
    have hend : ∀ c rest, [] = c :: rest → ¬inWord c := by simp
    have htext : e.render.toList ++ [] = e'.render.toList ++ [] := by rw [heq]
    exact ((genuine_of_parse_eq_ok h).readOff (genuine_of_parse_eq_ok h') hend hend htext).1
  refine ⟨⟨halike, Expr.AlikeBut.render_eq⟩, fun heq => ?_⟩
  have hconcur := (halike heq).concurAt fun a b hab => ⟨hab.length_nodes_eq, hab.concurAt⟩
  rcases hconcur.cases with hvalue | ⟨k, shape, t, u, ht, hu, hmisapplied | hdivision⟩
  · exact .inl hvalue
  · -- the evaluator knows all nodes of a tree that was read
    rcases (evaluable_of_parse_eq_ok h).value_cases with ⟨x, hx⟩ | ⟨_, -, -, herror⟩
    · cases hx.symm.trans hmisapplied.1
    · cases herror.symm.trans hmisapplied.1
  · obtain ⟨rfl, hdivision⟩ := hdivision
    exact .inr ⟨k, t, u, ht, hu, hdivision⟩

/-- The tree of an expression with π and that of one with its digits have one text, and differ in
the kind and the span of one leaf, and in the span of an operator. -/
theorem render_eq_iff_pi :
    let e : Expr := .binary ⟨.operator .floorDivide, "//", ⟨3, 2⟩⟩
      (.literal ⟨.pi, "3.141592653589793", ⟨0, 2⟩⟩) (.literal ⟨.number, "0.0", ⟨6, 1⟩⟩)
    let e' : Expr := .binary ⟨.operator .floorDivide, "//", ⟨17, 2⟩⟩
      (.literal ⟨.number, "3.141592653589793", ⟨0, 17⟩⟩) (.literal ⟨.number, "0.0", ⟨19, 2⟩⟩)
    (parse "pi // 0").result = .ok e ∧ (parse "3.141592653589793//0.").result = .ok e' ∧
      e.render = e'.render ∧ e.AlikeBut PiForNumber (fun _ _ => True) e' := by
  intro e e'
  have h : (parse "pi // 0").result = .ok e := by decide +kernel
  have h' : (parse "3.141592653589793//0.").result = .ok e' := by decide +kernel
  have hrender : e.render = e'.render := rfl
  exact ⟨h, h', hrender, (render_eq_iff h h').1.1 hrender⟩

end Reckoner
