import Reckoner.Proofs.Acceptance
import Reckoner.Proofs.Likeness
import Reckoner.Proofs.RoundTrip
import Reckoner.Proofs.Seams

/-!
# Printing with all parentheses

A tree can be printed with its operators between their operands and with parentheses around every
operation. However many blanks stand between the tokens, also if there are none, the text is read as
this tree again, unless the tree is too high.

## Main definitions

* `Expr.bracketed`: the tokens of a tree, with parentheses around every operation;
* `Spaced pieces text`: the text is made of these pieces and of blanks around them;
* `Expr.Printable`: each token of a tree has a place and a text that it has in an expression.

## Main results

* `Expr.Printable.exists_derives`: the tokens that are printed are derived with the tree;
* `Stream.scanFrom_spaced`: the text that is printed has these tokens;
* `parse_printed`: it is read as the tree.
-/

namespace Reckoner

/-- How a token of a kind is printed, if all tokens of the kind are printed in the same way. -/
def Kind.spelling : Kind → List Char
  | pi => "pi".toList
  | kind => kind.symbol.toList

/-- How a token is printed. -/
def Token.lexeme (t : Token) : List Char :=
  match t.kind with
  | .number => t.text.toList
  | kind => kind.spelling

/-- Tokens between parentheses. -/
def enclose (ts : List Token) : List Token :=
  .ofKind .leftParen ⟨0, 0⟩ :: (ts ++ [.ofKind .rightParen ⟨0, 0⟩])

/-- The tokens of a tree with its operators between their operands, with parentheses around every
operation and around the argument of every function. -/
def Expr.bracketed : Expr → List Token
  | literal t => [t]
  | unary op e => enclose (op :: e.bracketed)
  | binary op l r => enclose (l.bracketed ++ op :: r.bracketed)
  | application name e => name :: enclose e.bracketed

/-- The text is made of the pieces, with any number of blanks around each. -/
inductive Spaced : List (List Char) → List Char → Prop
  /-- No piece is left. -/
  | nil {blanks : List Char} (h : ∀ c ∈ blanks, isBlank c) : Spaced [] blanks
  /-- A piece comes next. -/
  | cons {blanks piece text : List Char} {pieces : List (List Char)}
      (h : ∀ c ∈ blanks, isBlank c) (hrest : Spaced pieces text) :
      Spaced (piece :: pieces) (blanks ++ piece ++ text)

/-- The text of a finite number that is written without a sign and without an exponent. -/
def PlainText (text : String) : Prop :=
  ∃ x negative units, Binary64.parts x = .finite negative units ∧ text = Number.text x ∧
    '-' ∉ text.toList ∧ 'e' ∉ text.toList

/-- Each token of the tree is one that an expression may have in this place, with a text that it may
have there. -/
inductive Expr.Printable : Expr → Prop
  /-- A number. -/
  | number {t : Token} (hkind : t.kind = .number) (htext : PlainText t.text) :
      Printable (.literal t)
  /-- The constant. -/
  | pi {t : Token} (hkind : t.kind = .pi) (htext : t.text = Lexeme.textOfKind .pi) :
      Printable (.literal t)
  /-- A sign in front of an operand. -/
  | unary {op : Token} {o : Operator} {e : Expr} (hop : op.kind = .operator o)
      (ho : o ∈ [.plus, .minus, .flip]) (htext : op.text = o.symbol) (operand : Printable e) :
      Printable (.unary op e)
  /-- An operator between two operands. -/
  | binary {op : Token} {o : Operator} {l r : Expr} (hop : op.kind = .operator o) (ho : o ≠ .flip)
      (htext : op.text = o.symbol) (left : Printable l) (right : Printable r) :
      Printable (.binary op l r)
  /-- A function in front of its argument. -/
  | application {name : Token} {f : Function} {e : Expr} (hname : name.kind = .function f)
      (htext : name.text = f.symbol) (argument : Printable e) : Printable (.application name e)

/-! ### The derivation -/

/-- Every operator that stands between operands, but for that of powers, belongs to a level. -/
theorem Operator.exists_fold {o : Operator} (hflip : o ≠ .flip) (hpower : o ≠ .power) :
    ∃ (loose tight : Nonterminal) (ops : List Operator), loose.fold? = some (ops, tight) ∧
      o ∈ ops ∧ (loose ≠ .power ∧ loose ≠ .atom) ∧ tight ≠ .power ∧ tight ≠ .atom := by
  cases o with
  | flip => exact absurd rfl hflip
  | power => exact absurd rfl hpower
  | or => exact ⟨.complexExpr, _, _, rfl, by decide⟩
  | xor => exact ⟨.xorExpr, _, _, rfl, by decide⟩
  | and => exact ⟨.andExpr, _, _, rfl, by decide⟩
  | leftShift | rightShift => exact ⟨.shiftExpr, _, _, rfl, by decide⟩
  | plus | minus => exact ⟨.arithExpr, _, _, rfl, by decide⟩
  | times | divide | modulo | floorDivide => exact ⟨.term, _, _, rfl, by decide⟩

namespace Derives

/-- An operator between two atoms makes an expression of them. -/
theorem exists_operation {o : Operator} {op : Token} {ts us : List Token} {l r : Expr} {m n : Nat}
    (hl : Derives .atom ts l m) (hop : op.kind = .operator o) (ho : o ≠ .flip)
    (hr : Derives .atom us r n) :
    ∃ k, Derives .complexExpr (ts ++ op :: us) (.binary op l r) k ∧ k ≤ max m n + 2 := by
  have hleft : Derives .factor ts l (m + 1) := .unsigned (.base hl)
  have hright : Derives .factor us r (n + 1) := .unsigned (.base hr)
  by_cases hpower : o = .power
  · subst hpower
    have hfactor : Derives .factor (ts ++ op :: us) (.binary op l r) (max m (n + 1) + 1) :=
      .unsigned (.exponent hl hop hright)
    exact ⟨_, hfactor.of_factor (by decide) (by decide), by omega⟩
  · obtain ⟨loose, tight, ops, hfold, hmem, ⟨hne, hne'⟩, htight, htight'⟩ := o.exists_fold ho hpower
    have hoperation := Derives.fold hfold (hleft.of_factor hne hne') hop hmem
      (hright.of_factor htight htight')
    exact ⟨_, hoperation.toComplexExpr hne hne', by omega⟩

end Derives

/-- The tokens that are printed are derived with the tree, with two factors at most for every
operation on a path. -/
theorem Expr.Printable.exists_derives {e : Expr} (h : e.Printable) :
    ∃ n, Derives .atom e.bracketed e n ∧ n ≤ 2 * e.height := by
  induction h with
  | number hkind => exact ⟨0, .literal (.inl hkind), Nat.zero_le _⟩
  | pi hkind => exact ⟨0, .literal (.inr hkind), Nat.zero_le _⟩
  | unary hop ho _ _ ih =>
    obtain ⟨n, hderives, hn⟩ := ih
    -- the operand is a factor, and with its sign another one
    have hfactor := Derives.sign hop ho (.unsigned (.base hderives))
    refine ⟨n + 1 + 1, .parentheses rfl (hfactor.of_factor (by decide) (by decide)) rfl, ?_⟩
    rw [height]
    omega
  | binary hop ho _ _ _ ihl ihr =>
    obtain ⟨m, hl, hm⟩ := ihl
    obtain ⟨n, hr, hn⟩ := ihr
    obtain ⟨k, hderives, hk⟩ := hl.exists_operation hop ho hr
    refine ⟨k, .parentheses rfl hderives rfl, ?_⟩
    rw [height]
    omega
  | application hname _ _ ih =>
    obtain ⟨n, hderives, hn⟩ := ih
    have hfactor : Derives .factor _ _ (n + 1) := .unsigned (.base hderives)
    refine ⟨n + 1, .application hname rfl (hfactor.of_factor (by decide) (by decide)) rfl, ?_⟩
    rw [height]
    omega

/-! ### The lexemes -/

/-- The token is printed as one of the lexemes of its kind, and its text is the one that this lexeme
has. -/
structure Token.Written (t : Token) : Prop where
  spells : Spells t.kind t.lexeme
  canonical : CanonicalText t.kind t.lexeme t.text

/-- The text of a number without an exponent is a numeral. -/
theorem MagnitudeText.spells {chars : List Char} (h : MagnitudeText chars) (he : 'e' ∉ chars) :
    Spells .number chars := by
  have hnil : ∀ {tail : List Char}, ExponentText tail → 'e' ∉ tail → tail = [] := by
    rintro tail (rfl | ⟨exponent, rfl⟩) he
    · rfl
    · exact absurd (.head _) he
  cases h with
  | whole hne hwhole htail =>
    obtain rfl := hnil htail fun hmem => he (List.mem_append_right _ hmem)
    rw [List.append_nil]
    exact .integer hne hwhole
  | point hne hwhole hfraction htail =>
    obtain rfl := hnil htail fun hmem =>
      he (List.mem_append_right _ (.tail _ (List.mem_append_right _ hmem)))
    rw [List.append_nil]
    exact .decimal hne hwhole hfraction

namespace Token

variable {t u : Token}

theorem written_of_plainText (hkind : t.kind = .number) (h : PlainText t.text) : t.Written := by
  obtain ⟨x, negative, units, hparts, htext, hminus, he⟩ := h
  have hlexeme : t.lexeme = t.text.toList := by rw [lexeme, hkind]
  have hchars : t.text.toList = Layout.sign negative ++ Number.layout.magnitude units :=
    htext ▸ Number.toList_text hparts
  rw [hchars] at hminus he
  refine ⟨?_, ?_⟩
  · rw [hkind, hlexeme, hchars]
    cases negative with
    | true => exact absurd (.head _) hminus
    | false => exact (Layout.magnitudeText_magnitude (by decide) units).spells he
  · -- the text is read as the number for which it was written
    rw [hkind, hlexeme]
    refine ⟨x, ?_, htext⟩
    rw [String.ofList_toList, htext, Number.read?_text]

theorem written_of_textOfKind (hkind : t.kind ∈ Kind.vocabulary)
    (htext : t.text = Lexeme.textOfKind t.kind) : t.Written := by
  have hall : ∀ kind ∈ Kind.vocabulary, kind.spelling.map Char.toUpper = kind.symbol.toList := by
    decide +kernel
  have hlexeme : t.lexeme = t.kind.spelling := by
    rw [lexeme]
    split
    next hnumber => exact absurd (hnumber ▸ hkind) (by decide)
    next => rfl
  refine ⟨?_, (Lexeme.canonicalText_iff hkind _ _).2 htext⟩
  rw [hlexeme, spells_iff_of_mem_vocabulary hkind]
  exact hall t.kind hkind

/-- All tokens of a tree that can be printed are. -/
theorem written_of_mem_bracketed {e : Expr} (h : e.Printable) : ∀ t ∈ e.bracketed, t.Written := by
  have henclose : ∀ {ts : List Token}, (∀ t ∈ ts, t.Written) → ∀ t ∈ enclose ts, t.Written := by
    intro ts hts t ht
    rcases List.mem_cons.1 ht with rfl | ht
    · exact ⟨.leftParen, rfl⟩
    · rcases List.mem_append.1 ht with ht | ht
      · exact hts t ht
      · obtain rfl := List.mem_singleton.1 ht
        exact ⟨.rightParen, rfl⟩
  induction h with
  | number hkind htext => exact List.forall_mem_singleton.2 (written_of_plainText hkind htext)
  | pi hkind htext =>
    refine List.forall_mem_singleton.2 (written_of_textOfKind ?_ ?_)
    · exact hkind ▸ by decide
    · rw [hkind, htext]
  | @unary op o _ hop _ htext _ ih =>
    refine henclose (List.forall_mem_cons.2 ⟨written_of_textOfKind ?_ ?_, ih⟩)
    · exact hop ▸ Kind.mem_vocabulary nofun nofun
    · rw [hop, htext]
      rfl
  | @binary op o _ _ hop _ htext _ _ ihl ihr =>
    refine henclose (List.forall_mem_append.2
      ⟨ihl, List.forall_mem_cons.2 ⟨written_of_textOfKind ?_ ?_, ihr⟩⟩)
    · exact hop ▸ Kind.mem_vocabulary nofun nofun
    · rw [hop, htext]
      rfl
  | @application name f _ hname htext _ ih =>
    refine List.forall_mem_cons.2 ⟨written_of_textOfKind ?_ ?_, henclose ih⟩
    · exact hname ▸ Kind.mem_vocabulary nofun nofun
    · rw [hname, htext]
      rfl

end Token

/-! ### The seams between them -/

/-- Whether two tokens of these kinds stay apart when they stand side by side: a parenthesis and any
token, or an operator and an operand. -/
def Kind.mayTouch (kind other : Kind) : Bool :=
  kind.isParenthesis || other.isParenthesis || kind.operator?.isSome != other.operator?.isSome

/-- An operator has no character of a numeral or a word. -/
theorem Operator.not_isNumeral_of_mem {o : Operator} {c : Char} (h : c ∈ o.symbol.toList) :
    ¬Lexeme.isNumeral c ∧ ¬isLetter c := by
  have hall : Kind.vocabulary.all fun kind => kind.operator?.all fun o => o.symbol.toList.all
      fun c => ¬Lexeme.isNumeral c ∧ ¬isLetter c := by decide +kernel
  have hkind := List.all_eq_true.1 hall (.operator o) (Kind.mem_vocabulary nofun nofun)
  exact of_decide_eq_true (List.all_eq_true.1 hkind c h)

namespace Token.Written

variable {t u : Token}

/-- An operand is a numeral or a word. -/
theorem isNumeral_or_isLetter (h : t.Written) (hparenthesis : t.kind.isParenthesis = false)
    (hoperator : t.kind.operator? = none) {c : Char} (hc : c ∈ t.lexeme) :
    Lexeme.isNumeral c ∨ isLetter c := by
  have hspells := h.spells
  rcases hspells.number_or_mem_vocabulary with hnumber | hkind
  · rw [hnumber] at hspells
    exact .inl ((Lexeme.isNumeral_iff c).2 (hspells.isDigit_or_eq_point hc))
  · have hall : Kind.vocabulary.all fun kind => kind.isParenthesis || kind.operator?.isSome ||
        kind.symbol.toList.all fun c => 65 ≤ c.toNat ∧ c.toNat ≤ 90 := by decide +kernel
    have hsymbol := List.all_eq_true.1 hall t.kind hkind
    rw [hparenthesis, hoperator, Option.isSome_none, Bool.false_or, Bool.false_or] at hsymbol
    obtain ⟨hlow, hhigh⟩ :=
      of_decide_eq_true (List.all_eq_true.1 hsymbol _ (hspells.toUpper_mem_symbol hkind hc))
    exact .inr (isLetter_of_upper hlow hhigh)

theorem lexeme_eq_of_operator? {o : Operator} (h : t.kind.operator? = some o) :
    t.lexeme = o.symbol.toList := by
  rw [lexeme, Kind.operator?_eq_some_iff.1 h]
  rfl

/-- A parenthesis is printed as one character that nothing joins. -/
theorem exists_apart (h : t.kind.isParenthesis) : ∃ c, Apart c ∧ t.lexeme = [c] := by
  cases hkind : t.kind with
  | leftParen => exact ⟨'(', apart_leftParen, by rw [lexeme, hkind]; rfl⟩
  | rightParen => exact ⟨')', apart_rightParen, by rw [lexeme, hkind]; rfl⟩
  | _ => rw [hkind] at h; cases h

/-- An operator and an operand do not join. -/
theorem not_joins {o : Operator} (ht : t.kind.operator? = some o) (hu : u.Written)
    (hparenthesis : u.kind.isParenthesis = false) (hoperator : u.kind.operator? = none) {x y : Char}
    (hx : x ∈ t.lexeme) (hy : y ∈ u.lexeme) : ¬joins x y := by
  intro hjoins
  rw [lexeme_eq_of_operator? ht] at hx
  obtain ⟨hnumeral, hletter⟩ := Operator.not_isNumeral_of_mem hx
  rcases (joins_iff x y).1 hjoins with ⟨h, -⟩ | ⟨h, -⟩ | ⟨rfl, -⟩
  · exact hnumeral h
  · exact hletter h
  · exact (hu.isNumeral_or_isLetter hparenthesis hoperator hy).elim hnumeral hletter

/-- Tokens of kinds that may touch each other do not join. -/
theorem seam (ht : t.Written) (hu : u.Written) (h : t.kind.mayTouch u.kind) :
    Seam t.lexeme u.lexeme := by
  by_cases hparenthesis : t.kind.isParenthesis
  · obtain ⟨c, hc, hlexeme⟩ := exists_apart hparenthesis
    rw [hlexeme]
    exact hc.seam_concat [] _
  by_cases hparenthesis' : u.kind.isParenthesis
  · obtain ⟨c, hc, hlexeme⟩ := exists_apart hparenthesis'
    rw [hlexeme]
    exact hc.seam_cons _ []
  rw [Bool.not_eq_true] at hparenthesis hparenthesis'
  rw [Kind.mayTouch, hparenthesis, hparenthesis', Bool.false_or, Bool.false_or] at h
  intro x hx y hy
  have hx := List.mem_of_getLast? hx
  have hy := List.mem_of_head? hy
  -- one of the two tokens is an operator, and the other one is an operand
  cases ho : t.kind.operator? with
  | some o =>
    cases ho' : u.kind.operator? with
    | some o' => rw [ho, ho'] at h; cases h
    | none => exact not_joins ho hu hparenthesis' ho' hx hy
  | none =>
    cases ho' : u.kind.operator? with
    | some o' => exact fun hjoins => not_joins ho' ht hparenthesis ho hy hx (joins_comm hjoins)
    | none => rw [ho, ho'] at h; cases h

end Token.Written

/-- Tokens between which blanks may be left out, that may stand next to an operator. -/
structure Compact (ts : List Token) : Prop where
  /-- The tokens stay apart. -/
  chain : ts.IsChain fun t u => t.kind.mayTouch u.kind
  /-- An operator may stand in front of them. -/
  head : ∀ t ∈ ts.head?, t.kind.operator? = none
  /-- An operator may stand behind them. -/
  last : ∀ t ∈ ts.getLast?, t.kind.operator? = none

namespace Compact

theorem singleton {t : Token} (h : t.kind.operator? = none) : Compact [t] := by
  refine ⟨.singleton t, ?_, ?_⟩ <;> · rintro u ⟨⟩; exact h

/-- In parentheses anything that stays apart does. -/
theorem enclose {ts : List Token} (h : ts.IsChain fun t u => t.kind.mayTouch u.kind) :
    Compact (enclose ts) := by
  have hclosing : ∀ (t : Token) (kind : Kind), kind.isParenthesis → t.kind.mayTouch kind := by
    intro t kind hkind
    rw [Kind.mayTouch, hkind, Bool.or_true, Bool.true_or]
  refine ⟨List.isChain_cons.2 ⟨fun t _ => rfl, List.isChain_append.2 ⟨h, .singleton _, ?_⟩⟩, ?_, ?_⟩
  · rintro t - u ⟨⟩
    exact hclosing t _ rfl
  · rintro t ⟨⟩
    rfl
  · intro t ht
    rw [Reckoner.enclose, List.getLast?_cons, List.getLast?_concat] at ht
    obtain rfl := Option.some.inj ht
    rfl

/-- An operator in front of an operand. -/
theorem chain_cons {op : Token} {o : Operator} {ts : List Token} (hop : op.kind = .operator o)
    (h : Compact ts) : (op :: ts).IsChain fun t u => t.kind.mayTouch u.kind := by
  refine List.isChain_cons.2 ⟨fun t ht => ?_, h.chain⟩
  rw [Kind.mayTouch, h.head t ht, hop]
  simp [Kind.operator?]

/-- An operator between two operands. -/
theorem chain_append {op : Token} {o : Operator} {ts us : List Token} (hl : Compact ts)
    (hop : op.kind = .operator o) (hr : Compact us) :
    (ts ++ op :: us).IsChain fun t u => t.kind.mayTouch u.kind := by
  refine List.isChain_append.2 ⟨hl.chain, hr.chain_cons hop, ?_⟩
  rintro t ht u ⟨⟩
  rw [Kind.mayTouch, hl.last t ht, hop]
  simp [Kind.operator?]

end Compact

/-- Blanks may be left out between all tokens that are printed. -/
theorem Expr.Printable.compact {e : Expr} (h : e.Printable) : Compact e.bracketed := by
  induction h with
  | number hkind => exact .singleton (hkind ▸ rfl)
  | pi hkind => exact .singleton (hkind ▸ rfl)
  | unary hop _ _ _ ih => exact .enclose (ih.chain_cons hop)
  | binary hop _ _ _ _ ihl ihr => exact .enclose (ihl.chain_append hop ihr)
  | application hname _ _ ih =>
    have henclose := Compact.enclose ih.chain
    refine ⟨List.isChain_cons.2 ⟨?_, henclose.chain⟩, ?_, ?_⟩
    · rintro t ⟨⟩
      rw [hname]
      rfl
    · rintro t ⟨⟩
      rw [hname]
      rfl
    · exact henclose.last

/-! ### The scan -/

/-- Blanks do not join anything, so that only the first piece counts. -/
theorem Spaced.seam {front text : List Char} {pieces : List (List Char)}
    (h : Spaced pieces text) (hne : ∀ piece ∈ pieces, piece ≠ [])
    (hhead : ∀ piece ∈ pieces.head?, Seam front piece) : Seam front text := by
  have hblank : ∀ {c : Char}, isBlank c → ∀ rest, Seam front (c :: rest) :=
    fun hc rest => (apart_of_isBlank hc).seam_cons front rest
  cases h with
  | nil h =>
    cases text with
    | nil => exact Seam.of_nil_right front
    | cons c blanks => exact hblank (h c (.head _)) blanks
  | @cons blanks piece rest pieces h hrest =>
    cases blanks with
    | nil => exact (hhead piece rfl).append_right (hne piece (.head _)) rest
    | cons c blanks => exact hblank (h c (.head _)) _

namespace Stream

/-- A text of lexemes that do not join, and of blanks, has their tokens. -/
theorem scanFrom_spaced {ts : List Token} {text : List Char}
    (h : Spaced (ts.map Token.lexeme) text) (hts : ∀ t ∈ ts, t.Written)
    (hchain : ts.IsChain fun t u => t.kind.mayTouch u.kind) (offset : Nat) :
    ∃ us length, scanFrom [] ⟨offset, text⟩ = ⟨us, .endOfInput length⟩ ∧
      List.Forall₂ (Token.Alike fun _ _ => True) ts us := by
  induction ts generalizing text offset with
  | nil =>
    cases h with
    | nil hblank =>
      exact ⟨[], _, scanFrom_of_endOfInput (Cursor.scan_of_blank hblank) rfl, .nil⟩
  | cons t ts ih =>
    rw [List.map_cons] at h
    cases h with
    | @cons blanks _ rest _ hblank hrest =>
      have ht := hts t (.head _)
      obtain ⟨hhead, htail⟩ := List.isChain_cons.1 hchain
      -- what comes next does not join the lexeme
      have hseam : Seam t.lexeme rest := by
        refine hrest.seam (fun piece hpiece => ?_) fun piece hpiece => ?_
        · obtain ⟨u, hu, rfl⟩ := List.mem_map.1 hpiece
          exact (hts u (.tail _ hu)).spells.ne_nil
        · rw [List.head?_map] at hpiece
          obtain ⟨u, hu, rfl⟩ := Option.mem_map.1 hpiece
          exact ht.seam (hts u (.tail _ (List.mem_of_head? hu))) (hhead u hu)
      obtain ⟨us, length, hs, hus⟩ := ih hrest (fun u hu => hts u (.tail _ hu)) htail
        (offset + utf8Length (blanks ++ t.lexeme))
      have hscan : scanFrom [] ⟨offset, blanks ++ t.lexeme ++ rest⟩ =
          ⟨⟨t.kind, t.text, ⟨offset + utf8Length blanks, utf8Length t.lexeme⟩⟩ :: us,
            .endOfInput length⟩ := by
        rw [scanFrom_lexeme_append hblank ht.spells ht.canonical hseam, hs]
        rfl
      exact ⟨_, length, hscan, .cons ⟨rfl, rfl, trivial⟩ hus⟩

end Stream

/-- A tree of at most 127 operations on a path, printed with all parentheses and with any blanks or
none, is read as the same tree, but for its places. -/
theorem parse_printed {e : Expr} (h : e.Printable) (hheight : e.height ≤ 127) {text : String}
    (htext : Spaced (e.bracketed.map Token.lexeme) text.toList) :
    ∃ e', (parse text).result = .ok e' ∧ e.Alike (fun _ _ => True) e' := by
  obtain ⟨us, length, hs, hus⟩ := Stream.scanFrom_spaced htext
    (Token.written_of_mem_bracketed h) h.compact.chain 0
  obtain ⟨n, hderives, hn⟩ := h.exists_derives
  have hfactor : Derives .factor e.bracketed e (n + 1) := .unsigned (.base hderives)
  obtain ⟨e', hderives', halike⟩ :=
    (hfactor.of_factor (x := .complexExpr) (by decide) (by decide)).alike hus
  rcases parse_of_derives hs hderives' with ⟨-, -, hparse⟩ | ⟨hbeyond, -⟩
  · exact ⟨e', hparse, halike⟩
  -- two factors for each of 127 operations, and the whole as another one, are no more than 255
  · rw [← halike.height_eq, depthLimit] at hbeyond
    omega

/-- A power is read as it was printed, with blanks around its operands that are not needed. -/
theorem parse_printed_power :
    let base : Token := ⟨.number, "2.5", ⟨0, 0⟩⟩
    let exponent : Token := ⟨.pi, "3.141592653589793", ⟨0, 0⟩⟩
    let e : Expr := .binary ⟨.operator .power, "**", ⟨0, 0⟩⟩ (.literal base) (.literal exponent)
    e.Printable ∧ e.height ≤ 127 ∧
      Spaced (e.bracketed.map Token.lexeme) "(2.5 **pi )".toList ∧
      ∃ e', (parse "(2.5 **pi )").result = .ok e' ∧ e.Alike (fun _ _ => True) e' := by
  intro base exponent e
  have hbase : PlainText "2.5" :=
    ⟨2.5, false, 5 * 2 ^ (1073 : Nat), by decide +kernel, by decide +kernel, by decide, by decide⟩
  have hprintable : e.Printable :=
    .binary rfl (by decide) rfl (.number rfl hbase) (.pi rfl rfl)
  have hheight : e.height ≤ 127 := by decide
  have hlexemes : e.bracketed.map Token.lexeme =
      [['('], ['2', '.', '5'], ['*', '*'], ['p', 'i'], [')']] := by decide +kernel
  have htext : "(2.5 **pi )".toList =
      [] ++ ['('] ++ ([] ++ ['2', '.', '5'] ++ ([' '] ++ ['*', '*'] ++ ([] ++ ['p', 'i'] ++
        ([' '] ++ [')'] ++ [])))) := by decide +kernel
  have hnone : ∀ c ∈ ([] : List Char), isBlank c := nofun
  have hblank : ∀ c ∈ [' '], isBlank c := List.forall_mem_singleton.2 (by decide)
  have hspaced : Spaced (e.bracketed.map Token.lexeme) "(2.5 **pi )".toList := by
    rw [hlexemes, htext]
    exact .cons hnone (.cons hnone (.cons hblank (.cons hnone (.cons hblank (.nil hnone)))))
  exact ⟨hprintable, hheight, hspaced, parse_printed hprintable hheight hspaced⟩

end Reckoner
