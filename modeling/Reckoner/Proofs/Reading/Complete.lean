import Reckoner.Proofs.Outlook
import Reckoner.Proofs.Reading.Step

/-!
# What a reader accepts

Every reader of a nonterminal accepts the tokens of a derivation that stays within the limits, and
gives the tree of the derivation, if nothing comes next that goes the nonterminal on. Since a reader
has one result, a token sequence has one tree.

The rules that group to the left are recursive on the left, while the reader has its operators in a
loop. The induction is therefore on what a reader comes to behind a *part* of its tokens: behind a
derivation it goes on with the tree in hand (`Nonterminal.goOn`), whatever operators follow.

## Main definitions

* `Settles`: what a reader comes to behind the tokens of a derivation;
* `Settled`: a reader comes to this wherever the tokens stand.

## Main results

* `Derives.settled`: a reader settles the tokens of a derivation, by one lemma for each rule;
* `Derives.unique`: a token sequence has one tree.
-/

namespace Reckoner

namespace Nonterminal

/-- The levels of binary operators that a nonterminal has, from the loosest to the tightest. -/
def levels : Nonterminal → List Level
  | complexExpr => [.or, .xor, .and, .shift, .sum, .product]
  | xorExpr => [.xor, .and, .shift, .sum, .product]
  | andExpr => [.and, .shift, .sum, .product]
  | shiftExpr => [.shift, .sum, .product]
  | arithExpr => [.sum, .product]
  | term => [.product]
  | factor | power | atom => []

/-- The nonterminal of the operands in a loop of operators. Without a loop it is the same one. -/
def operand : Nonterminal → Nonterminal
  | complexExpr => xorExpr
  | xorExpr => andExpr
  | andExpr => shiftExpr
  | shiftExpr => arithExpr
  | arithExpr => term
  | term => factor
  | x => x

/-- The reader of a nonterminal, given how to read a factor inside it. -/
def reader (limit : Nat) (inner : Parse Stream Node) : Nonterminal → Parse Stream Node
  | power => Parse.power limit inner
  | atom => Parse.atom limit inner
  | x => x.levels.foldr (fun level p => do Parse.chain limit level p (← p)) inner

theorem reader_complexExpr (limit : Nat) (inner : Parse Stream Node) :
    complexExpr.reader limit inner = Parse.expression limit inner := rfl

/-- How a reader goes on behind a tree that could be its result. -/
def goOn (limit : Nat) (inner : Parse Stream Node) (x : Nonterminal) (node : Node) :
    Parse Stream Node :=
  match x.levels with
  | [] => return node
  | level :: _ => Parse.chain limit level (x.operand.reader limit inner) node

variable {loose tight : Nonterminal} {ops : List Operator}

/-- The reader of a looser nonterminal reads an operand and goes on in a loop. -/
theorem exists_level (hfold : loose.fold? = some (ops, tight)) (limit : Nat)
    (inner : Parse Stream Node) :
    ∃ level : Level, level.operators = ops ∧
      (∀ node, loose.goOn limit inner node =
        Parse.chain limit level (tight.reader limit inner) node) ∧
      loose.reader limit inner = tight.reader limit inner >>= loose.goOn limit inner := by
  cases loose <;> cases hfold <;> exact ⟨_, rfl, fun _ => rfl, rfl⟩

/-- A failure of an operand is one of everything that is looser. -/
theorem reader_of_covers {x y : Nonterminal} (hcovers : x.Covers y) {limit : Nat}
    {inner : Parse Stream Node} {s rest : Stream} {failure : Failure}
    (h : y.reader limit inner s = .error failure rest) :
    x.reader limit inner s = .error failure rest := by
  induction hcovers with
  | refl => exact h
  | operand hfold _ ih =>
    obtain ⟨_, -, -, hreader⟩ := exists_level hfold limit inner
    rw [hreader]
    exact Parse.bind_of_error (ih h)

theorem operand_of_fold? (hfold : loose.fold? = some (ops, tight)) : loose.operand = tight := by
  cases loose <;> cases hfold <;> rfl

/-- What goes an operand on goes the nonterminal on. -/
theorem extends_of_operand {x : Nonterminal} {kind : Kind} (h : x.operand.Extends kind) :
    x.Extends kind := by
  obtain ⟨o, ho, rfl⟩ := h
  refine ⟨o, ?_, rfl⟩
  cases x <;> revert ho <;> cases o <;> simp [operand, extensions]

/-- The operators of the first level go the nonterminal on. -/
theorem mem_extensions_of_levels {x : Nonterminal} {level : Level} {tighter : List Level}
    {o : Operator} (h : x.levels = level :: tighter) (ho : o ∈ level.operators) :
    o ∈ x.extensions := by
  cases x <;> cases h <;> revert ho <;> cases o <;> simp [Level.operators, extensions]

/-- A loop ends in front of what does not go it on. -/
theorem goOn_of_not_extends {x : Nonterminal} {limit : Nat} {inner : Parse Stream Node}
    {node : Node} {rest : Stream} {next : Token} (hnext : rest.head = .ok next)
    (hend : ¬x.Extends next.kind) :
    x.goOn limit inner node rest = .ok node rest := by
  cases hlevels : x.levels with
  | nil =>
    simp only [goOn, hlevels]
    exact Parse.pure_apply node rest
  | cons level tighter =>
    simp only [goOn, hlevels]
    refine Parse.chain_of_not_holds hnext fun hholds => hend ?_
    obtain ⟨o, ho, hkind⟩ := Level.holds_iff.1 hholds
    exact ⟨o, mem_extensions_of_levels hlevels ho, hkind⟩

end Nonterminal

namespace Derives

variable {x : Nonterminal} {ts : List Token} {e : Expr} {n : Nat}

/-- A derivation has a first token. -/
theorem ne_nil (h : Derives x ts e n) : ts ≠ [] := by
  rintro rfl
  simpa using h.run_eq 0

/-- The first token of a derivation comes next when its tokens do. -/
theorem head_behind (h : Derives x ts e n) (rest : Stream) :
    ∃ u ∈ ts.head?, (rest.behind ts).head = .ok u := by
  cases ts with
  | nil => exact absurd rfl h.ne_nil
  | cons u us => exact ⟨u, rfl, rfl⟩

/-- An atom begins with no operator. -/
theorem head_atom (h : Derives .atom ts e n) {u : Token} (hu : u ∈ ts.head?) : ¬u.kind.isSign := by
  cases h with
  | operand hfold | fold hfold => cases hfold
  | application hname =>
    obtain rfl : _ = u := by simpa using hu
    simp [hname, Kind.isSign]
  | parentheses hopening =>
    obtain rfl : _ = u := by simpa using hu
    simp [hopening, Kind.isSign]
  | literal h =>
    obtain rfl : _ = u := by simpa using hu
    rcases h with h | h <;> simp [h, Kind.isSign]

/-- A power begins with no operator. -/
theorem head_power (h : Derives .power ts e n) {u : Token} (hu : u ∈ ts.head?) :
    ¬u.kind.isSign := by
  cases h with
  | operand hfold | fold hfold => cases hfold
  | base h => exact h.head_atom hu
  | exponent left =>
    obtain ⟨v, hv, -⟩ := left.head_behind ⟨[], .endOfInput 0⟩
    rw [List.head?_append, Option.mem_def.1 hv, Option.some_or] at hu
    obtain rfl : v = u := by simpa using hu
    exact left.head_atom hv

/-- What a reader of an `x` comes to behind the tokens of a derivation: it goes on with the tree if
the derivation is within the limits, and one of the limits stops it otherwise. -/
inductive Settles (limit depth : Nat) (x : Nonterminal) (e : Expr) (n : Nat) (rest : Stream)
    (result : EStateM.Result Failure Stream Node) : Prop
  /-- Both limits are kept. -/
  | within (hn : n ≤ depth) (hlimit : e.height ≤ limit)
      (h : result = x.goOn limit (Parse.factor limit depth) ⟨e, e.height⟩ rest)
  /-- One of the limits is passed. -/
  | beyond (hbeyond : depth < n ∨ limit < e.height)
      (h : ∃ span rest', result = .error (.grammar (.tooDeep span)) rest')

variable {limit depth : Nat} {rest : Stream} {next : Token}

/-- A node that is the result of a reader settles it by the check of its height. -/
theorem Settles.checked {node : Node} (hn : n ≤ depth) (hnode : node = ⟨e, e.height⟩)
    (hnext : rest.head = .ok next) (hend : ¬x.Extends next.kind) :
    Settles limit depth x e n rest (Parse.checked limit node rest) := by
  subst hnode
  rcases Nat.lt_or_ge limit e.height with hlt | hle
  · exact .beyond (.inr hlt) ⟨_, _, Parse.checked_of_lt hlt rest⟩
  · refine .within hn hle ?_
    rw [Parse.checked_of_le hle, Nonterminal.goOn_of_not_extends hnext hend]

/-- The reader of an atom takes the expression in parentheses and goes on behind them. -/
theorem settles_parenthesized {f : Node → Parse Stream Node} {closing : Token} {e' : Expr}
    (hheight : e.height ≤ e'.height) (hclosing : closing.kind = .rightParen)
    (hnext : rest.head = .ok next)
    (h : Settles limit depth .complexExpr e n (rest.behind [closing])
      (Parse.expression limit (Parse.factor limit depth) ((rest.behind [closing]).behind ts)))
    (hf : n ≤ depth → e.height ≤ limit →
      Settles limit depth .atom e' n rest (f ⟨e, e.height⟩ rest)) :
    Settles limit depth .atom e' n rest
      ((do let node ← Parse.expression limit (Parse.factor limit depth)
           Parse.expect .rightParen
           f node : Parse Stream Node) (rest.behind (ts ++ [closing]))) := by
  rw [← Stream.behind_behind]
  rcases h with ⟨hn, hlimit, h⟩ | ⟨hbeyond, span, rest', h⟩
  · have hend : ¬Nonterminal.complexExpr.Extends closing.kind := by
      rw [hclosing]
      exact Nonterminal.not_extends_rightParen _
    have hexpect : Parse.expect .rightParen (rest.behind [closing]) = .ok () rest := by
      rw [Parse.expect_of_eq hclosing, Parse.advance_of_ok hnext]
    rw [Nonterminal.goOn_of_not_extends (Stream.head_behind_cons closing [] rest) hend] at h
    rw [Parse.bind_of_ok h, Parse.bind_of_ok hexpect]
    exact hf hn hlimit
  · exact .beyond (by omega) ⟨span, rest', Parse.bind_of_error h⟩

/-- The reader of an `x` settles the tokens, whatever comes behind them, unless it goes on an
operand of the `x`. The next token may well go the `x` itself on. -/
def Settled (limit : Nat) (x : Nonterminal) (ts : List Token) (e : Expr) (n : Nat) : Prop :=
  ∀ ⦃depth : Nat⦄ ⦃rest : Stream⦄ ⦃next : Token⦄, rest.head = .ok next →
    ¬x.operand.Extends next.kind →
      Settles limit depth x e n rest (x.reader limit (Parse.factor limit depth) (rest.behind ts))

section Cases

variable {loose tight : Nonterminal} {ops : List Operator} {o : Operator} {op : Token}
  {us : List Token} {l r : Expr} {m : Nat}

theorem settled_operand (hfold : loose.fold? = some (ops, tight))
    (ih : Settled limit tight ts e n) : Settled limit loose ts e n := by
  intro depth rest next hnext hend
  obtain ⟨level, -, -, hreader⟩ := Nonterminal.exists_level hfold limit (Parse.factor limit depth)
  rw [Nonterminal.operand_of_fold? hfold] at hend
  rw [hreader]
  rcases ih hnext (fun hext => hend (Nonterminal.extends_of_operand hext)) with
    ⟨hn, hlimit, h⟩ | ⟨hbeyond, span, rest', h⟩
  -- the operand is complete here, so that its own loop ends and that of the looser one begins
  · rw [Nonterminal.goOn_of_not_extends hnext hend] at h
    exact .within hn hlimit (Parse.bind_of_ok h)
  · exact .beyond hbeyond ⟨span, rest', Parse.bind_of_error h⟩

theorem settled_fold (hfold : loose.fold? = some (ops, tight)) (hop : op.kind = .operator o)
    (ho : o ∈ ops) (hright : Derives tight us r n) (ihl : Settled limit loose ts l m)
    (ihr : Settled limit tight us r n) :
    Settled limit loose (ts ++ op :: us) (.binary op l r) (max m n) := by
  intro depth rest next hnext hend
  obtain ⟨level, hops, hgoOn, -⟩ :=
    Nonterminal.exists_level hfold limit (Parse.factor limit depth)
  rw [Nonterminal.operand_of_fold? hfold] at hend
  obtain ⟨u, -, hu⟩ := hright.head_behind rest
  -- the operator goes the left operand on in no tighter loop, only in this one
  have hop' : ¬loose.operand.Extends op.kind := by
    rw [Nonterminal.operand_of_fold? hfold, hop, Nonterminal.extends_operator_iff]
    exact Nonterminal.not_mem_extensions_of_fold? hfold ho
  rw [← Stream.behind_behind]
  rcases ihl (Stream.head_behind_cons op us rest) hop' with
    ⟨hm, hl, hleft⟩ | ⟨hbeyond, span, rest', hleft⟩
  · rw [hleft, hgoOn, Stream.behind_cons,
      Parse.chain_of_holds (Level.holds_iff.2 ⟨o, hops ▸ ho, hop⟩) hu]
    rcases ihr hnext (fun hext => hend (Nonterminal.extends_of_operand hext)) with
      ⟨hn, hr, hright⟩ | ⟨hbeyond, span, rest', hright⟩
    · rw [Nonterminal.goOn_of_not_extends hnext hend] at hright
      rw [Parse.bind_of_ok hright]
      by_cases hle : (Node.binary op ⟨l, l.height⟩ ⟨r, r.height⟩).height ≤ limit
      · rw [if_pos hle]
        exact .within (Nat.max_le.2 ⟨hm, hn⟩) hle (congrFun (hgoOn _) rest).symm
      · rw [if_neg hle]
        exact .beyond (.inr (Nat.not_le.1 hle)) ⟨_, _, Parse.tooDeep_apply _ _⟩
    · refine .beyond ?_ ⟨span, rest', Parse.bind_of_error hright⟩
      simp only [Expr.height]
      omega
  · refine .beyond ?_ ⟨span, rest', hleft⟩
    simp only [Expr.height]
    omega

theorem settled_sign (hop : op.kind = .operator o) (ho : o ∈ [.plus, .minus, .flip])
    (h : Derives .factor ts e n) (ih : Settled limit .factor ts e n) :
    Settled limit .factor (op :: ts) (.unary op e) (n + 1) := by
  intro depth rest next hnext hend
  have hend : ¬Nonterminal.factor.Extends next.kind := hend
  have hsign : op.kind.isSign := Kind.isSign_iff.2 ⟨o, ho, hop⟩
  cases depth with
  | zero =>
    -- a factor is one too many, even before its operand is looked at
    exact .beyond (.inl (Nat.succ_pos n))
      ⟨_, _, Parse.factor_zero limit (Stream.head_behind_cons op ts rest)⟩
  | succ depth =>
    obtain ⟨u, -, hu⟩ := h.head_behind rest
    change Settles _ _ _ _ _ _ (Parse.signed limit (Parse.factor limit depth) _)
    rw [Stream.behind_cons, Parse.signed_of_isSign hsign hu]
    rcases ih hnext hend with ⟨hn, hlimit, h⟩ | ⟨hbeyond, span, rest', h⟩
    · rw [Nonterminal.goOn_of_not_extends hnext hend] at h
      exact (Parse.bind_of_ok h).symm ▸ .checked (Nat.succ_le_succ hn) rfl hnext hend
    · refine .beyond ?_ ⟨span, rest', Parse.bind_of_error h⟩
      simp only [Expr.height]
      omega

theorem settled_unsigned (h : Derives .power ts e n) (ih : Settled limit .power ts e n) :
    Settled limit .factor ts e (n + 1) := by
  intro depth rest next hnext hend
  obtain ⟨u, hmem, hu⟩ := h.head_behind rest
  cases depth with
  | zero => exact .beyond (.inl (Nat.succ_pos n)) ⟨_, _, Parse.factor_zero limit hu⟩
  | succ depth =>
    change Settles _ _ _ _ _ _ (Parse.signed limit (Parse.factor limit depth) _)
    rw [Parse.signed_of_not_isSign hu (h.head_power hmem)]
    rcases ih hnext hend with ⟨hn, hlimit, h⟩ | ⟨hbeyond, span, rest', h⟩
    · exact .within (Nat.succ_le_succ hn) hlimit h
    · exact .beyond (by omega) ⟨span, rest', h⟩

theorem settled_base (ih : Settled limit .atom ts e n) : Settled limit .power ts e n := by
  intro depth rest next hnext hend
  have hpower : next.kind ≠ .operator .power := fun hkind =>
    hend ⟨.power, List.mem_singleton.2 rfl, hkind⟩
  rcases ih hnext (Nonterminal.not_extends_atom _) with
    ⟨hn, hlimit, h⟩ | ⟨hbeyond, span, rest', h⟩
  · exact .within hn hlimit (Parse.power_of_ne h hnext hpower)
  · exact .beyond hbeyond ⟨span, rest', Parse.bind_of_error h⟩

theorem settled_exponent (hop : op.kind = .operator .power) (hright : Derives .factor us r n)
    (ihl : Settled limit .atom ts l m) (ihr : Settled limit .factor us r n) :
    Settled limit .power (ts ++ op :: us) (.binary op l r) (max m n) := by
  intro depth rest next hnext hend
  have hend : ¬Nonterminal.factor.Extends next.kind := hend
  obtain ⟨u, -, hu⟩ := hright.head_behind rest
  rw [← Stream.behind_behind]
  rcases ihl (Stream.head_behind_cons op us rest) (Nonterminal.not_extends_atom _) with
    ⟨hm, hl, hleft⟩ | ⟨hbeyond, span, rest', hleft⟩
  · rw [Nonterminal.goOn_of_not_extends (Stream.head_behind_cons op us rest)
      (Nonterminal.not_extends_atom _), Stream.behind_cons op us] at hleft
    change Settles _ _ _ _ _ _ (Parse.power limit (Parse.factor limit depth) _)
    rw [Stream.behind_cons op us, Parse.power_of_eq hleft hop hu]
    -- the exponent is read with the same depth as the base, not with what the base left of it
    rcases ihr hnext hend with ⟨hn, hr, hright⟩ | ⟨hbeyond, span, rest', hright⟩
    · rw [Nonterminal.goOn_of_not_extends hnext hend] at hright
      exact (Parse.bind_of_ok hright).symm ▸ .checked (Nat.max_le.2 ⟨hm, hn⟩) rfl hnext hend
    · refine .beyond ?_ ⟨span, rest', Parse.bind_of_error hright⟩
      simp only [Expr.height]
      omega
  · refine .beyond ?_ ⟨span, rest', Parse.bind_of_error hleft⟩
    simp only [Expr.height]
    omega

variable {opening closing : Token}

theorem settled_application {f : Function} {name : Token} (hname : name.kind = .function f)
    (hopening : opening.kind = .leftParen) (h : Derives .complexExpr ts e n)
    (hclosing : closing.kind = .rightParen) (ih : Settled limit .complexExpr ts e n) :
    Settled limit .atom (name :: opening :: (ts ++ [closing])) (.application name e) n := by
  intro depth rest next hnext hend
  obtain ⟨u, -, hu⟩ := h.head_behind (rest.behind [closing])
  rw [Stream.behind_behind] at hu
  change Settles _ _ _ _ _ _ (Parse.atom limit (Parse.factor limit depth)
    ((rest.behind (ts ++ [closing])).behind [name, opening]))
  rw [Parse.atom_of_isFunction (Kind.isFunction_iff.2 ⟨f, hname⟩) hopening hu]
  have hclosed : ¬Nonterminal.complexExpr.operand.Extends closing.kind :=
    hclosing ▸ Nonterminal.not_extends_rightParen _
  exact settles_parenthesized (Nat.le_succ _) hclosing hnext
    (ih (Stream.head_behind_cons closing [] rest) hclosed)
    fun hn _ => .checked hn rfl hnext hend

theorem settled_parentheses (hopening : opening.kind = .leftParen)
    (h : Derives .complexExpr ts e n) (hclosing : closing.kind = .rightParen)
    (ih : Settled limit .complexExpr ts e n) :
    Settled limit .atom (opening :: (ts ++ [closing])) e n := by
  intro depth rest next hnext _
  obtain ⟨u, -, hu⟩ := h.head_behind (rest.behind [closing])
  rw [Stream.behind_behind] at hu
  change Settles _ _ _ _ _ _ (Parse.atom limit (Parse.factor limit depth)
    ((rest.behind (ts ++ [closing])).behind [opening]))
  rw [Parse.atom_of_leftParen hopening hu]
  have hclosed : ¬Nonterminal.complexExpr.operand.Extends closing.kind :=
    hclosing ▸ Nonterminal.not_extends_rightParen _
  exact settles_parenthesized (Nat.le_refl _) hclosing hnext
    (ih (Stream.head_behind_cons closing [] rest) hclosed)
    fun hn hlimit => .within hn hlimit rfl

theorem settled_literal {token : Token} (h : token.kind = .number ∨ token.kind = .pi) :
    Settled limit .atom [token] (.literal token) 0 := by
  intro depth rest next hnext _
  exact .within (Nat.zero_le _) (Nat.zero_le _)
    (Parse.atom_of_isLiteral (Kind.isLiteral_iff.2 h) hnext)

end Cases

/-- A reader settles the tokens of a derivation. -/
theorem settled (limit : Nat) (h : Derives x ts e n) : Settled limit x ts e n := by
  induction h with
  | operand hfold _ ih => exact settled_operand hfold ih
  | fold hfold _ hop ho right ihl ihr => exact settled_fold hfold hop ho right ihl ihr
  | sign hop ho h ih => exact settled_sign hop ho h ih
  | unsigned h ih => exact settled_unsigned h ih
  | base _ ih => exact settled_base ih
  | exponent _ hop right ihl ihr => exact settled_exponent hop right ihl ihr
  | application hname hopening h hclosing ih =>
    exact settled_application hname hopening h hclosing ih
  | parentheses hopening h hclosing ih => exact settled_parentheses hopening h hclosing ih
  | literal h => exact settled_literal h

/-- A token sequence has one tree: with limits that are high enough, a reader gives all its
trees. -/
theorem unique {e' : Expr} {n' : Nat} (h : Derives x ts e n) (h' : Derives x ts e' n') :
    e = e' := by
  have hnext : Stream.head ⟨[], .endOfInput 0⟩ = .ok (.endOfInput 0) := rfl
  let limit := max e.height e'.height
  let depth := max n n'
  have hreader : ∀ {e₁ n₁}, Derives x ts e₁ n₁ → n₁ ≤ depth → e₁.height ≤ limit →
      x.reader limit (Parse.factor limit depth) (Stream.behind ts ⟨[], .endOfInput 0⟩) =
        .ok ⟨e₁, e₁.height⟩ ⟨[], .endOfInput 0⟩ := by
    intro e₁ n₁ h₁ hn₁ hlimit₁
    rcases h₁.settled limit hnext (Nonterminal.not_extends_endOfInput _) with
      ⟨-, -, h₁⟩ | ⟨hbeyond, -⟩
    · rwa [Nonterminal.goOn_of_not_extends hnext (Nonterminal.not_extends_endOfInput _)] at h₁
    · omega
  have heq := (hreader h (Nat.le_max_left _ _) (Nat.le_max_left _ _)).symm.trans
    (hreader h' (Nat.le_max_right _ _) (Nat.le_max_right _ _))
  injection heq with hnode
  injection hnode

end Derives

end Reckoner
