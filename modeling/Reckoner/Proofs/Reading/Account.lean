import Reckoner.Proofs.Outlook
import Reckoner.Proofs.Reading.Step

/-!
# What a reader leaves behind

Every reader of a nonterminal gives an account of the tokens that it took away: a derivation within
the limits if it succeeds, and a partial derivation if it fails. In the second case the failure is
that of the scanner, or one of the limits is passed, or the next token may not come in the outlook
of the partial derivation, which also decides the error (`Outlook.complaint`).

## Main definitions

* `Accounts limit depth x before s result`: `result` is what reading on from `s` may come to, when
  an `x` is being read of which the tokens `before` are known already;
* `Reads limit depth x p`: `p` gives an account of every stream that it is run on.

## Main results

* `reads_expression`, `accounts_atom`, `accounts_power` and `reads_factor`: the readers of the
  nonterminals give an account. Each is proved from the account of the readers that it calls.
-/

namespace Reckoner

/-- The error that is due when a token may not come. -/
def Outlook.complaint : Outlook → Token → GrammarError
  | ⟨.operand, _⟩, found => .missingOperand found
  | ⟨.opening, _⟩, found => .missingToken .leftParen found
  | ⟨.operator, 0⟩, found => .leftover found
  | ⟨.operator, _ + 1⟩, found => .missingToken .rightParen found

/-- In the place of an operand only those kinds may come that the readers look for. -/
theorem Outlook.step_operand_eq_none {kind : Kind} (count : Nat) (hfunction : ¬kind.isFunction)
    (hopening : kind ≠ .leftParen) (hliteral : ¬kind.isLiteral) (hsign : ¬kind.isSign) :
    Outlook.step ⟨.operand, count⟩ kind = none := by
  cases kind with
  | operator o => exact if_neg fun ho => hsign (Kind.isSign_iff.2 ⟨o, ho, rfl⟩)
  | number | pi => exact absurd rfl hliteral
  | function f => exact absurd rfl hfunction
  | leftParen => exact absurd rfl hopening
  | rightParen | endOfInput => rfl

/-- The failures of a reader that stops at an outlook in front of `rest`. -/
inductive Blames (outlook : Outlook) (rest : Stream) : Failure → Prop
  /-- The next token cannot be read. -/
  | lexical {error : LexicalError} (hhead : rest.head = .error error) :
      Blames outlook rest (.lexical error)
  /-- The next token may not come. -/
  | grammar {found : Token} (hhead : rest.head = .ok found)
      (hstep : outlook.step found.kind = none) (hopen : outlook ≠ .complete) :
      Blames outlook rest (.grammar (outlook.complaint found))
  /-- A limit is passed. -/
  | tooDeep (span : Span) : Blames outlook rest (.grammar (.tooDeep span))

/-- Parentheses around an outlook that is not complete change nothing about what it blames. -/
theorem Blames.within_one {outlook : Outlook} {rest : Stream} {failure : Failure}
    (h : Blames outlook rest failure) : Blames (outlook.within 1) rest failure := by
  cases h with
  | lexical hhead => exact .lexical hhead
  | tooDeep span => exact .tooDeep span
  | grammar hhead hstep hopen =>
    have hcomplaint : (outlook.within 1).complaint = outlook.complaint := by
      obtain ⟨place, n⟩ := outlook
      cases place with
      | operand | opening => rfl
      | operator =>
        cases n with
        | zero => exact absurd rfl hopen
        | succ n => rfl
    rw [← hcomplaint]
    refine .grammar hhead ((Outlook.step_within_eq_none_iff hopen 1 _).2 hstep) fun heq => ?_
    simpa [Outlook.within, Outlook.complete] using congrArg Outlook.unclosed heq

/-- The tree of a node is that of an `x` with the tokens `ts`, and within the limits. -/
structure Node.Within (limit depth : Nat) (x : Nonterminal) (ts : List Token) (node : Node) :
    Prop where
  /-- The tree is derived with at most `depth` factors inside one another. -/
  derives : ∃ n ≤ depth, Derives x ts node.expr n
  /-- The height beside the tree is its own. -/
  height_eq : node.height = node.expr.height
  /-- The tree is at most `limit` high. -/
  height_le : node.height ≤ limit

/-- What reading on from `s` may come to, when an `x` is being read of which the tokens `before` are
known already. -/
inductive Accounts (limit depth : Nat) (x : Nonterminal) (before : List Token) (s : Stream) :
    EStateM.Result Failure Stream Node → Prop
  /-- An `x` within the limits has been read, and what comes next does not go it on. -/
  | ok {node : Node} {rest : Stream} {ts : List Token} {next : Token} (hs : s = rest.behind ts)
      (h : node.Within limit depth x (before ++ ts)) (hnext : rest.head = .ok next)
      (hend : ¬x.Extends next.kind) : Accounts limit depth x before s (.ok node rest)
  /-- A part of an `x` has been read, and the failure is due behind it. -/
  | error {failure : Failure} {rest : Stream} {ts : List Token} {outlook : Outlook}
      (hs : s = rest.behind ts) (h : Partial x (before ++ ts) outlook)
      (hblame : Blames outlook rest failure) : Accounts limit depth x before s (.error failure rest)

/-- A reader of an `x` gives an account of every stream from which a token can be read. -/
def Reads (limit depth : Nat) (x : Nonterminal) (p : Parse Stream Node) : Prop :=
  ∀ ⦃s : Stream⦄ ⦃next : Token⦄, s.head = .ok next → Accounts limit depth x [] s (p s)

variable {limit depth : Nat} {x : Nonterminal}

namespace Accounts

variable {before : List Token} {s : Stream} {next : Token}

/-- Tokens that were taken away before may be counted as read. -/
theorem of_behind {ts : List Token} {rest : Stream} {result : EStateM.Result Failure Stream Node}
    (h : Accounts limit depth x (before ++ ts) rest result) :
    Accounts limit depth x before (rest.behind ts) result := by
  cases h with
  | ok hs h hnext hend =>
    subst hs
    rw [Stream.behind_behind]
    exact .ok rfl (by simpa using h) hnext hend
  | error hs h hblame =>
    subst hs
    rw [Stream.behind_behind]
    exact .error rfl (by simpa using h) hblame

/-- The account is closed by a node whose tokens are all known. -/
theorem of_within {node : Node} (h : node.Within limit depth x before) (hnext : s.head = .ok next)
    (hend : ¬x.Extends next.kind) : Accounts limit depth x before s (.ok node s) :=
  .ok (Stream.behind_nil s).symm (by simpa using h) hnext hend

/-- The account is closed by a failure. -/
theorem of_blames {outlook : Outlook} {failure : Failure} (h : Partial x before outlook)
    (hblame : Blames outlook s failure) : Accounts limit depth x before s (.error failure s) :=
  .error (Stream.behind_nil s).symm (by simpa using h) hblame

/-- An account goes on behind a token that is taken away. -/
theorem advance {outlook : Outlook} {f : Unit → Parse Stream Node} (hnext : s.head = .ok next)
    (hkind : next.kind ≠ .endOfInput) (hpartial : Partial x (before ++ [next]) outlook)
    (hf : ∀ ⦃rest u⦄, rest.head = .ok u →
      Accounts limit depth x (before ++ [next]) rest (f () rest)) :
    Accounts limit depth x before s ((Parse.advance >>= f) s) := by
  obtain ⟨rest, rfl⟩ := Stream.exists_behind_of_head hnext hkind
  apply Accounts.of_behind
  -- the token is gone even if none can be read behind it
  cases hrest : rest.head with
  | error error =>
    rw [Parse.bind_of_error (Parse.advance_of_error hrest)]
    exact .of_blames hpartial (.lexical hrest)
  | ok u =>
    rw [Parse.bind_of_ok (Parse.advance_of_ok hrest)]
    exact hf hrest

/-- An account goes on behind a token that has to be of the given kind. -/
theorem expect {outlook : Outlook} {kind : Kind} {f : Unit → Parse Stream Node}
    (hnext : s.head = .ok next) (hkind : kind ≠ .endOfInput) (hbefore : Partial x before outlook)
    (hmiss : next.kind ≠ kind → outlook.step next.kind = none ∧ outlook ≠ .complete ∧
      outlook.complaint next = .missingToken kind next)
    (hpartial : next.kind = kind → ∃ outlook', Partial x (before ++ [next]) outlook')
    (hf : next.kind = kind → ∀ ⦃rest u⦄, rest.head = .ok u →
      Accounts limit depth x (before ++ [next]) rest (f () rest)) :
    Accounts limit depth x before s ((Parse.expect kind >>= f) s) := by
  by_cases heq : next.kind = kind
  · have hexpect : (Parse.expect kind >>= f) s = (Parse.advance >>= f) s := by
      obtain ⟨rest, rfl⟩ := Stream.exists_behind_of_head hnext (heq ▸ hkind)
      simp only [bind, EStateM.bind, Parse.expect_of_eq heq]
    obtain ⟨outlook', hpartial'⟩ := hpartial heq
    rw [hexpect]
    exact .advance hnext (heq ▸ hkind) hpartial' (hf heq)
  · obtain ⟨hstep, hopen, hcomplaint⟩ := hmiss heq
    rw [Parse.bind_of_error (Parse.expect_of_ne hnext heq), ← hcomplaint]
    exact .of_blames hbefore (.grammar hnext hstep hopen)

/-- An account goes on behind a smaller nonterminal. -/
theorem bind {depth' : Nat} {y : Nonterminal} {p : Parse Stream Node} {f : Node → Parse Stream Node}
    (hp : Accounts limit depth' y [] s (p s))
    (hpartial : ∀ ⦃ts outlook⦄, Partial y ts outlook →
      ∃ outlook', Partial x (before ++ ts) outlook' ∧
        ∀ ⦃rest failure⦄, Blames outlook rest failure → Blames outlook' rest failure)
    (hf : ∀ ⦃node ts rest u⦄, node.Within limit depth' y ts → rest.head = .ok u →
      ¬y.Extends u.kind → Accounts limit depth x (before ++ ts) rest (f node rest)) :
    Accounts limit depth x before s ((p >>= f) s) := by
  cases hresult : p s with
  | error failure rest =>
    rw [Parse.bind_of_error hresult]
    rw [hresult] at hp
    cases hp with
    | error hs h hblame =>
      obtain ⟨outlook', hpartial', hblame'⟩ := hpartial h
      exact .error hs (by simpa using hpartial') (hblame' hblame)
  | ok node rest =>
    rw [Parse.bind_of_ok hresult]
    rw [hresult] at hp
    cases hp with
    | ok hs h hnext' hend =>
      -- the tokens of the smaller nonterminal are known to the rest of the reader
      subst hs
      exact .of_behind (hf h hnext' hend)

/-- The account is closed by a node whose height is checked. -/
theorem checked {node : Node} {n : Nat} (h : Derives x before node.expr n) (hn : n ≤ depth)
    (hheight : node.height = node.expr.height) (hnext : s.head = .ok next)
    (hend : ¬x.Extends next.kind) :
    Accounts limit depth x before s (Parse.checked limit node s) := by
  -- too high a tree is complained of behind all its tokens
  rcases Nat.lt_or_ge limit node.height with hlt | hle
  · rw [Parse.checked_of_lt hlt]
    exact .of_blames (.whole h) (.tooDeep _)
  · rw [Parse.checked_of_le hle]
    exact .of_within ⟨⟨n, hn, h⟩, hheight, hle⟩ hnext hend

end Accounts

/-! ### The readers -/

section Fold

variable {loose tight : Nonterminal} {ops : List Operator} {p : Parse Stream Node}

/-- A chain goes on with a derivation of its left operand. The induction is on what is left of the
limit on the height, of which each operator uses up some. -/
theorem accounts_chain (level : Level) (hfold : loose.fold? = some (ops, tight))
    (hops : level.operators = ops) (hp : Reads limit depth tight p) {left : Node}
    {before : List Token} {s : Stream} {next : Token} (h : left.Within limit depth loose before)
    (hnext : s.head = .ok next) (hend : ¬tight.Extends next.kind) :
    Accounts limit depth loose before s (Parse.chain limit level p left s) := by
  induction hk : limit - left.height using Nat.strongRecOn generalizing left before s next with
  | ind k ih =>
    obtain ⟨⟨m, hm, hleft⟩, hheight, hlimit⟩ := h
    rw [Parse.chain, Parse.peek_bind hnext]
    split
    case isFalse hholds =>
      refine .of_within ⟨⟨m, hm, hleft⟩, hheight, hlimit⟩ hnext ?_
      -- an operator of this level would have been taken, one of a tighter level was refused before
      rintro ⟨o, ho, hkind⟩
      rw [Nonterminal.extensions_of_fold? hfold, List.mem_append] at ho
      rcases ho with ho | ho
      · exact hholds (Level.holds_iff.2 ⟨o, hops ▸ ho, hkind⟩)
      · exact hend ⟨o, ho, hkind⟩
    case isTrue hholds =>
      obtain ⟨o, ho, hkind⟩ := Level.holds_iff.1 hholds
      rw [hops] at ho
      refine .advance hnext (by simp [hkind]) (.fold hfold hleft hkind ho (.start tight)) ?_
      intro rest u hrest
      refine .bind (hp hrest) (fun ts outlook hpartial => ⟨outlook, ?_, fun _ _ => id⟩) ?_
      · simpa using Partial.fold hfold hleft hkind ho hpartial
      rintro right ts rest' u' ⟨⟨n, hn, hright⟩, hheight', hlimit'⟩ hnext' hend'
      have hbinary := Derives.fold hfold hleft hkind ho hright
      rw [List.append_assoc, List.singleton_append]
      split
      case isTrue hle =>
        refine ih _ ?_ ⟨⟨_, Nat.max_le.2 ⟨hm, hn⟩, hbinary⟩, ?_, hle⟩ hnext' hend' rfl
        · simp only [Node.binary] at hle ⊢
          omega
        · simp [Node.binary, Expr.height, hheight, hheight']
      case isFalse => exact .of_blames (.whole hbinary) (.tooDeep _)

/-- The reader of a looser nonterminal gives an account if that of the tighter one does. -/
theorem reads_chain (level : Level) (hfold : loose.fold? = some (ops, tight))
    (hops : level.operators = ops) (hp : Reads limit depth tight p) :
    Reads limit depth loose (do Parse.chain limit level p (← p)) := by
  intro s next hnext
  refine .bind (hp hnext)
    (fun ts outlook hpartial => ⟨outlook, .operand hfold hpartial, fun _ _ => id⟩) ?_
  rintro left ts rest u ⟨⟨n, hn, hleft⟩, hheight, hlimit⟩ hnext' hend
  exact accounts_chain level hfold hops hp ⟨⟨n, hn, .operand hfold hleft⟩, hheight, hlimit⟩
    hnext' hend

end Fold

variable {inner : Parse Stream Node}

/-- An expression is read level by level, from a reader of factors. -/
theorem reads_expression (hinner : Reads limit depth .factor inner) :
    Reads limit depth .complexExpr (Parse.expression limit inner) := by
  have hterm : Reads limit depth .term _ := reads_chain .product rfl rfl hinner
  have harith : Reads limit depth .arithExpr _ := reads_chain .sum rfl rfl hterm
  have hshift : Reads limit depth .shiftExpr _ := reads_chain .shift rfl rfl harith
  have hand : Reads limit depth .andExpr _ := reads_chain .and rfl rfl hshift
  have hxor : Reads limit depth .xorExpr _ := reads_chain .xor rfl rfl hand
  exact reads_chain .or rfl rfl hxor

/-- An account of an atom goes on behind its opening parenthesis. The tokens `before` are those up
to that parenthesis, and `build` makes the tree of the atom from that of the expression inside. -/
theorem accounts_parenthesized (build : Expr → Expr) {before : List Token} {next : Token}
    {s : Stream} {f : Node → Parse Stream Node} (hinner : Reads limit depth .factor inner)
    (hnext : s.head = .ok next)
    (hpartial : ∀ ⦃ts outlook⦄, Partial .complexExpr ts outlook →
      Partial .atom (before ++ ts) (outlook.within 1))
    (hwhole : ∀ ⦃ts e n closing⦄, Derives .complexExpr ts e n → closing.kind = .rightParen →
      Derives .atom (before ++ (ts ++ [closing])) (build e) n)
    (hf : ∀ ⦃node us n rest u⦄, Derives .atom us (build node.expr) n → n ≤ depth →
      node.height = node.expr.height → node.height ≤ limit → rest.head = .ok u →
      Accounts limit depth .atom us rest (f node rest)) :
    Accounts limit depth .atom before s
      ((do let node ← Parse.expression limit inner
           Parse.expect .rightParen
           f node : Parse Stream Node) s) := by
  refine .bind (reads_expression hinner hnext)
    (fun ts outlook h => ⟨_, hpartial h, fun _ _ => Blames.within_one⟩) ?_
  rintro node ts rest u ⟨⟨n, hn, hderives⟩, hheight, hlimit⟩ hu hend
  refine .expect hu (by decide) (hpartial (.whole hderives)) (fun hmiss => ?_) (fun hclosing => ?_)
    fun hclosing rest' v hv => ?_
  -- the expression inside would have gone on over any operator that may come
  · exact ⟨Nonterminal.step_eq_none_of_not_extends hend hmiss, by decide, rfl⟩
  · rw [List.append_assoc]
    exact ⟨_, .whole (hwhole hderives hclosing)⟩
  · rw [List.append_assoc]
    exact hf (hwhole hderives hclosing) hn hheight hlimit hv

variable {s : Stream} {next : Token}

/-- A reader of atoms is run only where no sign stands. -/
theorem accounts_atom (hinner : Reads limit depth .factor inner) (hnext : s.head = .ok next)
    (hsign : ¬next.kind.isSign) : Accounts limit depth .atom [] s (Parse.atom limit inner s) := by
  rw [Parse.atom, Parse.peek_bind hnext]
  split
  case isTrue hfunction =>
    obtain ⟨f, hname⟩ := Kind.isFunction_iff.1 hfunction
    refine .advance hnext (by simp [hname]) (.name hname) fun rest u hu => ?_
    refine .expect hu (by decide) (.name hname) (fun hmiss => ?_) (fun hopening => ?_)
      fun hopening rest' v hv => ?_
    -- behind a name nothing but an opening parenthesis may come
    · refine ⟨?_, by decide, rfl⟩
      cases hkind : u.kind <;> first | rfl | exact absurd hkind hmiss
    · exact ⟨_, .application hname hopening (.start .complexExpr)⟩
    · refine accounts_parenthesized (.application next) hinner hv ?_ ?_ ?_
      · exact fun ts outlook h => .application hname hopening h
      · exact fun ts e n closing h hclosing => .application hname hopening h hclosing
      · intro node us n rest w h hn hheight hlimit hw
        exact .checked h hn (by simp [Node.application, Expr.height, hheight]) hw
          (Nonterminal.not_extends_atom _)
  case isFalse hfunction =>
    split
    case isTrue hopening =>
      refine .advance hnext (by simp [hopening])
        (.parentheses hopening (.start .complexExpr)) fun rest u hu => ?_
      refine accounts_parenthesized id hinner hu ?_ ?_ ?_
      · exact fun ts outlook h => .parentheses hopening h
      · exact fun ts e n closing h hclosing => .parentheses hopening h hclosing
      · intro node us n rest w h hn hheight hlimit hw
        exact .of_within ⟨⟨n, hn, h⟩, hheight, hlimit⟩ hw (Nonterminal.not_extends_atom _)
    case isFalse hopening =>
      split
      case isTrue hliteral =>
        have hkind := Kind.isLiteral_iff.1 hliteral
        have hderives : Derives .atom [next] (.literal next) 0 := .literal hkind
        refine .advance hnext (by rcases hkind with h | h <;> simp [h]) (.whole hderives) ?_
        intro rest u hu
        exact .of_within ⟨⟨0, Nat.zero_le _, hderives⟩, rfl, Nat.zero_le _⟩ hu
          (Nonterminal.not_extends_atom _)
      case isFalse hliteral =>
        have hstep := Outlook.step_operand_eq_none 0 hfunction hopening hliteral hsign
        exact .of_blames (.start .atom) (.grammar hnext hstep (by decide))

/-- A reader of powers is run only where no sign stands. -/
theorem accounts_power (hinner : Reads limit depth .factor inner) (hnext : s.head = .ok next)
    (hsign : ¬next.kind.isSign) : Accounts limit depth .power [] s (Parse.power limit inner s) := by
  rw [Parse.power]
  refine .bind (accounts_atom hinner hnext hsign)
    (fun ts outlook h => ⟨outlook, .base h, fun _ _ => id⟩) ?_
  rintro base ts rest u ⟨⟨m, hm, hbase⟩, hheight, hlimit⟩ hu hend
  rw [Parse.peek_bind hu, List.nil_append]
  split
  case isTrue hop =>
    refine .advance hu (by simp [hop]) (.exponent hbase hop (.start .factor)) fun rest' v hv => ?_
    refine .bind (hinner hv) (fun us outlook h => ⟨outlook, ?_, fun _ _ => id⟩) ?_
    · simpa using Partial.exponent hbase hop h
    rintro exponent us rest'' w ⟨⟨n, hn, hexponent⟩, hheight', hlimit'⟩ hw hend'
    rw [List.append_assoc, List.singleton_append]
    exact .checked (.exponent hbase hop hexponent) (Nat.max_le.2 ⟨hm, hn⟩)
      (by simp [Node.binary, Expr.height, hheight, hheight']) hw hend'
  case isFalse hop =>
    -- an atom cannot be gone on by anything but the operator that was looked for
    refine .of_within ⟨⟨m, hm, .base hbase⟩, hheight, hlimit⟩ hu ?_
    rintro ⟨o, ho, hkind⟩
    obtain rfl : o = .power := by simpa [Nonterminal.extensions] using ho
    exact hop hkind

/-- An account of a power is one of a factor. -/
theorem Accounts.unsigned {result : EStateM.Result Failure Stream Node}
    (h : Accounts limit depth .power [] s result) :
    Accounts limit (depth + 1) .factor [] s result := by
  cases h with
  | ok hs h hu hend =>
    obtain ⟨⟨n, hn, hpower⟩, hheight, hlimit⟩ := h
    exact .ok hs ⟨⟨n + 1, Nat.succ_le_succ hn, .unsigned hpower⟩, hheight, hlimit⟩ hu hend
  | error hs h hblame => exact .error hs (.unsigned h) hblame

theorem reads_signed (hinner : Reads limit depth .factor inner) :
    Reads limit (depth + 1) .factor (Parse.signed limit inner) := by
  intro s next hnext
  rw [Parse.signed, Parse.peek_bind hnext]
  split
  case isTrue hsign =>
    obtain ⟨o, ho, hop⟩ := Kind.isSign_iff.1 hsign
    refine .advance hnext (by simp [hop]) (.sign hop ho (.start .factor)) fun rest u hu => ?_
    refine .bind (hinner hu) (fun ts outlook h => ⟨outlook, .sign hop ho h, fun _ _ => id⟩) ?_
    rintro operand ts rest' v ⟨⟨n, hn, h⟩, hheight, hlimit⟩ hv hend
    exact .checked (.sign hop ho h) (Nat.succ_le_succ hn)
      (by simp [Node.unary, Expr.height, hheight]) hv hend
  case isFalse hsign => exact .unsigned (accounts_power hinner hnext hsign)

/-- A factor that may hold `depth - 1` others is derived with at most `depth` of them. -/
theorem reads_factor (limit depth : Nat) :
    Reads limit depth .factor (Parse.factor limit depth) := by
  -- every factor inside another one is read with one less to go
  induction depth with
  | zero =>
    intro s next hnext
    rw [Parse.factor, Parse.peek_bind hnext, Parse.tooDeep_apply]
    exact .of_blames (.start .factor) (.tooDeep _)
  | succ depth ih => exact reads_signed ih

end Reckoner
