import Reckoner.Proofs.Stack.Breaks
import Reckoner.Proofs.Seams

/-!
# Where a limit is passed

A text that is too deep is so at the first place where a limit is broken. The most frequent case is
a chain: every operator of it makes the tree one higher, so that a chain of literals with one
operator too many fails at this operator, once the operand behind it has been read, and whatever
comes next unless it goes this operand on.

## Main definitions

* `Level.BindsLooser level o`: the operator binds tighter than those of the level;
* `Level.Links level links`: operators of a level, each with a literal behind it.

## Main results

* `Derives.exists_links`: the derivation of a chain, and the height of its tree;
* `Parse.reader_of_links`: a chain with one operator too many fails at this operator;
* `tooDeep_at_first_break`: where reading a text passes a limit.
-/

namespace Reckoner

/-! ### Levels -/

namespace Level

/-- The operator binds tighter than those of the level. -/
def BindsLooser (level : Level) (o : Operator) : Prop :=
  o = .power ∨ ∃ tighter ∈ Level.all, level.index < tighter.index ∧ o ∈ tighter.operators

instance (level : Level) : DecidablePred level.BindsLooser :=
  fun o => inferInstanceAs (Decidable (o = .power ∨ _))

/-- The operators that bind tighter are those that go an operand of the level on. -/
theorem bindsLooser_iff (level : Level) (o : Operator) :
    level.BindsLooser o ↔ o ∈ level.nonterminal.operand.extensions := by
  cases level <;> cases o <;> decide

theorem fold?_nonterminal (level : Level) :
    level.nonterminal.fold? = some (level.operators, level.nonterminal.operand) := by
  cases level <;> rfl

/-- The expressions are above each level. -/
theorem complexExpr_covers (level : Level) : Nonterminal.complexExpr.Covers level.nonterminal := by
  apply Nonterminal.complexExpr_covers
  all_goals cases level <;> decide

/-- The operands of each level are above the factors. -/
theorem covers_factor (level : Level) : level.nonterminal.operand.Covers .factor := by
  apply Nonterminal.covers_factor
  all_goals cases level <;> decide

end Level

/-- Operators of a level, each with a literal behind it. -/
def Level.Links (level : Level) (links : List (Token × Token)) : Prop :=
  ∀ link ∈ links, level.holds link.1.kind ∧ link.2.kind.isLiteral

/-- The tokens of a chain: a literal, and the links behind it. -/
def chainTokens (first : Token) (links : List (Token × Token)) : List Token :=
  first :: links.flatMap fun link => [link.1, link.2]

/-- A literal is an expression of a level, and an operand of it, with no factor inside another. -/
theorem Level.derives_literal (level : Level) {t : Token} (h : t.kind.isLiteral) :
    Derives level.nonterminal [t] (.literal t) 1 ∧
      Derives level.nonterminal.operand [t] (.literal t) 1 := by
  have hatom : Derives .atom [t] (.literal t) 0 := .literal (Kind.isLiteral_iff.1 h)
  have hfactor : Derives .factor [t] (.literal t) 1 := .unsigned (.base hatom)
  have hoperand := hfactor.of_covers level.covers_factor
  exact ⟨.operand level.fold?_nonterminal hoperand, hoperand⟩

/-- Links behind an expression of a level make its tree higher by one each. -/
theorem Derives.append_links {level : Level} {links : List (Token × Token)}
    (h : level.Links links) {ts : List Token} {e : Expr}
    (hleft : Derives level.nonterminal ts e 1) :
    ∃ e', Derives level.nonterminal (ts ++ links.flatMap fun link => [link.1, link.2]) e' 1 ∧
      e'.height = e.height + links.length := by
  induction links generalizing ts e with
  | nil => exact ⟨e, by simpa using hleft, rfl⟩
  | cons link links ih =>
    obtain ⟨⟨hholds, hliteral⟩, hrest⟩ := List.forall_mem_cons.1 h
    obtain ⟨o, ho, hop⟩ := Level.holds_iff.1 hholds
    have hfold :=
      Derives.fold level.fold?_nonterminal hleft hop ho (level.derives_literal hliteral).2
    obtain ⟨e', he', hheight⟩ := ih hrest hfold
    refine ⟨e', by simpa using he', ?_⟩
    rw [hheight, Expr.height, Expr.height, List.length_cons]
    omega

/-- The derivation of a chain. -/
theorem Derives.exists_links {level : Level} {first : Token} {links : List (Token × Token)}
    (hfirst : first.kind.isLiteral) (h : level.Links links) :
    ∃ e, Derives level.nonterminal (chainTokens first links) e 1 ∧ e.height = links.length := by
  obtain ⟨e, he, hheight⟩ := (level.derives_literal hfirst).1.append_links h
  exact ⟨e, he, by simpa [Expr.height] using hheight⟩

namespace Parse

variable {limit depth : Nat} {level : Level} {rest : Stream} {next : Token}

/-- A literal operand of a level is read, and nothing but it, unless an operator that binds tighter
comes next. -/
theorem operand_of_isLiteral {t : Token} (h : t.kind.isLiteral) (hnext : rest.head = .ok next)
    (hend : ¬level.nonterminal.operand.Extends next.kind) :
    level.nonterminal.operand.reader limit (factor limit (depth + 1)) (rest.behind [t]) =
      .ok (.literal t) rest := by
  have hsettles : Derives.Settles limit (depth + 1) level.nonterminal.operand (.literal t) 1 rest
      _ :=
    (level.derives_literal h).2.settled limit hnext fun hext =>
      hend (Nonterminal.extends_of_operand hext)
  rcases hsettles with ⟨-, -, hread⟩ | ⟨hbeyond, -⟩
  · rw [hread, Nonterminal.goOn_of_not_extends hnext hend]
    rfl
  · rw [Expr.height] at hbeyond
    omega

/-- A chain with one operator too many fails at this operator. -/
theorem reader_of_links {first op last : Token} {links : List (Token × Token)}
    (hfirst : first.kind.isLiteral) (hlinks : level.Links links) (hlength : links.length = limit)
    (hop : level.holds op.kind) (hlast : last.kind.isLiteral) (hnext : rest.head = .ok next)
    (hend : ¬level.nonterminal.operand.Extends next.kind) :
    level.nonterminal.reader limit (factor limit (depth + 1))
        (rest.behind (chainTokens first links ++ [op, last])) =
      .error (.grammar (.tooDeep op.span)) rest := by
  obtain ⟨e, hderives, hheight⟩ := Derives.exists_links hfirst hlinks
  obtain ⟨level', hoperators, hgoOn, -⟩ :=
    Nonterminal.exists_level level.fold?_nonterminal limit (factor limit (depth + 1))
  obtain ⟨o, ho, hkind⟩ := Level.holds_iff.1 hop
  -- the last operator is none of those that go an operand on
  have hop' : ¬level.nonterminal.operand.Extends op.kind := by
    rw [hkind, Nonterminal.extends_operator_iff]
    exact Nonterminal.not_mem_extensions_of_fold? level.fold?_nonterminal ho
  have hholds : level'.holds op.kind := Level.holds_iff.2 ⟨o, hoperators ▸ ho, hkind⟩
  have hsettles : Derives.Settles limit (depth + 1) level.nonterminal e 1
      (rest.behind [op, last]) _ :=
    hderives.settled limit (Stream.head_behind_cons op [last] rest) hop'
  rw [← Stream.behind_behind]
  rcases hsettles with ⟨-, -, hread⟩ | ⟨hbeyond, -⟩
  · rw [hread, hgoOn, Stream.behind_cons,
      chain_of_holds hholds (Stream.head_behind_cons last [] rest),
      bind_of_ok (operand_of_isLiteral hlast hnext hend), if_neg, tooDeep_apply]
    -- the tree in hand is as high as it may be
    simp only [Node.binary, Node.literal]
    omega
  · omega

end Parse

/-- A text that begins with a chain that has one operator too many is too deep at this operator. -/
theorem parse_of_links {text : String} {level : Level} {first next : Token}
    {links : List (Token × Token)} {rest : Stream} (hlength : links.length = depthLimit + 1)
    (hs : Stream.ofText text = rest.behind (chainTokens first links))
    (hfirst : first.kind.isLiteral) (hlinks : level.Links links) (hnext : rest.head = .ok next)
    (hend : ∀ o, next.kind = .operator o → ¬level.BindsLooser o) :
    (parse text).result = .error (.grammar (.tooDeep links[depthLimit].1.span)) := by
  have hend' : ¬level.nonterminal.operand.Extends next.kind := by
    rintro ⟨o, ho, hkind⟩
    exact hend o hkind ((level.bindsLooser_iff o).2 ho)
  -- the last link is the one that is too many
  have hne : links ≠ [] := List.ne_nil_of_length_eq_add_one hlength
  obtain ⟨front, ⟨op, last⟩, rfl⟩ : ∃ front last, links = front ++ [last] :=
    ⟨links.dropLast, links.getLast hne, (List.dropLast_concat_getLast hne).symm⟩
  have hfront : front.length = depthLimit := by simpa using hlength
  obtain ⟨hlinks, hlink⟩ := List.forall_mem_append.1 hlinks
  obtain ⟨hop, hlast⟩ := List.forall_mem_singleton.1 hlink
  have htokens : chainTokens first (front ++ [(op, last)]) =
      chainTokens first front ++ [op, last] := by
    simp [chainTokens]
  have hread : Parse.expression depthLimit (Parse.factor depthLimit depthLimit)
      (rest.behind (chainTokens first front ++ [op, last])) =
        .error (.grammar (.tooDeep op.span)) rest :=
    Nonterminal.reader_of_covers level.complexExpr_covers
      (Parse.reader_of_links hfirst hlinks hfront hop hlast hnext hend')
  rw [parse, Stream.parse_result, hs, htokens, Parse.whole, Parse.bind_of_error hread]
  simp [hfront]

/-- A text is too deep exactly if reading it, step by step and with any limit from the actual one
on, comes to a state that breaks the limit, and it is reported at the place where the first such
state breaks it: at the token where a factor would have to start inside as many others as there may
be, or at an operator or a function whose tree would be one too high with no tree below it too high.
So a text that begins with a chain of literals with one operator too many is too deep at this
operator, if the next token can be read and is no operator that binds tighter. -/
theorem tooDeep_at_first_break (text : String) :
    (∀ (limit : Nat) (span : Span), depthLimit ≤ limit →
      let moment := fun count => (Machine.start (Stream.ofText text)).run limit count
      ((parse text).result = .error (.grammar (.tooDeep span)) ↔
        ∃ count, (moment count).BreaksAt depthLimit span ∧
          ∀ earlier < count, ¬(moment earlier).Breaks depthLimit)) ∧
    ∀ (level : Level) (first next : Token) (links : List (Token × Token)) (rest : Stream)
      (hlength : links.length = depthLimit + 1),
      Stream.ofText text = rest.behind (chainTokens first links) →
      first.kind.isLiteral → level.Links links → rest.head = .ok next →
      (∀ o, next.kind = .operator o → ¬level.BindsLooser o) →
      (parse text).result = .error (.grammar (.tooDeep links[depthLimit].1.span)) := by
  refine ⟨fun limit span hle => ?_, fun level first next links rest hlength hs hfirst hlinks hnext
    hend => parse_of_links hlength hs hfirst hlinks hnext hend⟩
  have hsound := Machine.sound_start depthLimit (Stream.ofText text)
  have hmarked : (Machine.start (Stream.ofText text)).Marked := List.forall_mem_nil _
  rw [Machine.parse_tooDeep_iff_exists_fail]
  exact Machine.exists_fail_iff hsound hmarked (fun failure => nofun) hle

/-! ### A sum that is too long -/

/-- The constant, with a number of additions of itself behind it. -/
def sumText (count : Nat) : List Char :=
  'p' :: 'i' :: (List.replicate count ['+', 'p', 'i']).flatten

/-- The additions and the constants behind them. -/
def sumLinks (count : Nat) : List (Token × Token) :=
  (List.range count).map fun i =>
    (.ofKind (.operator .plus) ⟨3 * i + 2, 1⟩, ⟨.pi, Number.text piValue, ⟨3 * i + 3, 2⟩⟩)

theorem sumText_succ (count : Nat) : sumText (count + 1) = sumText count ++ '+' :: ['p', 'i'] := by
  simp [sumText, List.replicate_succ']

theorem utf8Length_sumText (count : Nat) : utf8Length (sumText count) = 3 * count + 2 := by
  induction count with
  | zero => decide
  | succ count ih =>
    rw [sumText_succ, utf8Length_append, ih]
    rfl

/-- The tokens of a sum. -/
theorem Stream.scanFrom_sumText (count : Nat) :
    scanFrom [] ⟨0, sumText count⟩ =
      ⟨chainTokens ⟨.pi, Number.text piValue, ⟨0, 2⟩⟩ (sumLinks count),
        .endOfInput (3 * count + 2)⟩ := by
  have hpi : ∀ offset, scanFrom [] ⟨offset, ['p', 'i']⟩ =
      ⟨[⟨.pi, Number.text piValue, ⟨offset, 2⟩⟩], .endOfInput (offset + 2)⟩ :=
    fun offset => scanFrom_lexeme (.pi (by decide)) rfl offset
  induction count with
  | zero => exact hpi 0
  | succ count ih =>
    have hsize : utf8Length ['+'] = 1 := by decide
    rw [sumText_succ, scanFrom_apart apart_plus (.operator .plus) rfl, ih, utf8Length_sumText, hpi,
      hsize]
    simp [andThen, behind, sumLinks, chainTokens, List.range_succ, Token.ofKind, Nat.mul_add]

/-- In a sum of 258 constants, the last addition makes the tree one too high, and no limit is broken
before. -/
theorem parse_sum_tooDeep :
    let text := String.ofList (sumText 257)
    (parse text).result = .error (.grammar (.tooDeep ⟨770, 1⟩)) ∧
      ∃ count, ((Machine.start (Stream.ofText text)).run depthLimit count).BreaksAt depthLimit
          ⟨770, 1⟩ ∧
        ∀ earlier < count,
          ¬((Machine.start (Stream.ofText text)).run depthLimit earlier).Breaks depthLimit := by
  intro text
  have hlength : (sumLinks 257).length = depthLimit + 1 := by simp [sumLinks, depthLimit]
  have hs : Stream.ofText text = Stream.behind
      (chainTokens ⟨.pi, Number.text piValue, ⟨0, 2⟩⟩ (sumLinks 257)) ⟨[], .endOfInput 773⟩ := by
    have hscan := Stream.scanFrom_sumText 257
    rw [Stream.ofText_ofList, hscan, Stream.behind, List.append_nil]
  have hlinks : Level.sum.Links (sumLinks 257) := by
    intro link hlink
    obtain ⟨i, -, rfl⟩ := List.mem_map.1 hlink
    exact ⟨rfl, rfl⟩
  have hparse : (parse text).result = .error (.grammar (.tooDeep ⟨770, 1⟩)) := by
    have hend : ∀ o, (Token.endOfInput 773).kind ≠ .operator o := by simp [Token.endOfInput]
    have hdeep := (tooDeep_at_first_break text).2 .sum _ (.endOfInput 773) _ _ hlength hs rfl hlinks
      rfl fun o ho => absurd ho (hend o)
    rw [hdeep]
    simp [sumLinks, depthLimit, Token.ofKind]
  exact ⟨hparse, ((tooDeep_at_first_break text).1 depthLimit _ (Nat.le_refl _)).1 hparse⟩

end Reckoner
