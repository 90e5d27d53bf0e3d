import Reckoner.Proofs.Reading.Account
import Reckoner.Proofs.Reading.Complete

/-!
# Reading a whole text

What `Parse.whole` comes to on a stream, from what the readers leave behind and what they accept.

## Main results

* `derives_of_whole_eq_ok`: a tree that is read is derived from all tokens of the stream;
* `whole_of_derives`: what can be derived is read, or one of the limits is passed;
* `concludes_whole`: a failure is due behind a partial derivation of an expression.
-/

namespace Reckoner

namespace Stream

/-- The tokens of a text stand for no end of it. -/
theorem kind_ne_endOfInput_of_mem_scanFrom {seen : List Token} {cursor : Cursor}
    (hseen : ∀ t ∈ seen, t.kind ≠ .endOfInput) :
    ∀ t ∈ (scanFrom seen cursor).tokens, t.kind ≠ .endOfInput := by
  induction hk : cursor.rest.length using Nat.strongRecOn generalizing seen cursor with
  | ind k ih =>
    rw [scanFrom]
    split
    next error next hscan => simpa using hseen
    next token next hscan =>
      split
      case isTrue => simpa using hseen
      case isFalse hkind =>
        refine ih _ (hk ▸ Cursor.length_rest_lt_of_scan hscan hkind) ?_ rfl
        simpa [hkind] using hseen

theorem kind_ne_endOfInput_of_mem {text : String} :
    ∀ t ∈ (ofText text).tokens, t.kind ≠ .endOfInput :=
  kind_ne_endOfInput_of_mem_scanFrom (by simp)

/-- Nothing comes behind what stands for the end of the text, which is none of the tokens. -/
theorem eq_nil_of_head_endOfInput {s rest : Stream} {ts : List Token} {next : Token}
    (hkinds : ∀ t ∈ s.tokens, t.kind ≠ .endOfInput) (hs : s = rest.behind ts)
    (hnext : rest.head = .ok next) (hend : next.kind = .endOfInput) :
    ∃ length, rest = ⟨[], .endOfInput length⟩ := by
  obtain ⟨tokens, stop⟩ := rest
  cases tokens with
  | cons t us =>
    obtain rfl : t = next := Except.ok.inj hnext
    exact absurd hend (hkinds t (by simp [hs, behind]))
  | nil =>
    cases stop with
    | failure error => cases hnext
    | endOfInput length => exact ⟨length, rfl⟩

end Stream

/-- The failures of reading a whole text that stops at an outlook in front of `rest`. -/
inductive Refuses (outlook : Outlook) (rest : Stream) : Failure → Prop
  /-- The next token cannot be read. -/
  | lexical {error : LexicalError} (hhead : rest.head = .error error) :
      Refuses outlook rest (.lexical error)
  /-- The next token may not come. It may be the end of the text. -/
  | grammar {found : Token} (hhead : rest.head = .ok found)
      (hstep : outlook.step found.kind = none)
      (hend : found.kind = .endOfInput → outlook ≠ .complete) :
      Refuses outlook rest (.grammar (outlook.complaint found))
  /-- A limit is passed. -/
  | tooDeep (span : Span) : Refuses outlook rest (.grammar (.tooDeep span))

theorem Blames.refuses {outlook : Outlook} {rest : Stream} {failure : Failure}
    (h : Blames outlook rest failure) : Refuses outlook rest failure := by
  cases h with
  | lexical hhead => exact .lexical hhead
  | grammar hhead hstep hopen => exact .grammar hhead hstep fun _ => hopen
  | tooDeep span => exact .tooDeep span

namespace Parse

variable {limit : Nat} {s rest : Stream}

/-- Without a first token nothing is read. -/
theorem factor_of_head_error {depth : Nat} {error : LexicalError} (h : s.head = .error error) :
    factor limit depth s = .error (.lexical error) s := by
  cases depth with
  | zero => exact bind_of_error (peek_of_head_error h)
  | succ depth => exact bind_of_error (peek_of_head_error h)

theorem expression_of_head_error {depth : Nat} {error : LexicalError} (h : s.head = .error error) :
    expression limit (factor limit depth) s = .error (.lexical error) s := by
  have hcovers : Nonterminal.complexExpr.Covers .factor :=
    Nonterminal.covers_factor (by decide) (by decide)
  exact Nonterminal.reader_of_covers hcovers (factor_of_head_error h)

/-- What reading a whole text may come to. -/
inductive Concludes (limit : Nat) (s : Stream) : EStateM.Result Failure Stream Expr → Prop
  /-- All tokens in front of one that stands for the end have been read. -/
  | ok {e : Expr} {rest : Stream} {ts : List Token} {n : Nat} {next : Token}
      (hs : s = rest.behind ts) (h : Derives .complexExpr ts e n) (hn : n ≤ limit)
      (hlimit : e.height ≤ limit) (hnext : rest.head = .ok next) (hend : next.kind = .endOfInput) :
      Concludes limit s (.ok e rest)
  /-- A part of an expression has been read, and the failure is due behind it. -/
  | error {failure : Failure} {rest : Stream} {ts : List Token} {outlook : Outlook}
      (hs : s = rest.behind ts) (h : Partial .complexExpr ts outlook)
      (hrefuses : Refuses outlook rest failure) : Concludes limit s (.error failure rest)

theorem concludes_whole (limit : Nat) (s : Stream) : Concludes limit s (whole limit s) := by
  rw [whole]
  cases hhead : s.head with
  | error error =>
    rw [bind_of_error (expression_of_head_error hhead)]
    exact .error (Stream.behind_nil s).symm (.start .complexExpr) (.lexical hhead)
  | ok first =>
    have haccount := reads_expression (reads_factor limit limit) hhead
    cases hresult : expression limit (factor limit limit) s with
    | error failure rest =>
      rw [bind_of_error hresult]
      rw [hresult] at haccount
      cases haccount with
      | error hs h hblame => exact .error hs h hblame.refuses
    | ok node rest =>
      rw [bind_of_ok hresult]
      rw [hresult] at haccount
      cases haccount with
      | @ok _ _ ts next hs h hnext hend =>
        obtain ⟨⟨n, hn, hderives⟩, hheight, hlimit⟩ := h
        rw [peek_bind hnext]
        split
        case isTrue hkind => exact .ok hs hderives hn (hheight ▸ hlimit) hnext hkind
        case isFalse hkind =>
          -- nothing may come behind a whole expression, not even a closing parenthesis
          have hstep : Outlook.complete.step next.kind = none := by
            by_cases hclosing : next.kind = .rightParen
            · rw [hclosing]
              rfl
            · exact Nonterminal.step_eq_none_of_not_extends hend hclosing
          exact .error hs (.whole hderives) (.grammar hnext hstep (absurd · hkind))

/-- A tree that is read is derived, within the limits, from all tokens of a stream that ends. -/
theorem derives_of_whole_eq_ok {e : Expr} (hkinds : ∀ t ∈ s.tokens, t.kind ≠ .endOfInput)
    (h : whole limit s = .ok e rest) :
    ∃ length n, s = ⟨s.tokens, .endOfInput length⟩ ∧ Derives .complexExpr s.tokens e n ∧
      n ≤ limit ∧ e.height ≤ limit := by
  have hconcludes := concludes_whole limit s
  rw [h] at hconcludes
  cases hconcludes with
  | @ok _ _ ts n next hs hderives hn hlimit hnext hend =>
    obtain ⟨length, rfl⟩ := Stream.eq_nil_of_head_endOfInput hkinds hs hnext hend
    subst hs
    exact ⟨length, n, rfl, by simpa [Stream.behind] using hderives, hn, hlimit⟩

/-- What can be derived is read if it is within the limits, and is too deep if it is not. -/
theorem whole_of_derives (limit length : Nat) {ts : List Token} {e : Expr} {n : Nat}
    (h : Derives .complexExpr ts e n) :
    (n ≤ limit ∧ e.height ≤ limit ∧
      whole limit (⟨ts, .endOfInput length⟩ : Stream) = .ok e ⟨[], .endOfInput length⟩) ∨
    ((limit < n ∨ limit < e.height) ∧ ∃ span rest,
      whole limit (⟨ts, .endOfInput length⟩ : Stream) =
        .error (.grammar (.tooDeep span)) rest) := by
  have hnext : Stream.head ⟨[], .endOfInput length⟩ = .ok (.endOfInput length) := rfl
  have hs : (⟨ts, .endOfInput length⟩ : Stream) = Stream.behind ts ⟨[], .endOfInput length⟩ := by
    simp [Stream.behind]
  have hsettles : Derives.Settles limit limit _ e n _ _ :=
    h.settled limit hnext (Nonterminal.not_extends_endOfInput _)
  rw [Nonterminal.reader_complexExpr] at hsettles
  rw [hs, whole]
  rcases hsettles with ⟨hn, hlimit, h⟩ | ⟨hbeyond, span, rest, h⟩
  · rw [Nonterminal.goOn_of_not_extends hnext (Nonterminal.not_extends_endOfInput _)] at h
    refine .inl ⟨hn, hlimit, ?_⟩
    rw [bind_of_ok h, peek_bind hnext]
    rfl
  · exact .inr ⟨hbeyond, span, rest, bind_of_error h⟩

end Parse

end Reckoner
