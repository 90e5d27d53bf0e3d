import Reckoner.Proofs.Acceptance
import Reckoner.Proofs.Places

/-!
# The verdict on a text

Except where a limit is passed, whether a text is read as an expression, and with which failure if
it is not, can be told from the tokens one after another, by the outlook behind each of them. No
tree is needed for that.

## Main definitions

* `Outlook.verdict`: the failure that is due when an expression is read on from an outlook.

## Main results

* `parse_cases`: the result of reading a text, by the verdict on its tokens;
* `Outlook.verdict_alike`: streams that are alike have verdicts that are alike.
-/

namespace Reckoner

/-- The failure that is due when an expression is read on from an outlook, if one is. -/
def Outlook.verdict (outlook : Outlook) : List Token → Stop → Option Failure
  | t :: ts, stop =>
    match outlook.step t.kind with
    | some next => next.verdict ts stop
    | none => some (.grammar (outlook.complaint t))
  | [], .failure error => some (.lexical error)
  | [], .endOfInput length =>
    if outlook = .complete then none else some (.grammar (outlook.complaint (.endOfInput length)))

/-- The failure that is due when a stream is read as an expression, if one is. -/
def Stream.verdict (s : Stream) : Option Failure :=
  Outlook.verdict ⟨.operand, 0⟩ s.tokens s.stop

namespace Outlook

variable {outlook next : Outlook} {stop : Stop}

theorem verdict_cons_of_some {t : Token} (h : outlook.step t.kind = some next) (ts : List Token)
    (stop : Stop) : outlook.verdict (t :: ts) stop = next.verdict ts stop := by
  rw [verdict, h]

theorem verdict_cons_of_none {t : Token} (h : outlook.step t.kind = none) (ts : List Token)
    (stop : Stop) : outlook.verdict (t :: ts) stop = some (.grammar (outlook.complaint t)) := by
  rw [verdict, h]

/-- Tokens that may come where they stand lead to the verdict on the rest. -/
theorem verdict_append {ts : List Token} (h : outlook.run ts = some next) (us : List Token)
    (stop : Stop) : outlook.verdict (ts ++ us) stop = next.verdict us stop := by
  induction ts generalizing outlook with
  | nil =>
    obtain rfl := Option.some.inj h
    rfl
  | cons t ts ih =>
    rw [run_cons] at h
    obtain ⟨outlook', hstep, hrun⟩ := Option.bind_eq_some_iff.1 h
    rw [List.cons_append, verdict_cons_of_some hstep, ih hrun]

variable {R : Span → Span → Prop}

theorem complaint_alike {t u : Token} (h : t.Alike R u) (outlook : Outlook) :
    (outlook.complaint t).Alike R (outlook.complaint u) := by
  obtain ⟨place, n⟩ := outlook
  cases place with
  | operand => exact .missingOperand h
  | opening => exact .missingToken h
  | operator =>
    cases n with
    | zero => exact .leftover h
    | succ n => exact .missingToken h

/-- The verdict depends on what a stream says only. -/
theorem verdict_alike {s s' : Stream} (h : s.Alike R s') (outlook : Outlook) :
    Option.Rel (Failure.Alike R) (outlook.verdict s.tokens s.stop)
      (outlook.verdict s'.tokens s'.stop) := by
  obtain ⟨ts, stop⟩ := s
  obtain ⟨us, stop'⟩ := s'
  obtain ⟨htokens, hstop⟩ := h
  dsimp only at htokens hstop ⊢
  induction htokens generalizing outlook with
  | nil =>
    cases hstop with
    | failure h => exact .some (.lexical h)
    | @endOfInput length length' h =>
      have hend : (Token.endOfInput length).Alike R (.endOfInput length') := ⟨rfl, rfl, h⟩
      rw [verdict, verdict]
      split
      · exact .none
      · exact .some (.grammar (complaint_alike hend outlook))
  | @cons t u ts us h _ ih =>
    cases hstep : outlook.step t.kind with
    | none =>
      rw [verdict_cons_of_none hstep, verdict_cons_of_none (h.kind_eq ▸ hstep)]
      exact .some (.grammar (complaint_alike h outlook))
    | some next =>
      rw [verdict_cons_of_some hstep, verdict_cons_of_some (h.kind_eq ▸ hstep)]
      exact ih next

end Outlook

/-- A text that is read as an expression leaves nothing to complain about. -/
theorem verdict_of_parse_eq_ok {text : String} {e : Expr} (h : (parse text).result = .ok e) :
    (Stream.ofText text).verdict = none := by
  obtain ⟨ts, length, n, hs, hderives, -⟩ := exists_derives_of_parse_eq_ok h
  have hverdict := Outlook.verdict_append (hderives.run_eq 0) [] (.endOfInput length)
  rw [List.append_nil] at hverdict
  rw [hs, Stream.verdict, hverdict]
  rfl

/-- A text that is not read as an expression fails as its tokens say, or it is too deep. -/
theorem verdict_of_parse_eq_error {text : String} {failure : Failure}
    (h : (parse text).result = .error failure) :
    (Stream.ofText text).verdict = some failure ∨ ∃ span, failure = .grammar (.tooDeep span) := by
  obtain ⟨ts, ⟨us, stop⟩, outlook, hs, hpartial, hrefuses⟩ := exists_refuses_of_parse_eq_error h
  have hrun : Outlook.run ⟨.operand, 0⟩ ts = some outlook := hpartial.run_eq 0
  rw [hs, Stream.verdict, Stream.behind, Outlook.verdict_append hrun]
  cases hrefuses with
  | tooDeep span => exact .inr ⟨span, rfl⟩
  | lexical hhead =>
    -- an error comes next only where there are no tokens left
    cases us with
    | cons u us => cases hhead
    | nil =>
      cases stop with
      | endOfInput length => cases hhead
      | failure error =>
        obtain rfl := Except.error.inj hhead
        exact .inl rfl
  | @grammar found hhead hstep hend =>
    refine .inl ?_
    cases us with
    | cons u us =>
      obtain rfl : u = found := Except.ok.inj hhead
      exact Outlook.verdict_cons_of_none hstep us stop
    | nil =>
      cases stop with
      | failure error => cases hhead
      | endOfInput length =>
        obtain rfl := Except.ok.inj hhead
        exact if_neg (hend rfl)

/-- Reading a text comes to what its tokens say, unless it is too deep. -/
theorem parse_cases (text : String) :
    (∃ e, (parse text).result = .ok e ∧ (Stream.ofText text).verdict = none) ∨
      (∃ failure, (parse text).result = .error failure ∧
        (Stream.ofText text).verdict = some failure) ∨
      ∃ span, (parse text).result = .error (.grammar (.tooDeep span)) := by
  cases h : (parse text).result with
  | ok e => exact .inl ⟨e, rfl, verdict_of_parse_eq_ok h⟩
  | error failure =>
    rcases verdict_of_parse_eq_error h with hverdict | ⟨span, rfl⟩
    · exact .inr (.inl ⟨failure, rfl, hverdict⟩)
    · exact .inr (.inr ⟨span, rfl⟩)

end Reckoner
