import Reckoner.Proofs.Acceptance

/-!
# Where a failure is reported

A text that is no expression is refused at the first token that leaves no hope, or at the place
where no token can be read if there is hope up to there. What comes behind that place has no part in
it.

## Main definitions

* `GrammarError.found?`: the token that an error is about.

## Main results

* `failure_at_first_hopeless`: the tokens in front of a failure begin an expression, and those up to
  the token that it is about do not, even with the end of the text counted as a token.
-/

namespace Reckoner

/-- The token that an error is about. A limit is passed at a place, which need not be a token. -/
def GrammarError.found? : GrammarError → Option Token
  | missingToken _ found => some found
  | missingOperand found => some found
  | leftover found => some found
  | tooDeep _ => none

/-- The span of an error is that of the token that it is about. -/
theorem GrammarError.span_of_found? {error : GrammarError} {found : Token}
    (h : error.found? = some found) : error.span = found.span := by
  cases error <;> cases h <;> rfl

theorem Outlook.found?_complaint (outlook : Outlook) (found : Token) :
    (outlook.complaint found).found? = some found := by
  obtain ⟨place, n⟩ := outlook
  cases place <;> cases n <;> rfl

/-- What begins an expression leaves hope. -/
theorem Viable.hopeful {ts : List Token} (h : Viable ts) : Hopeful ts := by
  obtain ⟨us, hsentence⟩ := h
  exact ⟨ts ++ us, 0, hsentence, by simp⟩

/-- The beginning of what leaves hope does so as well. -/
theorem Hopeful.of_prefix {ts us : List Token} (h : Hopeful us) (hbegin : ts <+: us) :
    Hopeful ts := by
  obtain ⟨vs, length, hsentence, hvs⟩ := h
  exact ⟨vs, length, hsentence, hbegin.trans hvs⟩

namespace Stream

theorem listing_behind (ts : List Token) (rest : Stream) :
    (rest.behind ts).listing = ts ++ rest.listing := by
  simp [listing, behind, ending]

/-- The token that comes next is the first one of the listing. -/
theorem listing_of_head {s : Stream} {t : Token} (h : s.head = .ok t) :
    ∃ ts, s.listing = t :: ts := by
  obtain ⟨tokens, stop⟩ := s
  cases tokens with
  | cons u us =>
    obtain rfl : u = t := Except.ok.inj h
    exact ⟨_, rfl⟩
  | nil =>
    cases stop with
    | failure error => cases h
    | endOfInput length =>
      obtain rfl : Token.endOfInput length = t := Except.ok.inj h
      exact ⟨[], rfl⟩

/-- No token comes next only behind the last one. -/
theorem eq_of_head_error {s : Stream} {error : LexicalError} (h : s.head = .error error) :
    s = ⟨[], .failure error⟩ := by
  obtain ⟨tokens, stop⟩ := s
  cases tokens with
  | cons u us => cases h
  | nil =>
    cases stop with
    | endOfInput length => cases h
    | failure error' =>
      obtain rfl : error' = error := Except.error.inj h
      rfl

end Stream

/-- Whether two results agree can be decided. -/
instance decidableEqResult {α β : Type} [DecidableEq α] [DecidableEq β] : DecidableEq (Except α β)
  | .ok a, .ok b => decidable_of_iff (a = b) (by simp)
  | .error a, .error b => decidable_of_iff (a = b) (by simp)
  | .ok _, .error _ | .error _, .ok _ => isFalse nofun

/-- A text that is no expression, though not for its depth, fails behind `k` tokens that begin an
expression. Either no more tokens can be read there, or the next token is the one that the error is
about, and the first with which the tokens do not begin an expression with the end behind it. -/
theorem failure_at_first_hopeless (text : String) (failure : Failure)
    (h : (parse text).result = .error failure)
    (hdeep : ∀ span, failure ≠ .grammar (.tooDeep span)) :
    ∃ k, Viable ((Stream.ofText text).listing.take k) ∧
      ((∃ error, failure = .lexical error ∧ (Stream.ofText text).stop = .failure error ∧
          k = (Stream.ofText text).tokens.length) ∨
        (∃ error found, failure = .grammar error ∧ error.found? = some found ∧
          failure.span = found.span ∧ (Stream.ofText text).listing[k]? = some found ∧
          ∀ j, Hopeful ((Stream.ofText text).listing.take j) ↔ j ≤ k)) := by
  obtain ⟨ts, rest, outlook, hs, hpartial, hrefuses⟩ := exists_refuses_of_parse_eq_error h
  rw [hs, Stream.listing_behind]
  refine ⟨ts.length, by simpa using hpartial.viable, ?_⟩
  cases hrefuses with
  | tooDeep span => exact absurd rfl (hdeep span)
  | @lexical error hhead =>
    obtain rfl := Stream.eq_of_head_error hhead
    exact .inl ⟨error, rfl, rfl, by simp [Stream.behind]⟩
  | @grammar found hhead hstep hend =>
    have hfound := outlook.found?_complaint found
    obtain ⟨us, hlisting⟩ := Stream.listing_of_head hhead
    have hhopeless : ¬Hopeful (ts ++ [found]) :=
      not_hopeful_of_step_eq_none (by simpa using hpartial.run_eq 0) hstep hend
    refine .inr ⟨_, found, rfl, hfound, GrammarError.span_of_found? hfound, by simp [hlisting],
      fun j => ⟨fun hopeful => Nat.le_of_not_lt fun hlt => ?_, fun hle => ?_⟩⟩
    -- the first `j` tokens take in the one that leaves no hope
    · refine hhopeless (hopeful.of_prefix ?_)
      have htake : ts ++ [found] = (ts ++ rest.listing).take (ts.length + 1) := by
        rw [List.take_append, List.take_of_length_le (Nat.le_succ _)]
        simp [hlisting]
      rw [htake]
      exact List.take_prefix_take_left hlt
    -- the first `j` tokens are among those that begin an expression
    · refine hpartial.viable.hopeful.of_prefix ?_
      rw [List.take_append_of_le_length hle]
      exact List.take_prefix j ts

/-- A character that begins no token does not hide the leftover in front of it. -/
theorem failure_at_leftover :
    (parse "(1) 2 @").result = .error (.grammar (.leftover ⟨.number, "2.0", ⟨4, 1⟩⟩)) ∧
      ∃ k, Viable ((Stream.ofText "(1) 2 @").listing.take k) ∧
        ∀ j, Hopeful ((Stream.ofText "(1) 2 @").listing.take j) ↔ j ≤ k := by
  have h : (parse "(1) 2 @").result =
      .error (.grammar (.leftover ⟨.number, "2.0", ⟨4, 1⟩⟩)) := by decide +kernel
  obtain ⟨k, hviable, ⟨_, hlexical, -⟩ | ⟨_, _, -, -, -, -, hfirst⟩⟩ :=
    failure_at_first_hopeless "(1) 2 @" _ h nofun
  · cases hlexical
  · exact ⟨h, k, hviable, hfirst⟩

end Reckoner
