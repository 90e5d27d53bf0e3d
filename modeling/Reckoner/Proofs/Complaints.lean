import Reckoner.Proofs.CorrectPrefix
import Reckoner.Proofs.Substitution

/-!
# Which error it is

Behind some tokens, the last one says what has to come next, and the parentheses among them say
whether one is still to be closed. This decides which error is due at a token that may not come
there, however many readers have to give up before one of them reports it.

## Main definitions

* `Due before found error`: behind the tokens `before`, the error is due at the token `found`.

## Main results

* `Outlook.due_iff`: the error that is due is the one that the outlook gives;
* `due_iff_of_parse_eq_error`: it is the one that is reported.
-/

namespace Reckoner

/-- Behind the tokens `before`, the error is due at the token `found`. -/
inductive Due (before : List Token) (found : Token) : GrammarError → Prop
  /-- An operand has to come first. -/
  | first (h : before = []) : Due before found (.missingOperand found)
  /-- An operand has to come behind an operator and behind an opening parenthesis. -/
  | operand {last : Token} (h : before.getLast? = some last)
      (hlast : (∃ o, last.kind = .operator o) ∨ last.kind = .leftParen) :
      Due before found (.missingOperand found)
  /-- An opening parenthesis has to come behind the name of a function. -/
  | opening {last : Token} (h : before.getLast? = some last)
      (hlast : ∃ f, last.kind = .function f) : Due before found (.missingToken .leftParen found)
  /-- Behind an operand a parenthesis has to be closed if more are opened than closed. -/
  | closing {last : Token} (h : before.getLast? = some last)
      (hlast : last.kind = .number ∨ last.kind = .pi ∨ last.kind = .rightParen)
      (hopen : 0 < balance before) : Due before found (.missingToken .rightParen found)
  /-- Behind an operand the expression is complete if as many are opened as closed. -/
  | leftover {last : Token} (h : before.getLast? = some last)
      (hlast : last.kind = .number ∨ last.kind = .pi ∨ last.kind = .rightParen)
      (hclosed : balance before = 0) : Due before found (.leftover found)

/-- The tokens that may be missing are parentheses. -/
theorem Due.eq_leftParen_or_eq_rightParen {before : List Token} {found t : Token} {expected : Kind}
    (h : Due before found (.missingToken expected t)) :
    expected = .leftParen ∨ expected = .rightParen := by
  cases h with
  | opening => exact .inl rfl
  | closing => exact .inr rfl

namespace Kind

/-- The place behind a token of some kind. There is none behind the end of the text. -/
def place? : Kind → Option Place
  | .number | .pi | .rightParen => some .operator
  | .operator _ | .leftParen => some .operand
  | .function _ => some .opening
  | .endOfInput => none

variable {kind : Kind}

theorem place?_eq_operand_iff :
    kind.place? = some .operand ↔ (∃ o, kind = .operator o) ∨ kind = .leftParen := by
  cases kind <;> simp [place?]

theorem place?_eq_opening_iff : kind.place? = some .opening ↔ ∃ f, kind = .function f := by
  cases kind <;> simp [place?]

theorem place?_eq_operator_iff :
    kind.place? = some .operator ↔ kind = .number ∨ kind = .pi ∨ kind = .rightParen := by
  cases kind <;> simp [place?]

end Kind

namespace Outlook

variable {outlook next : Outlook}

theorem place?_of_step {kind : Kind} (h : outlook.step kind = some next) :
    kind.place? = some next.place := by
  obtain ⟨place, n⟩ := outlook
  cases kind with
  | operator o =>
    -- whether it may come depends on which operator it is, but not what has to come behind it
    cases place with
    | opening => cases h
    | operand | operator =>
      rw [step] at h
      split at h
      all_goals cases h
      rfl
  | rightParen =>
    cases place with
    | operand | opening => cases h
    | operator =>
      cases n with
      | zero => cases h
      | succ n =>
        obtain rfl := Option.some.inj h
        rfl
  | number | pi | function | leftParen | endOfInput =>
    cases place
    all_goals cases h
    all_goals rfl

/-- The last token decides the place behind some tokens. -/
theorem place?_of_run {ts : List Token} {last : Token} (h : outlook.run ts = some next)
    (hlast : ts.getLast? = some last) : last.kind.place? = some next.place := by
  obtain ⟨front, rfl⟩ := List.getLast?_eq_some_iff.1 hlast
  rw [run_append] at h
  obtain ⟨middle, -, hrun⟩ := Option.bind_eq_some_iff.1 h
  have hstep : middle.step last.kind = some next := by simpa using hrun
  exact place?_of_step hstep

/-- The error that the outlook gives is due. -/
theorem due_complaint {before : List Token} (h : run ⟨.operand, 0⟩ before = some outlook)
    (found : Token) : Due before found (outlook.complaint found) := by
  have hunclosed : (outlook.unclosed : Int) = 0 + balance before := unclosed_of_run h
  rcases List.eq_nil_or_concat' before with rfl | ⟨front, last, hbefore⟩
  · obtain rfl := Option.some.inj h
    exact .first rfl
  have hlast : before.getLast? = some last := by simp [hbefore]
  have hplace := place?_of_run h hlast
  obtain ⟨place, n⟩ := outlook
  dsimp only at hunclosed hplace
  cases place with
  | operand => exact .operand hlast (Kind.place?_eq_operand_iff.1 hplace)
  | opening => exact .opening hlast (Kind.place?_eq_opening_iff.1 hplace)
  | operator =>
    have hkind := Kind.place?_eq_operator_iff.1 hplace
    cases n with
    | zero => exact .leftover hlast hkind (by omega)
    | succ n => exact .closing hlast hkind (by omega)

/-- No other error is due. -/
theorem eq_complaint_of_due {before : List Token} {found : Token} {error : GrammarError}
    (h : run ⟨.operand, 0⟩ before = some outlook) (hdue : Due before found error) :
    error = outlook.complaint found := by
  have hunclosed : (outlook.unclosed : Int) = 0 + balance before := unclosed_of_run h
  have hplace : ∀ last place, before.getLast? = some last → last.kind.place? = some place →
      outlook.place = place := by
    intro last place hlast hkind
    have hplace := place?_of_run h hlast
    rw [hkind] at hplace
    exact (Option.some.inj hplace).symm
  obtain ⟨place, n⟩ := outlook
  dsimp only at hunclosed hplace
  -- each of the errors tells the place, and those behind an operand the parentheses as well
  cases hdue with
  | first hbefore =>
    rw [hbefore] at h
    cases h
    rfl
  | operand hlast hkind =>
    obtain rfl := hplace _ _ hlast (Kind.place?_eq_operand_iff.2 hkind)
    rfl
  | opening hlast hkind =>
    obtain rfl := hplace _ _ hlast (Kind.place?_eq_opening_iff.2 hkind)
    rfl
  | closing hlast hkind hopen =>
    obtain rfl := hplace _ _ hlast (Kind.place?_eq_operator_iff.2 hkind)
    obtain ⟨m, rfl⟩ := Nat.exists_eq_succ_of_ne_zero (show n ≠ 0 by omega)
    rfl
  | leftover hlast hkind hclosed =>
    obtain rfl := hplace _ _ hlast (Kind.place?_eq_operator_iff.2 hkind)
    obtain rfl : n = 0 := by omega
    rfl

/-- The error that is due is the one that the outlook gives. -/
theorem due_iff {before : List Token} {found : Token} {error : GrammarError}
    (h : run ⟨.operand, 0⟩ before = some outlook) :
    Due before found error ↔ error = outlook.complaint found := by
  constructor
  · exact eq_complaint_of_due h
  · rintro rfl
    exact due_complaint h found

end Outlook

/-- Asking for a token of the kind that comes next is only taking it away. -/
theorem Parse.expect_of_head {σ : Type} [Supply σ] {supply : σ} {t : Token}
    (h : Supply.head supply = .ok t) : expect t.kind supply = advance supply := by
  rw [expect, bind_of_ok (peek_of_supply h), if_pos rfl]

/-- A text whose tokens form no expression, though not for its depth, fails at one of its tokens,
the only one at that place. The error names this token, and it is the only one that is due behind
the tokens in front of it. The kinds that it may miss are the parentheses: a token that is asked for
by its own kind is always there. -/
theorem due_iff_of_parse_eq_error {text : String} {error : GrammarError}
    (h : (parse text).result = .error (.grammar error))
    (hdeep : ∀ span, error ≠ .tooDeep span) :
    ∃ k found, (Stream.ofText text).listing[k]? = some found ∧
      (∀ j t, (Stream.ofText text).listing[j]? = some t → (t.span = error.span ↔ j = k)) ∧
      error.found? = some found ∧
      (∀ error', Due ((Stream.ofText text).listing.take k) found error' ↔ error' = error) ∧
      (∀ expected t, error = .missingToken expected t →
        expected = .leftParen ∨ expected = .rightParen) ∧
      ∀ (σ : Type) [Supply σ] (supply : σ) (t : Token), Supply.head supply = .ok t →
        Parse.expect t.kind supply = Parse.advance supply := by
  obtain ⟨ts, rest, outlook, hs, hpartial, hrefuses⟩ := exists_refuses_of_parse_eq_error h
  cases hrefuses with
  | tooDeep span => exact absurd rfl (hdeep span)
  | @grammar found hhead hstep hend =>
    have hrun : Outlook.run ⟨.operand, 0⟩ ts = some outlook := hpartial.run_eq 0
    have hfound := outlook.found?_complaint found
    have hspan := GrammarError.span_of_found? hfound
    obtain ⟨us, hlisting⟩ := Stream.listing_of_head hhead
    have htokens : (Stream.ofText text).listing = ts ++ found :: us := by
      rw [hs, Stream.listing_behind, hlisting]
    have hnodup := (Stream.ordered_ofText text).nodup_spans
    have hk : (Stream.ofText text).listing[ts.length]? = some found := by
      rw [htokens]
      simp
    refine ⟨ts.length, found, hk, fun j t hj => ?_, hfound, fun error' => ?_, ?_, ?_⟩
    -- no other token stands at the same place
    · rw [hspan]
      constructor
      · intro heq
        have hspans : ((Stream.ofText text).listing.map Token.span)[j]? =
            ((Stream.ofText text).listing.map Token.span)[ts.length]? := by
          rw [List.getElem?_map, List.getElem?_map, hj, hk, Option.map_some, Option.map_some, heq]
        refine (List.getElem?_inj ?_ hnodup).1 hspans
        rw [List.length_map]
        exact (List.getElem?_eq_some_iff.1 hj).1
      · rintro rfl
        rw [hj] at hk
        rw [Option.some.inj hk]
    · rw [htokens, List.take_left]
      exact Outlook.due_iff hrun
    · intro expected t heq
      have hdue : Due ts found (.missingToken expected t) := heq ▸ Outlook.due_complaint hrun found
      exact hdue.eq_leftParen_or_eq_rightParen
    · exact fun σ _ supply t => Parse.expect_of_head

/-- Behind an operand in two pairs of parentheses, an inner one is to be closed. -/
theorem due_closing_of_parse :
    (parse "sqrt(1 + (2 3").result =
        .error (.grammar (.missingToken .rightParen ⟨.number, "3.0", ⟨12, 1⟩⟩)) ∧
      ∃ k, Due ((Stream.ofText "sqrt(1 + (2 3").listing.take k) ⟨.number, "3.0", ⟨12, 1⟩⟩
        (.missingToken .rightParen ⟨.number, "3.0", ⟨12, 1⟩⟩) := by
  have h : (parse "sqrt(1 + (2 3").result =
      .error (.grammar (.missingToken .rightParen ⟨.number, "3.0", ⟨12, 1⟩⟩)) := by decide +kernel
  obtain ⟨k, found, -, -, hfound, hdue, -⟩ := due_iff_of_parse_eq_error h nofun
  obtain rfl := Option.some.inj hfound
  exact ⟨h, k, (hdue _).2 rfl⟩

end Reckoner
