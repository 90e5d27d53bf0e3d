import Reckoner.Calculation
import Reckoner.Proofs.Reading.Tape
import Reckoner.Proofs.Reading.Whole

/-!
# The expressions that are accepted

A text is an expression exactly if its tokens can be derived in the grammar with the two limits
kept. The tree is that of the derivation, of which there is only one.

## Main results

* `exists_derives_of_parse_eq_ok` and `exists_refuses_of_parse_eq_error`: what a result of reading a
  text says about its tokens;
* `parse_of_derives`: what tokens that are derived say about the result;
* `parse_eq_ok_iff_derives`: acceptance, rejection at the limits, and unambiguity.
-/

namespace Reckoner

/-- The tree of a text is derived, within the limits, from all its tokens. -/
theorem exists_derives_of_parse_eq_ok {text : String} {e : Expr}
    (h : (parse text).result = .ok e) :
    ∃ ts length n, Stream.ofText text = ⟨ts, .endOfInput length⟩ ∧
      Derives .complexExpr ts e n ∧ n ≤ depthLimit ∧ e.height ≤ depthLimit := by
  rw [parse, Stream.parse_result] at h
  split at h
  next e' rest hwhole =>
    obtain rfl : e' = e := Except.ok.inj h
    obtain ⟨length, n, hs, hderives, hn, hlimit⟩ :=
      Parse.derives_of_whole_eq_ok Stream.kind_ne_endOfInput_of_mem hwhole
    exact ⟨_, length, n, hs, hderives, hn, hlimit⟩
  next failure rest hwhole => cases h

/-- The failure of a text is due behind tokens that begin an expression. -/
theorem exists_refuses_of_parse_eq_error {text : String} {failure : Failure}
    (h : (parse text).result = .error failure) :
    ∃ ts rest outlook, Stream.ofText text = rest.behind ts ∧ Partial .complexExpr ts outlook ∧
      Refuses outlook rest failure := by
  have hconcludes := Parse.concludes_whole depthLimit (Stream.ofText text)
  rw [parse, Stream.parse_result] at h
  split at h
  next => cases h
  next failure' rest hwhole =>
    obtain rfl : failure' = failure := Except.error.inj h
    rw [hwhole] at hconcludes
    cases hconcludes with
    | error hs hpartial hrefuses => exact ⟨_, rest, _, hs, hpartial, hrefuses⟩

/-- A text whose tokens are derived is an expression, unless one of the limits is passed. -/
theorem parse_of_derives {text : String} {ts : List Token} {length n : Nat} {e : Expr}
    (hs : Stream.ofText text = ⟨ts, .endOfInput length⟩) (h : Derives .complexExpr ts e n) :
    (n ≤ depthLimit ∧ e.height ≤ depthLimit ∧ (parse text).result = .ok e) ∨
      (depthLimit < n ∨ depthLimit < e.height) ∧
        ∃ span, (parse text).result = .error (.grammar (.tooDeep span)) := by
  rw [parse, hs, Stream.parse_result]
  rcases Parse.whole_of_derives depthLimit length h with
    ⟨hn, hlimit, hwhole⟩ | ⟨hbeyond, span, rest, hwhole⟩
  · exact .inl ⟨hn, hlimit, by rw [hwhole]⟩
  · exact .inr ⟨hbeyond, span, by rw [hwhole]⟩

/-- A text is an expression exactly if its tokens are derived within the limits, and then its tree
is the one that is derived, which holds these very tokens. Tokens that are derived beyond the limits
are too deep. No token sequence has two trees. -/
theorem parse_eq_ok_iff_derives :
    (∀ (text : String) (e : Expr), (parse text).result = .ok e ↔
      ∃ ts length n, Stream.ofText text = ⟨ts, .endOfInput length⟩ ∧
        Derives .complexExpr ts e n ∧ n ≤ depthLimit ∧ e.height ≤ depthLimit) ∧
    (∀ (text : String) (ts : List Token) (length n : Nat) (e : Expr),
      Stream.ofText text = ⟨ts, .endOfInput length⟩ → Derives .complexExpr ts e n →
        depthLimit < n ∨ depthLimit < e.height →
          ∃ span, (parse text).result = .error (.grammar (.tooDeep span))) ∧
    (∀ (x : Nonterminal) (ts : List Token) (e e' : Expr) (n n' : Nat),
      Derives x ts e n → Derives x ts e' n' → e = e') ∧
    (∀ (x : Nonterminal) (ts : List Token) (e : Expr) (n : Nat),
      Derives x ts e n → e.inorder = ts.filter fun token => !token.kind.isParenthesis) := by
  refine ⟨fun text e => ⟨exists_derives_of_parse_eq_ok, ?_⟩, ?_,
    fun x ts e e' n n' h h' => h.unique h', fun x ts e n h => h.inorder_eq⟩
  · rintro ⟨ts, length, n, hs, hderives, hn, hlimit⟩
    rw [parse, hs, Stream.parse_result]
    rcases Parse.whole_of_derives depthLimit length hderives with
      ⟨-, -, hwhole⟩ | ⟨hbeyond, -⟩
    · rw [hwhole]
    · omega
  -- the two cases of reading a derivation exclude each other by their limits
  · intro text ts length n e hs hderives hbeyond
    rw [parse, hs, Stream.parse_result]
    rcases Parse.whole_of_derives depthLimit length hderives with
      ⟨hn, hlimit, -⟩ | ⟨-, span, rest, hwhole⟩
    · omega
    · exact ⟨span, by rw [hwhole]⟩

/-- The grammar gives the tree of a numeral with a sign, and it is the tree that is read. -/
theorem parse_minus_one : (parse "-1").result = .ok (.unary ⟨.operator .minus, "-", ⟨0, 1⟩⟩
    (.literal ⟨.number, "1.0", ⟨1, 1⟩⟩)) := by
  have hatom : Derives .atom [⟨.number, "1.0", ⟨1, 1⟩⟩] (.literal ⟨.number, "1.0", ⟨1, 1⟩⟩) 0 :=
    .literal (.inl rfl)
  have hfactor : Derives .factor [⟨.operator .minus, "-", ⟨0, 1⟩⟩, ⟨.number, "1.0", ⟨1, 1⟩⟩]
      (.unary ⟨.operator .minus, "-", ⟨0, 1⟩⟩ (.literal ⟨.number, "1.0", ⟨1, 1⟩⟩)) 2 :=
    .sign rfl (by decide) (.unsigned (.base hatom))
  exact (parse_eq_ok_iff_derives.1 "-1" _).2 ⟨_, 2, 2, by decide +kernel,
    .operand rfl (.operand rfl (.operand rfl (.operand rfl (.operand rfl (.operand rfl hfactor))))),
    by decide, by decide⟩

end Reckoner
