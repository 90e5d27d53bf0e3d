import Reckoner.Proofs.NumeralText
import Reckoner.Proofs.Scanning

/-!
# What errors of the scanner are about

Where nothing can be read, the error names a character, a decimal point or a word, and the span
beside it is the place where these characters stand.

## Main definitions

* `LexicalError.part`: the characters that an error is about.

## Main results

* `Lexeme.part_of_scan_eq_error`: the error about what cannot be read stands there;
* `Cursor.part_of_scan_eq_error`: so it does if blanks are skipped before.
-/

namespace Reckoner

/-- The characters that an error of the scanner is about. -/
def LexicalError.part : LexicalError → List Char
  | strayCharacter c _ | halfOperator c _ => [c]
  | malformedNumeral _ => ['.']
  | unknownWord word _ => word.toList

/-- The second decimal point is one. -/
theorem Lexeme.exists_of_secondPoint? {run : List Char} {second : Nat}
    (h : secondPoint? run = some second) :
    ∃ before after, run = before ++ '.' :: after ∧ before.length = second := by
  rw [secondPoint?] at h
  split at h
  next => cases h
  next first _ =>
    obtain ⟨behind, hbehind, rfl⟩ := Option.map_eq_some_iff.1 h
    obtain ⟨hlt, hpoint, -⟩ := List.idxOf?_eq_some_iff.1 hbehind
    rw [List.length_drop] at hlt
    rw [List.getElem_drop] at hpoint
    refine ⟨run.take (first + 1 + behind), run.drop (first + 1 + behind + 1), ?_, ?_⟩
    · rw [← hpoint, List.getElem_cons_drop, List.take_append_drop]
    · rw [List.length_take]
      omega

/-- A run of digits and points that is no numeral has a second decimal point, which the error is
about. -/
theorem Lexeme.part_of_ofNumeral_eq_error {offset : Nat} {c : Char} {rest : List Char}
    {error : LexicalError} (hc : c.isDigit) (h : ofNumeral offset (c :: rest) = .error error) :
    ∃ before after, c :: rest = before ++ error.part ++ after ∧
      error.span = ⟨offset + utf8Length before, utf8Length error.part⟩ := by
  have hrun : ∀ d ∈ (c :: rest).takeWhile isNumeral, isNumeral d :=
    List.all_eq_true.1 List.all_takeWhile
  simp only [ofNumeral] at h
  split at h
  next second hsecond =>
    obtain rfl := Except.error.inj h
    obtain ⟨before, after, hpoint, rfl⟩ := exists_of_secondPoint? hsecond
    have hbefore : utf8Length before = before.length := utf8Length_of_single fun d hd =>
      utf8Size_of_isNumeral (hrun d (hpoint ▸ List.mem_append_left _ hd))
    refine ⟨before, after ++ (c :: rest).dropWhile isNumeral, ?_, ?_⟩
    · have hsplit := List.takeWhile_append_dropWhile (p := isNumeral) (l := c :: rest)
      refine hsplit.symm.trans ?_
      rw [hpoint]
      simp [LexicalError.part]
    · rw [hbefore]
      rfl
  next hnone =>
    -- a run without a second point is a numeral, and all numerals can be read
    rw [List.takeWhile_cons_of_pos ((isNumeral_iff c).2 (.inl hc))] at hrun hnone h
    have hspells := spells_of_secondPoint?_eq_none hc hrun hnone
    obtain ⟨_, value, hread, -⟩ := hspells.exists_canonicalText
    rw [hread] at h
    cases h

/-- Where no lexeme can be read, the error is about characters that stand there. -/
theorem Lexeme.part_of_scan_eq_error {offset : Nat} {c : Char} {rest : List Char}
    {error : LexicalError} (h : scan offset c rest = .error error) :
    ∃ before after, c :: rest = before ++ error.part ++ after ∧
      error.span = ⟨offset + utf8Length before, utf8Length error.part⟩ := by
  have hchar : ∀ error : LexicalError, error.part = [c] → error.span = ⟨offset, c.utf8Size⟩ →
      ∃ before after, c :: rest = before ++ error.part ++ after ∧
        error.span = ⟨offset + utf8Length before, utf8Length error.part⟩ := by
    intro error hpart hspan
    rw [hpart, hspan]
    exact ⟨[], rest, rfl, by rw [utf8Length_nil, utf8Length_singleton, Nat.add_zero]⟩
  rw [scan] at h
  split at h
  next hc => exact part_of_ofNumeral_eq_error hc h
  next =>
    split at h
    next => cases h
    next =>
      obtain rfl := Except.error.inj h
      -- one character is named, or a word
      split
      next => exact hchar _ rfl rfl
      next =>
        split
        next =>
          refine ⟨[], (c :: rest).dropWhile isLetter, ?_, ?_⟩
          · rw [LexicalError.part, String.toList_ofList, List.nil_append,
              List.takeWhile_append_dropWhile]
          · rw [LexicalError.part, utf8Length_toList]
            rfl
        next => exact hchar _ rfl rfl

/-- An error of the scanner is about characters of the text. -/
theorem Cursor.part_of_scan_eq_error {offset : Nat} {text : List Char} {error : LexicalError}
    {next : Cursor} (h : (⟨offset, text⟩ : Cursor).scan = (.error error, next)) :
    ∃ before after, text = before ++ error.part ++ after ∧
      error.span = ⟨offset + utf8Length before, utf8Length error.part⟩ := by
  obtain ⟨blanks, c, htext, -, -, herror, -⟩ := passes_of_scan_eq_error h
  obtain ⟨before, after, hrest, hspan⟩ := Lexeme.part_of_scan_eq_error herror
  refine ⟨blanks ++ before, after, ?_, ?_⟩
  · rw [htext, hrest]
    simp
  · rw [hspan, utf8Length_append, Nat.add_assoc]

end Reckoner
