import Reckoner.Proofs.Bytes.Calls
import Reckoner.Proofs.LexicalErrors

/-!
# Where no token can be read

The errors of the scanner, described by the text alone. The description looks at the first character
that is no blank and at the run that it begins. It says nothing of lexemes, and nothing of how the
scanner goes through the text.

## Main definitions

* `BeginsWithName text`: the text begins with a name, in any letter case;
* `Unreadable place c rest error`: the error that there is at a character, and why.

## Main results

* `Lexeme.secondPoint?_eq_some_iff`: the second decimal point is the one behind exactly one other;
* `Lexeme.scan_eq_error_iff`: no token can be read at a character in these cases only;
* `Scanner.pull_eq_error_iff`: what a scanner answers in any state where it can read no token.
-/

namespace Reckoner

/-- The characters that operators and parentheses begin with. -/
def operatorCharacters : List Char :=
  ['(', ')', '+', '-', '~', '%', '|', '&', '^', '*', '/', '<', '>']

/-- The text begins with a name of the vocabulary, in any letter case. -/
def BeginsWithName (text : List Char) : Prop :=
  ∃ kind ∈ keywords, ∃ front, front <+: text ∧ front.map Char.toUpper = kind.symbol.toList

/-- No token can be read at the character `c` with `rest` behind it, and the error says why. The
character stands `place` bytes behind the beginning of the text. -/
inductive Unreadable (place : Nat) (c : Char) (rest : List Char) : LexicalError → Prop
  /-- Nothing begins with the character. -/
  | strayCharacter (hdigit : ¬c.isDigit) (hletter : ¬isLetter c)
      (hoperator : c ∉ operatorCharacters) : Unreadable place c rest (.strayCharacter c place)
  /-- The character has to be written twice, and is not. -/
  | halfOperator (hc : c = '<' ∨ c = '>') (hnext : rest.head? ≠ some c) :
      Unreadable place c rest (.halfOperator c place)
  /-- The digits and decimal points from a digit on hold a second point, behind `before`. -/
  | malformedNumeral {before behind after : List Char} (hc : c.isDigit)
      (htext : c :: rest = before ++ '.' :: behind ++ after)
      (hrun : MaximalRun Lexeme.isNumeral (before ++ '.' :: behind) after)
      (hsecond : before.count '.' = 1) :
      Unreadable place c rest (.malformedNumeral ⟨place + utf8Length before, 1⟩)
  /-- The letters begin with no name. The error gives all of them. -/
  | unknownWord {word after : List Char} (hc : isLetter c) (htext : c :: rest = word ++ after)
      (hword : MaximalRun isLetter word after) (hname : ¬BeginsWithName (c :: rest)) :
      Unreadable place c rest (.unknownWord (String.ofList word) place)

/-! ### Numerals with too many points -/

namespace Lexeme

/-- The second decimal point is the one behind exactly one other. -/
theorem secondPoint?_eq_some_iff {run : List Char} {second : Nat} :
    secondPoint? run = some second ↔
      ∃ before behind, run = before ++ '.' :: behind ∧ before.count '.' = 1 ∧
        before.length = second := by
  constructor
  · intro h
    have hpoint : '.' ∈ run := by
      by_contra hnone
      rw [secondPoint?, List.idxOf?_eq_none_iff.2 hnone] at h
      cases h
    obtain ⟨whole, fraction, rfl, hwhole⟩ := List.eq_append_cons_of_mem hpoint
    rw [secondPoint?_append hwhole] at h
    have hpoint' : '.' ∈ fraction := by
      by_contra hnone
      rw [List.idxOf?_eq_none_iff.2 hnone] at h
      cases h
    obtain ⟨between, behind, rfl, hbetween⟩ := List.eq_append_cons_of_mem hpoint'
    rw [idxOf?_append_cons hbetween] at h
    obtain rfl := Option.some.inj h
    refine ⟨whole ++ '.' :: between, behind, by simp, ?_, ?_⟩
    · rw [List.count_append, List.count_cons_self, List.count_eq_zero.2 hwhole,
        List.count_eq_zero.2 hbetween]
    · dsimp only
      rw [List.length_append, List.length_cons]
      omega
  · rintro ⟨before, behind, rfl, hcount, rfl⟩
    have hpoint : '.' ∈ before := List.count_pos_iff.1 (by omega)
    obtain ⟨whole, between, rfl, hwhole⟩ := List.eq_append_cons_of_mem hpoint
    rw [List.count_append, List.count_cons_self, List.count_eq_zero.2 hwhole] at hcount
    have hbetween : '.' ∉ between := List.count_eq_zero.1 (by omega)
    rw [List.append_assoc, List.cons_append, secondPoint?_append hwhole,
      idxOf?_append_cons hbetween, List.length_append, List.length_cons]
    refine congrArg some ?_
    dsimp only
    omega

/-- A run of digits and points with fewer than two points can be read as a number. -/
theorem exists_read?_of_count_lt {c : Char} {run : List Char} (hc : c.isDigit)
    (hrun : ∀ d ∈ c :: run, isNumeral d) (hcount : (c :: run).count '.' < 2) :
    ∃ x, Number.read? (String.ofList (c :: run)) = some x := by
  have hnone : secondPoint? (c :: run) = none := by
    refine Option.eq_none_iff_forall_ne_some.2 fun second hsecond => ?_
    obtain ⟨before, behind, hsplit, hone, -⟩ := secondPoint?_eq_some_iff.1 hsecond
    rw [hsplit, List.count_append, List.count_cons_self, hone] at hcount
    omega
  obtain ⟨_, x, hread, -⟩ :=
    (spells_of_secondPoint?_eq_none hc hrun hnone).exists_canonicalText
  exact ⟨x, hread⟩

theorem ofNumeral_eq_error_iff {offset : Nat} {c : Char} {rest : List Char}
    {error : LexicalError} (hc : c.isDigit) :
    ofNumeral offset (c :: rest) = .error error ↔
      ∃ before behind after, c :: rest = before ++ '.' :: behind ++ after ∧
        MaximalRun isNumeral (before ++ '.' :: behind) after ∧ before.count '.' = 1 ∧
        error = .malformedNumeral ⟨offset + utf8Length before, 1⟩ := by
  have hlength : ∀ {before behind after : List Char},
      MaximalRun isNumeral (before ++ '.' :: behind) after →
      utf8Length before = before.length := fun hrun =>
    utf8Length_of_single fun d hd =>
      utf8Size_of_isNumeral (hrun.all d (List.mem_append_left _ hd))
  constructor
  · intro h
    have hrun := MaximalRun.of_takeWhile isNumeral (c :: rest)
    simp only [ofNumeral] at h
    split at h
    next second hsecond =>
      obtain ⟨before, behind, hsplit, hone, rfl⟩ := secondPoint?_eq_some_iff.1 hsecond
      rw [hsplit] at hrun
      refine ⟨before, behind, _, ?_, hrun, hone, ?_⟩
      · rw [← hsplit, List.takeWhile_append_dropWhile]
      · rw [hlength hrun]
        exact (Except.error.inj h).symm
    next hnone =>
      -- what has no second point is read, so that there is no error
      have hcons := List.takeWhile_cons_of_pos (l := rest) ((isNumeral_iff c).2 (.inl hc))
      rw [hcons] at hrun hnone h
      have hspells := spells_of_secondPoint?_eq_none hc hrun.all hnone
      obtain ⟨_, x, hread, -⟩ := hspells.exists_canonicalText
      rw [hread] at h
      cases h
  · rintro ⟨before, behind, after, htext, hrun, hone, rfl⟩
    have hsecond : secondPoint? (before ++ '.' :: behind) = some before.length :=
      secondPoint?_eq_some_iff.2 ⟨before, behind, rfl, hone, rfl⟩
    simp only [ofNumeral, htext, hrun.takeWhile_append, hsecond, hlength hrun]

end Lexeme

/-! ### Words and marks -/

theorem mem_operatorCharacters_iff {c : Char} :
    c ∈ operatorCharacters ↔ (Opening.marks.lookup c).isSome := by
  have hmarks : operatorCharacters = Opening.marks.map Prod.fst := rfl
  rw [hmarks, Option.isSome_iff_ne_none, Ne, List.lookup_eq_none_iff]
  simp

theorem not_isLetter_of_isDigit {c : Char} (h : c.isDigit) : ¬isLetter c := by
  have hhigh := ((isDigit_iff c).1 h).2
  exact not_isLetter_of_lt (by omega)

theorem not_isLetter_of_mem_operatorCharacters {c : Char} (h : c ∈ operatorCharacters) :
    ¬isLetter c := by
  have hall : operatorCharacters.all fun c => ¬isLetter c := by decide +kernel
  exact of_decide_eq_true (List.all_eq_true.1 hall c h)

/-- A text that begins with a letter begins with a name if it begins with any spelling. -/
theorem beginsWithName_iff {c : Char} (hc : isLetter c) (rest : List Char) :
    BeginsWithName (c :: rest) ↔
      ∃ kind ∈ Kind.vocabulary, Lexeme.beginsWith kind.symbol.toList (c :: rest) := by
  constructor
  · rintro ⟨kind, hkind, front, ⟨after, hafter⟩, hfront⟩
    exact ⟨kind, mem_vocabulary_of_mem_keywords hkind,
      Lexeme.beginsWith_iff.2 ⟨front, after, hafter.symm, hfront⟩⟩
  · rintro ⟨kind, hkind, hbegins⟩
    obtain ⟨hmem, -⟩ := (hasKeyword_iff hc rest kind).2 ⟨hkind, hbegins⟩
    obtain ⟨front, after, hafter, hfront⟩ := Lexeme.beginsWith_iff.1 hbegins
    exact ⟨kind, hmem, front, ⟨after, hafter.symm⟩, hfront⟩

namespace Lexeme

theorem ofVocabulary?_eq_none_iff_of_isLetter {c : Char} (hc : isLetter c) (rest : List Char) :
    ofVocabulary? (c :: rest) = none ↔ ¬BeginsWithName (c :: rest) := by
  rw [ofVocabulary?, Option.map_eq_none_iff, List.find?_eq_none, beginsWithName_iff hc]
  simp

/-- At a mark there is a token, unless half of an operator is missing. -/
theorem ofVocabulary?_eq_none_iff_of_mark {c : Char} (hc : c ∈ operatorCharacters)
    (rest : List Char) :
    ofVocabulary? (c :: rest) = none ↔ (c = '<' ∨ c = '>') ∧ rest.head? ≠ some c := by
  obtain ⟨opening, hlookup⟩ := Option.isSome_iff_exists.1 (mem_operatorCharacters_iff.1 hc)
  have hmark := Opening.mem_marks_of_lookup hlookup
  obtain ⟨⟨hupper, hrange, -⟩, -⟩ := Opening.marks_spec hmark
  rw [ofVocabulary?_of_mark hmark, Option.map_eq_none_iff, List.find?_eq_none]
  -- by the table of the marks, those that have no token of their own are the two halves
  have hall : Opening.marks.all fun mark =>
      (mark.1 = '<' ∨ mark.1 = '>') ∧
          mark.2.kinds.map (·.symbol.toList) = [[mark.1, mark.1]] ∨
        ¬(mark.1 = '<' ∨ mark.1 = '>') ∧
          [mark.1] ∈ mark.2.kinds.map (·.symbol.toList) := by decide +kernel
  rcases of_decide_eq_true (List.all_eq_true.1 hall _ hmark) with ⟨hhalf, hboth⟩ | ⟨hwhole, hone⟩
  · obtain ⟨kind, hkinds, hsymbol⟩ := List.map_eq_singleton_iff.1 hboth
    dsimp only at hkinds hsymbol hhalf
    simp [hkinds, hsymbol, hhalf, ← beginsWith_twice hupper hrange]
  · obtain ⟨kind, hkind, hsymbol⟩ := List.mem_map.1 hone
    refine iff_of_false (fun hnone => hnone kind hkind ?_) fun h => hwhole h.1
    rw [hsymbol, beginsWith, hupper, beq_self_eq_true]
    rfl

/-- No token can be read at a character in these cases, and in no other. -/
theorem scan_eq_error_iff {place : Nat} {c : Char} {rest : List Char} {error : LexicalError} :
    scan place c rest = .error error ↔ Unreadable place c rest error := by
  have hhalf : isHalfOperator c ↔ c = '<' ∨ c = '>' := by
    rw [isHalfOperator, Bool.or_eq_true, beq_iff_eq, beq_iff_eq]
  have hoperator : c = '<' ∨ c = '>' → c ∈ operatorCharacters := by
    rintro (rfl | rfl) <;> decide
  constructor
  · intro h
    rw [scan] at h
    split at h
    next hdigit =>
      obtain ⟨before, behind, after, htext, hrun, hone, rfl⟩ := (ofNumeral_eq_error_iff hdigit).1 h
      exact .malformedNumeral hdigit htext hrun hone
    next hdigit =>
      split at h
      next => cases h
      next hnone =>
        obtain rfl := Except.error.inj h
        split
        next hc =>
          have hc' := hhalf.1 hc
          exact .halfOperator hc'
            ((ofVocabulary?_eq_none_iff_of_mark (hoperator hc') rest).1 hnone).2
        next hc =>
          split
          next hletter =>
            exact .unknownWord hletter List.takeWhile_append_dropWhile.symm (.of_takeWhile _ _)
              ((ofVocabulary?_eq_none_iff_of_isLetter hletter rest).1 hnone)
          next hletter =>
            refine .strayCharacter hdigit hletter fun hmem => hc (hhalf.2 ?_)
            exact ((ofVocabulary?_eq_none_iff_of_mark hmem rest).1 hnone).1
  · intro h
    rw [scan]
    cases h with
    | strayCharacter hdigit hletter hmem =>
      have hlookup := Option.not_isSome_iff_eq_none.1 fun h => hmem (mem_operatorCharacters_iff.2 h)
      rw [if_neg hdigit, ofVocabulary?_of_neither hletter hlookup, if_neg hletter,
        if_neg fun h => hmem (hoperator (hhalf.1 h))]
    | halfOperator hc hnext =>
      have hdigit : ¬c.isDigit := by rcases hc with rfl | rfl <;> decide
      have hnone := (ofVocabulary?_eq_none_iff_of_mark (hoperator hc) rest).2 ⟨hc, hnext⟩
      rw [if_neg hdigit, hnone, if_pos (hhalf.2 hc)]
    | malformedNumeral hc htext hrun hone =>
      rw [if_pos hc]
      exact (ofNumeral_eq_error_iff hc).2 ⟨_, _, _, htext, hrun, hone, rfl⟩
    | unknownWord hc htext hword hname =>
      have hdigit : ¬c.isDigit := fun hdigit => not_isLetter_of_isDigit hdigit hc
      have hnot : ¬isHalfOperator c := fun h =>
        not_isLetter_of_mem_operatorCharacters (hoperator (hhalf.1 h)) hc
      rw [if_neg hdigit, (ofVocabulary?_eq_none_iff_of_isLetter hc rest).2 hname, if_neg hnot,
        if_pos hc, htext, hword.takeWhile_append]

end Lexeme

/-- What cannot be read at a letter is a word. -/
theorem Unreadable.of_isLetter {place : Nat} {c : Char} {rest : List Char} {error : LexicalError}
    (h : Unreadable place c rest error) (hc : isLetter c) :
    ∃ word after, c :: rest = word ++ after ∧ MaximalRun isLetter word after ∧
      ¬BeginsWithName (c :: rest) ∧ error = .unknownWord (String.ofList word) place := by
  cases h with
  | strayCharacter _ hletter _ => exact absurd hc hletter
  | halfOperator hhalf _ =>
    have hmem : c ∈ operatorCharacters := by rcases hhalf with rfl | rfl <;> decide
    exact absurd hc (not_isLetter_of_mem_operatorCharacters hmem)
  | malformedNumeral hdigit _ _ _ => exact absurd hc (not_isLetter_of_isDigit hdigit)
  | unknownWord _ htext hword hname => exact ⟨_, _, htext, hword, hname, rfl⟩

/-- Reading fails at the first character that is no blank. -/
theorem Cursor.scan_eq_error_iff {offset : Nat} {text : List Char} {error : LexicalError} :
    (⟨offset, text⟩ : Cursor).scan.1 = .error error ↔
      ∃ blanks c rest, text = blanks ++ c :: rest ∧ (∀ b ∈ blanks, isBlank b) ∧ ¬isBlank c ∧
        Unreadable (offset + utf8Length blanks) c rest error := by
  constructor
  · intro h
    obtain ⟨blanks, c, htext, hblanks, hc, herror, -⟩ :=
      passes_of_scan_eq_error (Prod.ext h rfl : (⟨offset, text⟩ : Cursor).scan = (.error error, _))
    exact ⟨blanks, c, _, htext, hblanks, hc, Lexeme.scan_eq_error_iff.1 herror⟩
  · rintro ⟨blanks, c, rest, rfl, hblanks, hc, herror⟩
    have hskip : (⟨offset, blanks ++ c :: rest⟩ : Cursor).skipBlanks = _ :=
      skipBlanks_append hblanks fun d after hd => (List.cons.inj hd).1 ▸ hc
    rw [scan, hskip]
    simp only [Lexeme.scan_eq_error_iff.2 herror]

/-- Whatever a scanner has been asked for before, its next call fails exactly where the first
character behind its place that is no blank is unreadable, and it gives the error that says why. A
run of digits and points in which there is no second point is always a number, so that an error
about a numeral is one about its second point. -/
theorem Scanner.pull_eq_error_iff (text : String) (calls : List Call) (error : LexicalError) :
    let s := ((ofText text).run calls).2
    (s.pull.1 = .error error ↔
      ∃ front blanks c rest, text.toList = front ++ blanks ++ c :: rest ∧
        utf8Length front = s.cursor.offset ∧ (∀ b ∈ blanks, isBlank b) ∧ ¬isBlank c ∧
        Unreadable (utf8Length (front ++ blanks)) c rest error) ∧
    (∀ span, s.pull.1 = .error (.malformedNumeral span) → slice? span text.toList = some ['.']) ∧
    ∀ c run, c.isDigit → (∀ d ∈ c :: run, Lexeme.isNumeral d) → (c :: run).count '.' < 2 →
      ∃ x, Number.read? (String.ofList (c :: run)) = some x := by
  intro s
  have hplaced : s.Placed text := (placed_ofText text).run calls
  obtain ⟨passed, htext, hpassed⟩ := dropBytes?_eq_some_iff.1 hplaced
  refine ⟨?_, fun span h => ?_, fun c run => Lexeme.exists_read?_of_count_lt⟩
  · refine Iff.trans (b := (⟨s.cursor.offset, s.cursor.rest⟩ : Cursor).scan.1 = .error error)
      Iff.rfl ?_
    rw [Cursor.scan_eq_error_iff]
    constructor
    · rintro ⟨blanks, c, rest, hrest, hblanks, hc, herror⟩
      refine ⟨passed, blanks, c, rest, ?_, hpassed, hblanks, hc, ?_⟩
      · rw [htext, hrest, List.append_assoc]
      · rw [utf8Length_append, hpassed]
        exact herror
    · rintro ⟨front, blanks, c, rest, htext', hfront, hblanks, hc, herror⟩
      refine ⟨blanks, c, rest, ?_, hblanks, hc, ?_⟩
      · -- the place of the scanner is one place only
        have hdrop := dropBytes?_append front (blanks ++ c :: rest)
        rw [hfront, ← List.append_assoc, ← htext'] at hdrop
        exact Option.some.inj (hplaced.symm.trans hdrop)
      · rw [← hfront, ← utf8Length_append]
        exact herror
  · obtain ⟨before, after, hrest, hspan⟩ :=
      Cursor.part_of_scan_eq_error (Prod.ext h rfl : s.cursor.scan = (.error _, _))
    refine slice?_eq_some_iff.2 ⟨passed ++ before, after, ?_, ?_⟩
    · rw [htext, hrest]
      simp [LexicalError.part]
    · rw [utf8Length_append, hpassed]
      exact hspan

end Reckoner
