import Reckoner.Proofs.Bytes.Scanner
import Reckoner.Proofs.NumeralText
import Reckoner.Proofs.Seams

/-!
# Scanning by bytes reads the same

At a place that goes with the rest of the text no cut and no subtraction of the scanner by bytes
fails, and what it reads is what `Cursor.scan` reads. Each way of reading a token is compared with
`Lexeme.scan` by itself, by what its first character says about the vocabulary.

## Main definitions

* `ByteScanner.outcome`: what follows from the lexeme at a place, or from there being none;
* `ByteScanner.Placed`: the rest is what the text has behind the place.

## Main results

* `longestKeyword?_eq`: the names that are looked up in a word are those that the text begins with;
* `ByteScanner.read?_eq`: reading a token at a character that is no blank;
* `ByteScanner.scan?_eq`: reading by bytes never fails, and reads the same token.
-/

namespace Reckoner

/-- A symbol is as long as the list of its characters. -/
theorem Kind.length_symbol {kind : Kind} {chars : List Char} (h : kind.symbol.toList = chars) :
    kind.symbol.length = chars.length := by
  rw [← h, String.length_toList]

/-! ### The vocabulary by the first character -/

namespace Opening

/-- The kinds of the tokens that can be read. -/
def kinds : Opening → List Kind
  | single kind | double kind => [kind]
  | either twice once => [twice, once]
  | numeral | word | stray => []

/-- Whether the kinds are written as one and as two of the character. -/
def isSpelled (c : Char) : Opening → Bool
  | single kind => kind.symbol.toList == [c]
  | either twice once => twice.symbol.toList == [c, c] && once.symbol.toList == [c]
  | double kind => kind.symbol.toList == [c, c] && Lexeme.isHalfOperator c
  | numeral | word | stray => false

/-- A mark is no letter and no digit, and its kinds are all those that begin with it. -/
theorem marks_spec {c : Char} {opening : Opening} (h : (c, opening) ∈ marks) :
    (c.toUpper = c ∧ (c.toNat < 65 ∨ 90 < c.toNat) ∧ c.toNat ≤ 126 ∧ ¬c.isDigit) ∧
      opening.isSpelled c ∧
      (Kind.vocabulary.filter fun kind => kind.symbol.toList.head? == some c) = opening.kinds ∧
      ∀ kind ∈ opening.kinds, Lexeme.textOfKind kind = kind.symbol := by
  have hall : marks.all fun mark =>
      (mark.1.toUpper = mark.1 ∧ (mark.1.toNat < 65 ∨ 90 < mark.1.toNat) ∧ mark.1.toNat ≤ 126 ∧
        ¬mark.1.isDigit) ∧ mark.2.isSpelled mark.1 ∧
      (Kind.vocabulary.filter fun kind => kind.symbol.toList.head? == some mark.1) =
        mark.2.kinds ∧
      ∀ kind ∈ mark.2.kinds, Lexeme.textOfKind kind = kind.symbol := by
    decide +kernel
  exact of_decide_eq_true (List.all_eq_true.1 hall _ h)

theorem mem_marks_of_lookup {c : Char} {opening : Opening} (h : marks.lookup c = some opening) :
    (c, opening) ∈ marks := by
  obtain ⟨before, after, hmarks, -⟩ := List.lookup_eq_some_iff.1 h
  rw [hmarks]
  simp

/-- Half an operator is a mark. -/
theorem not_isHalfOperator_of_lookup {c : Char} (h : marks.lookup c = none) :
    ¬Lexeme.isHalfOperator c := by
  intro hhalf
  rw [Lexeme.isHalfOperator, Bool.or_eq_true, beq_iff_eq, beq_iff_eq] at hhalf
  rcases hhalf with rfl | rfl
  · cases h
  · cases h

end Opening

namespace Lexeme

/-- Only the spellings that begin with the first character have to be looked up. -/
theorem ofVocabulary?_eq_filter (c : Char) (rest : List Char) :
    ofVocabulary? (c :: rest) =
      ((Kind.vocabulary.filter fun kind => kind.symbol.toList.head? == some c.toUpper).find?
        fun kind => beginsWith kind.symbol.toList (c :: rest)).map fun kind =>
          ⟨kind, textOfKind kind, kind.symbol.length⟩ := by
  rw [ofVocabulary?, List.find?_filter]
  refine congrArg _ (List.find?_congr fun kind hkind => ?_)
  have hlength := symbol_length_pos hkind
  rw [← String.length_toList] at hlength
  cases hsymbol : kind.symbol.toList with
  | nil =>
    rw [hsymbol] at hlength
    cases hlength
  | cons d spelling => simp [beginsWith, beq_eq_decide]

/-- Two of a character that is no letter are a beginning of the text if they stand there. -/
theorem beginsWith_twice {c : Char} (hupper : c.toUpper = c) (hc : c.toNat < 65 ∨ 90 < c.toNat)
    (rest : List Char) : beginsWith [c, c] (c :: rest) ↔ rest.head? = some c := by
  rw [beginsWith, hupper, beq_self_eq_true, Bool.true_and]
  cases rest with
  | nil => simp [beginsWith]
  | cons d rest =>
    simp only [beginsWith, Bool.and_true, beq_iff_eq, List.head?_cons, Option.some.injEq]
    constructor
    · rintro rfl
      exact (eq_of_toUpper hc).symm
    · rintro rfl
      exact hupper.symm

/-- The kinds of a mark are all that can be read there. -/
theorem ofVocabulary?_of_mark {c : Char} {opening : Opening} (h : (c, opening) ∈ Opening.marks)
    (rest : List Char) :
    ofVocabulary? (c :: rest) =
      (opening.kinds.find? fun kind => beginsWith kind.symbol.toList (c :: rest)).map fun kind =>
        ⟨kind, textOfKind kind, kind.symbol.length⟩ := by
  obtain ⟨⟨hupper, -⟩, -, hkinds, -⟩ := Opening.marks_spec h
  rw [ofVocabulary?_eq_filter, hupper, hkinds]

/-- The character in front is, in upper case, one of the spelling that the text begins with. -/
theorem toUpper_mem_of_beginsWith {c : Char} {rest : List Char} {kind : Kind}
    (hkind : kind ∈ Kind.vocabulary) (h : beginsWith kind.symbol.toList (c :: rest)) :
    c.toUpper ∈ kind.symbol.toList := by
  have hlength := symbol_length_pos hkind
  rw [← String.length_toList] at hlength
  cases hsymbol : kind.symbol.toList with
  | nil =>
    rw [hsymbol] at hlength
    cases hlength
  | cons d spelling =>
    rw [hsymbol, beginsWith, Bool.and_eq_true, beq_iff_eq] at h
    exact h.1 ▸ .head _

end Lexeme

/-! ### Names and marks -/

/-- The vocabulary has names, which are letters, and the tokens that are written with marks. -/
theorem mem_keywords_or_marks {kind : Kind} (h : kind ∈ Kind.vocabulary) :
    (kind ∈ keywords ∧ ∀ c ∈ kind.symbol.toList, 65 ≤ c.toNat ∧ c.toNat ≤ 90) ∨
      ∀ c ∈ kind.symbol.toList,
        (c.toNat < 65 ∨ 90 < c.toNat) ∧ ¬isLetter c ∧ (Opening.marks.lookup c).isSome := by
  have hall : Kind.vocabulary.all fun kind =>
      (kind ∈ keywords ∧ kind.symbol.toList.all fun c => 65 ≤ c.toNat ∧ c.toNat ≤ 90) ∨
        kind.symbol.toList.all fun c =>
          (c.toNat < 65 ∨ 90 < c.toNat) ∧ ¬isLetter c ∧ (Opening.marks.lookup c).isSome := by
    decide +kernel
  rcases of_decide_eq_true (List.all_eq_true.1 hall kind h) with ⟨hmem, hsymbol⟩ | hsymbol
  · exact .inl ⟨hmem, fun c hc => of_decide_eq_true (List.all_eq_true.1 hsymbol c hc)⟩
  · exact .inr fun c hc => of_decide_eq_true (List.all_eq_true.1 hsymbol c hc)

theorem mem_vocabulary_of_mem_keywords {kind : Kind} (h : kind ∈ keywords) :
    kind ∈ Kind.vocabulary := by
  have hall : ∀ kind ∈ keywords, kind ∈ Kind.vocabulary := by decide
  exact hall kind h

/-- Nothing of the vocabulary begins with a character that is neither a letter nor a mark. -/
theorem Lexeme.ofVocabulary?_of_neither {c : Char} (hletter : ¬isLetter c)
    (hmark : Opening.marks.lookup c = none) (rest : List Char) :
    ofVocabulary? (c :: rest) = none := by
  refine Option.map_eq_none_iff.2 (List.find?_eq_none.2 fun kind hkind hbegins => ?_)
  have hmem := toUpper_mem_of_beginsWith hkind hbegins
  rcases mem_keywords_or_marks hkind with ⟨-, hname⟩ | hmarks
  · obtain ⟨hlow, hhigh⟩ := hname _ hmem
    exact hletter (isLetter_of_upper hlow hhigh)
  · -- upper case does not change the character, which would be a mark
    obtain ⟨hrange, -, hlookup⟩ := hmarks _ hmem
    rw [eq_of_toUpper hrange, hmark] at hlookup
    cases hlookup

/-- A spelling of the vocabulary has the same size in any letter case. -/
theorem Spells.utf8Length_eq {kind : Kind} {chars : List Char} (h : Spells kind chars)
    (hkind : kind ∈ Kind.vocabulary) : utf8Length chars = kind.symbol.utf8ByteSize := by
  have hsymbol : ∀ c ∈ kind.symbol.toList, c.utf8Size = 1 := fun c hc =>
    utf8Size_of_printed (Kind.printed_of_mem_symbol hkind c hc).2.1
  have hchars : ∀ c ∈ chars, c.utf8Size = 1 := fun c hc => by
    obtain ⟨hlow, hhigh, -⟩ :=
      Kind.printed_of_mem_symbol hkind _ (h.toUpper_mem_symbol hkind hc)
    exact utf8Size_of_printed (printed_of_toUpper hlow hhigh).2
  rw [utf8Length_of_single hchars, h.length_eq hkind, ← utf8Length_toList,
    utf8Length_of_single hsymbol, String.length_toList]

/-- The names that are looked up in a word are those that the text begins with. -/
theorem hasKeyword_iff {c : Char} (hc : isLetter c) (rest : List Char) (kind : Kind) :
    kind ∈ keywords ∧ hasKeyword ((c :: rest).takeWhile isLetter) kind ↔
      kind ∈ Kind.vocabulary ∧ Lexeme.beginsWith kind.symbol.toList (c :: rest) := by
  constructor
  · rintro ⟨hmem, hword⟩
    have hkind := mem_vocabulary_of_mem_keywords hmem
    refine ⟨hkind, Lexeme.beginsWith_iff.2 ?_⟩
    obtain ⟨front, htake, hfront⟩ := (Option.any_eq_true _ _).1 hword
    obtain ⟨after, hafter⟩ :=
      (takeBytes?_eq_some_iff.1 htake).1.trans (List.takeWhile_prefix isLetter)
    exact ⟨front, after, hafter.symm, beq_iff_eq.1 hfront⟩
  · rintro ⟨hkind, hbegins⟩
    have hmem := Lexeme.toUpper_mem_of_beginsWith hkind hbegins
    rcases mem_keywords_or_marks hkind with ⟨hname, hletters⟩ | hmarks
    · obtain ⟨lexeme, after, htext, hspells⟩ := (Lexeme.beginsWith_symbol_iff hkind).1 hbegins
      -- the spelling is a part of the word, since all of it is letters
      have hlexeme : ∀ d ∈ lexeme, isLetter d := fun d hd => by
        obtain ⟨hlow, hhigh⟩ := hletters _ (hspells.toUpper_mem_symbol hkind hd)
        exact isLetter_of_upper hlow hhigh
      have htake : takeBytes? kind.symbol.utf8ByteSize ((c :: rest).takeWhile isLetter) =
          some lexeme := by
        rw [htext, List.takeWhile_append_of_pos hlexeme, ← hspells.utf8Length_eq hkind]
        exact takeBytes?_append lexeme _
      refine ⟨hname, (Option.any_eq_true _ _).2 ⟨lexeme, htake, beq_iff_eq.2 ?_⟩⟩
      exact (spells_iff_of_mem_vocabulary hkind).1 hspells
    · obtain ⟨hrange, hnot, -⟩ := hmarks _ hmem
      rw [eq_of_toUpper hrange] at hnot
      exact absurd hc hnot

/-- The longest name is the first one of the vocabulary that the text begins with. -/
theorem longestKeyword?_eq {c : Char} (hc : isLetter c) (rest : List Char) :
    longestKeyword? ((c :: rest).takeWhile isLetter) =
      Kind.vocabulary.find? fun kind => Lexeme.beginsWith kind.symbol.toList (c :: rest) := by
  have hmem : ∀ kind, kind ∈ (keywords.filter
      (hasKeyword ((c :: rest).takeWhile isLetter))).reverse ↔
      kind ∈ Kind.vocabulary ∧ Lexeme.beginsWith kind.symbol.toList (c :: rest) := fun kind => by
    rw [List.mem_reverse, List.mem_filter, hasKeyword_iff hc]
  rw [longestKeyword?]
  generalize (keywords.filter _).reverse = found at hmem
  cases hfind : Kind.vocabulary.find? fun kind =>
      Lexeme.beginsWith kind.symbol.toList (c :: rest) with
  | none =>
    rw [List.argmax_eq_none, List.eq_nil_iff_forall_not_mem]
    intro kind hkind
    obtain ⟨hkind, hbegins⟩ := (hmem kind).1 hkind
    exact List.find?_eq_none.1 hfind kind hkind hbegins
  | some kind =>
    have hkind := List.mem_of_find?_eq_some hfind
    have hbegins := List.find?_some hfind
    obtain ⟨other, hother⟩ : ∃ other, found.argmax (fun kind => kind.symbol.utf8ByteSize) =
        some other := by
      rw [← Option.ne_none_iff_exists', Ne, List.argmax_eq_none]
      rintro rfl
      cases (hmem kind).2 ⟨hkind, hbegins⟩
    obtain ⟨hkind', hbegins'⟩ := (hmem other).1 (List.argmax_mem hother)
    obtain ⟨chars, after, htext, hspells⟩ := (Lexeme.beginsWith_symbol_iff hkind).1 hbegins
    obtain ⟨chars', after', htext', hspells'⟩ := (Lexeme.beginsWith_symbol_iff hkind').1 hbegins'
    -- the longest one goes on the first one, which is no shorter
    have hge := List.le_of_mem_argmax ((hmem kind).2 ⟨hkind, hbegins⟩) hother
    have hle := Kind.symbol_length_le_of_find? hfind hkind' hbegins'
    rw [← hspells.utf8Length_eq hkind, ← hspells'.utf8Length_eq hkind'] at hge
    rw [← hspells.length_eq hkind, ← hspells'.length_eq hkind'] at hle
    obtain ⟨more, rfl, -⟩ := exists_append_of_utf8Length_le (htext.symm.trans htext') hge
    obtain rfl : more = [] := by
      rw [List.length_append] at hle
      exact List.length_eq_zero_iff.1 (by omega)
    rw [List.append_nil] at hspells'
    rw [hother, hspells'.unique hspells]

namespace ByteScanner

variable {s : ByteScanner} {c : Char} {rest : List Char}

/-- What follows from the lexeme at a place, or from there being none. -/
def outcome (s : ByteScanner) (c : Char) (rest : List Char) :
    Except LexicalError Lexeme → Except Report Token × ByteScanner
  | .error error => (s.report error, s.moveTo ((⟨s.byte, c :: rest⟩ : Cursor).advance 1))
  | .ok lexeme =>
    let next := (⟨s.byte, c :: rest⟩ : Cursor).advance lexeme.length
    (.ok ⟨lexeme.kind, lexeme.text, ⟨s.byte, next.offset - s.byte⟩⟩, s.moveTo next)

/-- The scanner behind the character in front of it. -/
def behind (s : ByteScanner) (c : Char) (rest : List Char) : ByteScanner :=
  s.moveTo ⟨s.byte + c.utf8Size, rest⟩

theorem outcome_error (error : LexicalError) :
    s.outcome c rest (.error error) = (s.report error, s.behind c rest) := by
  simp [outcome, behind, Cursor.advance, utf8Length_cons]

theorem outcome_ok {front back : List Char} (htext : c :: rest = front ++ back) (kind : Kind)
    (text : String) : s.outcome c rest (.ok ⟨kind, text, front.length⟩) =
      (.ok ⟨kind, text, ⟨s.byte, utf8Length front⟩⟩,
        s.moveTo ⟨s.byte + utf8Length front, back⟩) := by
  simp [outcome, htext, Cursor.advance_append]

theorem advance?_of_append {front back : List Char} (h : s.rest = front ++ back) :
    s.advance? (utf8Length front) = some (s.moveTo ⟨s.byte + utf8Length front, back⟩) :=
  advance?_eq_some_iff.2 ⟨front, back, h, rfl, rfl⟩

/-- From behind the first character of a lexeme to its end. -/
theorem advance?_behind (s : ByteScanner) (c : Char) (front back : List Char) :
    (s.behind c (front ++ back)).advance? (utf8Length front) =
      some (s.moveTo ⟨s.byte + utf8Length (c :: front), back⟩) := by
  have hrest : (s.behind c (front ++ back)).rest = front ++ back := rfl
  rw [advance?_of_append hrest, utf8Length_cons, ← Nat.add_assoc]
  rfl

theorem span?_moveTo (s : ByteScanner) (count : Nat) (back : List Char) :
    s.span? (s.moveTo ⟨s.byte + count, back⟩) = some ⟨s.byte, count⟩ := by
  have hsubtract : subtract? (s.byte + count) s.byte = some count := by
    rw [subtract?, if_pos (Nat.le_add_right ..), Nat.add_sub_cancel_left]
  change (subtract? (s.byte + count) s.byte).bind _ = _
  rw [hsubtract]
  rfl

theorem subtract?_utf8Length_cons (c : Char) (front : List Char) :
    subtract? (utf8Length (c :: front)) c.utf8Size = some (utf8Length front) := by
  rw [subtract?, utf8Length_cons, if_pos (Nat.le_add_right ..), Nat.add_sub_cancel_left]

/-! ### Reading a token in each way -/

/-- A place in a run of characters of one byte each. -/
theorem secondPointByte?_of_single {run : List Char} (h : ∀ d ∈ run, d.utf8Size = 1) :
    secondPointByte? run = some (Lexeme.secondPoint? run) := by
  rw [secondPointByte?, Lexeme.secondPoint?, findByte?_of_single h]
  cases hfirst : run.idxOf? '.' with
  | none => rfl
  | some first =>
    obtain ⟨hlt, -⟩ := List.idxOf?_eq_some_iff.1 hfirst
    simp only [dropBytes?_of_single h hlt, Option.bind_eq_bind, Option.bind_some]
    rw [findByte?_of_single fun d hd => h d (List.mem_of_mem_drop hd)]
    rfl

/-- A numeral. -/
theorem readNumeral?_eq (hc : c.isDigit) (hrest : s.rest = c :: rest) :
    s.readNumeral? (s.behind c rest) c =
      some (s.outcome c rest (Lexeme.scan s.byte c rest)) := by
  have hscan : Lexeme.scan s.byte c rest = Lexeme.ofNumeral s.byte (c :: rest) := if_pos hc
  have htake : (c :: rest).takeWhile Lexeme.isNumeral = c :: rest.takeWhile Lexeme.isNumeral :=
    List.takeWhile_cons_of_pos ((Lexeme.isNumeral_iff c).2 (.inl hc))
  have hrun : ∀ d ∈ c :: rest.takeWhile Lexeme.isNumeral, Lexeme.isNumeral d :=
    htake ▸ List.all_eq_true.1 List.all_takeWhile
  have hsplit : rest.takeWhile Lexeme.isNumeral ++ rest.dropWhile Lexeme.isNumeral = rest :=
    List.takeWhile_append_dropWhile
  generalize rest.takeWhile Lexeme.isNumeral = run at htake hrun hsplit
  generalize rest.dropWhile Lexeme.isNumeral = back at hsplit
  subst hsplit
  have hsingle : ∀ d ∈ c :: run, d.utf8Size = 1 := fun d hd => utf8Size_of_isNumeral (hrun d hd)
  rw [hscan]
  simp only [readNumeral?, hrest, takeBytes?_findByte?_not, htake, Option.bind_eq_bind,
    Option.bind_some, secondPointByte?_of_single hsingle, Lexeme.ofNumeral]
  cases hpoint : Lexeme.secondPoint? (c :: run) with
  | some second => exact congrArg some (outcome_error _).symm
  | none =>
    -- a run without a second point is a numeral, and all numerals can be read
    have hspells := Lexeme.spells_of_secondPoint?_eq_none hc hrun hpoint
    obtain ⟨_, value, hread, -⟩ := hspells.exists_canonicalText
    simp only [subtract?_utf8Length_cons, advance?_behind, span?_moveTo, Option.bind_some, hread]
    exact congrArg some (outcome_ok (List.cons_append ..).symm _ _).symm

/-- A word. -/
theorem readWord?_eq (hmark : Opening.marks.lookup c = none) (hdigit : ¬c.isDigit)
    (hc : isLetter c) (hrest : s.rest = c :: rest) :
    s.readWord? (s.behind c rest) c =
      some (s.outcome c rest (Lexeme.scan s.byte c rest)) := by
  simp only [readWord?, hrest, takeBytes?_findByte?_not, Option.bind_eq_bind, Option.bind_some,
    longestKeyword?_eq hc, Lexeme.scan, if_neg hdigit, Lexeme.ofVocabulary?]
  cases hfind : Kind.vocabulary.find? fun kind =>
      Lexeme.beginsWith kind.symbol.toList (c :: rest) with
  | none =>
    simp only [Option.map_none, if_neg (Opening.not_isHalfOperator_of_lookup hmark), if_pos hc,
      outcome_error]
    rfl
  | some kind =>
    have hkind := List.mem_of_find?_eq_some hfind
    have hbegins := List.find?_some hfind
    obtain ⟨chars, after, htext, hspells⟩ := (Lexeme.beginsWith_symbol_iff hkind).1 hbegins
    obtain ⟨d, front, rfl⟩ := List.exists_cons_of_ne_nil hspells.ne_nil
    rw [List.cons_append] at htext
    obtain ⟨rfl, rfl⟩ := List.cons.inj htext
    simp only [← hspells.utf8Length_eq hkind, ← hspells.length_eq hkind, Option.map_some,
      subtract?_utf8Length_cons, advance?_behind, span?_moveTo, Option.bind_some]
    exact congrArg some (outcome_ok htext _ _).symm

/-- Two of a mark, or one. -/
theorem readTwice?_eq (hrest : s.rest = c :: rest) (twice : Kind)
    (once : Except Report Token) :
    s.readTwice? (s.behind c rest) c twice once =
      some (if rest.head? = some c then s.outcome c rest (.ok ⟨twice, twice.symbol, 2⟩)
        else (once, s.behind c rest)) := by
  change (if rest.head? = some c then _ else _) = _
  by_cases hhead : rest.head? = some c
  · obtain ⟨back, rfl⟩ := List.head?_eq_some_iff.1 hhead
    have hadvance := s.advance?_behind c [c] back
    rw [utf8Length_singleton, List.singleton_append] at hadvance
    rw [if_pos hhead, if_pos hhead]
    simp only [hadvance, span?_moveTo, Option.bind_eq_bind, Option.bind_some]
    exact congrArg some (@outcome_ok s c (c :: back) [c, c] back rfl _ _).symm
  · rw [if_neg hhead, if_neg hhead]
    rfl

/-- A mark. -/
theorem read?_of_mark {opening : Opening} (h : (c, opening) ∈ Opening.marks)
    (hrest : s.rest = c :: rest) :
    s.read? (s.behind c rest) c opening = some (s.outcome c rest (Lexeme.scan s.byte c rest)) := by
  obtain ⟨⟨hupper, hrange, hascii, hdigit⟩, hspelled, -, htext⟩ := Opening.marks_spec h
  have htwice := Lexeme.beginsWith_twice hupper hrange rest
  have honce : Lexeme.beginsWith [c] (c :: rest) := by simp [Lexeme.beginsWith, hupper]
  -- one byte is passed by reading the mark itself
  have hsize : utf8Length [c] = 1 := (utf8Length_singleton c).trans (utf8Size_of_printed hascii)
  have hone : ∀ kind : Kind, (.ok ⟨kind, kind.symbol, ⟨s.byte, 1⟩⟩, s.behind c rest) =
      s.outcome c rest (.ok ⟨kind, kind.symbol, 1⟩) := fun kind => by
    have houtcome := @outcome_ok s c rest [c] rest rfl kind kind.symbol
    rw [hsize] at houtcome
    rw [behind, utf8Size_of_printed hascii]
    exact houtcome.symm
  rw [Lexeme.scan, if_neg hdigit, Lexeme.ofVocabulary?_of_mark h]
  cases opening with
  | numeral | word | stray => cases hspelled
  | single kind =>
    have hsymbol : kind.symbol.toList = [c] := beq_iff_eq.1 hspelled
    have hlength : kind.symbol.length = 1 := Kind.length_symbol hsymbol
    simp only [read?, Opening.kinds, List.find?_cons, hsymbol, honce, Option.map_some,
      htext kind (.head _), hlength]
    exact congrArg some (hone kind)
  | either twice once =>
    obtain ⟨htwo, hsymbol⟩ := Bool.and_eq_true_iff.1 hspelled
    rw [beq_iff_eq] at htwo hsymbol
    have hlength : twice.symbol.length = 2 := Kind.length_symbol htwo
    have hlength' : once.symbol.length = 1 := Kind.length_symbol hsymbol
    have hspan : s.span? (s.behind c rest) = some ⟨s.byte, 1⟩ :=
      (span?_moveTo ..).trans (by rw [utf8Size_of_printed hascii])
    simp only [read?, hspan, readTwice?_eq hrest, Option.bind_eq_bind, Option.bind_some]
    simp only [Opening.kinds, List.find?_cons, hsymbol, honce, htwo]
    by_cases hhead : rest.head? = some c
    · rw [if_pos hhead, htwice.2 hhead]
      simp only [Option.map_some, htext twice (.head _), hlength]
    · rw [if_neg hhead, Bool.eq_false_iff.2 (mt htwice.1 hhead)]
      simp only [Option.map_some, htext once (.tail _ (.head _)), hlength']
      exact congrArg some (hone once)
  | double kind =>
    obtain ⟨htwo, hhalf⟩ := Bool.and_eq_true_iff.1 hspelled
    rw [beq_iff_eq] at htwo
    have hlength : kind.symbol.length = 2 := Kind.length_symbol htwo
    simp only [read?, readTwice?_eq hrest]
    simp only [Opening.kinds, List.find?_cons, List.find?_nil, htwo]
    by_cases hhead : rest.head? = some c
    · rw [if_pos hhead, htwice.2 hhead]
      simp only [Option.map_some, htext kind (.head _), hlength]
    · rw [if_neg hhead, Bool.eq_false_iff.2 (mt htwice.1 hhead)]
      simp only [Option.map_none, if_pos hhalf, outcome_error]

/-- Reading a token at a character that is no blank. -/
theorem read?_eq {opening : Opening} (h : Opening.ofChar? c = some opening)
    (hrest : s.rest = c :: rest) :
    s.read? (s.behind c rest) c opening = some (s.outcome c rest (Lexeme.scan s.byte c rest)) := by
  rw [Opening.ofChar?] at h
  split at h
  next found hlookup =>
    obtain rfl := Option.some.inj h
    exact read?_of_mark (Opening.mem_marks_of_lookup hlookup) hrest
  next hlookup =>
    split at h
    next hdigit =>
      obtain rfl := Option.some.inj h
      exact readNumeral?_eq hdigit hrest
    next hdigit =>
      split at h
      next hletter =>
        obtain rfl := Option.some.inj h
        exact readWord?_eq hlookup hdigit hletter hrest
      next hletter =>
        split at h
        next => cases h
        next =>
          obtain rfl := Option.some.inj h
          have hhalf := Opening.not_isHalfOperator_of_lookup hlookup
          rw [Lexeme.scan, if_neg hdigit, Lexeme.ofVocabulary?_of_neither hletter hlookup]
          simp only [if_neg hhalf, if_neg hletter, outcome_error]
          rfl

/-! ### Reading the next token -/

theorem isBlank_of_ofChar?_eq_none (h : Opening.ofChar? c = none) : isBlank c := by
  rw [Opening.ofChar?] at h
  split at h
  next => cases h
  next =>
    split at h
    next => cases h
    next =>
      split at h
      next => cases h
      next =>
        split at h
        next hblank => exact hblank
        next => cases h

theorem not_isBlank_of_ofChar? {opening : Opening} (h : Opening.ofChar? c = some opening) :
    ¬isBlank c := by
  rw [Opening.ofChar?] at h
  split at h
  next found hlookup =>
    have hall : Opening.marks.all fun mark => ¬isBlank mark.1 := by decide
    exact of_decide_eq_true (List.all_eq_true.1 hall _ (Opening.mem_marks_of_lookup hlookup))
  next =>
    split at h
    next hdigit =>
      obtain ⟨hlow, hhigh⟩ := (isDigit_iff c).1 hdigit
      exact not_isBlank_of_printed (by omega) (by omega)
    next =>
      split at h
      next hletter => exact fun hblank => not_isLetter_of_isBlank hblank hletter
      next =>
        split at h
        next => cases h
        next hblank => exact hblank

/-- The place of the scanner. -/
def cursor (s : ByteScanner) : Cursor :=
  ⟨s.byte, s.rest⟩

/-- The rest is what the text of the source has behind the place. -/
def Placed (s : ByteScanner) : Prop :=
  dropBytes? s.byte s.source.text.toList = some s.rest

/-- Further on, the rest still goes with the place. -/
theorem Placed.moveTo (h : s.Placed) {front back : List Char} (hrest : s.rest = front ++ back) :
    (s.moveTo ⟨s.byte + utf8Length front, back⟩).Placed := by
  obtain ⟨before, htext, hbyte⟩ := dropBytes?_eq_some_iff.1 h
  refine dropBytes?_eq_some_iff.2 ⟨before ++ front, ?_, ?_⟩
  · rw [hrest, ← List.append_assoc] at htext
    exact htext
  · rw [utf8Length_append, hbyte]
    rfl

/-- At a character that is no blank the next token is read there. -/
theorem outcome_eq_scan (hc : ¬isBlank c) :
    s.outcome c rest (Lexeme.scan s.byte c rest) =
      ((⟨s.byte, c :: rest⟩ : Cursor).scan.1.mapError fun error => ⟨s.source, .lexical error⟩,
        s.moveTo (⟨s.byte, c :: rest⟩ : Cursor).scan.2) := by
  have hskip : (⟨s.byte, c :: rest⟩ : Cursor).skipBlanks = ⟨s.byte, c :: rest⟩ := by
    refine @Cursor.skipBlanks_append s.byte [] (c :: rest) (by simp) fun d after hd => ?_
    obtain ⟨rfl, -⟩ := List.cons.inj hd
    exact hc
  rw [Cursor.scan, hskip]
  cases hscan : Lexeme.scan s.byte c rest with
  | error error => simp only [hscan, outcome, Except.mapError, report]
  | ok lexeme => simp only [hscan, outcome, Except.mapError]

theorem scan?_of_nil (hrest : s.rest = []) :
    s.scan? = some (.ok (.endOfInput s.source.text.utf8ByteSize), s) := by
  rw [scan?, hrest]

/-- The loop passes a character, and goes on behind it if it is a blank. -/
theorem scan?_of_cons (hrest : s.rest = c :: rest) :
    s.scan? = match Opening.ofChar? c with
      | none => (s.behind c rest).scan?
      | some opening => s.read? (s.behind c rest) c opening := by
  have hadvance : s.advance? c.utf8Size = some (s.behind c rest) :=
    advance?_eq_some_iff.2 ⟨[c], rest, hrest, utf8Length_singleton c, rfl⟩
  rw [scan?, hrest]
  dsimp only
  split
  next hnone => cases hnone.symm.trans hadvance
  next next hnext =>
    obtain rfl := Option.some.inj (hnext.symm.trans hadvance)
    rfl

/-- Where the rest goes with the place, reading by bytes does not fail, and it reads the token that
comes next. An error names the source. -/
theorem scan?_eq (h : s.Placed) :
    s.scan? = some (s.cursor.scan.1.mapError fun error => ⟨s.source, .lexical error⟩,
      s.moveTo s.cursor.scan.2) := by
  -- the loop goes on at blanks only, and each takes a character off the rest
  induction hrest : s.rest generalizing s with
  | nil =>
    obtain ⟨before, htext, hbyte⟩ := dropBytes?_eq_some_iff.1 h
    have hsize : s.source.text.utf8ByteSize = s.byte := by
      rw [hrest, List.append_nil] at htext
      rw [← utf8Length_toList, htext, hbyte]
    have hscan : s.cursor.scan = (.ok (.endOfInput s.byte), s.cursor) := by
      rw [cursor, hrest, Cursor.scan_of_blank (by simp)]
      rfl
    rw [scan?_of_nil hrest, hscan, hsize]
    rfl
  | cons c rest ih =>
    have hcursor : s.cursor = ⟨s.byte, c :: rest⟩ := by rw [cursor, hrest]
    rw [scan?_of_cons hrest, hcursor]
    cases hopening : Opening.ofChar? c with
    | some opening =>
      rw [← outcome_eq_scan (not_isBlank_of_ofChar? hopening)]
      exact read?_eq hopening hrest
    | none =>
      have hblank : ∀ d ∈ [c], isBlank d := by simpa using isBlank_of_ofChar?_eq_none hopening
      have hplaced := @Placed.moveTo s h [c] rest hrest
      have hskip := @Cursor.scan_append_of_blank s.byte _ hblank rest
      rw [utf8Length_singleton] at hplaced hskip
      rw [List.singleton_append] at hskip
      rw [hskip]
      exact ih hplaced rfl

end ByteScanner

end Reckoner
