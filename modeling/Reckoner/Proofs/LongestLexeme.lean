import Reckoner.Proofs.Lexis

/-!
# The scanner reads the longest lexeme

What is read at a character that is no blank is the longest lexeme of the lexical grammar that
begins there. A numeral is the one kind of lexeme for which the converse needs more: a longest
numeral with a decimal point behind it is refused, since the scanner takes the point with it. No
lexeme begins with that point, so nothing is lost.

## Main definitions

* `MaximalRun p run after`: the characters in front of `after` with a property, as far as they go.

## Main results

* `Lexeme.longest_of_scan_eq_ok`: what is read is the longest lexeme;
* `Lexeme.scan_of_longest`: the longest lexeme is read, if no decimal point stands behind it.
-/

namespace Reckoner

/-- A part at the beginning that a predicate holds of is not longer than the longest one. -/
theorem length_le_takeWhile {α : Type} {p : α → Bool} {xs ys : List α} (h : xs <+: ys)
    (hxs : ∀ x ∈ xs, p x) : xs.length ≤ (ys.takeWhile p).length := by
  obtain ⟨zs, rfl⟩ := h
  rw [List.takeWhile_append_of_pos hxs, List.length_append]
  exact Nat.le_add_right _ _

/-- The part that a predicate holds of ends in front of the first element that it does not hold
of. -/
theorem takeWhile_append_of_head {α : Type} {p : α → Bool} {xs ys : List α} (hxs : ∀ x ∈ xs, p x)
    (hys : ∀ y zs, ys = y :: zs → ¬p y) : (xs ++ ys).takeWhile p = xs := by
  rw [List.takeWhile_append_of_pos hxs]
  cases ys with
  | nil => simp
  | cons y zs => simp [hys y zs rfl]

/-- Behind that part the rest follows. -/
theorem dropWhile_append_of_head {α : Type} {p : α → Bool} {xs ys : List α} (hxs : ∀ x ∈ xs, p x)
    (hys : ∀ y zs, ys = y :: zs → ¬p y) : (xs ++ ys).dropWhile p = ys := by
  rw [List.dropWhile_append_of_pos hxs]
  cases ys with
  | nil => simp
  | cons y zs => simp [hys y zs rfl]

/-- All characters of the run have a property, and none follows that has it. -/
structure MaximalRun (p : Char → Bool) (run after : List Char) : Prop where
  /-- All characters of the run have the property. -/
  all : ∀ c ∈ run, p c
  /-- The character behind the run, if there is one, does not have it. -/
  ends : ∀ c rest, after = c :: rest → ¬p c

namespace MaximalRun

variable {p : Char → Bool} {run after : List Char}

theorem takeWhile_append (h : MaximalRun p run after) : (run ++ after).takeWhile p = run :=
  takeWhile_append_of_head h.all h.ends

/-- A text begins with one maximal run only. -/
theorem unique {run' after' : List Char} (h : MaximalRun p run after)
    (h' : MaximalRun p run' after') (htext : run ++ after = run' ++ after') :
    run = run' ∧ after = after' := by
  have hrun : run = run' := by rw [← h.takeWhile_append, htext, h'.takeWhile_append]
  exact ⟨hrun, List.append_cancel_left (hrun ▸ htext)⟩

/-- A part at the beginning that has the property ends with the run at the latest. -/
theorem exists_append (h : MaximalRun p run after) {front back : List Char}
    (hfront : ∀ c ∈ front, p c) (htext : run ++ after = front ++ back) :
    ∃ rest, run = front ++ rest ∧ back = rest ++ after := by
  rcases List.append_eq_append_iff.1 htext with ⟨more, rfl, rfl⟩ | hrest
  · cases more with
    | nil => exact ⟨[], by simp, rfl⟩
    | cons c more => exact absurd (hfront c (by simp)) (h.ends c _ rfl)
  · exact hrest

/-- Every text begins with a maximal run. -/
theorem of_takeWhile (p : Char → Bool) (text : List Char) :
    MaximalRun p (text.takeWhile p) (text.dropWhile p) := by
  refine ⟨List.all_eq_true.1 List.all_takeWhile, fun c rest h => ?_⟩
  have hhead := List.head?_dropWhile_not p text
  rw [h] at hhead
  simpa using hhead

end MaximalRun

namespace Kind

/-- The vocabulary has longer spellings in front of shorter ones. -/
theorem vocabulary_sorted :
    vocabulary.Pairwise fun kind other => other.symbol.length ≤ kind.symbol.length := by
  decide +kernel

/-- The first kind of the vocabulary that is found has the longest spelling of all that could be
found. -/
theorem symbol_length_le_of_find? {p : Kind → Bool} {kind other : Kind}
    (h : vocabulary.find? p = some kind) (hother : other ∈ vocabulary) (hp : p other) :
    other.symbol.length ≤ kind.symbol.length := by
  -- whatever could be found stands at the place of the kind or behind it
  obtain ⟨-, before, after, hvocabulary, hbefore⟩ := List.find?_eq_some_iff_append.1 h
  have hsorted := vocabulary_sorted
  rw [hvocabulary] at hsorted hother
  rcases List.mem_append.1 hother with hmem | hmem
  · have hnot := hbefore other hmem
    rw [hp] at hnot
    cases hnot
  · rcases List.mem_cons.1 hmem with rfl | hmem
    · exact Nat.le_refl _
    · exact List.rel_of_pairwise_cons (List.pairwise_append.1 hsorted).2.1 hmem

end Kind

/-- The length of a spelling is that of the symbol of its kind. -/
theorem Spells.length_eq {kind : Kind} {chars : List Char} (h : Spells kind chars)
    (hkind : kind ∈ Kind.vocabulary) : chars.length = kind.symbol.length := by
  rw [← String.length_toList, ← (spells_iff_of_mem_vocabulary hkind).1 h, List.length_map]

/-- One more digit makes a longer numeral. -/
theorem Spells.append_digit {chars : List Char} {d : Char} (h : Spells .number chars)
    (hd : d.isDigit) : Spells .number (chars ++ [d]) := by
  have hall : ∀ {digits : List Char}, (∀ c ∈ digits, c.isDigit) →
      ∀ c ∈ digits ++ [d], c.isDigit := by
    intro digits hdigits c hc
    rcases List.mem_append.1 hc with hc | hc
    · exact hdigits c hc
    · exact List.mem_singleton.1 hc ▸ hd
  -- the digit goes on the part behind the point, if there is a point
  cases h with
  | integer hne hdigits => exact .integer (by simp) (hall hdigits)
  | decimal hne hwhole hfraction =>
    rw [List.append_assoc]
    exact .decimal hne hwhole (hall hfraction)

namespace Lexeme

/-- The digits of π that the scanner knows are those that its value is written with. -/
theorem piText_eq : piText = Number.text piValue := by
  decide +kernel

/-- A spelling of the vocabulary has the text of its kind. -/
theorem canonicalText_iff {kind : Kind} (hkind : kind ∈ Kind.vocabulary) (lexeme : List Char)
    (text : String) : CanonicalText kind lexeme text ↔ text = textOfKind kind := by
  cases kind with
  | number => exact absurd hkind (by decide)
  | pi => rw [textOfKind, piText_eq]; exact Iff.rfl
  | operator | function | leftParen | rightParen | endOfInput => exact Iff.rfl

/-- A text begins with a spelling if it begins with characters that are the spelling in upper
case. -/
theorem beginsWith_iff {spelling text : List Char} : beginsWith spelling text ↔
    ∃ lexeme after, text = lexeme ++ after ∧ lexeme.map Char.toUpper = spelling := by
  induction spelling generalizing text with
  | nil => simp [beginsWith]
  | cons s spelling ih =>
    cases text with
    | nil => simp [beginsWith]
    | cons c text =>
      rw [beginsWith, Bool.and_eq_true, beq_iff_eq, ih]
      constructor
      · rintro ⟨rfl, lexeme, after, rfl, rfl⟩
        exact ⟨c :: lexeme, after, rfl, rfl⟩
      · rintro ⟨lexeme, after, htext, hlexeme⟩
        cases lexeme with
        | nil => cases hlexeme
        | cons d lexeme =>
          obtain ⟨rfl, rfl⟩ := List.cons.inj htext
          obtain ⟨rfl, rfl⟩ := List.cons.inj hlexeme
          exact ⟨rfl, lexeme, after, rfl, rfl⟩

theorem beginsWith_symbol_iff {kind : Kind} (hkind : kind ∈ Kind.vocabulary) {text : List Char} :
    beginsWith kind.symbol.toList text ↔
      ∃ lexeme after, text = lexeme ++ after ∧ Spells kind lexeme := by
  simp only [beginsWith_iff, spells_iff_of_mem_vocabulary hkind]

/-- The word or operator that is read is the longest lexeme. -/
theorem longest_of_ofVocabulary? {c : Char} {rest : List Char} {lexeme : Lexeme}
    (hc : ¬c.isDigit) (h : ofVocabulary? (c :: rest) = some lexeme) :
    ∃ chars after, c :: rest = chars ++ after ∧ chars.length = lexeme.length ∧
      Longest lexeme.kind chars after ∧ CanonicalText lexeme.kind chars lexeme.text := by
  obtain ⟨kind, hfind, rfl⟩ := Option.map_eq_some_iff.1 h
  have hkind := List.mem_of_find?_eq_some hfind
  have hbegins := List.find?_some hfind
  obtain ⟨chars, after, htext, hspells⟩ := (beginsWith_symbol_iff hkind).1 hbegins
  refine ⟨chars, after, htext, hspells.length_eq hkind, ⟨hspells, ?_⟩,
    (canonicalText_iff hkind _ _).2 rfl⟩
  intro other longer hother ⟨tail, htail⟩
  rw [← htext] at htail
  rcases hother.number_or_mem_vocabulary with rfl | hmem
  · -- no numeral begins here, for lack of a digit
    obtain ⟨d, longer, rfl⟩ := List.exists_cons_of_ne_nil hother.ne_nil
    obtain ⟨rfl, -⟩ := List.cons.inj htail
    exact absurd (hother.isDigit_head_iff.2 rfl) hc
  · rw [hother.length_eq hmem, hspells.length_eq hkind]
    exact Kind.symbol_length_le_of_find? hfind hmem
      ((beginsWith_symbol_iff hmem).2 ⟨longer, tail, htail.symm, hother⟩)

/-- The longest lexeme is found in the vocabulary if it is no numeral. -/
theorem ofVocabulary?_of_longest {kind : Kind} {lexeme after : List Char}
    (hkind : kind ∈ Kind.vocabulary) (h : Longest kind lexeme after) :
    ofVocabulary? (lexeme ++ after) = some ⟨kind, textOfKind kind, lexeme.length⟩ := by
  have hbegins := (beginsWith_symbol_iff hkind).2 ⟨lexeme, after, rfl, h.spells⟩
  rw [ofVocabulary?]
  cases hfind : Kind.vocabulary.find? fun kind =>
      beginsWith kind.symbol.toList (lexeme ++ after) with
  | none => exact absurd hbegins (List.find?_eq_none.1 hfind kind hkind)
  | some found =>
    have hfound := List.mem_of_find?_eq_some hfind
    have hbegins' := List.find?_some hfind
    obtain ⟨chars, rest, htext, hspells⟩ := (beginsWith_symbol_iff hfound).1 hbegins'
    -- the two spellings are equally long, so that they are the same characters
    have hle := Kind.symbol_length_le_of_find? hfind hkind hbegins
    have hge := h.length_le found chars hspells ⟨rest, htext.symm⟩
    rw [← h.spells.length_eq hkind, ← hspells.length_eq hfound] at hle
    obtain ⟨rfl, -⟩ := List.append_inj htext (Nat.le_antisymm hle hge)
    obtain rfl := hspells.unique h.spells
    rw [Option.map_some, h.spells.length_eq hkind]

theorem isNumeral_iff (c : Char) : isNumeral c ↔ c.isDigit ∨ c = '.' := by
  rw [isNumeral, Bool.or_eq_true, beq_iff_eq]

/-- Behind a part in which it does not stand, an element is found at once. -/
theorem idxOf?_append_cons {c : Char} {front : List Char} (h : c ∉ front) (back : List Char) :
    (front ++ c :: back).idxOf? c = some front.length := by
  -- no place in front of this one holds the element
  refine List.idxOf?_eq_some_iff.2 ⟨by simp, by simp, fun j hj heq => h ?_⟩
  rw [List.getElem_append_left hj] at heq
  exact heq ▸ List.getElem_mem hj

/-- Behind the first decimal point, the second one is looked for. -/
theorem secondPoint?_append {whole fraction : List Char} (h : '.' ∉ whole) :
    secondPoint? (whole ++ '.' :: fraction) =
      (fraction.idxOf? '.').map (whole.length + 1 + ·) := by
  simp [secondPoint?, idxOf?_append_cons h]

/-- A run of digits and decimal points with no second point is a numeral. -/
theorem spells_of_secondPoint?_eq_none {c : Char} {run : List Char} (hc : c.isDigit)
    (hrun : ∀ d ∈ c :: run, isNumeral d) (h : secondPoint? (c :: run) = none) :
    Spells .number (c :: run) := by
  have hdigit : ∀ d ∈ c :: run, d ≠ '.' → d.isDigit := fun d hd hpoint =>
    ((isNumeral_iff d).1 (hrun d hd)).resolve_right hpoint
  by_cases hpoint : '.' ∈ c :: run
  · obtain ⟨whole, fraction, hsplit, hwhole⟩ := List.eq_append_cons_of_mem hpoint
    rw [hsplit] at hdigit h ⊢
    rw [secondPoint?_append hwhole, Option.map_eq_none_iff, List.idxOf?_eq_none_iff] at h
    refine .decimal ?_
      (fun d hd => hdigit d (List.mem_append_left _ hd) fun heq => hwhole (heq ▸ hd))
      fun d hd => hdigit d (by simp [hd]) fun heq => h (heq ▸ hd)
    -- the run begins with a digit and not with the point
    rintro rfl
    obtain ⟨rfl, -⟩ := List.cons.inj hsplit
    exact absurd hc (by decide)
  · exact .integer (by simp) fun d hd => hdigit d hd fun heq => hpoint (heq ▸ hd)

/-- A numeral has no second point. -/
theorem secondPoint?_of_spells {run : List Char} (h : Spells .number run) :
    secondPoint? run = none := by
  have hno : ∀ {digits : List Char}, (∀ c ∈ digits, c.isDigit) → '.' ∉ digits :=
    fun hdigits hpoint => absurd (hdigits '.' hpoint) (by decide)
  cases h with
  | integer hne hdigits => rw [secondPoint?, List.idxOf?_eq_none_iff.2 (hno hdigits)]
  | decimal hne hwhole hfraction => simp [secondPoint?_append (hno hwhole), hno hfraction]

/-- The numeral that is read is the longest lexeme. -/
theorem longest_of_ofNumeral {offset : Nat} {c : Char} {rest : List Char} {lexeme : Lexeme}
    (hc : c.isDigit) (h : ofNumeral offset (c :: rest) = .ok lexeme) :
    ∃ chars after, c :: rest = chars ++ after ∧ chars.length = lexeme.length ∧
      Longest lexeme.kind chars after ∧ CanonicalText lexeme.kind chars lexeme.text := by
  have hcons : (c :: rest).takeWhile isNumeral = c :: rest.takeWhile isNumeral :=
    List.takeWhile_cons_of_pos ((isNumeral_iff c).2 (.inl hc))
  have hrun : ∀ d ∈ (c :: rest).takeWhile isNumeral, isNumeral d :=
    List.all_eq_true.1 List.all_takeWhile
  simp only [ofNumeral] at h
  split at h
  next => cases h
  next hpoint =>
    -- the run has no second point, so that it is a numeral as it stands
    split at h
    next value hread =>
      obtain rfl := Except.ok.inj h
      refine ⟨_, _, (List.takeWhile_append_dropWhile).symm, rfl, ⟨?_, ?_⟩, value, hread, rfl⟩
      · rw [hcons] at hrun hpoint ⊢
        exact spells_of_secondPoint?_eq_none hc hrun hpoint
      · intro other longer hother hbegin
        rw [List.takeWhile_append_dropWhile] at hbegin
        -- another lexeme here begins with the same digit, so it is a numeral and part of the run
        obtain ⟨d, longer, rfl⟩ := List.exists_cons_of_ne_nil hother.ne_nil
        obtain rfl := (List.cons_prefix_cons.1 hbegin).1
        obtain rfl := hother.isDigit_head_iff.1 hc
        exact length_le_takeWhile hbegin fun x hx =>
          (isNumeral_iff x).2 (hother.isDigit_or_eq_point hx)
    next => cases h

/-- The longest lexeme is read if it is a numeral without a decimal point behind it. -/
theorem ofNumeral_of_longest {offset : Nat} {chars after : List Char} {text : String}
    (h : Longest .number chars after) (hcanonical : CanonicalText .number chars text)
    (hpoint : ∀ rest, after ≠ '.' :: rest) :
    ofNumeral offset (chars ++ after) = .ok ⟨.number, text, chars.length⟩ := by
  -- the run ends with the numeral: a digit behind it would make it longer
  have hrun : (chars ++ after).takeWhile isNumeral = chars := by
    refine takeWhile_append_of_head
      (fun c hc => (isNumeral_iff c).2 (h.spells.isDigit_or_eq_point hc)) ?_
    rintro d rest rfl hd
    rcases (isNumeral_iff d).1 hd with hd | rfl
    · have hle := h.length_le .number _ (h.spells.append_digit hd) ⟨rest, by simp⟩
      rw [List.length_append, List.length_singleton] at hle
      omega
    · exact hpoint rest rfl
  obtain ⟨value, hread, rfl⟩ := hcanonical
  simp only [ofNumeral, hrun, secondPoint?_of_spells h.spells, hread]

/-- What is read at a character is the longest lexeme that begins there. -/
theorem longest_of_scan_eq_ok {offset : Nat} {c : Char} {rest : List Char} {lexeme : Lexeme}
    (h : scan offset c rest = .ok lexeme) :
    ∃ chars after, c :: rest = chars ++ after ∧ chars.length = lexeme.length ∧
      Longest lexeme.kind chars after ∧ CanonicalText lexeme.kind chars lexeme.text := by
  rw [scan] at h
  split at h
  next hc => exact longest_of_ofNumeral hc h
  next hc =>
    split at h
    next hfound =>
      obtain rfl := Except.ok.inj h
      exact longest_of_ofVocabulary? hc hfound
    next => cases h

/-- The longest lexeme is what is read, if no decimal point stands behind it. -/
theorem scan_of_longest {offset : Nat} {c : Char} {kind : Kind} {rest chars after : List Char}
    {text : String} (htext : c :: rest = chars ++ after) (h : Longest kind chars after)
    (hcanonical : CanonicalText kind chars text) (hpoint : ∀ rest, after ≠ '.' :: rest) :
    scan offset c rest = .ok ⟨kind, text, chars.length⟩ := by
  have hhead : c.isDigit ↔ kind = .number := by
    obtain ⟨d, chars, rfl⟩ := List.exists_cons_of_ne_nil h.spells.ne_nil
    obtain ⟨rfl, -⟩ := List.cons.inj htext
    exact h.spells.isDigit_head_iff
  rw [scan, htext]
  rcases h.spells.number_or_mem_vocabulary with rfl | hkind
  · rw [if_pos (hhead.2 rfl), ofNumeral_of_longest h hcanonical hpoint]
  · have hc : ¬c.isDigit := fun hc => absurd (hhead.1 hc ▸ hkind) (by decide)
    rw [if_neg hc, ofVocabulary?_of_longest hkind h, (canonicalText_iff hkind _ _).1 hcanonical]

end Lexeme

end Reckoner
