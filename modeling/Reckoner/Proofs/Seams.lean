import Mathlib.Data.List.Find
import Reckoner.Proofs.Scanning

/-!
# Scanning a text in two parts

The scanner looks ahead, but not far: how it reads the first part of a text depends on the second
part only if the two characters at the seam may stand side by side in one lexeme, or in one word
that is none. Otherwise the first part is read as if nothing followed, and the second part is read
behind it if the first one was read to its end.

## Main definitions

* `joins x y`: the characters may belong together when they stand side by side;
* `Seam front back`: the two parts do not join;
* `Stream.andThen`: one stream, and another one if the first reaches its end.

## Main results

* `Lexeme.scan_append`: one lexeme of the first part;
* `Stream.scanFrom_append`: all of the two parts.
-/

namespace Reckoner

/-- The two characters may belong together when they stand side by side: in a numeral, in a word, or
in an operator that is written twice. -/
def joins (x y : Char) : Bool :=
  Lexeme.isNumeral x && Lexeme.isNumeral y || isLetter x && isLetter y ||
    x == y && ['*', '/', '<', '>'].contains x

/-- The characters on the two sides do not belong together. -/
def Seam (front back : List Char) : Prop :=
  ∀ x ∈ front.getLast?, ∀ y ∈ back.head?, ¬joins x y

theorem Seam.of_nil_right (front : List Char) : Seam front [] := fun _ _ _ hy => by cases hy

/-- Only the end of the first part counts. -/
theorem Seam.of_append {front mid back : List Char} (h : Seam (front ++ mid) back) :
    Seam mid back := by
  intro x hx
  refine h x ?_
  rw [List.getLast?_append, Option.mem_def.1 hx]
  rfl

theorem Seam.append_left {mid back : List Char} (h : Seam mid back) (hne : mid ≠ [])
    (front : List Char) : Seam (front ++ mid) back := by
  have hlast := List.getLast?_eq_some_getLast hne
  intro x hx
  rw [List.getLast?_append, hlast, Option.some_or, ← hlast] at hx
  exact h x hx

/-- Only the beginning of the second part counts. -/
theorem Seam.append_right {front mid : List Char} (h : Seam front mid) (hne : mid ≠ [])
    (back : List Char) : Seam front (mid ++ back) := by
  obtain ⟨c, mid, rfl⟩ := List.exists_cons_of_ne_nil hne
  exact h

theorem joins_iff (x y : Char) : joins x y ↔ Lexeme.isNumeral x ∧ Lexeme.isNumeral y ∨
    isLetter x ∧ isLetter y ∨ x = y ∧ x ∈ ['*', '/', '<', '>'] := by
  simp only [joins, Bool.or_eq_true, Bool.and_eq_true, beq_iff_eq, List.contains_iff_mem, or_assoc]

theorem joins_comm {x y : Char} (h : joins x y) : joins y x := by
  rw [joins_iff] at h ⊢
  rcases h with ⟨hx, hy⟩ | ⟨hx, hy⟩ | ⟨rfl, hx⟩
  · exact .inl ⟨hy, hx⟩
  · exact .inr (.inl ⟨hy, hx⟩)
  · exact .inr (.inr ⟨rfl, hx⟩)

/-- A character that nothing joins, neither in front of it nor behind it. -/
def Apart (c : Char) : Prop :=
  ∀ y, ¬joins c y

theorem Apart.seam_cons {c : Char} (h : Apart c) (front back : List Char) :
    Seam front (c :: back) := by
  rintro x - y hy hjoins
  obtain rfl := Option.some.inj hy
  exact h x (joins_comm hjoins)

theorem Apart.seam_concat {c : Char} (h : Apart c) (front back : List Char) :
    Seam (front ++ [c]) back := by
  rintro x hx y - hjoins
  rw [List.getLast?_concat] at hx
  obtain rfl := Option.some.inj hx
  exact h y hjoins

theorem apart_of_neither {c : Char} (hnumeral : ¬Lexeme.isNumeral c) (hletter : ¬isLetter c)
    (hdouble : c ∉ ['*', '/', '<', '>']) : Apart c := by
  intro y hjoins
  rcases (joins_iff c y).1 hjoins with ⟨h, -⟩ | ⟨h, -⟩ | ⟨-, h⟩
  · exact hnumeral h
  · exact hletter h
  · exact hdouble h

/-- No letter comes in front of those of ASCII. -/
theorem not_isLetter_of_lt {c : Char} (h : c.toNat < 65) : ¬isLetter c := by
  have hall : letterRanges.all fun range => 65 ≤ range.1 := by decide +kernel
  rw [isLetter, List.any_eq_true]
  rintro ⟨range, hrange, hc⟩
  have hlow := of_decide_eq_true (List.all_eq_true.1 hall range hrange)
  rw [Bool.and_eq_true, decide_eq_true_iff] at hc
  omega

theorem apart_leftParen : Apart '(' :=
  apart_of_neither (by decide) (not_isLetter_of_lt (by decide)) (by decide)

theorem apart_rightParen : Apart ')' :=
  apart_of_neither (by decide) (not_isLetter_of_lt (by decide)) (by decide)

theorem apart_plus : Apart '+' :=
  apart_of_neither (by decide) (not_isLetter_of_lt (by decide)) (by decide)

theorem apart_minus : Apart '-' :=
  apart_of_neither (by decide) (not_isLetter_of_lt (by decide)) (by decide)

/-- No blank is a letter. -/
theorem not_isLetter_of_isBlank {c : Char} (h : isBlank c) : ¬isLetter c := by
  have hall : blankRanges.all fun blank => letterRanges.all fun range =>
      blank.2 < range.1 ∨ range.2 < blank.1 := by decide +kernel
  rw [isBlank, List.any_eq_true] at h
  rw [isLetter, List.any_eq_true]
  obtain ⟨blank, hblank, hc⟩ := h
  rintro ⟨range, hrange, hc'⟩
  have hdisjoint := of_decide_eq_true
    (List.all_eq_true.1 (List.all_eq_true.1 hall blank hblank) range hrange)
  rw [Bool.and_eq_true, decide_eq_true_iff, decide_eq_true_iff] at hc hc'
  omega

theorem apart_of_isBlank {c : Char} (h : isBlank c) : Apart c := by
  have hall : ['.', '*', '/', '<', '>'].all fun d => !isBlank d := by decide
  have hmark : ∀ d ∈ ['.', '*', '/', '<', '>'], ¬isBlank d := fun d hd => by
    simpa using List.all_eq_true.1 hall d hd
  refine apart_of_neither (fun hnumeral => ?_) (not_isLetter_of_isBlank h)
    fun hmem => hmark c (.tail _ hmem) h
  rcases (Lexeme.isNumeral_iff c).1 hnumeral with hdigit | rfl
  · obtain ⟨hlow, hhigh⟩ := (isDigit_iff c).1 hdigit
    exact not_isBlank_of_printed (by omega) (by omega) h
  · exact hmark '.' (.head _) h

/-! ### Looking ahead -/

/-- A run ends at a seam. -/
theorem takeWhile_append_of_not_joins {p : Char → Bool} {x : Char} {xs ys : List Char}
    (h : ∀ a ∈ (x :: xs).getLast?, ∀ b ∈ ys.head?, ¬(p a ∧ p b)) :
    (x :: xs ++ ys).takeWhile p = (x :: xs).takeWhile p := by
  induction xs generalizing x with
  | nil =>
    by_cases hx : p x
    · cases ys with
      | nil => rfl
      | cons y ys =>
        have hy : ¬p y := fun hy => h x rfl y rfl ⟨hx, hy⟩
        simp [hx, hy]
    · simp [hx]
  | cons x' xs ih =>
    rw [List.cons_append, List.takeWhile_cons, List.takeWhile_cons, ih]
    rwa [List.getLast?_cons_cons] at h

/-- A spelling is not looked for beyond a seam. -/
theorem Lexeme.beginsWith_append {x : Char} {spelling xs ys : List Char}
    (h : ∀ a ∈ (x :: xs).getLast?, ∀ b ∈ ys.head?,
      (a.toUpper, b.toUpper) ∉ spelling.zip spelling.tail) :
    beginsWith spelling (x :: xs ++ ys) = beginsWith spelling (x :: xs) := by
  induction xs generalizing x spelling with
  | nil =>
    rcases spelling with _ | ⟨s, _ | ⟨s', spelling⟩⟩
    · rfl
    · rfl
    cases ys with
    | nil => rfl
    | cons y ys =>
      -- the spelling would have to hold the two characters side by side
      have hpair : ¬(s = x.toUpper ∧ s' = y.toUpper) := by
        rintro ⟨rfl, rfl⟩
        exact h x rfl y rfl (.head _)
      have hfalse : (s == x.toUpper && (s' == y.toUpper && beginsWith spelling ys)) = false := by
        rw [Bool.eq_false_iff]
        simp only [ne_eq, Bool.and_eq_true, beq_iff_eq]
        exact fun hboth => hpair ⟨hboth.1, hboth.2.1⟩
      simp [beginsWith, hfalse]
  | cons x' xs ih =>
    rcases spelling with _ | ⟨s, _ | ⟨s', spelling⟩⟩
    · rfl
    · rfl
    have hrest : beginsWith (s' :: spelling) (x' :: xs ++ ys) =
        beginsWith (s' :: spelling) (x' :: xs) := by
      refine ih fun a ha b hb hmem => ?_
      rw [List.getLast?_cons_cons] at h
      exact h a ha b hb (.tail _ hmem)
    change (s == x.toUpper && beginsWith (s' :: spelling) (x' :: xs ++ ys)) =
      (s == x.toUpper && beginsWith (s' :: spelling) (x' :: xs))
    rw [hrest]

theorem isLetter_of_upper {c : Char} (hlow : 65 ≤ c.toUpper.toNat) (hhigh : c.toUpper.toNat ≤ 90) :
    isLetter c := by
  -- the two ranges of the letters of ASCII are the first ones
  rw [isLetter, List.any_eq_true]
  rcases toUpper_cases c with heq | ⟨hlower, hupper, -⟩
  · rw [heq] at hlow hhigh
    exact ⟨(0x41, 0x5A), .head _, by simp [hlow, hhigh]⟩
  · exact ⟨(0x61, 0x7A), .tail _ (.head _), by simp [hlower, hupper]⟩

/-- Two characters that stand side by side in a spelling join. -/
theorem joins_of_mem_symbol {kind : Kind} (hkind : kind ∈ Kind.vocabulary) {x y : Char}
    (h : (x.toUpper, y.toUpper) ∈ kind.symbol.toList.zip kind.symbol.toList.tail) :
    joins x y := by
  have hall : Kind.vocabulary.all fun kind =>
      (kind.symbol.toList.zip kind.symbol.toList.tail).all fun pair =>
        (65 ≤ pair.1.toNat ∧ pair.1.toNat ≤ 90 ∧ 65 ≤ pair.2.toNat ∧ pair.2.toNat ≤ 90) ∨
          pair.1 = pair.2 ∧ pair.1 ∈ ['*', '/', '<', '>'] := by decide +kernel
  have hpair := of_decide_eq_true (List.all_eq_true.1 (List.all_eq_true.1 hall kind hkind) _ h)
  rw [joins_iff]
  rcases hpair with ⟨hlow, hhigh, hlow', hhigh'⟩ | ⟨heq, hmem⟩
  · exact .inr (.inl ⟨isLetter_of_upper hlow hhigh, isLetter_of_upper hlow' hhigh'⟩)
  · -- there is no letter, so that upper case changes nothing
    have hall : ['*', '/', '<', '>'].all fun c => c.toNat < 65 := by decide
    have hsmall : x.toUpper.toNat < 65 := of_decide_eq_true (List.all_eq_true.1 hall _ hmem)
    dsimp only at heq hmem
    have hx : x.toUpper = x := eq_of_toUpper (.inl hsmall)
    have hy : y.toUpper = y := eq_of_toUpper (.inl (heq ▸ hsmall))
    rw [hx] at hmem
    rw [hx, hy] at heq
    exact .inr (.inr ⟨heq, hmem⟩)

namespace Lexeme

variable {c : Char} {front back : List Char}

theorem ofVocabulary?_append (h : Seam (c :: front) back) :
    ofVocabulary? (c :: front ++ back) = ofVocabulary? (c :: front) := by
  rw [ofVocabulary?, ofVocabulary?]
  refine congrArg _ (List.find?_congr fun kind hkind => ?_)
  exact beginsWith_append fun a ha b hb hmem => h a ha b hb (joins_of_mem_symbol hkind hmem)

theorem ofNumeral_append (h : Seam (c :: front) back) (offset : Nat) :
    ofNumeral offset (c :: front ++ back) = ofNumeral offset (c :: front) := by
  have hrun : (c :: front ++ back).takeWhile isNumeral = (c :: front).takeWhile isNumeral :=
    takeWhile_append_of_not_joins fun a ha b hb hboth =>
      h a ha b hb ((joins_iff a b).2 (.inl hboth))
  rw [ofNumeral, ofNumeral, hrun]

/-- A lexeme is read as if nothing followed behind a seam. -/
theorem scan_append (h : Seam (c :: front) back) (offset : Nat) :
    scan offset c (front ++ back) = scan offset c front := by
  have hword : (c :: front ++ back).takeWhile isLetter = (c :: front).takeWhile isLetter :=
    takeWhile_append_of_not_joins fun a ha b hb hboth =>
      h a ha b hb ((joins_iff a b).2 (.inr (.inl hboth)))
  have hnumeral := ofNumeral_append h offset
  have hvocabulary := ofVocabulary?_append h
  rw [List.cons_append] at hword hnumeral hvocabulary
  rw [scan, scan, hnumeral, hvocabulary, hword]

/-- A lexeme is no longer than the text. -/
theorem length_le_of_scan {offset : Nat} {lexeme : Lexeme} (h : scan offset c front = .ok lexeme) :
    lexeme.length ≤ (c :: front).length := by
  obtain ⟨chars, after, htext, hlength, -⟩ := longest_of_scan_eq_ok h
  rw [htext, ← hlength, List.length_append]
  exact Nat.le_add_right _ _

end Lexeme

namespace Cursor

variable {offset : Nat} {front back : List Char}

theorem skipBlanks_append_of_blank {blanks : List Char} (h : ∀ c ∈ blanks, isBlank c)
    (rest : List Char) :
    (⟨offset, blanks ++ rest⟩ : Cursor).skipBlanks =
      (⟨offset + utf8Length blanks, rest⟩ : Cursor).skipBlanks := by
  rw [skipBlanks, skipBlanks, List.takeWhile_append_of_pos h]
  simp [advance, Nat.add_assoc, List.take_append, List.take_of_length_le]

/-- Blanks in front of a text are passed over. -/
theorem scan_append_of_blank {blanks : List Char} (h : ∀ c ∈ blanks, isBlank c)
    (rest : List Char) :
    (⟨offset, blanks ++ rest⟩ : Cursor).scan =
      (⟨offset + utf8Length blanks, rest⟩ : Cursor).scan := by
  rw [scan, scan, skipBlanks_append_of_blank h]

theorem advance_append_of_le {count : Nat} (h : count ≤ front.length) :
    (⟨offset, front ++ back⟩ : Cursor).advance count =
      ⟨offset + utf8Length (front.take count), front.drop count ++ back⟩ := by
  simp [advance, List.take_append_of_le_length h, List.drop_append_of_le_length h]

/-- In front of a lexeme, or of a character that begins none, as many characters are passed as if
nothing followed. -/
theorem scan_cons_append {c : Char} (hhead : ¬isBlank c) (h : Seam (c :: front) back) :
    ∃ answer count, 0 < count ∧ ∀ rest, rest = [] ∨ rest = back →
      (⟨offset, c :: front ++ rest⟩ : Cursor).scan =
        (answer, ⟨offset + utf8Length ((c :: front).take count),
          (c :: front).drop count ++ rest⟩) := by
  have hskip : ∀ rest, (⟨offset, c :: front ++ rest⟩ : Cursor).skipBlanks =
      ⟨offset, c :: front ++ rest⟩ := by
    intro rest
    refine @skipBlanks_append offset [] (c :: front ++ rest) (by simp) fun d after hd => ?_
    obtain ⟨rfl, -⟩ := List.cons.inj hd
    exact hhead
  have hscan : ∀ rest, rest = [] ∨ rest = back →
      Lexeme.scan offset c (front ++ rest) = Lexeme.scan offset c front := by
    rintro rest (rfl | rfl)
    · rw [List.append_nil]
    · exact Lexeme.scan_append h offset
  cases hresult : Lexeme.scan offset c front with
  | error error =>
    refine ⟨.error error, 1, Nat.one_pos, fun rest hrest => ?_⟩
    rw [scan, hskip, ← advance_append_of_le (Nat.succ_le_succ (Nat.zero_le front.length))]
    simp only [List.cons_append, hscan rest hrest, hresult]
  | ok lexeme =>
    refine ⟨.ok ⟨lexeme.kind, lexeme.text, ⟨offset, utf8Length ((c :: front).take lexeme.length)⟩⟩,
      lexeme.length, Lexeme.length_pos_of_scan hresult, fun rest hrest => ?_⟩
    have hadvance := @advance_append_of_le offset (c :: front) rest _
      (Lexeme.length_le_of_scan hresult)
    rw [List.cons_append] at hadvance
    rw [scan, hskip]
    simp only [List.cons_append, hscan rest hrest, hresult, hadvance, Nat.add_sub_cancel_left]

/-- What is scanned in the first part is scanned as if nothing followed. -/
theorem scan_append (hblank : ¬∀ c ∈ front, isBlank c) (h : Seam front back) :
    ∃ answer next passed rest, front = passed ++ rest ∧ passed ≠ [] ∧
      next = (offset + utf8Length passed) ∧
      (⟨offset, front⟩ : Cursor).scan = (answer, ⟨next, rest⟩) ∧
      (⟨offset, front ++ back⟩ : Cursor).scan = (answer, ⟨next, rest ++ back⟩) := by
  obtain ⟨blanks, text, rfl, hblanks, hhead⟩ := exists_blanks front
  cases text with
  | nil => exact absurd (by simpa using hblanks) hblank
  | cons c text =>
    obtain ⟨answer, count, hcount, hscan⟩ :=
      @scan_cons_append (offset + utf8Length blanks) text back c (hhead c text rfl) h.of_append
    have halone := hscan [] (.inl rfl)
    have hboth := hscan back (.inr rfl)
    rw [List.append_nil, List.append_nil] at halone
    rw [← scan_append_of_blank hblanks, Nat.add_assoc, ← utf8Length_append] at halone hboth
    have hpassed : blanks ++ (c :: text).take count ≠ [] := by
      intro hnil
      have htake := List.take_eq_nil_iff.1 (List.append_eq_nil_iff.1 hnil).2
      exact htake.elim hcount.ne' (List.cons_ne_nil c text)
    refine ⟨answer, _, blanks ++ (c :: text).take count, (c :: text).drop count, ?_, hpassed, rfl,
      halone, by rw [List.append_assoc, hboth]⟩
    rw [List.append_assoc, List.take_append_drop]

end Cursor

namespace Stream

/-- What there is to read in one stream, and then in another one if the first one reaches its
end. -/
def andThen (first second : Stream) : Stream :=
  match first.stop with
  | .endOfInput _ => second.behind first.tokens
  | .failure _ => first

theorem andThen_behind (ts : List Token) (first second : Stream) :
    (first.behind ts).andThen second = (first.andThen second).behind ts := by
  obtain ⟨us, stop⟩ := first
  cases stop with
  | endOfInput length => exact (behind_behind ts us second).symm
  | failure error => rfl

/-- Blanks in front of a text are no tokens. -/
theorem scanFrom_blanks {blanks : List Char} (h : ∀ c ∈ blanks, isBlank c) (offset : Nat)
    (rest : List Char) :
    scanFrom [] ⟨offset, blanks ++ rest⟩ = scanFrom [] ⟨offset + utf8Length blanks, rest⟩ := by
  rw [scanFrom, scanFrom, Cursor.scan_append_of_blank h]

/-- A text in two parts is read part by part. -/
theorem scanFrom_append {front back : List Char} (h : Seam front back) (offset : Nat) :
    scanFrom [] ⟨offset, front ++ back⟩ =
      (scanFrom [] ⟨offset, front⟩).andThen
        (scanFrom [] ⟨offset + utf8Length front, back⟩) := by
  induction hk : front.length using Nat.strongRecOn generalizing offset front with
  | ind k ih =>
    by_cases hblank : ∀ c ∈ front, isBlank c
    · -- nothing is to be read in the first part
      rw [scanFrom_of_endOfInput (Cursor.scan_of_blank hblank) rfl]
      change _ = behind [] _
      rw [behind_nil, scanFrom_blanks hblank]
    · obtain ⟨answer, next, passed, rest, hfront, hpassed, hnext, halone, hboth⟩ :=
        @Cursor.scan_append offset front back hblank h
      cases answer with
      | error error =>
        rw [scanFrom_of_error halone, scanFrom_of_error hboth]
        rfl
      | ok token =>
        by_cases hkind : token.kind = .endOfInput
        · rcases Cursor.leads_of_scan_eq_ok halone with ⟨hall, -⟩ | ⟨_, _, _, -, hleads, -⟩
          · exact absurd hall hblank
          · exact absurd hkind hleads.longest.spells.ne_endOfInput
        · have hlt : rest.length < k := by
            have hpos := List.length_pos_iff.2 hpassed
            rw [← hk, hfront, List.length_append]
            omega
          have hoffset : offset + utf8Length front = next + utf8Length rest := by
            rw [hnext, hfront, utf8Length_append, Nat.add_assoc]
          rw [scanFrom_nil_of_token halone hkind, scanFrom_nil_of_token hboth hkind,
            andThen_behind, hoffset]
          rw [hfront] at h
          rw [ih _ hlt h.of_append next rfl]

/-- A lexeme by itself is one token. -/
theorem scanFrom_lexeme {kind : Kind} {chars : List Char} {text : String} (h : Spells kind chars)
    (hcanonical : CanonicalText kind chars text) (offset : Nat) :
    scanFrom [] ⟨offset, chars⟩ =
      ⟨[⟨kind, text, ⟨offset, utf8Length chars⟩⟩], .endOfInput (offset + utf8Length chars)⟩ := by
  have hleads : Token.Leads ⟨kind, text, ⟨offset, utf8Length chars⟩⟩ offset [] chars [] :=
    ⟨by simp, ⟨h, fun _ _ _ hlonger => by simpa using hlonger.length_le⟩, hcanonical, rfl⟩
  have hcut := Cut.token hleads (.blank (by simp))
  rw [List.nil_append, List.append_nil] at hcut
  exact scanFrom_eq_iff_cut.2 ⟨hcut, rfl⟩

/-- A lexeme that does not join what follows is a token of its own, behind any blanks. -/
theorem scanFrom_lexeme_append {kind : Kind} {blanks chars rest : List Char} {text : String}
    (hblanks : ∀ c ∈ blanks, isBlank c) (h : Spells kind chars)
    (hcanonical : CanonicalText kind chars text) (hseam : Seam chars rest) (offset : Nat) :
    scanFrom [] ⟨offset, blanks ++ chars ++ rest⟩ =
      (scanFrom [] ⟨offset + utf8Length (blanks ++ chars), rest⟩).behind
        [⟨kind, text, ⟨offset + utf8Length blanks, utf8Length chars⟩⟩] := by
  rw [scanFrom_append (hseam.append_left h.ne_nil blanks), scanFrom_blanks hblanks,
    scanFrom_lexeme h hcanonical]
  rfl

/-! ### Parentheses -/

/-- A character that nothing joins is a token of its own if it is a lexeme, whatever stands around
it. -/
theorem scanFrom_apart {kind : Kind} {c : Char} {text : String} (h : Apart c)
    (hspells : Spells kind [c]) (hcanonical : CanonicalText kind [c] text) (offset : Nat)
    (front back : List Char) :
    scanFrom [] ⟨offset, front ++ c :: back⟩ =
      (scanFrom [] ⟨offset, front⟩).andThen
        ((scanFrom [] ⟨offset + utf8Length front + utf8Length [c], back⟩).behind
          [⟨kind, text, ⟨offset + utf8Length front, utf8Length [c]⟩⟩]) := by
  have hback := @scanFrom_lexeme_append kind [] [c] back text nofun hspells hcanonical
    (h.seam_concat [] back) (offset + utf8Length front)
  rw [scanFrom_append (h.seam_cons front back)]
  exact congrArg (andThen _) hback

theorem scanFrom_leftParen (offset : Nat) (front back : List Char) :
    scanFrom [] ⟨offset, front ++ '(' :: back⟩ =
      (scanFrom [] ⟨offset, front⟩).andThen
        ((scanFrom [] ⟨offset + utf8Length front + 1, back⟩).behind
          [.ofKind .leftParen ⟨offset + utf8Length front, 1⟩]) :=
  scanFrom_apart apart_leftParen .leftParen rfl offset front back

theorem scanFrom_rightParen (offset : Nat) (front back : List Char) :
    scanFrom [] ⟨offset, front ++ ')' :: back⟩ =
      (scanFrom [] ⟨offset, front⟩).andThen
        ((scanFrom [] ⟨offset + utf8Length front + 1, back⟩).behind
          [.ofKind .rightParen ⟨offset + utf8Length front, 1⟩]) :=
  scanFrom_apart apart_rightParen .rightParen rfl offset front back

end Stream

end Reckoner
