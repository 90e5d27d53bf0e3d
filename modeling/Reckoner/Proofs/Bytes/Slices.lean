import Reckoner.Proofs.MaximalMunch

/-!
# Slices of a text

A text is cut by a number of bytes. This goes wrong inside a character and behind the end of the
text, so that every cut here is one that may fail: what is there after it has been at a boundary
between two characters.

## Main definitions

* `splitBytes? count text`: the text in two parts, the first of which has this many bytes;
* `slice? span text`: the part of the text at a span;
* `findByte? p text`: the place of the first character that a predicate holds of.

## Main results

* `splitBytes?_eq_some_iff`, `slice?_eq_some_iff`: what a cut gives, when it does not fail;
* `isSome_dropBytes?_iff`: a text can be cut at its valid positions;
* `takeBytes?_findByte?_not`: cutting a text behind a run of characters never fails.
-/

namespace Reckoner

/-- The text in two parts, the first of which has `count` bytes. There are none if the text is too
short, or if the cut would go through a character. -/
def splitBytes? : (count : Nat) → (text : List Char) → Option (List Char × List Char)
  | 0, text => some ([], text)
  | _ + 1, [] => none
  | count + 1, c :: text =>
    if c.utf8Size ≤ count + 1 then
      (splitBytes? (count + 1 - c.utf8Size) text).map fun parts => (c :: parts.1, parts.2)
    else none

/-- The first `count` bytes of a text. -/
def takeBytes? (count : Nat) (text : List Char) : Option (List Char) :=
  (splitBytes? count text).map Prod.fst

/-- A text without its first `count` bytes. -/
def dropBytes? (count : Nat) (text : List Char) : Option (List Char) :=
  (splitBytes? count text).map Prod.snd

/-- The part of a text at a span. -/
def slice? (span : Span) (text : List Char) : Option (List Char) := do
  let rest ← dropBytes? span.offset text
  takeBytes? span.length rest

/-- The number of bytes in front of the first character that a predicate holds of. -/
def findByte? (p : Char → Bool) : List Char → Option Nat
  | [] => none
  | c :: text => if p c then some 0 else (findByte? p text).map (c.utf8Size + ·)

/-- A cut that does not fail gives two parts of the text, the first of which has the size that was
asked for. -/
theorem splitBytes?_eq_some_iff {count : Nat} {text front back : List Char} :
    splitBytes? count text = some (front, back) ↔
      text = front ++ back ∧ utf8Length front = count := by
  constructor
  · intro h
    induction text generalizing count front with
    | nil =>
      cases count with
      | zero =>
        cases h
        exact ⟨rfl, rfl⟩
      | succ count => cases h
    | cons c text ih =>
      cases count with
      | zero =>
        cases h
        exact ⟨rfl, rfl⟩
      | succ count =>
        rw [splitBytes?] at h
        split at h
        next hle =>
          obtain ⟨⟨front, _⟩, hsplit, hparts⟩ := Option.map_eq_some_iff.1 h
          obtain ⟨rfl, rfl⟩ := Prod.mk.inj hparts
          obtain ⟨rfl, hlength⟩ := ih hsplit
          refine ⟨rfl, ?_⟩
          rw [utf8Length_cons, hlength]
          omega
        next => cases h
  · rintro ⟨rfl, rfl⟩
    induction front with
    | nil => rw [utf8Length_nil, List.nil_append, splitBytes?]
    | cons c front ih =>
      have hpos := c.utf8Size_pos
      rw [utf8Length_cons]
      -- the first character is taken off the number of bytes
      obtain ⟨count, hcount⟩ : ∃ count, c.utf8Size + utf8Length front = count + 1 :=
        ⟨c.utf8Size + utf8Length front - 1, by omega⟩
      have hrest : count + 1 - c.utf8Size = utf8Length front := by omega
      rw [hcount, List.cons_append, splitBytes?, if_pos (by omega), hrest, ih]
      rfl

theorem splitBytes?_append (front back : List Char) :
    splitBytes? (utf8Length front) (front ++ back) = some (front, back) :=
  splitBytes?_eq_some_iff.2 ⟨rfl, rfl⟩

theorem takeBytes?_append (front back : List Char) :
    takeBytes? (utf8Length front) (front ++ back) = some front := by
  rw [takeBytes?, splitBytes?_append, Option.map_some]

theorem dropBytes?_append (front back : List Char) :
    dropBytes? (utf8Length front) (front ++ back) = some back := by
  rw [dropBytes?, splitBytes?_append, Option.map_some]

theorem takeBytes?_eq_some_iff {count : Nat} {text front : List Char} :
    takeBytes? count text = some front ↔ front <+: text ∧ utf8Length front = count := by
  rw [takeBytes?, Option.map_eq_some_iff]
  constructor
  · rintro ⟨⟨_, back⟩, hsplit, rfl⟩
    obtain ⟨rfl, hlength⟩ := splitBytes?_eq_some_iff.1 hsplit
    exact ⟨List.prefix_append _ _, hlength⟩
  · rintro ⟨⟨back, rfl⟩, rfl⟩
    exact ⟨_, splitBytes?_append front back, rfl⟩

/-- What is left behind a number of bytes is the end of the text behind a beginning of this size. -/
theorem dropBytes?_eq_some_iff {count : Nat} {text back : List Char} :
    dropBytes? count text = some back ↔
      ∃ front, text = front ++ back ∧ utf8Length front = count := by
  rw [dropBytes?, Option.map_eq_some_iff]
  constructor
  · rintro ⟨⟨front, _⟩, hsplit, rfl⟩
    exact ⟨front, splitBytes?_eq_some_iff.1 hsplit⟩
  · rintro ⟨front, rfl, rfl⟩
    exact ⟨_, splitBytes?_append front back, rfl⟩

/-- The places at which a text can be cut are the valid positions of the library. -/
theorem isSome_dropBytes?_iff {count : Nat} {text : String} :
    (dropBytes? count text.toList).isSome ↔ String.Pos.Raw.IsValid text ⟨count⟩ := by
  rw [Option.isSome_iff_exists, String.Pos.Raw.isValid_iff_exists_append]
  constructor
  · rintro ⟨back, hdrop⟩
    obtain ⟨front, htext, rfl⟩ := dropBytes?_eq_some_iff.1 hdrop
    refine ⟨String.ofList front, String.ofList back, ?_, ?_⟩
    · rw [← String.ofList_append, ← htext, String.ofList_toList]
    · rw [← String.toList_ofList (l := front), utf8Length_toList, String.toList_ofList]
      rfl
  · rintro ⟨front, back, rfl, hcount⟩
    refine ⟨back.toList, dropBytes?_eq_some_iff.2 ⟨front.toList, String.toList_append, ?_⟩⟩
    rw [utf8Length_toList]
    exact (congrArg String.Pos.Raw.byteIdx hcount).symm

/-- The slice at a span is the part of the text that has its place and its size. -/
theorem slice?_eq_some_iff {span : Span} {text part : List Char} :
    slice? span text = some part ↔ ∃ before after, text = before ++ part ++ after ∧
      span = ⟨utf8Length before, utf8Length part⟩ := by
  rw [slice?]
  constructor
  · intro h
    obtain ⟨rest, hdrop, htake⟩ := Option.bind_eq_some_iff.1 h
    obtain ⟨before, rfl, hbefore⟩ := dropBytes?_eq_some_iff.1 hdrop
    obtain ⟨⟨after, rfl⟩, hpart⟩ := takeBytes?_eq_some_iff.1 htake
    exact ⟨before, after, (List.append_assoc ..).symm, by rw [hbefore, hpart]⟩
  · rintro ⟨before, after, rfl, rfl⟩
    rw [List.append_assoc, dropBytes?_append]
    exact takeBytes?_append part after

/-- Up to the first character that a predicate does not hold of, or up to the end if there is none,
the text is the longest beginning of which the predicate holds. -/
theorem findByte?_not_getD (p : Char → Bool) (text : List Char) :
    (findByte? (fun c => !p c) text).getD (utf8Length text) = utf8Length (text.takeWhile p) := by
  induction text with
  | nil => rfl
  | cons c text ih =>
    rw [findByte?]
    cases hc : p c with
    | false => simp [hc]
    | true =>
      rw [List.takeWhile_cons_of_pos hc, utf8Length_cons, utf8Length_cons, ← ih]
      cases findByte? (fun c => !p c) text <;> rfl

theorem takeBytes?_findByte?_not (p : Char → Bool) (text : List Char) :
    takeBytes? ((findByte? (fun c => !p c) text).getD (utf8Length text)) text =
      some (text.takeWhile p) := by
  rw [takeBytes?_eq_some_iff, findByte?_not_getD]
  exact ⟨List.takeWhile_prefix _, rfl⟩

theorem findByte?_of_single {text : List Char} (h : ∀ c ∈ text, c.utf8Size = 1) (c : Char) :
    findByte? (· == c) text = text.idxOf? c := by
  induction text with
  | nil => rfl
  | cons d text ih =>
    rw [findByte?, List.idxOf?_cons, ih fun e he => h e (.tail _ he), h d (.head _)]
    split
    · rfl
    · simp [Nat.add_comm]

theorem dropBytes?_of_single {text : List Char} (h : ∀ c ∈ text, c.utf8Size = 1) {count : Nat}
    (hcount : count ≤ text.length) : dropBytes? count text = some (text.drop count) := by
  refine dropBytes?_eq_some_iff.2 ⟨text.take count, (List.take_append_drop ..).symm, ?_⟩
  rw [utf8Length_of_single fun c hc => h c (List.mem_of_mem_take hc), List.length_take]
  omega

end Reckoner
