import Mathlib.Data.List.Basic
import Mathlib.Data.List.TakeWhile
import Reckoner.Text

/-!
# The lines of a text in bytes

How bytes are split into lines, stated without the function that does it, and which bytes are a
text.

## Main definitions

* `Splits bytes ls`: the bytes are split into these lines;
* `utf8 text`: the bytes of a text.

## Main results

* `lines_of_not_mem`, `lines_append_cons`: the lines of what begins without the end of a line;
* `splits_iff`: there is one way to split bytes into lines, and it is that of `lines`;
* `Splits.append`: what comes behind the end of a line is split by itself.
-/

namespace Reckoner

/-- The bytes are split into these lines. -/
inductive Splits : List UInt8 → List (List UInt8) → Prop
  /-- There are no lines in nothing. -/
  | nil : Splits [] []
  /-- What follows the last newline is a line, with all its bytes. -/
  | unended {line : List UInt8} (hne : line ≠ []) (h : newline ∉ line) : Splits line [line]
  /-- A newline ends a line. -/
  | ended {line rest : List UInt8} {ls : List (List UInt8)} (h : newline ∉ line)
      (hend : line.getLast? ≠ some carriageReturn) (hrest : Splits rest ls) :
      Splits (line ++ newline :: rest) (line :: ls)
  /-- A carriage return in front of the newline is no part of the line. -/
  | returned {line rest : List UInt8} {ls : List (List UInt8)} (h : newline ∉ line)
      (hrest : Splits rest ls) :
      Splits (line ++ carriageReturn :: newline :: rest) (line :: ls)

theorem lines_nil : lines [] = [] := by
  rw [lines]
  rfl

theorem bne_newline_of_not_mem {line : List UInt8} (h : newline ∉ line) :
    ∀ b ∈ line, (b != newline) = true := by
  intro b hb
  apply bne_iff_ne.2
  rintro rfl
  exact h hb

/-- Bytes without a newline are one line. -/
theorem lines_of_not_mem {line : List UInt8} (hne : line ≠ []) (h : newline ∉ line) :
    lines line = [line] := by
  have hall := bne_newline_of_not_mem h
  rw [lines, if_neg (by simpa using hne)]
  split
  next => rw [List.takeWhile_eq_self_iff.2 hall]
  next hdrop =>
    rw [List.dropWhile_eq_nil_iff.2 hall] at hdrop
    cases hdrop

/-- A newline ends the line in front of it. -/
theorem lines_append_cons {line : List UInt8} (h : newline ∉ line) (rest : List UInt8) :
    lines (line ++ newline :: rest) = dropCarriageReturn line :: lines rest := by
  have hall := bne_newline_of_not_mem h
  have htake : (line ++ newline :: rest).takeWhile (· != newline) = line := by
    rw [List.takeWhile_append_of_pos hall]
    simp
  have hdrop : (line ++ newline :: rest).dropWhile (· != newline) = newline :: rest := by
    rw [List.dropWhile_append_of_pos hall]
    simp
  rw [lines, if_neg (by simp)]
  split
  next hnil =>
    rw [hdrop] at hnil
    cases hnil
  next hcons =>
    rw [hdrop] at hcons
    rw [htake, (List.cons.inj hcons).2]

theorem dropCarriageReturn_of_ne {line : List UInt8} (h : line.getLast? ≠ some carriageReturn) :
    dropCarriageReturn line = line :=
  if_neg h

theorem dropCarriageReturn_concat (line : List UInt8) :
    dropCarriageReturn (line ++ [carriageReturn]) = line := by
  rw [dropCarriageReturn, List.getLast?_concat, if_pos rfl, List.dropLast_concat]

/-- Bytes hold no newline, or they are those in front of the first one and those behind it. -/
theorem newline_not_mem_or_exists (bytes : List UInt8) :
    newline ∉ bytes ∨ ∃ line rest, bytes = line ++ newline :: rest ∧ newline ∉ line := by
  by_cases h : newline ∈ bytes
  · obtain ⟨line, rest, hbytes, hline⟩ := List.eq_append_cons_of_mem h
    exact .inr ⟨line, rest, hbytes, hline⟩
  · exact .inl h

theorem splits_lines (bytes : List UInt8) : Splits bytes (lines bytes) := by
  induction hk : bytes.length using Nat.strongRecOn generalizing bytes with
  | ind k ih =>
    rcases newline_not_mem_or_exists bytes with h | ⟨line, rest, rfl, h⟩
    · by_cases hne : bytes = []
      · rw [hne, lines_nil]
        exact .nil
      · rw [lines_of_not_mem hne h]
        exact .unended hne h
    · have hrest : Splits rest (lines rest) := by
        apply ih _ _ rest rfl
        rw [← hk, List.length_append, List.length_cons]
        omega
      rw [lines_append_cons h]
      by_cases hend : line.getLast? = some carriageReturn
      · obtain ⟨line, rfl⟩ := List.getLast?_eq_some_iff.1 hend
        rw [dropCarriageReturn_concat, List.append_assoc, List.singleton_append]
        exact .returned (fun hmem => h (List.mem_append_left _ hmem)) hrest
      · rw [dropCarriageReturn_of_ne hend]
        exact .ended h hend hrest

theorem Splits.lines_eq {bytes : List UInt8} {ls : List (List UInt8)} (h : Splits bytes ls) :
    lines bytes = ls := by
  induction h with
  | nil => exact lines_nil
  | unended hne h => exact lines_of_not_mem hne h
  | ended h hend _ ih => rw [lines_append_cons h, dropCarriageReturn_of_ne hend, ih]
  | @returned line rest ls h _ ih =>
    have h' : newline ∉ line ++ [carriageReturn] := by
      simpa [newline, carriageReturn] using h
    have hlines := lines_append_cons h' rest
    rw [dropCarriageReturn_concat, List.append_assoc, List.singleton_append] at hlines
    rw [hlines, ih]

/-- There is one way to split bytes into lines. -/
theorem splits_iff {bytes : List UInt8} {ls : List (List UInt8)} :
    Splits bytes ls ↔ lines bytes = ls :=
  ⟨Splits.lines_eq, fun h => h ▸ splits_lines bytes⟩

/-- What comes behind the end of a line is split by itself. -/
theorem Splits.append {front back : List UInt8} {ls ls' : List (List UInt8)} (h : Splits front ls)
    (hend : ∀ b ∈ front.getLast?, b = newline) (h' : Splits back ls') :
    Splits (front ++ back) (ls ++ ls') := by
  -- the last byte of what is left is that of the whole
  induction h with
  | nil => exact h'
  | @unended line hne hline =>
    have hlast := hend _ (List.getLast_mem_getLast? hne)
    exact absurd (hlast ▸ List.getLast_mem hne) hline
  | @ended line rest ls hline hlast hrest ih =>
    have hback := ih fun b hb =>
      hend b (List.mem_getLast?_append_of_mem_getLast? (List.mem_getLast?_cons hb))
    rw [List.append_assoc, List.cons_append, List.cons_append]
    exact .ended hline hlast hback
  | @returned line rest ls hline hrest ih =>
    have hback := ih fun b hb => hend b <| List.mem_getLast?_append_of_mem_getLast? <|
      List.mem_getLast?_cons (List.mem_getLast?_cons hb)
    rw [List.append_assoc, List.cons_append, List.cons_append, List.cons_append]
    exact .returned hline hback

theorem Splits.append_lines {front : List UInt8} {ls : List (List UInt8)} (h : Splits front ls)
    (hend : front.getLast? = some newline) (back : List UInt8) :
    Splits (front ++ back) (ls ++ lines back) :=
  h.append (fun _ hb => Option.some.inj (hb.symm.trans hend)) (splits_lines back)

/-! ### Lines that are texts -/

/-- The bytes of a text. -/
def utf8 (text : String) : List UInt8 :=
  text.toUTF8.data.toList

/-- The text of these bytes is the one that they are of. -/
theorem fromUTF8?_utf8 (text : String) :
    String.fromUTF8? ⟨(utf8 text).toArray⟩ = some text := by
  rw [utf8, Array.toArray_toList, String.fromUTF8?]
  exact dif_pos text.isValidUTF8

/-- Bytes that are read as a text are those of this text. -/
theorem utf8_of_fromUTF8? {line : List UInt8} {text : String}
    (h : String.fromUTF8? ⟨line.toArray⟩ = some text) : utf8 text = line := by
  rw [String.fromUTF8?] at h
  split at h
  next hvalid =>
    obtain rfl := Option.some.inj h
    rfl
  next => cases h

end Reckoner
