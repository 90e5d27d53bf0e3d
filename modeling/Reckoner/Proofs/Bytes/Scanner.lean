import Mathlib.Data.List.MinMax
import Reckoner.Failure
import Reckoner.Proofs.Bytes.Slices
import Reckoner.Text

/-!
# Scanning by bytes

A scanner that keeps its place as a number of bytes cuts its text at numbers that it adds up and
subtracts. It is given here with every cut and every subtraction as one that may fail: there is no
result (`none`) where a cut would go through a character or behind the end, or where a size would
fall below zero.

## Main definitions

* `ByteScanner`: a place in a source, in bytes, with the rest of the text behind it;
* `ByteScanner.scan?`: reading the next token;
* `ByteScanner.next?`: reading the next token as an iterator does.
-/

namespace Reckoner

/-- A failure, with the source that it is about. -/
structure Report where
  /-- The source. -/
  source : Source
  /-- What failed. -/
  failure : Failure
  deriving DecidableEq, Repr

/-- The difference of two sizes, if it is none below zero. -/
def subtract? (size count : Nat) : Option Nat :=
  if count ≤ size then some (size - count) else none

/-- How a token is read that begins with some character. -/
inductive Opening where
  /-- The character is a token. -/
  | single (kind : Kind)
  /-- The character is a token, and so are two of it. -/
  | either (twice once : Kind)
  /-- Two of the character are a token, and one is none. -/
  | double (kind : Kind)
  /-- The character begins a numeral. -/
  | numeral
  /-- The character begins a word. -/
  | word
  /-- The character begins nothing. -/
  | stray
  deriving DecidableEq, Repr

namespace Opening

/-- The characters that operators and parentheses begin with. -/
def marks : List (Char × Opening) := [
  ('(', single .leftParen), (')', single .rightParen), ('+', single (.operator .plus)),
  ('-', single (.operator .minus)), ('~', single (.operator .flip)),
  ('%', single (.operator .modulo)), ('|', single (.operator .or)),
  ('&', single (.operator .and)), ('^', single (.operator .xor)),
  ('*', either (.operator .power) (.operator .times)),
  ('/', either (.operator .floorDivide) (.operator .divide)),
  ('<', double (.operator .leftShift)), ('>', double (.operator .rightShift))]

/-- How a token is read that begins with the character. There is no token to read at a blank. -/
def ofChar? (c : Char) : Option Opening :=
  match marks.lookup c with
  | some opening => some opening
  | none =>
    if c.isDigit then some numeral
    else if isLetter c then some word
    else if isBlank c then none
    else some stray

end Opening

/-- The names of the vocabulary. -/
def keywords : List Kind := [
  .function .abs, .function .cos, .function .exp, .function .ln, .function .log, .function .sin,
  .function .sqrt, .function .tan, .pi, .function .acos, .function .acosh, .function .asin,
  .function .asinh, .function .atan, .function .atanh, .function .cosh, .function .sinh,
  .function .tanh, .function .ceil, .function .floor, .function .round]

/-- Whether the first bytes of a word are a name in any letter case. -/
def hasKeyword (word : List Char) (kind : Kind) : Bool :=
  (takeBytes? kind.symbol.utf8ByteSize word).any fun front =>
    front.map Char.toUpper == kind.symbol.toList

/-- The longest name with which a word begins, and the last one of those if there were several. -/
def longestKeyword? (word : List Char) : Option Kind :=
  (keywords.filter (hasKeyword word)).reverse.argmax fun kind => kind.symbol.utf8ByteSize

/-- The place of the second decimal point in a run. The result is `none` if the run cannot be cut
behind the first one. -/
def secondPointByte? (run : List Char) : Option (Option Nat) :=
  match findByte? (· == '.') run with
  | none => some none
  | some first => do
    let back ← dropBytes? (first + 1) run
    return (findByte? (· == '.') back).map (first + 1 + ·)

/-- A scanner that keeps its place in bytes. -/
structure ByteScanner where
  /-- What is read. -/
  source : Source
  /-- The characters that have not been read. -/
  rest : List Char
  /-- The number of bytes that have been read. -/
  byte : Nat
  /-- Whether the iterator has met an error or the end of the text. -/
  finished : Bool
  deriving DecidableEq, Repr

namespace ByteScanner

/-- A scanner at the beginning of a source. -/
def ofSource (source : Source) : ByteScanner :=
  ⟨source, source.text.toList, 0, false⟩

/-- The scanner at another place. -/
def moveTo (s : ByteScanner) (cursor : Cursor) : ByteScanner :=
  { s with rest := cursor.rest, byte := cursor.offset }

/-- The scanner a number of bytes further on. -/
def advance? (count : Nat) (s : ByteScanner) : Option ByteScanner := do
  let rest ← dropBytes? count s.rest
  return { s with rest, byte := s.byte + count }

/-- The part of the text from one place to another. -/
def span? (low high : ByteScanner) : Option Span := do
  let length ← subtract? high.byte low.byte
  return ⟨low.byte, length⟩

/-- An error, with the source of the scanner. -/
def report (s : ByteScanner) (error : LexicalError) : Except Report Token :=
  .error ⟨s.source, .lexical error⟩

/-- Reads the same character once more if it is there, and gives another answer if it is not. -/
def readTwice? (s next : ByteScanner) (c : Char) (twice : Kind) (once : Except Report Token) :
    Option (Except Report Token × ByteScanner) :=
  if next.rest.head? = some c then do
    let behind ← next.advance? c.utf8Size
    let span ← s.span? behind
    return (.ok (.ofKind twice span), behind)
  else return (once, next)

/-- Reads a numeral, from a place in front of its first character and one behind it. -/
def readNumeral? (s next : ByteScanner) (c : Char) :
    Option (Except Report Token × ByteScanner) := do
  let stop := (findByte? (fun d => !Lexeme.isNumeral d) s.rest).getD (utf8Length s.rest)
  let literal ← takeBytes? stop s.rest
  match ← secondPointByte? literal with
  | some second => return (s.report (.malformedNumeral ⟨s.byte + second, 1⟩), next)
  | none =>
    let count ← subtract? (utf8Length literal) c.utf8Size
    let behind ← next.advance? count
    let span ← s.span? behind
    match Number.read? (String.ofList literal) with
    | none => return (s.report (.malformedNumeral span), behind)
    | some value => return (.ok ⟨.number, Number.text value, span⟩, behind)

/-- Reads a name, from a place in front of its first character and one behind it. -/
def readWord? (s next : ByteScanner) (c : Char) : Option (Except Report Token × ByteScanner) := do
  let stop := (findByte? (fun d => !isLetter d) s.rest).getD (utf8Length s.rest)
  let word ← takeBytes? stop s.rest
  match longestKeyword? word with
  | none => return (s.report (.unknownWord (String.ofList word) s.byte), next)
  | some kind =>
    let count ← subtract? kind.symbol.utf8ByteSize c.utf8Size
    let behind ← next.advance? count
    let span ← s.span? behind
    return (.ok ⟨kind, Lexeme.textOfKind kind, span⟩, behind)

/-- Reads a token, from a place in front of its first character and one behind it. -/
def read? (s next : ByteScanner) (c : Char) : Opening → Option (Except Report Token × ByteScanner)
  | .single kind => some (.ok (.ofKind kind ⟨s.byte, 1⟩), next)
  | .either twice once => do
    let span ← s.span? next
    s.readTwice? next c twice (.ok (.ofKind once span))
  | .double kind => s.readTwice? next c kind (s.report (.halfOperator c s.byte))
  | .numeral => s.readNumeral? next c
  | .word => s.readWord? next c
  | .stray => some (s.report (.strayCharacter c s.byte), next)

/-- Moving on by bytes, the scanner passes a beginning of the text that has this size. -/
theorem advance?_eq_some_iff {s next : ByteScanner} {count : Nat} :
    s.advance? count = some next ↔ ∃ front back, s.rest = front ++ back ∧
      utf8Length front = count ∧ next = s.moveTo ⟨s.byte + count, back⟩ := by
  constructor
  · intro h
    obtain ⟨back, hdrop, hnext⟩ := Option.bind_eq_some_iff.1 h
    obtain ⟨front, hrest, hcount⟩ := dropBytes?_eq_some_iff.1 hdrop
    exact ⟨front, back, hrest, hcount, (Option.some.inj hnext).symm⟩
  · rintro ⟨front, back, hrest, rfl, rfl⟩
    rw [advance?, hrest, dropBytes?_append]
    rfl

theorem length_rest_lt_of_advance? {s next : ByteScanner} {c : Char}
    (h : s.advance? c.utf8Size = some next) : next.rest.length < s.rest.length := by
  obtain ⟨front, back, hrest, hcount, rfl⟩ := advance?_eq_some_iff.1 h
  -- a character has at least one byte, so that something is passed
  have hne : front ≠ [] := by
    rintro rfl
    exact c.utf8Size_pos.ne hcount
  have hpos := List.length_pos_iff.2 hne
  rw [hrest, List.length_append]
  change back.length < front.length + back.length
  omega

/-- Reads the next token. -/
def scan? (s : ByteScanner) : Option (Except Report Token × ByteScanner) :=
  match s.rest with
  | [] => some (.ok (.endOfInput s.source.text.utf8ByteSize), s)
  | c :: _ =>
    match _ : s.advance? c.utf8Size with
    | none => none
    | some next =>
      match Opening.ofChar? c with
      | none => next.scan?
      | some opening => s.read? next c opening
termination_by s.rest.length
decreasing_by exact length_rest_lt_of_advance? ‹_›

/-- Whether an answer is the last that the iterator gives. -/
def isLast : Except Report Token → Bool
  | .ok token => token.kind == .endOfInput
  | .error _ => true

/-- Reads the next token, up to and including the first error or the end of the text that it meets
itself. -/
def next? (s : ByteScanner) : Option (Option (Except Report Token) × ByteScanner) :=
  if s.finished then return (none, s)
  else do
    let (answer, s) ← s.scan?
    return (some answer, if isLast answer then { s with finished := true } else s)

end ByteScanner

end Reckoner
