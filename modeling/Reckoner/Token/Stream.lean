import Reckoner.Token.Scan

/-!
# The tokens of a text

A `Stream` is what there is to read in a text: tokens one after another, up to the end of the text
or up to a place where no token can be read. A `Tape` is a stream of which a part has been read, and
keeps a record of that. A `Scanner` reads the same tokens one at a time, and goes on after an error.
-/

namespace Reckoner

namespace Lexeme

/-- A numeral has at least the digit that it begins with. -/
theorem length_pos_of_ofNumeral {offset : Nat} {c : Char} {rest : List Char} {lexeme : Lexeme}
    (hc : c.isDigit = true) (h : ofNumeral offset (c :: rest) = .ok lexeme) :
    0 < lexeme.length := by
  have hrun : 0 < ((c :: rest).takeWhile isNumeral).length := by
    simp [isNumeral, hc]
  simp only [ofNumeral] at h
  split at h
  · simp at h
  · split at h
    · injection h with h
      subst h
      exact hrun
    · simp at h

/-- No spelling of the vocabulary is empty. -/
theorem symbol_length_pos {kind : Kind} (h : kind ∈ Kind.vocabulary) : 0 < kind.symbol.length := by
  revert kind
  decide

/-- A word or an operator has at least one character. -/
theorem length_pos_of_ofVocabulary? {text : List Char} {lexeme : Lexeme}
    (h : ofVocabulary? text = some lexeme) : 0 < lexeme.length := by
  obtain ⟨kind, hkind, rfl⟩ := Option.map_eq_some_iff.1 h
  exact symbol_length_pos (List.mem_of_find?_eq_some hkind)

/-- Every token has at least one character. -/
theorem length_pos_of_scan {offset : Nat} {c : Char} {rest : List Char} {lexeme : Lexeme}
    (h : scan offset c rest = .ok lexeme) : 0 < lexeme.length := by
  unfold scan at h
  split at h
  · next hc => exact length_pos_of_ofNumeral hc h
  · split at h
    · next hv =>
      injection h with h
      exact h ▸ length_pos_of_ofVocabulary? hv
    · simp at h

end Lexeme

namespace Cursor

/-- Moving on never adds characters. -/
theorem length_rest_advance (count : Nat) (cursor : Cursor) :
    (cursor.advance count).rest.length = cursor.rest.length - count := by
  simp [advance]

/-- Skipping blanks never adds characters. -/
theorem length_rest_skipBlanks_le (cursor : Cursor) :
    cursor.skipBlanks.rest.length ≤ cursor.rest.length := by
  simp [skipBlanks, length_rest_advance]

/-- Reading a token leaves fewer characters, unless the text is at its end. -/
theorem length_rest_lt_of_scan {cursor next : Cursor} {token : Token}
    (h : cursor.scan = (.ok token, next)) (hkind : token.kind ≠ .endOfInput) :
    next.rest.length < cursor.rest.length := by
  have hskip := cursor.length_rest_skipBlanks_le
  simp only [scan] at h
  split at h
  · obtain ⟨ht, -⟩ := Prod.mk.injEq .. ▸ h
    injection ht with ht
    exact absurd (ht ▸ rfl) hkind
  · next c rest hrest =>
    split at h
    · simp at h
    · next lexeme hlexeme =>
      obtain ⟨-, rfl⟩ := Prod.mk.injEq .. ▸ h
      have hpos := Lexeme.length_pos_of_scan hlexeme
      rw [length_rest_advance]
      rw [hrest, List.length_cons] at hskip ⊢
      omega

end Cursor

/-- Why there are no more tokens. -/
inductive Stop where
  /-- The text ends, after this many bytes. -/
  | endOfInput (length : Nat)
  /-- No token can be read. -/
  | failure (error : LexicalError)
  deriving DecidableEq, Repr

/-- Tokens in their order, and what comes after them. -/
structure Stream where
  /-- The tokens, without the one that stands for the end. -/
  tokens : List Token
  /-- What comes after the tokens. -/
  stop : Stop
  deriving DecidableEq, Repr

namespace Stream

/-- The tokens from a place on, after those in `seen`, which are in reverse order. -/
def scanFrom (seen : List Token) (cursor : Cursor) : Stream :=
  match _ : cursor.scan with
  | (.error error, _) => ⟨seen.reverse, .failure error⟩
  | (.ok token, next) =>
    if _ : token.kind = .endOfInput then ⟨seen.reverse, .endOfInput token.span.offset⟩
    else scanFrom (token :: seen) next
termination_by cursor.rest.length
decreasing_by exact Cursor.length_rest_lt_of_scan ‹_› ‹_›

/-- The tokens of a text. -/
def ofText (text : String) : Stream :=
  scanFrom [] (.start text)

/-- The token that stands for the end, if the stream reaches the end. -/
def ending (stream : Stream) : List Token :=
  match stream.stop with
  | .endOfInput length => [.endOfInput length]
  | .failure _ => []

/-- All tokens that can be read, with the one that stands for the end. -/
def listing (stream : Stream) : List Token :=
  stream.tokens ++ stream.ending

/-- The error that keeps the stream from reaching the end. -/
def failure? (stream : Stream) : Option LexicalError :=
  match stream.stop with
  | .endOfInput _ => none
  | .failure error => some error

/-- The token that comes next, or the reason why none can be read. At the end of the text this is
the token that stands for the end, however often it is read. -/
def head : Stream → Except LexicalError Token
  | ⟨token :: _, _⟩ => .ok token
  | ⟨[], .endOfInput length⟩ => .ok (.endOfInput length)
  | ⟨[], .failure error⟩ => .error error

/-- What is left without the token that comes next. -/
def tail (stream : Stream) : Stream :=
  { stream with tokens := stream.tokens.tail }

end Stream

/-- A stream of which a part has been read. The next token is always known, so that it is one of
those that have been read. -/
structure Tape where
  /-- The tokens that have been read, the last one first. -/
  seen : List Token
  /-- What is left of the stream, from the next token on. -/
  rest : Stream
  deriving DecidableEq, Repr

namespace Tape

/-- The tape when `rest` is left, the next token of which is read now, if one can be read. -/
def load (seen : List Token) (rest : Stream) : Tape :=
  match rest.head with
  | .ok token => ⟨token :: seen, rest⟩
  | .error _ => ⟨seen, rest⟩

/-- The tape at the beginning of a stream. -/
def start (stream : Stream) : Tape :=
  load [] stream

/-- The tape without the next token, and with the one behind it read. -/
def tail (tape : Tape) : Tape :=
  load tape.seen tape.rest.tail

/-- The tokens that have been read, in their order. -/
def read (tape : Tape) : List Token :=
  tape.seen.reverse

end Tape

/-- A reader of one token at a time. -/
structure Scanner where
  /-- Where the next token is looked for. -/
  cursor : Cursor
  /-- Whether `next?` has met an error or the end of the text. -/
  finished : Bool
  deriving DecidableEq, Repr

namespace Scanner

/-- A scanner at the beginning of a text. -/
def ofText (text : String) : Scanner :=
  ⟨.start text, false⟩

/-- Reads the next token. After an error it goes on behind the first character of what could not be
read, and at the end of the text it stays at the end. -/
def pull (scanner : Scanner) : Except LexicalError Token × Scanner :=
  let (answer, cursor) := scanner.cursor.scan
  (answer, { scanner with cursor })

/-- Whether an answer is the last that `next?` gives. -/
def isLast : Except LexicalError Token → Bool
  | .ok token => token.kind == .endOfInput
  | .error _ => true

/-- Reads the next token, up to and including the first error or the end of the text that it meets
itself. After that it reads nothing. -/
def next? (scanner : Scanner) : Option (Except LexicalError Token) × Scanner :=
  if scanner.finished then (none, scanner)
  else
    let (answer, scanner) := scanner.pull
    (some answer, { scanner with finished := isLast answer })

end Scanner

end Reckoner
