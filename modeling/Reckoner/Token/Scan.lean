import Reckoner.Number
import Reckoner.Text
import Reckoner.Token.Basic

/-!
# Reading a token

`Cursor.scan` reads the token at a place in a text, past the blanks in front of it. A token is the
longest lexeme that begins there: a numeral, which begins with a digit and runs over digits and
decimal points, or a spelling of the vocabulary in any letter case. When there is none, the error
says why, and the cursor moves past the first character only.
-/

namespace Reckoner

/-- Why no token could be read. -/
inductive LexicalError where
  /-- A character with which no token begins. -/
  | strayCharacter (character : Char) (offset : Nat)
  /-- A numeral with more than one decimal point; the span is that of the second one. -/
  | malformedNumeral (span : Span)
  /-- The first character of an operator that needs to be written twice. -/
  | halfOperator (character : Char) (offset : Nat)
  /-- Letters that begin with no name. -/
  | unknownWord (word : String) (offset : Nat)
  deriving DecidableEq, Repr

/-- The part of a text that an error is about. -/
def LexicalError.span : LexicalError → Span
  | .strayCharacter character offset => ⟨offset, character.utf8Size⟩
  | .malformedNumeral span => span
  | .halfOperator character offset => ⟨offset, character.utf8Size⟩
  | .unknownWord word offset => ⟨offset, word.utf8ByteSize⟩

/-- The characters of a token, with what they mean. -/
structure Lexeme where
  /-- What the token is. -/
  kind : Kind
  /-- What the token says. -/
  text : String
  /-- The number of characters of the token. -/
  length : Nat
  deriving DecidableEq, Repr

namespace Lexeme

/-- Whether a text begins with a spelling, which is in upper case, in any letter case. -/
def beginsWith : List Char → List Char → Bool
  | [], _ => true
  | _ :: _, [] => false
  | s :: spelling, c :: text => s == c.toUpper && beginsWith spelling text

/-- The digits of π. -/
def piText : String := "3.141592653589793"

/-- What a token of the vocabulary says. -/
def textOfKind : Kind → String
  | .pi => piText
  | kind => kind.symbol

/-- The longest spelling of the vocabulary with which a text begins. -/
def ofVocabulary? (text : List Char) : Option Lexeme :=
  (Kind.vocabulary.find? fun kind => beginsWith kind.symbol.toList text).map fun kind =>
    ⟨kind, textOfKind kind, kind.symbol.length⟩

/-- Whether a numeral runs on over a character. -/
def isNumeral (c : Char) : Bool :=
  c.isDigit || c == '.'

/-- The number of characters in front of the second decimal point, if there is one. -/
def secondPoint? (run : List Char) : Option Nat :=
  match run.idxOf? '.' with
  | none => none
  | some first => ((run.drop (first + 1)).idxOf? '.').map (first + 1 + ·)

/-- The numeral at the beginning of a text: all digits and points up to another character. -/
def ofNumeral (offset : Nat) (text : List Char) : Except LexicalError Lexeme :=
  let run := text.takeWhile isNumeral
  match secondPoint? run with
  | some second => .error (.malformedNumeral ⟨offset + second, 1⟩)
  | none =>
    match Number.read? (String.ofList run) with
    | some value => .ok ⟨.number, Number.text value, run.length⟩
    | none => .error (.malformedNumeral ⟨offset, run.length⟩)

/-- Whether a character begins an operator without being one. -/
def isHalfOperator (c : Char) : Bool :=
  c == '<' || c == '>'

/-- The longest lexeme at a character that is no blank, or the reason why there is none. -/
def scan (offset : Nat) (c : Char) (rest : List Char) : Except LexicalError Lexeme :=
  if c.isDigit then ofNumeral offset (c :: rest)
  else
    match ofVocabulary? (c :: rest) with
    | some lexeme => .ok lexeme
    | none =>
      .error <|
        if isHalfOperator c then .halfOperator c offset
        else if isLetter c then
          .unknownWord (String.ofList ((c :: rest).takeWhile isLetter)) offset
        else .strayCharacter c offset

end Lexeme

/-- A place in a text. -/
structure Cursor where
  /-- The number of bytes in front of the place. -/
  offset : Nat
  /-- The characters from the place on. -/
  rest : List Char
  deriving DecidableEq, Repr

namespace Cursor

/-- The beginning of a text. -/
def start (text : String) : Cursor :=
  ⟨0, text.toList⟩

/-- The place `count` characters further on. -/
def advance (count : Nat) (cursor : Cursor) : Cursor :=
  ⟨cursor.offset + utf8Length (cursor.rest.take count), cursor.rest.drop count⟩

/-- The next place at which no blank stands. -/
def skipBlanks (cursor : Cursor) : Cursor :=
  cursor.advance (cursor.rest.takeWhile isBlank).length

/-- Reads the next token, and gives the place to go on from. At the end of the text the token stands
for the end, and the place stays. -/
def scan (cursor : Cursor) : Except LexicalError Token × Cursor :=
  let cursor := cursor.skipBlanks
  match cursor.rest with
  | [] => (.ok (.endOfInput cursor.offset), cursor)
  | c :: rest =>
    match Lexeme.scan cursor.offset c rest with
    | .error error => (.error error, cursor.advance 1)
    | .ok lexeme =>
      let next := cursor.advance lexeme.length
      (.ok ⟨lexeme.kind, lexeme.text, ⟨cursor.offset, next.offset - cursor.offset⟩⟩, next)

end Cursor

end Reckoner
