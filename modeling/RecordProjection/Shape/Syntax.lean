import RecordProjection.Shape.Basic
import RecordProjection.Text.Blank
import RecordProjection.Text.Quoted

/-!
# The parts of shape syntax

Identifiers, the places in a text, and what can be wrong with one. Places are counted in
characters from the start of the trimmed text.
-/
namespace RecordProjection

/-- A character an identifier can begin with. -/
def isIdentifierStart (c : Char) : Bool :=
  c = '_' || ('a' ≤ c && c ≤ 'z') || ('A' ≤ c && c ≤ 'Z')

/-- A character an identifier can go on with. -/
def isIdentifierPart (c : Char) : Bool := isIdentifierStart c || ('0' ≤ c && c ≤ '9')

/-- A name of a field or of an alias. -/
structure Identifier where
  first : Char
  others : List Char
  isIdentifierStart_first : isIdentifierStart first = true
  isIdentifierPart_others : ∀ c ∈ others, isIdentifierPart c = true
  deriving DecidableEq

namespace Identifier

/-- The characters of an identifier. -/
def chars (i : Identifier) : List Char := i.first :: i.others

/-- The text of an identifier. -/
def text (i : Identifier) : String := String.ofList i.chars

theorem text_ne_star (i : Identifier) : i.text ≠ "*" := by
  intro h
  have hl : i.chars = ['*'] := by
    have := congrArg String.toList h
    simpa [text] using this
  have hf : i.first = '*' := by
    rw [chars, List.cons.injEq] at hl
    exact hl.1
  have := i.isIdentifierStart_first
  rw [hf] at this
  exact absurd this (by decide)

end Identifier

/-- A place in a text: how many characters lie before it, and the ones that follow. -/
structure Cursor where
  position : Nat
  rest : List Char

namespace Cursor

/-- The start of a text. -/
def start (cs : List Char) : Cursor := ⟨0, cs⟩

/-- The place behind any blanks. -/
def skipBlanks (s : Cursor) : Cursor :=
  ⟨s.position + (s.rest.takeWhile Text.isBlank).length, Text.dropBlanks s.rest⟩

theorem length_skipBlanks_le (s : Cursor) : s.skipBlanks.rest.length ≤ s.rest.length :=
  Text.length_dropBlanks_le s.rest

end Cursor

/-- What is wrong with a text that is no shape, and where. -/
inductive SyntaxError
  | emptyShape
  | missingField (position : Nat)
  | trailingComma (position : Nat)
  | unexpectedCharacter (c : Char) (position : Nat)
  | unexpectedEnd (position : Nat)
  | aliasedWildcard (position : Nat)
  | unclosedList (field : String) (position : Nat)
  | identifierMissing (position : Nat)
  | identifierStart (c : Char) (position : Nat)
  deriving DecidableEq

namespace SyntaxError

/-- The name of a kind of error. -/
def code : SyntaxError → String
  | emptyShape => "EMPTY_SHAPE"
  | missingField _ => "MISSING_FIELD_BEFORE_COMMA"
  | trailingComma _ => "TRAILING_COMMA"
  | unexpectedCharacter .. => "UNEXPECTED_CHARACTER"
  | unexpectedEnd _ => "UNEXPECTED_END"
  | aliasedWildcard _ => "WILDCARD_ALIAS"
  | unclosedList .. => "UNCLOSED_NESTED"
  | identifierMissing _ | identifierStart .. => "INVALID_IDENTIFIER"

/-- Where an error was found. An unclosed list is reported where it was opened. -/
def position : SyntaxError → Nat
  | emptyShape => 0
  | missingField position | trailingComma position | unexpectedCharacter _ position
  | unexpectedEnd position | aliasedWildcard position | unclosedList _ position
  | identifierMissing position | identifierStart _ position => position

/-- An error in words. -/
def message : SyntaxError → String
  | emptyShape => "Shape string cannot be empty"
  | missingField p => "Expected field before comma at position " ++ toString p
  | trailingComma _ => "Expected field after comma but reached end of field list"
  | unexpectedCharacter c p =>
    "Unexpected character " ++ Text.quotedSingle c ++ " at position " ++ toString p
  | unexpectedEnd _ => "Unexpected end of shape while parsing field"
  | aliasedWildcard _ => "Wildcard fields cannot have aliases (\"*::alias\" is invalid)"
  | unclosedList field p =>
    "Expected ')' to close nested field list for " ++ Text.quoted field ++ " opened at position "
      ++ toString p
  | identifierMissing p =>
    "Expected identifier at position " ++ toString p ++ " but reached end of shape"
  | identifierStart c p =>
    "Invalid identifier start " ++ Text.quotedSingle c ++ " at position " ++ toString p

end SyntaxError
end RecordProjection
