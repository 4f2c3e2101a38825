/-
# Positions and parse errors

A position counts characters.  A parse error is a cause with the position where it shows; the
wording is in `ParseError.message` alone.
-/

namespace VectorQuery

/-- A place in a text: characters before it, its line and its column, the latter two from one. -/
structure Position where
  offset : Nat
  line : Nat
  column : Nat
  deriving DecidableEq, Repr

namespace Position

/-- The beginning of a text. -/
def start : Position := ⟨0, 1, 1⟩

/-- The position after one more character. -/
def next (p : Position) (c : Char) : Position :=
  if c = '\n' then ⟨p.offset + 1, p.line + 1, 1⟩ else ⟨p.offset + 1, p.line, p.column + 1⟩

/-- The position after some more text. -/
def after (p : Position) (s : List Char) : Position := s.foldl next p

/-- The position in words. -/
def text (p : Position) : String := s!"line {p.line}, column {p.column}"

end Position

/-- Why a text is no query. -/
inductive ParseError where
  | unexpectedToken (found : String) (expected : List String) (position : Position)
  | unexpectedEnd (expected : List String) (position : Position)
  | unmatchedParen (position : Position)
  | unterminatedString (position : Position)
  | unknownFunction (name : String) (position : Position)
  | unknownParameter (name function : String) (position : Position)
  | invalidParameter (name reason : String) (position : Position)
  | invalidNumber (text : String) (position : Position)
  | unexpectedCharacter (char : Char) (position : Position)
  deriving DecidableEq, Repr

namespace ParseError

/-- Where the error shows. -/
def position : ParseError → Position
  | .unexpectedToken _ _ p | .unexpectedEnd _ p | .unmatchedParen p | .unterminatedString p
  | .unknownFunction _ p | .unknownParameter _ _ p | .invalidParameter _ _ p | .invalidNumber _ p
  | .unexpectedCharacter _ p => p

/-- The error in words. -/
def message : ParseError → String
  | .unexpectedToken found expected p =>
    "unexpected " ++ found ++ " at " ++ p.text ++ "; expected one of: " ++ ", ".intercalate expected
  | .unexpectedEnd expected p =>
    "unexpected end of query at " ++ p.text ++ "; expected one of: " ++ ", ".intercalate expected
  | .unmatchedParen p => "unmatched parenthesis at " ++ p.text
  | .unterminatedString p => "unterminated string literal starting at " ++ p.text
  | .unknownFunction name p => "unknown function `" ++ name ++ "` at " ++ p.text
  | .unknownParameter name function p =>
    "unknown parameter `" ++ name ++ "` for `" ++ function ++ "` at " ++ p.text
  | .invalidParameter name reason p =>
    "invalid value for `" ++ name ++ "` at " ++ p.text ++ ": " ++ reason
  | .invalidNumber text p => "invalid number `" ++ text ++ "` at " ++ p.text
  | .unexpectedCharacter c p => "unexpected character `" ++ c.toString ++ "` at " ++ p.text

end ParseError

end VectorQuery
