/-
# From text to tokens

`scan` cuts one token off the front of a text that starts with no blank, and says which characters
it took.  Its errors tell how many characters were read before the fault showed, so positions are
computed in one place, from the characters passed over.

Right after `name(` the next word is an argument: it may hold hyphens between word characters, and
the wildcards `*` and `?`.
-/
import VectorQuery.Query.Token
import VectorQuery.Text.Digits
import VectorQuery.Text.Letter

namespace VectorQuery

namespace Lexer

open Text (isAlphabetic isAlphanumeric isBlank)

/-- A token, the characters it is written with, and the text after it. -/
structure Lexeme where
  token : Token
  text : List Char
  rest : List Char
  deriving DecidableEq, Repr

/-- What is wrong at the front of a text. -/
inductive Fault where
  /-- A character that fits nowhere, and the characters before it. -/
  | character (before : List Char) (char : Char)
  /-- The text ends inside a quoted string. -/
  | openString
  /-- The text ends inside a named arrow. -/
  | openArrow
  /-- A number that runs into a word. -/
  | number (text : List Char)
  deriving DecidableEq, Repr

/-- The error that a fault is, in a text at position `p`. -/
def Fault.error (p : Position) : Fault → ParseError
  | .character before c => .unexpectedCharacter c (p.after before)
  | .openString => .unterminatedString p
  | .openArrow => .unexpectedEnd ["`]->`"] p
  | .number text => .invalidNumber (.ofList text) p

/-- A word starts with this character. -/
def startsWord (c : Char) : Bool := isAlphabetic c || c == '_'

/-- A word goes on with this character. -/
def continuesWord (c : Char) : Bool := isAlphanumeric c || c == '_'

/-- A wildcard of a name pattern. -/
def isWildcard (c : Char) : Bool := c == '*' || c == '?'

/-- An argument goes on with this character. -/
def continuesArgument (c : Char) : Bool := continuesWord c || isWildcard c

/-- The longest word of characters in `part`, and of hyphens before such a character. -/
def hyphenated (part : Char → Bool) : List Char → List Char × List Char
  | [] => ([], [])
  | c :: cs =>
    if part c || (c == '-' && cs.head?.any part) then
      let (word, rest) := hyphenated part cs
      (c :: word, rest)
    else ([], c :: cs)

/-- The character that a backslash and `c` stand for. -/
def unescape (c : Char) : Char :=
  match c with
  | 'n' => '\n'
  | 't' => '\t'
  | c => c

/-- The value of a quoted string after its opening quote, the characters it is written with, and the
text after it. -/
def stringBody (delimiter : Char) : List Char → Option (List Char × List Char × List Char)
  | [] => none
  | '\\' :: [] => none
  | '\\' :: e :: cs =>
    (stringBody delimiter cs).map fun (value, text, rest) =>
      (unescape e :: value, '\\' :: e :: text, rest)
  | c :: cs =>
    if c = delimiter then some ([], [c], cs)
    else (stringBody delimiter cs).map fun (value, text, rest) => (c :: value, c :: text, rest)

/-- A quoted string whose opening quote is `delimiter`. -/
def scanString (delimiter : Char) (cs : List Char) : Except Fault Lexeme :=
  match stringBody delimiter cs with
  | none => .error .openString
  | some (value, text, rest) => .ok ⟨.string (.ofList value), delimiter :: text, rest⟩

/-- The digits after a point, if a point and a digit come next. -/
def fractionOf : List Char → List Char
  | '.' :: cs => cs.takeWhile Char.isDigit
  | _ => []

/-- The sign and the digits of an exponent, as far as they are written. -/
def exponentOf (cs : List Char) : List Char × List Char :=
  match cs with
  | e :: s :: cs' =>
    if e = 'e' ∨ e = 'E' then
      if s = '+' ∨ s = '-' then ([e, s], cs'.takeWhile Char.isDigit)
      else ([e], (s :: cs').takeWhile Char.isDigit)
    else ([], [])
  | _ => ([], [])

/-- The parts of a number: whole digits, fraction digits, the mark of the exponent and its
digits. -/
structure Numeral where
  whole : List Char
  fraction : List Char
  mark : List Char
  exponent : List Char

/-- The longest number at the front of a text. -/
def Numeral.read (cs : List Char) : Numeral :=
  let whole := cs.takeWhile Char.isDigit
  let cs := cs.dropWhile Char.isDigit
  let fraction := fractionOf cs
  let cs := if fraction.isEmpty then cs else cs.drop (fraction.length + 1)
  let (mark, exponent) := exponentOf cs
  ⟨whole, fraction, if exponent.isEmpty then [] else mark, exponent⟩

/-- The characters that a number is written with. -/
def Numeral.chars (n : Numeral) : List Char :=
  n.whole ++ (if n.fraction.isEmpty then [] else '.' :: n.fraction) ++ n.mark ++ n.exponent

/-- The number closest to what is written. -/
def Numeral.value (n : Numeral) : Double :=
  let exponent : Int := Text.decimalValue n.exponent
  let exponent := if n.mark.contains '-' then -exponent else exponent
  Double.ofDecimal (Text.decimalValue (n.whole ++ n.fraction)) (exponent - n.fraction.length)

/-- A number; a word may not follow it directly. -/
def scanNumber (cs : List Char) : Except Fault Lexeme :=
  let n := Numeral.read cs
  let rest := cs.drop n.chars.length
  if rest.head?.any startsWord then .error (.number (n.chars ++ rest.takeWhile continuesWord))
  else .ok ⟨.number n.value, n.chars, rest⟩

/-- A word: a keyword or an identifier. -/
def scanWord (cs : List Char) : Lexeme :=
  let word := cs.takeWhile continuesWord
  ⟨.ofWord word, word, cs.dropWhile continuesWord⟩

/-- The word inside `name(…)`: a lone wildcard is a token of its own, a pattern never a keyword. -/
def scanArgument (cs : List Char) : Lexeme :=
  let (word, rest) := hyphenated continuesArgument cs
  let token :=
    if word = ['*'] then Token.star
    else if word = ['?'] then Token.question
    else if word.any isWildcard then .identifier (.ofList word)
    else .ofWord word
  ⟨token, word, rest⟩

/-- The characters `wanted` come next; `before` are those already read. -/
def expectChars (before : List Char) :
    List Char → List Char → Except Fault (List Char × List Char)
  | [], cs => .ok (before, cs)
  | _ :: _, [] => .error .openArrow
  | w :: ws, c :: cs =>
    if c = w then expectChars (before ++ [c]) ws cs else .error (.character before c)

/-- A named arrow after its `-[`. -/
def scanNamedArrow (cs : List Char) : Except Fault Lexeme :=
  let before := '-' :: '[' :: cs.takeWhile isBlank
  match cs.dropWhile isBlank with
  | [] => .error .openArrow
  | c :: cs =>
    if startsWord c then
      let (name, cs) := hyphenated continuesWord (c :: cs)
      let before := before ++ name ++ cs.takeWhile isBlank
      match expectChars before [']', '-', '>'] (cs.dropWhile isBlank) with
      | .error fault => .error fault
      | .ok (text, rest) => .ok ⟨.namedArrow (.ofList name), text, rest⟩
    else .error (.character before c)

/-- What starts with a hyphen: an arrow, a named arrow or a minus sign. -/
def scanMinus (cs : List Char) : Except Fault Lexeme :=
  match cs with
  | '>' :: rest => .ok ⟨.arrow, ['-', '>'], rest⟩
  | '[' :: rest => scanNamedArrow rest
  | rest => .ok ⟨.minus, ['-'], rest⟩

/-- A sign that an equals sign may follow. -/
def withEquals (c : Char) (bare joined : Token) (cs : List Char) : Lexeme :=
  match cs with
  | '=' :: rest => ⟨joined, [c, '='], rest⟩
  | rest => ⟨bare, [c], rest⟩

/-- A token of one or two signs. -/
def scanSign (c : Char) (cs : List Char) : Except Fault Lexeme :=
  match c with
  | '.' => .ok ⟨.dot, [c], cs⟩
  | ',' => .ok ⟨.comma, [c], cs⟩
  | '(' => .ok ⟨.leftParen, [c], cs⟩
  | ')' => .ok ⟨.rightParen, [c], cs⟩
  | '*' => .ok ⟨.star, [c], cs⟩
  | '~' => .ok ⟨.tilde, [c], cs⟩
  | '?' => .ok ⟨.question, [c], cs⟩
  | '+' => .ok ⟨.plus, [c], cs⟩
  | '<' => .ok (withEquals c .lt .le cs)
  | '>' => .ok (withEquals c .gt .ge cs)
  | '=' => .ok (withEquals c .assign .eq cs)
  | '!' =>
    match cs with
    | '=' :: rest => .ok ⟨.ne, ['!', '='], rest⟩
    | _ => .error (.character [] c)
  | c => .error (.character [] c)

/-- The token at the front of `c :: cs`, where `c` is no blank. -/
def scan (argument : Bool) (c : Char) (cs : List Char) : Except Fault Lexeme :=
  if c = '"' ∨ c = '\x27' then scanString c cs
  else if argument && (isAlphabetic c || c == '_' || isWildcard c) then
    .ok (scanArgument (c :: cs))
  else if c.isDigit then scanNumber (c :: cs)
  else if startsWord c then .ok (scanWord (c :: cs))
  else if c = '-' then scanMinus cs
  else scanSign c cs

/-- What the last tokens were, as far as it decides how the next word is read. -/
inductive Context where
  | other
  | name
  | call
  deriving DecidableEq, Repr

/-- The context after one more token. -/
def Context.next (context : Context) (token : Token) : Context :=
  match context, token with
  | _, .identifier _ => .name
  | .name, .leftParen => .call
  | _, _ => .other

end Lexer

end VectorQuery
