/-
# Tokens of the query language

The words `and`, `or` and `not` are keywords in any mixture of cases, the other keywords in lower
case only.
-/
import VectorQuery.Number.Double
import VectorQuery.Query.Error
import VectorQuery.Text.Escaped

namespace VectorQuery

/-- A token. -/
inductive Token where
  | identifier (name : String)
  | string (value : String)
  | number (value : Double)
  | arrow
  | namedArrow (name : String)
  | dot
  | comma
  | leftParen
  | rightParen
  | star
  | tilde
  | question
  | assign
  | plus
  | minus
  | lt
  | le
  | gt
  | ge
  | eq
  | ne
  | and
  | or
  | not
  | similarTo
  | isTo
  | as
  | maximize
  | minimize
  | subjectTo
  | true
  | false
  | endOfQuery
  deriving DecidableEq, Repr

namespace Token

/-- The token as messages name it. -/
def shown : Token → String
  | .identifier name => "identifier `" ++ name ++ "`"
  | .string value => "string " ++ Text.escaped value
  | .number value => "number `" ++ Double.text value ++ "`"
  | .arrow => "`->`"
  | .namedArrow name => "`-[" ++ name ++ "]->`"
  | .dot => "`.`"
  | .comma => "`,`"
  | .leftParen => "`(`"
  | .rightParen => "`)`"
  | .star => "`*`"
  | .tilde => "`~`"
  | .question => "`?`"
  | .assign => "`=`"
  | .plus => "`+`"
  | .minus => "`-`"
  | .lt => "`<`"
  | .le => "`<=`"
  | .gt => "`>`"
  | .ge => "`>=`"
  | .eq => "`==`"
  | .ne => "`!=`"
  | .and => "`AND`"
  | .or => "`OR`"
  | .not => "`NOT`"
  | .similarTo => "`similar_to`"
  | .isTo => "`is_to`"
  | .as => "`as`"
  | .maximize => "`maximize`"
  | .minimize => "`minimize`"
  | .subjectTo => "`subject_to`"
  | .true => "`true`"
  | .false => "`false`"
  | .endOfQuery => "end of query"

/-- The token compares a field with a literal. -/
def isComparison : Token → Bool
  | .lt | .le | .gt | .ge | .eq | .ne => Bool.true
  | _ => Bool.false

/-- The keyword that a word is, if it is one. -/
def keyword? (word : List Char) : Option Token :=
  if word.map Char.toUpper = "AND".toList then some .and
  else if word.map Char.toUpper = "OR".toList then some .or
  else if word.map Char.toUpper = "NOT".toList then some .not
  else if word = "similar_to".toList then some .similarTo
  else if word = "is_to".toList then some .isTo
  else if word = "as".toList then some .as
  else if word = "maximize".toList then some .maximize
  else if word = "minimize".toList then some .minimize
  else if word = "subject_to".toList then some .subjectTo
  else if word = "true".toList then some .true
  else if word = "false".toList then some .false
  else none

/-- A word outside of quotes: a keyword or an identifier. -/
def ofWord (word : List Char) : Token :=
  (keyword? word).getD (.identifier (.ofList word))

end Token

/-- The reserved words in lower case. -/
def reservedWords : List String :=
  ["and", "or", "not", "similar_to", "is_to", "as", "maximize", "minimize", "subject_to", "true",
    "false"]

/-- The word is reserved, whatever its case. -/
def isReserved (word : String) : Bool :=
  reservedWords.contains (.ofList (word.toList.map Char.toLower))

/-- A token and where it starts. -/
structure Spanned where
  token : Token
  position : Position
  deriving DecidableEq, Repr

end VectorQuery
