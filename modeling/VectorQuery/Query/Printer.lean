/-
# The canonical form of a query

Every compound query is written within parentheses of its own, so the canonical form of a
well-formed query reads back as the same query whatever surrounds it.  The form is also the
identity of a query: equal forms are computed once when a query is lowered.
-/
import VectorQuery.Query.Basic

namespace VectorQuery

/-- A character of a quoted text. -/
def quoteChar : Char → List Char
  | '"' => ['\\', '"']
  | '\\' => ['\\', '\\']
  | '\n' => ['\\', 'n']
  | '\t' => ['\\', 't']
  | c => [c]

/-- A text between double quotes, as queries write it. -/
def quote (s : String) : List Char := '"' :: s.toList.flatMap quoteChar ++ ['"']

/-- A literal of a query. -/
def Scalar.literal {α : Type} [Quantity α] : Scalar α → List Char
  | .text s => quote s
  | v => v.shown.toList

/-- `field op literal`. -/
def Comparison.chars {α : Type} [Quantity α] (c : Comparison α) : List Char :=
  c.field.toList ++ ' ' :: c.op.symbol.toList ++ ' ' :: c.value.literal

/-- A comparison as a text. -/
def Comparison.canonical {α : Type} [Quantity α] (c : Comparison α) : String := .ofList c.chars

/-- The text of a number starts with a minus sign. -/
def isNegative {α : Type} [Quantity α] (x : α) : Bool := (Quantity.text x).toList.head? == some '-'

/-- A weight without its sign, and the field; a weight of one is left out. -/
def Term.unsigned {α : Type} [Quantity α] (t : Term α) : List Char :=
  let w := Quantity.magnitude t.weight
  if Quantity.compare? w Quantity.one = some .eq then t.field.toList
  else (Quantity.text w).toList ++ " * ".toList ++ t.field.toList

/-- The terms after the first, each with the sign that joins it. -/
def Term.joined {α : Type} [Quantity α] : List (Term α) → List Char
  | [] => []
  | t :: ts => (if isNegative t.weight then " - " else " + ").toList ++ t.unsigned ++ Term.joined ts

/-- A weighted sum. -/
def Objective.chars {α : Type} [Quantity α] (o : Objective α) : List Char :=
  match o.terms with
  | [] => []
  | t :: ts => (if isNegative t.weight then ['-'] else []) ++ t.unsigned ++ Term.joined ts

/-- An objective as a text. -/
def Objective.canonical {α : Type} [Quantity α] (o : Objective α) : String := .ofList o.chars

namespace Query

/-- The constraints of an optimization, separated by commas. -/
def constraintChars : List (Comparison Double) → List Char
  | [] => []
  | [c] => c.chars
  | c :: cs => c.chars ++ ", ".toList ++ constraintChars cs

/-- A relation between two canonical forms. -/
def relationChars (l : List Char) (name : Option String) (r : List Char) : List Char :=
  let arrow := match name with
    | some n => [' ', '-', '['] ++ n.toList ++ [']', '-', '>', ' ']
    | none => [' ', '-', '>', ' ']
  '(' :: l ++ arrow ++ r ++ [')']

/-- A parameter of a similarity search, if it is given. -/
def parameterChars (name : String) (value : Option (List Char)) : List Char :=
  (value.map fun text => ',' :: ' ' :: name.toList ++ '=' :: text).getD []

/-- A similarity search from a canonical form. -/
def similarChars (t : List Char) (d : Option Double) (k : Option Nat) (ty : Option String) :
    List Char :=
  "similar_to".toList ++ '(' :: t
    ++ parameterChars "distance" (d.map fun d => (Double.text d).toList)
    ++ parameterChars "top_k" (k.map fun k => (toString k).toList)
    ++ parameterChars "type" (ty.map quote) ++ [')']

/-- An analogy of three canonical forms. -/
def analogyChars (a b c : List Char) (ty : Option String) : List Char :=
  let target := match ty with
    | some ty => ty.toList ++ ['(', '?', ')']
    | none => ['?']
  '(' :: a ++ ' ' :: "is_to".toList ++ ' ' :: b ++ ' ' :: "as".toList ++ ' ' :: c
    ++ ' ' :: "is_to".toList ++ ' ' :: target ++ [')']

/-- An optimization. -/
def optimizeChars (dir : Direction) (o : Objective Double) (cs : List (Comparison Double)) :
    List Char :=
  dir.word.toList ++ '(' :: o.chars ++ [')']
    ++ (if cs.isEmpty then [] else ' ' :: "subject_to".toList ++ '(' :: constraintChars cs ++ [')'])

mutual

/-- The canonical form. -/
def chars : Query → List Char
  | .lookup t name fuzzy => t.toList ++ '(' :: quote name ++ (if fuzzy then ['~', ')'] else [')'])
  | .relation l name r => relationChars l.chars name r.chars
  | .logical .not qs => '(' :: Connective.not.word.toList ++ ' ' :: joined [] qs ++ [')']
  | .logical op qs => '(' :: joined (' ' :: op.word.toList ++ [' ']) qs ++ [')']
  | .comparison c => c.chars
  | .similar t d k ty => similarChars t.chars d k ty
  | .analogy a b c ty => analogyChars a.chars b.chars c.chars ty
  | .optimize dir o cs => optimizeChars dir o cs

/-- Canonical forms with a separator between them. -/
def joined (separator : List Char) : List Query → List Char
  | [] => []
  | [q] => q.chars
  | q :: qs => q.chars ++ separator ++ joined separator qs

end

/-- The canonical form as a text. -/
def canonical (q : Query) : String := .ofList q.chars

end Query

end VectorQuery
