/-
# Name patterns

In a pattern `*` stands for any run of characters and `?` for any single one, line breaks apart;
every other character stands for itself.  Matching works from the end of the pattern: a row tells
for each suffix of the candidate whether the rest of the pattern matches it.
-/
namespace VectorQuery.Glob

/-- A wildcard stands for this character. -/
def covers (c : Char) : Bool := c != '\n'

/-- The row of the empty pattern: only the empty suffix matches. -/
def lastRow (candidate : List Char) : List Bool := candidate.map (fun _ => false) ++ [true]

/-- The row of a pattern that takes one character which `accepts` accepts, then what `after`
says. -/
def oneRow (accepts : Char → Bool) : List Char → List Bool → List Bool
  | c :: s, _ :: after => (accepts c && after.headD false) :: oneRow accepts s after
  | _, _ => [false]

/-- The row of a pattern that takes any run of characters, then what `after` says. -/
def runRow : List Char → List Bool → List Bool
  | c :: s, here :: after =>
    let row := runRow s after
    (here || (covers c && row.headD false)) :: row
  | _, after => after

/-- The row of a pattern whose first character is `p` and whose rest has the row `after`. -/
def row (candidate : List Char) (p : Char) (after : List Bool) : List Bool :=
  if p = '*' then runRow candidate after
  else if p = '?' then oneRow covers candidate after
  else oneRow (· == p) candidate after

/-- The pattern matches the whole candidate. -/
def accepts (pattern candidate : List Char) : Bool :=
  (pattern.foldr (row candidate) (lastRow candidate)).headD false

end VectorQuery.Glob
