/-
# Edit distance with a limit

The number of insertions, deletions and replacements between two texts, computed row by row over
the first of them.  As soon as a whole row lies beyond the limit, the distance does too, and the
answer is the limit plus one.
-/
import VectorQuery.Number.Word

namespace VectorQuery.EditDistance

/-- The cells of a row after its first.  `above` is the row above from the cell up and to the left
on, `left` the cell just computed. -/
def cells (c : Char) : List Char → List Nat → Nat → List Nat
  | n :: ns, diagonal :: up :: above, left =>
    let d := min (min (up + 1) (left + 1)) (diagonal + if c = n then 0 else 1)
    d :: cells c ns (up :: above) d
  | _, _, _ => []

/-- The row below `above`, after one more character of the first text. -/
def nextRow (c : Char) (needle : List Char) (above : List Nat) : List Nat :=
  let first := above.headD 0 + 1
  first :: cells c needle above first

/-- The least entry of a row. -/
def least (row : List Nat) : Nat := row.foldl min (row.headD 0)

/-- The answer for distances beyond the limit. -/
def beyond (limit : Nat) : Nat := Number.word (limit + 1)

/-- The distance, from the row that the characters before `value` have led to. -/
def run (needle : List Char) (limit : Nat) : (value : List Char) → (row : List Nat) → Nat
  | [], row => min (row.getLastD 0) (beyond limit)
  | c :: value, row =>
    let row := nextRow c needle row
    if limit < least row then beyond limit else run needle limit value row

/-- The edit distance between `value` and `needle`, but no more than `beyond limit`. -/
def bounded (value needle : List Char) (limit : Nat) : Nat :=
  if limit = 0 then if value = needle then 0 else 1
  else if needle.isEmpty then min value.length (beyond limit)
  else run needle limit value (List.range (needle.length + 1))

end VectorQuery.EditDistance
