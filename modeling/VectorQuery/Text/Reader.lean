/-
# Readers

A reader takes something off the front of a text and gives the rest, or refuses the text.
-/
import VectorQuery.Text.Digits

namespace VectorQuery.Text

/-- Reads something off the front of a text. -/
abbrev Reader (α : Type) := List Char → Option (α × List Char)

namespace Reader

/-- The character `c`. -/
def char (c : Char) : Reader Unit
  | d :: rest => if d = c then some ((), rest) else none
  | [] => none

/-- A fixed word. -/
def word {α : Type} (w : String) (value : α) : Reader α := fun cs =>
  if w.toList.isPrefixOf cs then some (value, cs.drop w.length) else none

/-- Two digits. -/
def twoDigits : Reader Nat
  | a :: b :: rest => if a.isDigit && b.isDigit then some (decimalValue [a, b], rest) else none
  | _ => none

/-- `width` hexadecimal digits, after those that stand for `acc`. -/
def hex : (width : Nat) → (acc : Nat) → Reader Nat
  | 0, acc, cs => some (acc, cs)
  | _ + 1, _, [] => none
  | width + 1, acc, c :: cs => do hex width (16 * acc + (← hexValue? c)) cs

end Reader

end VectorQuery.Text
