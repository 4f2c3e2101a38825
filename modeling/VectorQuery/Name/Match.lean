/-
# Matching names

A name matches another fuzzily when few edits lead from one lower-case form to the other.  The score
falls with the distance relative to the longer name, and stays above zero.
-/
import VectorQuery.Name.EditDistance
import VectorQuery.Number.Quantity
import VectorQuery.Text.Lowercase

namespace VectorQuery

/-- A way to score a candidate name against a pattern. -/
abbrev NameMatcher := (candidate pattern : String) → Option Single

namespace NameMatch

/-- The score of names at a distance, the longer of which has `longer` characters. -/
def score? {α : Type} [Quantity α] (distance longer : Nat) : Option α :=
  if longer = 0 then some Quantity.one
  else
    let s : α := Quantity.one - Quantity.ofNat distance / Quantity.ofNat longer
    if Quantity.zero < s then some s else none

/-- Names at an edit distance of at most `limit`, whatever their case. -/
def withinEdits {α : Type} [Quantity α] (limit : Nat) (candidate pattern : String) : Option α :=
  let candidate := Text.lowercase candidate.toList
  let pattern := Text.lowercase pattern.toList
  let distance := EditDistance.bounded candidate pattern limit
  if limit < distance then none
  else score? distance (max candidate.length pattern.length)

/-- The matcher that looks for names at an edit distance of at most `limit`. -/
def byEdits (limit : Nat) : NameMatcher := withinEdits limit

end NameMatch

end VectorQuery
