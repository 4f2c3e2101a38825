/-
# Conditions on entities

A comparison holds of an entity when the entity's field has a value of the literal's kind that
compares with the literal as the operator says.  A missing field and a value of another kind never
satisfy a comparison, inequality included.
-/
import VectorQuery.Entity.Basic

namespace VectorQuery

/-- The entity satisfies the comparison. -/
def Comparison.holds {α : Type} [Quantity α] (c : Comparison α) (e : Entity α) : Bool :=
  match e.value? c.field with
  | none => false
  | some v => (v.compare? c.value).any c.op.accepts

end VectorQuery
