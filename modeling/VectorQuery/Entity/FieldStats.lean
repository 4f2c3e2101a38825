/-
# Statistics of a metadata field

Counts, extremes and the number of distinct values of one field, gathered value by value.  They
estimate which part of all entities a comparison selects.
-/
import VectorQuery.OrderedMap
import VectorQuery.Scalar

namespace VectorQuery

/-- What is known about the values of a field. -/
structure FieldStats (α : Type) where
  /-- How many values there are. -/
  count : Nat
  /-- How many of them are numbers. -/
  numeric : Nat
  least : Option α
  greatest : Option α
  /-- The different values seen, up to `FieldStats.distinctLimit`. -/
  seen : OrderedMap String Unit

namespace FieldStats

variable {α : Type} [Quantity α]

/-- Different values are told apart up to this many. -/
def distinctLimit : Nat := 4096

/-- The statistics of no values. -/
def empty : FieldStats α := ⟨0, 0, none, none, .empty⟩

/-- How many different values were seen. -/
def distinct (s : FieldStats α) : Nat := s.seen.size

/-- What tells two values apart: their kind and what they are shown as. -/
def label (v : Scalar α) : String := v.kind ++ ":" ++ v.shown

/-- The statistics with one more value. -/
def observe (s : FieldStats α) (v : Scalar α) : FieldStats α :=
  let seen := if s.seen.size < distinctLimit then s.seen.insert (label v) () else s.seen
  match v.number? with
  | some x =>
    { count := s.count + 1, numeric := s.numeric + 1
      least := some (match s.least with | some m => Quantity.lesser m x | none => x)
      greatest := some (match s.greatest with | some m => Quantity.greater m x | none => x)
      seen := seen }
  | none => { s with count := s.count + 1, seen := seen }

/-- The part of the numbers that lies below `x`, if they are spread evenly. -/
def below (least greatest x : α) : α :=
  if least < greatest then
    Quantity.clamp Quantity.zero Quantity.one ((x - least) / (greatest - least))
  else if least ≤ x then Quantity.one
  else Quantity.zero

/-- The part of the field's values that a comparison accepts. -/
def fraction (s : FieldStats α) (op : CompareOp) (v : Scalar α) : α :=
  let distinct : α := Quantity.ofNat (max s.distinct 1)
  match op, v with
  | .eq, _ => Quantity.one / distinct
  | .ne, _ => Quantity.one - Quantity.one / distinct
  | op, .number x =>
    match s.least, s.greatest with
    | some least, some greatest =>
      let numeric := Quantity.ofNat s.numeric / Quantity.ofNat s.count
      let part := below least greatest x
      numeric * (if op = .lt ∨ op = .le then part else Quantity.one - part)
    | _, _ => Quantity.zero
  | _, _ => Quantity.one / Quantity.ofNat 2

/-- The estimated part of `total` entities whose field satisfies `op v`. -/
def selectivity (s : FieldStats α) (op : CompareOp) (v : Scalar α) (total : Nat) : α :=
  if total = 0 ∨ s.count = 0 then Quantity.zero
  else
    let present : α := Quantity.ofNat s.count / Quantity.ofNat total
    Quantity.clamp Quantity.zero Quantity.one (present * s.fraction op v)

end FieldStats

end VectorQuery
