/-
# Embeddings

Vectors of single precision numbers.  Sums run from left to right, so results are reproducible to
the last bit.  What a zero norm leaves undefined has no value.
-/
import VectorQuery.Number.Quantity

namespace VectorQuery

/-- A vector of single precision components. -/
abbrev Embedding := List Single

namespace Embedding

/-- The scalar product. -/
def dot (a b : Embedding) : Single := Quantity.sum (List.zipWith (· * ·) a b)

/-- The Euclidean norm. -/
def norm (v : Embedding) : Single := (dot v v).sqrt

/-- The sum, component by component. -/
def add (a b : Embedding) : Embedding := List.zipWith (· + ·) a b

/-- The difference, component by component. -/
def sub (a b : Embedding) : Embedding := List.zipWith (· - ·) a b

/-- The product, component by component: a symbolic vector bound to another. -/
def bind (a b : Embedding) : Embedding := List.zipWith (· * ·) a b

/-- Every component is finite. -/
def isFinite (v : Embedding) : Bool := v.all Quantity.isFinite

/-- The vector scaled to norm one, if its norm is positive and finite. -/
def normalized? (v : Embedding) : Option Embedding :=
  let n := norm v
  if 0 < n && Quantity.isFinite n then
    let inverse := 1 / n
    some (v.map (· * inverse))
  else none

/-- The cosine of the angle between two vectors of positive norm. -/
def cosine? (a b : Embedding) : Option Single :=
  let na := norm a
  let nb := norm b
  if 0 < na && 0 < nb then some (Quantity.clamp (-1) 1 (dot a b / (na * nb))) else none

/-- One less the cosine. -/
def distance? (a b : Embedding) : Option Single := (cosine? a b).map (1 - ·)

/-- The sum of vectors; an empty vector counts for nothing as long as only such came before. -/
def total (vs : List Embedding) : Embedding :=
  vs.foldl (fun sum v => if sum.isEmpty then v
    else List.zipWith (· + ·) sum v ++ sum.drop v.length) []

/-- The mean of vectors, normalized. -/
def centroid? (vs : List Embedding) : Option Embedding :=
  let sum := total vs
  if sum.isEmpty then none else normalized? sum

end Embedding

end VectorQuery
