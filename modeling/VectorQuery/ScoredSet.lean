/-
# Scored sets

What a step of a plan computes is a set of entities, known by their ordinals, with a score each.
An intersection keeps the lesser of two scores and a union the greater, so scored sets form a
distributive lattice; a complement is taken within a universe and scores one.
-/
import VectorQuery.OrderedMap
import VectorQuery.Ranking

namespace VectorQuery

/-- Entities with a score each. -/
structure ScoredSet (σ : Type) where
  scores : OrderedMap Nat σ

namespace ScoredSet

variable {σ : Type}

/-- The set without entities. -/
def empty : ScoredSet σ := ⟨.empty⟩

instance : Inhabited (ScoredSet σ) := ⟨empty⟩

/-- The score of an entity of the set. -/
def score? (s : ScoredSet σ) (ordinal : Nat) : Option σ := s.scores.get? ordinal

/-- The entity belongs to the set. -/
def contains (s : ScoredSet σ) (ordinal : Nat) : Bool := s.scores.contains ordinal

/-- The ordinals of the set in ascending order. -/
def members (s : ScoredSet σ) : List Nat := s.scores.keys

/-- The entities with their scores, by ordinal. -/
def toList (s : ScoredSet σ) : List (Hit σ) := s.scores.entries.map fun (o, x) => ⟨o, x⟩

/-- How many entities there are. -/
def size (s : ScoredSet σ) : Nat := s.scores.size

/-- There are no entities. -/
def isEmpty (s : ScoredSet σ) : Bool := s.scores.isEmpty

/-- The entities that `keep` accepts. -/
def retain (keep : Nat → Bool) (s : ScoredSet σ) : ScoredSet σ :=
  ⟨s.scores.filter fun o _ => keep o⟩

/-- Entities with one score for all. -/
def uniform (members : List Nat) (score : σ) : ScoredSet σ :=
  ⟨.ofList (members.map (·, score))⟩

variable [Quantity σ]

/-- The set with one more entity; the greater of two scores counts. -/
def insert (s : ScoredSet σ) (ordinal : Nat) (score : σ) : ScoredSet σ :=
  ⟨s.scores.alter ordinal fun
    | some known => Quantity.greater known score
    | none => score⟩

/-- The set of some hits; the greatest score of an entity counts. -/
def ofList (hits : List (Hit σ)) : ScoredSet σ :=
  hits.foldl (fun s h => s.insert h.ordinal h.score) empty

/-- The entities of both sets, with the lesser score. -/
def and (s t : ScoredSet σ) : ScoredSet σ :=
  ⟨s.scores.filterMap fun o a => (t.score? o).map (Quantity.lesser a)⟩

/-- The entities of either set, with the greater score. -/
def or (s t : ScoredSet σ) : ScoredSet σ :=
  t.toList.foldl (fun s h => s.insert h.ordinal h.score) s

/-- The members of a universe outside the set, each with the score one. -/
def complement (s : ScoredSet σ) (members : List Nat) : ScoredSet σ :=
  uniform (members.filter fun o => !s.contains o) Quantity.one

/-- The entities ranked by score. -/
def ranked (s : ScoredSet σ) : List (Hit σ) := Hit.ranked s.toList

/-- The entity ranked first. -/
def best? (s : ScoredSet σ) : Option (Hit σ) := s.ranked.head?

/-- The `k` entities ranked first. -/
def top (s : ScoredSet σ) (k : Nat) : ScoredSet σ := ofList (s.ranked.take k)

/-- The sets have the same entities with equal scores. -/
def same (s t : ScoredSet σ) : Bool :=
  s.size = t.size && s.toList.all fun h =>
    (t.score? h.ordinal).any fun x => Quantity.compare? h.score x == some .eq

end ScoredSet

end VectorQuery
