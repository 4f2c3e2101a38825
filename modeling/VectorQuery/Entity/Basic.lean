/-
# Entities and relations

An entity is a domain object with a unit-length dense embedding, possibly a symbolic one, and
metadata. A relation between two types is an operator that predicts the vector of a related
entity.
-/
import VectorQuery.Embedding
import VectorQuery.OrderedMap
import VectorQuery.Scalar

namespace VectorQuery

/-- Every entity has this field without carrying it as metadata. -/
def isBuiltinField (field : String) : Bool := field = "entity_type" || field = "id"

/-- What identifies an entity. -/
structure EntityKey where
  entityType : String
  id : String
  deriving DecidableEq, Repr

/-- A key as messages write it. -/
def EntityKey.text (k : EntityKey) : String := k.entityType ++ "(\"" ++ k.id ++ "\")"

/-- A domain object; its metadata numbers are of type `α`. -/
structure Entity (α : Type) where
  entityType : String
  id : String
  displayName : String
  dense : Embedding
  symbolic : Embedding
  metadata : OrderedMap String (Scalar α)

namespace Entity

variable {α : Type}

/-- What identifies the entity. -/
def key (e : Entity α) : EntityKey := ⟨e.entityType, e.id⟩

/-- The number at a metadata field, if the field holds one. -/
def number? (e : Entity α) (field : String) : Option α := e.metadata.get? field >>= Scalar.number?

/-- The value of a field that every entity answers to without carrying it as metadata. -/
def builtin? (e : Entity α) (field : String) : Option String :=
  if field = "entity_type" then some e.entityType
  else if field = "id" then some e.id
  else none

/-- The value of a field. -/
def value? (e : Entity α) (field : String) : Option (Scalar α) :=
  match e.builtin? field with
  | some s => some (.text s)
  | none => e.metadata.get? field

end Entity

/-- The two spaces that embeddings live in. -/
inductive Space where
  | dense
  | symbolic
  deriving DecidableEq, Repr

/-- The name of a space. -/
def Space.name : Space → String
  | .dense => "Dense"
  | .symbolic => "Symbolic"

/-- The entity's embedding in a space. -/
def Space.embedding {α : Type} (s : Space) (e : Entity α) : Embedding :=
  match s with
  | .dense => e.dense
  | .symbolic => e.symbolic

/-- A learned operator from the vector of a source to the vector of its target. -/
inductive Operator where
  /-- Adds an offset to the dense embedding. -/
  | offset (vector : Embedding)
  /-- Binds the symbolic embedding to a role vector. -/
  | composition (vector : Embedding)

namespace Operator

/-- The space that the operator works in. -/
def space : Operator → Space
  | .offset _ => .dense
  | .composition _ => .symbolic

/-- The operator's own vector. -/
def vector : Operator → Embedding
  | .offset v => v
  | .composition v => v

/-- The vector predicted for an entity related to `source`. -/
def apply {α : Type} (op : Operator) (source : Entity α) : Embedding :=
  match op with
  | .offset v => source.dense.add v
  | .composition v => source.symbolic.bind v

end Operator

/-- What identifies a relation. -/
structure RelationKey where
  sourceType : String
  relation : String
  targetType : String
  deriving DecidableEq, Repr

namespace RelationKey

/-- A key as messages write it. -/
def text (k : RelationKey) : String :=
  k.sourceType ++ " -[" ++ k.relation ++ "]-> " ++ k.targetType

/-- The order of keys: by source, then relation, then target. -/
def order : RelationKey → RelationKey → Ordering :=
  compareLex (compareOn RelationKey.sourceType)
    (compareLex (compareOn RelationKey.relation) (compareOn RelationKey.targetType))

instance : Ord RelationKey := ⟨order⟩

instance : Std.TransOrd RelationKey :=
  inferInstanceAs (Std.TransCmp (compareLex (compareOn RelationKey.sourceType)
    (compareLex (compareOn RelationKey.relation) (compareOn RelationKey.targetType))))

instance : Std.LawfulEqOrd RelationKey where
  eq_of_compare {a b} h := by
    have h' : order a b = .eq := h
    simp only [order, compareLex, compareOn, Ordering.then_eq_eq,
      Std.LawfulEqOrd.compare_eq_iff_eq] at h'
    obtain ⟨h1, h2, h3⟩ := h'
    cases a; cases b; simp_all

end RelationKey

/-- A relation between two types with its operator. -/
structure Relation where
  key : RelationKey
  operator : Operator

end VectorQuery
