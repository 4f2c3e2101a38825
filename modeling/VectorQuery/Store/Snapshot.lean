/-
# Snapshots

A snapshot is an immutable collection of entities with everything derived from it: an index of
each type, statistics of each metadata field, and a checksum of each entity.  An entity is known
by its ordinal, its place in the collection.  `Snapshot.build` refuses entities that break an
invariant: one dimension a space, finite components, unit-length dense embeddings, and unique
keys.
-/
import VectorQuery.Config
import VectorQuery.Entity.Checksum
import VectorQuery.Entity.FieldStats
import VectorQuery.Instant
import VectorQuery.Store.Error

namespace VectorQuery

/-- The entities of one type: their ordinals in ascending order, and the ordinal of each id. -/
structure TypeIndex where
  members : List Nat
  ordinals : OrderedMap String Nat
  /-- The type is large enough for a search index. -/
  searchable : Bool

/-- An immutable collection of entities and relations. -/
structure Snapshot where
  generation : Nat
  created : Instant
  denseDim : Nat
  symbolicDim : Nat
  entities : Array (Entity Double)
  checksums : List Bytes
  types : OrderedMap String TypeIndex
  relations : OrderedMap RelationKey Operator
  fields : OrderedMap String (FieldStats Double)

namespace Snapshot

/-- The snapshot without entities. -/
def empty : Snapshot :=
  { generation := 0, created := ⟨0, 0⟩, denseDim := 0, symbolicDim := 0, entities := #[]
    checksums := [], types := .empty, relations := .empty, fields := .empty }

/-! ### Building -/

/-- The common dimensions of two spaces. -/
structure Dimensions where
  dense : Nat
  symbolic : Nat

/-- The dense dimension is that of the first entity, the symbolic one that of the first entity
with a symbolic embedding. -/
def Dimensions.of (entities : List (Entity Double)) : Dimensions :=
  ⟨(entities.head?.map (·.dense.length)).getD 0,
    (entities.find? (0 < ·.symbolic.length)).map (·.symbolic.length) |>.getD 0⟩

/-- The dimension of a space. -/
def Dimensions.dim (d : Dimensions) : Space → Nat
  | .dense => d.dense
  | .symbolic => d.symbolic

/-- The embeddings of an entity fit the dimensions, are finite, and the dense one has unit
length. -/
def validate (d : Dimensions) (tolerance : Single) (e : Entity Double) : Except StoreError Unit :=
  if e.dense.length ≠ d.dense then
    .error (.dimensionMismatch .dense e.key d.dense e.dense.length)
  else if e.symbolic ≠ [] ∧ e.symbolic.length ≠ d.symbolic then
    .error (.dimensionMismatch .symbolic e.key d.symbolic e.symbolic.length)
  else if !e.dense.isFinite || !e.symbolic.isFinite then .error (.nonFinite e.key)
  else
    let norm := e.dense.norm
    if tolerance < Quantity.magnitude (norm - 1) then .error (.notNormalized e.key norm)
    else .ok ()

/-- An entity without a display name is shown by its id. -/
def named (e : Entity Double) : Entity Double :=
  if e.displayName.isEmpty then { e with displayName := e.id } else e

/-- What is derived from the entities read so far. -/
structure Catalog where
  types : OrderedMap String TypeIndex
  fields : OrderedMap String (FieldStats Double)

/-- The catalog of no entities. -/
def Catalog.empty : Catalog := ⟨.empty, .empty⟩

/-- A type with one more entity. -/
def addMember (id : String) (ordinal : Nat) (t : Option TypeIndex) : TypeIndex :=
  match t with
  | none => ⟨[ordinal], OrderedMap.empty.insert id ordinal, false⟩
  | some t => ⟨t.members ++ [ordinal], t.ordinals.insert id ordinal, t.searchable⟩

/-- Statistics with the metadata of one more entity. -/
def addFields (fields : OrderedMap String (FieldStats Double)) (e : Entity Double) :
    OrderedMap String (FieldStats Double) :=
  e.metadata.entries.foldl (fun fields (name, v) =>
    fields.alter name fun s => (s.getD .empty).observe v) fields

/-- The catalog with one more entity. -/
def Catalog.add (c : Catalog) (ordinal : Nat) (e : Entity Double) : Except StoreError Catalog :=
  if (c.types.get? e.entityType).any (·.ordinals.contains e.id) then
    .error (.duplicateEntity e.key)
  else
    .ok ⟨c.types.alter e.entityType (addMember e.id ordinal), addFields c.fields e⟩

/-- The catalog of entities, the first of which has the ordinal `ordinal`. -/
def Catalog.gather (d : Dimensions) (tolerance : Single) :
    Catalog → Nat → List (Entity Double) → Except StoreError Catalog
  | c, _, [] => .ok c
  | c, ordinal, e :: es => do
    validate d tolerance e
    let c ← c.add ordinal e
    gather d tolerance c (ordinal + 1) es

/-- The operator fits its space and is finite. -/
def validateRelation (d : Dimensions) (r : Relation) : Except StoreError Unit :=
  let space := r.operator.space
  let expected := d.dim space
  if expected = 0 ∨ r.operator.vector.length ≠ expected then
    .error (.operatorDimension r.key space r.operator.vector.length expected)
  else if !r.operator.vector.isFinite then .error (.operatorNonFinite r.key)
  else .ok ()

/-- Operators by key; the last one of a key counts. -/
def gatherRelations (d : Dimensions) :
    OrderedMap RelationKey Operator → List Relation →
      Except StoreError (OrderedMap RelationKey Operator)
  | m, [] => .ok m
  | m, r :: rs => do
    validateRelation d r
    gatherRelations d (m.insert r.key r.operator) rs

/-- Types with more members than the threshold are searchable. -/
def markSearchable (threshold : Nat) (types : OrderedMap String TypeIndex) :
    OrderedMap String TypeIndex :=
  types.map fun t => { t with searchable := threshold < t.members.length }

/-- A snapshot of valid entities with unique keys, and of relations between their types. -/
def build (entities : List (Entity Double)) (relations : List Relation) (config : StoreConfig)
    (generation : Nat) (created : Instant) : Except StoreError Snapshot := do
  let d := Dimensions.of entities
  let catalog ← Catalog.gather d config.normTolerance .empty 0 entities
  let relations ← gatherRelations d .empty relations
  let entities := entities.map named
  .ok
    { generation := generation
      created := created
      denseDim := d.dense
      symbolicDim := d.symbolic
      entities := entities.toArray
      checksums := entities.map Entity.checksum
      types := markSearchable config.indexThreshold catalog.types
      relations := relations
      fields := catalog.fields }

/-! ### Looking up -/

/-- How many entities there are. -/
def size (s : Snapshot) : Nat := s.entities.size

/-- The entity with an ordinal. -/
def entity? (s : Snapshot) (ordinal : Nat) : Option (Entity Double) := s.entities[ordinal]?

/-- There are entities of this type. -/
def hasType (s : Snapshot) (name : String) : Bool := s.types.contains name

/-- The ordinals of a type's entities, if there are any. -/
def members? (s : Snapshot) (name : String) : Option (List Nat) :=
  (s.types.get? name).map (·.members)

/-- The ordinals of a type's entities. -/
def members (s : Snapshot) (name : String) : List Nat := (s.members? name).getD []

/-- The entities of a type with their ordinals. -/
def list (s : Snapshot) (name : String) : List (Nat × Entity Double) :=
  (s.members name).filterMap fun o => (s.entity? o).map (o, ·)

/-- How many entities of a type there are. -/
def typeSize (s : Snapshot) (name : String) : Nat := (s.members name).length

/-- The type has a search index. -/
def isSearchable (s : Snapshot) (name : String) : Bool :=
  ((s.types.get? name).map (·.searchable)).getD false

/-- The ordinal of a key. -/
def ordinal? (s : Snapshot) (name id : String) : Option Nat :=
  (s.types.get? name) >>= fun t => t.ordinals.get? id

/-- The ordinals of the entities of some types, ascending; of all entities when no type is given. -/
def ordinals (s : Snapshot) (types : List String) : List Nat :=
  let all := List.range s.size
  if types.isEmpty then all else all.filter fun o => types.any fun t => (s.members t).contains o

/-- The part of all entities that a comparison is expected to select, if its field is known. -/
def selectivity? (s : Snapshot) (c : Comparison Double) : Option Double :=
  (s.fields.get? c.field).map fun stats => stats.selectivity c.op c.value s.size

/-! ### Integrity -/

/-- Every recorded checksum is that of its entity. -/
def verify (s : Snapshot) : Except StoreError Unit :=
  match (s.entities.toList.zip s.checksums).find? fun (e, sum) => e.checksum ≠ sum with
  | some (e, _) => .error (.checksumMismatch e.key)
  | none => .ok ()

/-- The relations with their keys in order. -/
def relationList (s : Snapshot) : List Relation :=
  s.relations.entries.map fun (key, operator) => ⟨key, operator⟩

end Snapshot

end VectorQuery
