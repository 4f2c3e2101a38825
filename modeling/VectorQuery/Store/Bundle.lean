/-
# Ingestion bundles

A bundle is a JSON document with entities and relations to load.
-/
import VectorQuery.Json.Parser
import VectorQuery.Query.Document
import VectorQuery.Store.Error

namespace VectorQuery

/-- Entities and relations to load. -/
structure Bundle where
  entities : List (Entity Double)
  relations : List Relation

namespace Bundle

/-- A value that may be missing, but not of the wrong kind. -/
def orElse {α : Type} (default : α) (read : Json → Option α) : Option Json → Option α
  | none => some default
  | some j => read j

/-- The embedding that a document is. -/
def embedding? (j : Json) : Option Embedding := do (← j.array?).mapM Json.single?

/-- The metadata that a document is; the last value of a field counts. -/
def metadata? (j : Json) : Option (OrderedMap String (Scalar Double)) := do
  let fields ← (← j.object?).mapM fun (name, v) => do some (name, ← Scalar.ofJson? v)
  some (.ofList fields)

/-- The entity that a document is. -/
def entity? (j : Json) : Option (Entity Double) := do
  match ← j.record? ["entity_type", "id", "display_name", "dense", "symbolic", "metadata"] with
  | [entityType, id, displayName, dense, symbolic, metadata] =>
    some ⟨← (← entityType).string?, ← (← id).string?, ← orElse "" Json.string? displayName,
      ← embedding? (← dense), ← orElse [] embedding? symbolic, ← orElse .empty metadata? metadata⟩
  | _ => none

/-- The operator that a document is: an object with one field, which names its kind. -/
def operator? : Json → Option Operator
  | .object [("offset", v)] => (embedding? v).map .offset
  | .object [("composition", v)] => (embedding? v).map .composition
  | _ => none

/-- The relation that a document is. -/
def relation? (j : Json) : Option Relation := do
  match ← j.record? ["source_type", "relation", "target_type", "operator"] with
  | [source, relation, target, operator] =>
    some ⟨⟨← (← source).string?, ← (← relation).string?, ← (← target).string?⟩,
      ← operator? (← operator)⟩
  | _ => none

/-- The bundle that a document is. -/
def ofJson? (j : Json) : Option Bundle := do
  match ← j.record? ["entities", "relations"] with
  | [entities, relations] =>
    some ⟨← (← (← entities).array?).mapM entity?,
      ← orElse [] (fun j => do (← j.array?).mapM relation?) relations⟩
  | _ => none

/-- The bundle that a text is. -/
def ofText (text : String) : Except StoreError Bundle :=
  match Json.parse text >>= ofJson? with
  | some b => .ok b
  | none => .error .bundle

/-! ### Writing -/

/-- An embedding as a document. -/
def ofEmbedding (v : Embedding) : Json := .array (v.map Json.single)

/-- An entity as a document. -/
def ofEntity (e : Entity Double) : Json :=
  .object [("entity_type", .string e.entityType), ("id", .string e.id),
    ("display_name", .string e.displayName), ("dense", ofEmbedding e.dense),
    ("symbolic", ofEmbedding e.symbolic),
    ("metadata", .object (e.metadata.entries.map fun (name, v) => (name, v.toJson)))]

/-- An operator as a document. -/
def ofOperator : Operator → Json
  | .offset v => .object [("offset", ofEmbedding v)]
  | .composition v => .object [("composition", ofEmbedding v)]

/-- A relation as a document. -/
def ofRelation (r : Relation) : Json :=
  .object [("source_type", .string r.key.sourceType), ("relation", .string r.key.relation),
    ("target_type", .string r.key.targetType), ("operator", ofOperator r.operator)]

/-- A bundle as a document. -/
def toJson (b : Bundle) : Json :=
  .object [("entities", .array (b.entities.map ofEntity)),
    ("relations", .array (b.relations.map ofRelation))]

end Bundle

end VectorQuery
