/-
# What a store holds, listed for a reader

The entities of a type, the types with relations and fields, and queries to try.
-/
import VectorQuery.Report.Text
import VectorQuery.Store.Snapshot

namespace VectorQuery.Catalog

open Text (Style padLeft padRight)

/-- A name that may be a plural, and the singulars it may stand for. -/
def singulars (name : String) : List String :=
  let without (ending more : String) : List String :=
    if name.endsWith ending then [(name.dropEnd ending.length).toString ++ more] else []
  name :: (without "ies" "y" ++ without "es" "" ++ without "s" "")

/-- The type of a snapshot that a name, perhaps a plural, stands for. -/
def resolve? (s : Snapshot) (name : String) : Option String := (singulars name).find? s.hasType

/-- An entity with its metadata. -/
def row (color : Bool) (e : Entity Double) : String :=
  let metadata := e.metadata.entries.map fun (name, v) => name ++ "=" ++ v.shown
  "  " ++ Style.cyan.column color 24 e.id ++ " " ++ padRight 32 e.displayName ++ " "
    ++ Style.dimmed.paint color (" ".intercalate metadata)

/-- The entities of a type, up to a limit. -/
def entities (color : Bool) (s : Snapshot) (entityType : String) (limit : Option Nat) :
    List String :=
  let all := s.list entityType
  let some := (limit.map all.take).getD all
  let heading := Style.bold.paint color entityType ++ " (" ++ toString all.length ++ " entities)"
  let rest := all.length - some.length
  heading :: some.map (fun (_, e) => row color e)
    ++ if rest = 0 then [] else ["  ... " ++ toString rest ++ " more (see `limit`)"]

/-- The types of a snapshot, then its relations and fields. -/
def overview (color : Bool) (s : Snapshot) : List String :=
  let bold := Style.bold.paint color
  let heading := bold "entity types" ++ " (generation " ++ toString s.generation ++ ", "
    ++ toString s.size ++ " entities)"
  let typeLine (name : String) : String :=
    "  " ++ padRight 24 name ++ " " ++ padLeft 6 (toString (s.typeSize name))
      ++ if s.isSearchable name then " [hnsw]" else ""
  let relations := s.relations.keys
  let fields := s.fields.keys
  heading :: s.types.keys.map typeLine
    ++ (if relations.isEmpty then [] else bold "relations" :: relations.map ("  " ++ ·.text))
    ++ if fields.isEmpty then [] else [bold "fields:" ++ " " ++ ", ".intercalate fields]

/-- Queries by the name of an entity. -/
def lookups (e : Entity Double) : List String :=
  let named (more : String) : String := e.entityType ++ "(\"" ++ e.id ++ "\"" ++ more ++ ")"
  [named "", e.entityType ++ "(\"*\")", named "~",
    "similar_to(" ++ named "" ++ ", distance=0.3, top_k=5)"]

/-- A query that follows the first relation. -/
def relationQuery (s : Snapshot) : List String :=
  match s.relations.keys with
  | [] => []
  | key :: _ =>
    [key.sourceType ++ "(\"*\") -[" ++ key.relation ++ "]-> " ++ key.targetType ++ "(\"*\")"]

/-- A query that maximizes the first numeric field within the greatest value of the second. -/
def budgetQuery (s : Snapshot) : List String :=
  match s.fields.entries.filter fun (_, f) => f.least.isSome with
  | (first, _) :: (second, f) :: _ =>
    ["maximize(" ++ first ++ ") subject_to(" ++ second ++ " <= "
      ++ Double.text (f.greatest.getD 10) ++ ")"]
  | _ => []

/-- Queries to try on a snapshot. -/
def examples (s : Snapshot) : List String :=
  match s.entities.toList.head? with
  | none => ["the store is empty; `load` an ingestion bundle first"]
  | some e => (lookups e ++ relationQuery s ++ budgetQuery s).map ("  " ++ ·)

end VectorQuery.Catalog
