/-
# Configuration

Every setting has a default, so a document only names the settings it changes.  Unknown settings are
passed over; a setting of the wrong kind makes the whole document invalid.
-/
import VectorQuery.Toml.Parser

namespace VectorQuery

/-- Settings of a store. -/
structure StoreConfig where
  /-- Types with more entities than this get a search index. -/
  indexThreshold : Nat := 1000
  maxConnections : Nat := 16
  efConstruction : Nat := 200
  /-- How far the norm of a dense embedding may be from one. -/
  normTolerance : Single := 1e-3
  deriving DecidableEq

/-- Settings that decide how a query is lowered to a plan. -/
structure CompilerConfig where
  /-- A search is planned on an index when it has more candidates than this. -/
  indexThreshold : Nat := 1000
  /-- A comparison runs early when it selects less than this part of all entities. -/
  pushdownSelectivity : Double := 0.5
  /-- The distance bound of a similarity search that gives none. -/
  defaultDistance : Double := 0.3
  /-- How many entities an analogy answers. -/
  analogyTopK : Nat := 5
  deriving DecidableEq

/-- Settings that decide how a plan is run. -/
structure ExecutorConfig where
  fuzzyMaxDistance : Nat := 2
  /-- The least score of a related entity. -/
  relationMinScore : Single := 0.5
  /-- Budgets are solved exactly up to this many candidates. -/
  exactThreshold : Nat := 20
  maxAlternatives : Nat := 3
  parallel : Bool := true
  indexOversample : Nat := 4
  indexEffort : Nat := 64
  /-- The metadata field that holds the value of closing a gap. -/
  valueField : String := "importance"
  /-- The metadata field that holds the effort of closing a gap. -/
  effortField : String := "effort"
  deriving DecidableEq

/-- All settings. -/
structure EngineConfig where
  compiler : CompilerConfig := {}
  executor : ExecutorConfig := {}
  store : StoreConfig := {}
  deriving DecidableEq

namespace Config

/-- A setting: its default when the document does not name it, nothing when it has the wrong
kind. -/
def setting {α : Type} (default : α) (read : Json → Option α) : Option Json → Option α
  | none => some default
  | some j => read j

/-- The store's settings in a document. -/
def store? (spare : Bool) (j : Json) : Option StoreConfig := do
  let d : StoreConfig := {}
  match ← j.recordWith? spare ["ann_threshold", "hnsw_max_connections", "hnsw_ef_construction",
    "norm_tolerance"] with
  | [a, b, c, e] =>
    some ⟨← setting d.indexThreshold Json.natural? a, ← setting d.maxConnections Json.natural? b,
      ← setting d.efConstruction Json.natural? c, ← setting d.normTolerance Json.single? e⟩
  | _ => none

/-- The compiler's settings in a document. -/
def compiler? (spare : Bool) (j : Json) : Option CompilerConfig := do
  let d : CompilerConfig := {}
  match ← j.recordWith? spare ["ann_threshold", "pushdown_selectivity", "default_distance",
    "analogy_top_k"] with
  | [a, b, c, e] =>
    some ⟨← setting d.indexThreshold Json.natural? a, ← setting d.pushdownSelectivity Json.real? b,
      ← setting d.defaultDistance Json.real? c, ← setting d.analogyTopK Json.natural? e⟩
  | _ => none

/-- The executor's settings in a document. -/
def executor? (spare : Bool) (j : Json) : Option ExecutorConfig := do
  let d : ExecutorConfig := {}
  match ← j.recordWith? spare ["fuzzy_max_distance", "relation_min_score",
    "optimize_exact_threshold", "max_alternatives", "parallel", "ann_oversample",
    "ann_ef_search", "value_field", "effort_field"] with
  | [fuzzy, score, exact, most, parallel, widening, effort, value, cost] =>
    some
      { fuzzyMaxDistance := ← setting d.fuzzyMaxDistance Json.natural? fuzzy
        relationMinScore := ← setting d.relationMinScore Json.single? score
        exactThreshold := ← setting d.exactThreshold Json.natural? exact
        maxAlternatives := ← setting d.maxAlternatives Json.natural? most
        parallel := ← setting d.parallel Json.bool? parallel
        indexOversample := ← setting d.indexOversample Json.natural? widening
        indexEffort := ← setting d.indexEffort Json.natural? effort
        valueField := ← setting d.valueField Json.string? value
        effortField := ← setting d.effortField Json.string? cost }
  | _ => none

/-- All settings in a document.  Settings may be an array, in order; with `spare` set it may go on
after them. -/
def ofDocument? (spare : Bool) (j : Json) : Option EngineConfig := do
  match ← j.recordWith? spare ["compiler", "executor", "store"] with
  | [c, e, s] =>
    some ⟨← setting {} (compiler? spare) c, ← setting {} (executor? spare) e,
      ← setting {} (store? spare) s⟩
  | _ => none

/-- All settings in a JSON document. -/
def ofJson? (j : Json) : Option EngineConfig := ofDocument? false j

/-- All settings in a settings file. -/
def ofToml? (text : String) : Option EngineConfig := do ofDocument? true (← Toml.parse text)

/-- All settings as a document. -/
def toJson (c : EngineConfig) : Json :=
  .object [
    ("compiler", .object [
      ("ann_threshold", .natural c.compiler.indexThreshold),
      ("pushdown_selectivity", .real c.compiler.pushdownSelectivity),
      ("default_distance", .real c.compiler.defaultDistance),
      ("analogy_top_k", .natural c.compiler.analogyTopK)]),
    ("executor", .object [
      ("fuzzy_max_distance", .natural c.executor.fuzzyMaxDistance),
      ("relation_min_score", .single c.executor.relationMinScore),
      ("optimize_exact_threshold", .natural c.executor.exactThreshold),
      ("max_alternatives", .natural c.executor.maxAlternatives),
      ("parallel", .bool c.executor.parallel),
      ("ann_oversample", .natural c.executor.indexOversample),
      ("ann_ef_search", .natural c.executor.indexEffort),
      ("value_field", .string c.executor.valueField),
      ("effort_field", .string c.executor.effortField)]),
    ("store", .object [
      ("ann_threshold", .natural c.store.indexThreshold),
      ("hnsw_max_connections", .natural c.store.maxConnections),
      ("hnsw_ef_construction", .natural c.store.efConstruction),
      ("norm_tolerance", .single c.store.normTolerance)])]

end Config

end VectorQuery
