/-
# Stores

A store holds a current snapshot.  Loading puts entities and relations into a new snapshot: one
whose key is known replaces the one before and keeps its place.  A load that fails leaves the
store as it was.
-/
import VectorQuery.Number.Word
import VectorQuery.Store.Snapshot

namespace VectorQuery

/-- Replaces the entity of the same key in place, or adds a new one at the end. -/
def upsert (entities : List (Entity Double)) (e : Entity Double) : List (Entity Double) :=
  if entities.any (·.key = e.key) then entities.map fun old => if old.key = e.key then e else old
  else entities ++ [e]

/-- A store of entities. -/
structure Store where
  config : StoreConfig
  current : Snapshot

namespace Store

/-- The store without entities. -/
def empty (config : StoreConfig) : Store := ⟨config, .empty⟩

/-- The snapshot that follows when entities and relations are loaded; its generation is the next
one. -/
def successor (s : Store) (entities : List (Entity Double)) (relations : List Relation)
    (now : Instant) : Except StoreError Snapshot :=
  let merged := entities.foldl upsert s.current.entities.toList
  let relations := relations.foldl (fun m r => m.insert r.key r.operator) s.current.relations
  Snapshot.build merged (relations.entries.map fun (key, operator) => ⟨key, operator⟩) s.config
    (Number.word (s.current.generation + 1)) now

/-- The store with entities and relations loaded. -/
def load (s : Store) (entities : List (Entity Double)) (relations : List Relation) (now : Instant) :
    Except StoreError Store :=
  (s.successor entities relations now).map fun next => { s with current := next }

/-- The store with another snapshot. -/
def replace (s : Store) (snapshot : Snapshot) : Store := { s with current := snapshot }

/-- The store in one line. -/
def summary (s : Store) : String :=
  s!"EmbeddingStore \x7b generation: {s.current.generation}, entities: {s.current.size} \x7d"

end Store

end VectorQuery
