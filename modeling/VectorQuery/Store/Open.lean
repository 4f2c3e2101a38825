/-
# Opening and saving stores

A path with the extension `json` names an ingestion bundle, any other path a snapshot file.  No
path names the store without entities.
-/
import VectorQuery.Store.Basic
import VectorQuery.Store.Bundle
import VectorQuery.Store.File

namespace VectorQuery

/-- Why a store could not be opened. -/
inductive OpenError where
  /-- The bundle cannot be read. -/
  | bundle (path : String) (cause : StoreError)
  /-- The entities or the relations of the bundle break an invariant. -/
  | load (path : String) (cause : StoreError)
  /-- The snapshot file cannot be read. -/
  | restore (path : String) (cause : StoreError)
  deriving DecidableEq

namespace OpenError

/-- What failed. -/
def message : OpenError → String
  | .bundle path _ => "failed to read ingestion bundle " ++ path
  | .load path _ => "failed to load " ++ path
  | .restore path _ => "failed to restore snapshot " ++ path

/-- Why it failed. -/
def cause : OpenError → StoreError
  | .bundle _ e | .load _ e | .restore _ e => e

/-- What failed, and then why. -/
def report (e : OpenError) : String := e.message ++ ": " ++ e.cause.report

end OpenError

namespace Store

/-- A path names an ingestion bundle. -/
def namesBundle (path : String) : Bool :=
  (Path.extension? path).any fun extension => extension.toLower = "json"

variable {m : Type → Type} [Monad m] [Files m]

/-- The store with the entities and relations of a bundle. -/
def ofBundle (config : StoreConfig) (now : Instant) (path : String) :
    m (Except OpenError Store) := do
  match ← Files.readText path with
  | .error e => return .error (.bundle path (.file e))
  | .ok text =>
    match Bundle.ofText text with
    | .error e => return .error (.bundle path e)
    | .ok b =>
      return ((Store.empty config).load b.entities b.relations now).mapError (.load path)

/-- The store with the snapshot of a file. -/
def ofSnapshotFile (config : StoreConfig) (path : String) : m (Except OpenError Store) := do
  match ← Files.read path with
  | .error e => return .error (.restore path (.file e))
  | .ok bytes =>
    return ((SnapshotFile.decode config bytes).map (Store.mk config)).mapError (.restore path)

/-- The store that a path names. -/
def ofPath (config : StoreConfig) (now : Instant) : Option String → m (Except OpenError Store)
  | none => return .ok (.empty config)
  | some path =>
    if namesBundle path then ofBundle config now path else ofSnapshotFile config path

/-- Writes the current snapshot to a file. -/
def save (s : Store) (path : String) : m (Except StoreError Unit) := do
  let written ← Files.replace path (Path.withExtension path "hdqs.tmp")
    (SnapshotFile.encode s.current)
  return written.mapError .file

end Store

end VectorQuery
