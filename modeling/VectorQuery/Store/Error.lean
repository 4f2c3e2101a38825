/-
# Errors of a store
-/
import VectorQuery.Entity.Basic
import VectorQuery.Files.Basic

namespace VectorQuery

/-- Why a store operation failed. -/
inductive StoreError where
  /-- A file could not be read or written. -/
  | file (cause : FileError)
  /-- The body of a snapshot file does not decode. -/
  | decode
  /-- A text is no ingestion bundle. -/
  | bundle
  | badMagic
  | unsupportedVersion (found expected : Nat)
  | truncated (part : String)
  | duplicateEntity (key : EntityKey)
  | dimensionMismatch (space : Space) (key : EntityKey) (expected found : Nat)
  | notNormalized (key : EntityKey) (norm : Single)
  | nonFinite (key : EntityKey)
  | checksumMismatch (key : EntityKey)
  | operatorDimension (key : RelationKey) (space : Space) (found expected : Nat)
  | operatorNonFinite (key : RelationKey)
  | zeroNorm
  | queryDimension (found expected : Nat)
  deriving DecidableEq

namespace StoreError

/-- The error in words. -/
def message : StoreError → String
  | .file cause => "i/o error: " ++ cause.message
  | .decode => "failed to decode snapshot: malformed body"
  | .bundle => "invalid ingestion bundle: malformed document"
  | .badMagic => "not an HDQL snapshot file (bad magic)"
  | .unsupportedVersion found expected =>
    s!"unsupported snapshot version {found} (expected {expected})"
  | .truncated part => "snapshot file truncated: " ++ part
  | .duplicateEntity key => "duplicate entity " ++ key.text
  | .dimensionMismatch space key expected found =>
    space.name.toLower ++ " dimension mismatch for " ++ key.text
      ++ s!": expected {expected}, found {found}"
  | .notNormalized key norm =>
    "dense vector of " ++ key.text ++ " is not unit-normalized (norm " ++ Single.text norm ++ ")"
  | .nonFinite key => "vector of " ++ key.text ++ " contains a non-finite component"
  | .checksumMismatch key => "checksum mismatch for " ++ key.text
  | .operatorDimension key space found expected =>
    "invalid relation " ++ key.text
      ++ s!": operator has dimension {found}, " ++ space.name ++ s!" space has {expected}"
  | .operatorNonFinite key =>
    "invalid relation " ++ key.text ++ ": operator has a non-finite component"
  | .zeroNorm => "query vector has zero norm"
  | .queryDimension found expected =>
    s!"query vector has dimension {found}, store expects {expected}"

/-- The error in words, and then its cause. -/
def report (e : StoreError) : String :=
  match e with
  | .file cause => e.message ++ ": " ++ cause.message
  | e => e.message

end StoreError

end VectorQuery
