/-
# Errors of a session
-/
import VectorQuery.Engine
import VectorQuery.Store.Open

namespace VectorQuery

/-- Why an input line has no answer. -/
inductive SessionError where
  /-- A command lacks what stands after it. -/
  | usage (command : String)
  | limitUsage
  | limitNumber (text : String)
  | unknownType (name : String)
  | query (cause : QueryError)
  | openStore (cause : OpenError)
  | save (cause : StoreError)
  /-- The history file cannot be written. -/
  | log (cause : FileError)
  /-- The history file cannot be read. -/
  | history (path : String) (cause : FileError)

namespace SessionError

/-- The error in words. -/
def message : SessionError → String
  | .usage command => "usage: " ++ command ++ " <query>"
  | .limitUsage => "usage: limit <n|none>"
  | .limitNumber text => "limit expects a number, got `" ++ text ++ "`"
  | .unknownType name => "unknown entity type `" ++ name ++ "` (try `types`)"
  | .query cause => cause.message
  | .openStore cause => cause.message
  | .save cause => cause.message
  | .log cause => cause.message
  | .history path cause => "failed to read " ++ path ++ ": " ++ cause.message

/-- The error is about a query. -/
def isQuery : SessionError → Bool
  | .query _ => true
  | _ => false

end SessionError

end VectorQuery
