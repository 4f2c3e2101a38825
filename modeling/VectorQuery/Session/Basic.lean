/-
# Sessions

A session answers input lines one after the other.  It remembers every line that is neither empty
nor a comment, in its history and in a history file if it has one, before it acts on the line.
Only the limit, the engine and the history ever change, and only as the commands say.
-/
import VectorQuery.Query.Outline
import VectorQuery.Session.Catalog
import VectorQuery.Session.Command

namespace VectorQuery

/-- A session. -/
structure Session where
  engine : Engine
  /-- The most entities shown. -/
  limit : Option Nat
  /-- The remembered lines, the oldest first. -/
  history : List String
  /-- The history file. -/
  log : Option String
  /-- Answers are styled. -/
  color : Bool

/-- The answer to an input line. -/
structure Reply where
  output : String
  /-- The session ends. -/
  exit : Bool
  deriving DecidableEq, Repr

/-- An answer after which the session goes on. -/
def Reply.lines (lines : List String) : Reply := ⟨Text.ofLines lines, false⟩

namespace Session

/-- A session without history. -/
def new (engine : Engine) (log : Option String) (color : Bool) : Session :=
  ⟨engine, some 10, [], log, color⟩

/-- What the session's queries may take and show. -/
def options (s : Session) : QueryOptions := { limit := s.limit }

/-- The text that answers an inquiry. -/
def answer (s : Session) : Inquiry → Except SessionError String
  | .help => .ok (Text.ofLines Command.help)
  | .run query => do
    let r ← (s.engine.execute query s.options).mapError .query
    .ok (r.text s.color)
  | .parse query => do
    let q ← (Engine.parse query).mapError .query
    .ok (Text.ofLines [q.canonical, q.outline.text])
  | .explain query => do
    let p ← (s.engine.compile query none).mapError .query
    .ok p.explain
  | .analyze query => do
    let r ← (s.engine.analyze query s.options).mapError .query
    .ok ((Report.analysis r).text s.color)
  | .show name =>
    let snapshot := s.engine.store.current
    match Catalog.resolve? snapshot name with
    | none => .error (.unknownType name)
    | some entityType =>
      .ok (Text.ofLines (Catalog.entities s.color snapshot entityType s.limit))
  | .types => .ok (Text.ofLines (Catalog.overview s.color s.engine.store.current))
  | .history =>
    .ok (Text.ofLines (s.history.zipIdx.map fun (line, i) =>
      Text.padLeft 4 (toString (i + 1)) ++ "  " ++ line))
  | .examples => .ok (Text.ofLines (Catalog.examples s.engine.store.current))

/-- A new limit in words. -/
def limitText : Option Nat → String
  | some n => "limit set to " ++ toString n
  | none => "limit cleared"

/-- A loaded store in words. -/
def loadedText (snapshot : Snapshot) (path : String) : String :=
  "loaded " ++ toString snapshot.size ++ " entities of " ++ toString snapshot.types.size
    ++ " types from " ++ path

/-- A line is neither empty nor a comment. -/
def isInput (line : List Char) : Bool := !line.isEmpty && line.head? != some '#'

/-- A line of the history file. -/
def logLine (now : Instant) (line : String) : Bytes := .ofText (now.text ++ "\t" ++ line ++ "\n")

/-- What a line of the history file remembers. -/
def remembered? (line : List Char) : Option (List Char) :=
  match line.dropWhile (· != '\t') with
  | _ :: input => some input
  | [] => none

/-- The inputs that the text of a history file remembers. -/
def rememberedIn (text : String) : List String :=
  ((Text.linesOf text.toList).filterMap remembered?).map String.ofList

variable {m : Type → Type} [Monad m] [Files m]

/-- The session with the history of its history file; a file that is missing holds none. -/
def loadHistory (s : Session) : m (Session × Except SessionError Unit) := do
  match s.log with
  | none => return (s, .ok ())
  | some path =>
    match ← Files.readText path with
    | .ok text => return ({ s with history := s.history ++ rememberedIn text }, .ok ())
    | .error .missing => return (s, .ok ())
    | .error e => return (s, .error (.history path e))

/-- Adds a line to the history file. -/
def note (s : Session) (now : Instant) (line : String) : m (Except FileError Unit) :=
  match s.log with
  | none => return .ok ()
  | some path => Files.append path (logLine now line)

/-- Carries out a command. -/
def perform (s : Session) (now : Instant) :
    Command → m (Session × Except SessionError Reply)
  | .inquire i => return (s, (s.answer i).map (⟨·, false⟩))
  | .exit => return (s, .ok ⟨"", true⟩)
  | .limit most => return ({ s with limit := most }, .ok (.lines [limitText most]))
  | .save path => do
    match ← s.engine.store.save path with
    | .ok () => return (s, .ok (.lines ["saved snapshot to " ++ path]))
    | .error e => return (s, .error (.save e))
  | .load path => do
    match ← Store.ofPath s.engine.config.store now (some path) with
    | .ok store =>
      return ({ s with engine := Engine.new store s.engine.config },
        .ok (.lines [loadedText store.current path]))
    | .error e => return (s, .error (.openStore e))

/-- Answers an input line. -/
def dispatch (s : Session) (now : Instant) (line : String) :
    m (Session × Except SessionError Reply) := do
  let trimmed := Text.trimBlanks line.toList
  if !isInput trimmed then return (s, .ok ⟨"", false⟩)
  else
    let line := String.ofList trimmed
    let s := { s with history := s.history ++ [line] }
    match ← s.note now line with
    | .error e => return (s, .error (.log e))
    | .ok () =>
      match Command.ofLine line with
      | .error e => return (s, .error e)
      | .ok c => s.perform now c

end Session

end VectorQuery
