/-
# The program

A task is carried out on the files that its arguments name.  A session that reads its lines from a
text is a task like any other; one that a reader types into is driven from outside, with the same
answers.
-/
import VectorQuery.CommandLine.Arguments
import VectorQuery.Session.Basic

namespace VectorQuery.CommandLine

open Text (Style)

/-- What the program finds around it. -/
structure Environment where
  /-- The settings file, where no flag names one. -/
  config : Option String
  /-- The directory of the history file. -/
  home : Option String
  now : Instant
  /-- Answers are styled. -/
  color : Bool

/-- What the program leaves behind, the files apart. -/
structure Outcome where
  exit : Nat
  out : Bytes
  err : String
  deriving DecidableEq, Repr

/-- Why a task failed. -/
inductive TaskError where
  /-- The settings file cannot be read. -/
  | config (path : String) (cause : FileError)
  /-- The settings file has no meaning. -/
  | settings (path : String)
  | openStore (cause : OpenError)
  | query (cause : QueryError)
  /-- The result cannot be written. -/
  | output (path : String) (cause : FileError)

namespace TaskError

/-- The error, and then its cause. -/
def report : TaskError → String
  | .config path cause =>
    "failed to read config " ++ path ++ ": " ++ cause.message ++ ": " ++ cause.message
  | .settings path => "invalid config " ++ path ++ ": malformed settings"
  | .openStore cause => cause.report
  | .query cause => cause.report
  | .output path cause => "failed to write " ++ path ++ ": " ++ cause.message

/-- The exit code of a program that ends with the error. -/
def exitCode : TaskError → Nat
  | .query cause => cause.exitCode
  | _ => 3

/-- What was done before the error. -/
def trace? : TaskError → Option Trace
  | .query cause => cause.trace?
  | _ => none

end TaskError

/-- An error as it is shown, and what was done before it. -/
def failure (color : Bool) (message : String) (trace : Option Trace) : String :=
  Text.ofLines ((Style.redBold.paint color "error:" ++ " " ++ message)
    :: (trace.map (Trace.shown color)).getD [])

/-- The outcome of a task that failed. -/
def Outcome.failed (color : Bool) (e : TaskError) : Outcome :=
  ⟨e.exitCode, [], failure color e.report e.trace?⟩

/-- The outcome of a task that printed a text. -/
def Outcome.printed (text : String) : Outcome := ⟨0, .ofText text, ""⟩

/-- What a session is greeted with. -/
def greeting (color : Bool) : String :=
  Text.ofLines [Style.greenBold.paint color "HDQL REPL",
    "Tab-completion enabled. Type `help` for commands. Type `exit` to quit.", ""]

/-- A session's answer: what is printed, what is reported, and whether the session ends. -/
def shown (color : Bool) : Except SessionError Reply → String × String × Bool
  | .ok r => (r.output, "", r.exit)
  | .error e =>
    let trace := match e with
      | .query cause => cause.trace?
      | _ => none
    ("", failure color e.message trace, false)

variable {m : Type → Type} [Monad m] [Files m]

/-- The settings of the file that is named, or else the defaults; a missing file names none. -/
def settings (path : Option String) : m (Except TaskError EngineConfig) := do
  match path with
  | none => return .ok {}
  | some path =>
    match ← Files.readText path with
    | .error .missing | .error .notDirectory => return .ok {}
    | .error e => return .error (.config path e)
    | .ok text =>
      match Config.ofToml? text with
      | some c => return .ok c
      | none => return .error (.settings path)

/-- The engine of an invocation. -/
def engine (now : Instant) (config : EngineConfig) (store : Option String) :
    m (Except TaskError Engine) := do
  let opened ← Store.ofPath config.store now store
  return (opened.map fun s => Engine.new s config).mapError .openStore

/-- The text of a query and its tree, or its document. -/
def parsed (color : Bool) (query : String) (json : Bool) : Except TaskError String := do
  let q ← (Engine.parse query).mapError .query
  if json then .ok (q.toJson.pretty ++ "\n")
  else .ok (Text.ofLines
    [Style.bold.paint color "canonical:" ++ " " ++ q.canonical, q.outline.text])

/-- The answer to a query. -/
def answered (e : Engine) (query : String) (options : QueryOptions) (analyze : Bool) :
    Except TaskError Report :=
  if analyze then ((e.analyze query options).map .analysis).mapError .query
  else (e.execute query options).mapError .query

/-- Prints a report, or writes it to a file. -/
def deliver (color : Bool) (r : Report) (format : ReportFormat) :
    Option String → m (Except TaskError Outcome)
  | none => return .ok ⟨0, r.encode color format, ""⟩
  | some path => do
    let plain := format = .text
    match ← Files.write path (r.encode (color && !plain) format) with
    | .error e => return .error (.output path e)
    | .ok () =>
      let mark := Style.greenBold.paint (color && !plain) "ok:"
      return .ok ⟨0, [], mark ++ " wrote " ++ path ++ "\n"⟩

/-- The session of an invocation, and a warning when its history cannot be read. -/
def openSession (env : Environment) (e : Engine) (history : Option String) :
    m (Session × String) := do
  let log := history.or (env.home.map (· ++ "/.hdql_history"))
  let (s, loaded) ← (Session.new e log env.color).loadHistory
  match loaded with
  | .ok () => return (s, "")
  | .error e =>
    return (s, Style.yellowBold.paint env.color "warning:" ++ " " ++ e.message ++ "\n")

/-- A task is finished, or it is a session, perhaps with a warning. -/
abbrev Progress := Except TaskError (Outcome ⊕ (Session × String))

/-- Carries out a task on a store, or opens a session. -/
def perform (env : Environment) (e : Engine) : StoreTask → m Progress
  | .execute query format limit output analyze timeout =>
    match answered e query ⟨limit, timeout⟩ analyze with
    | .error e => return .error e
    | .ok r => return (← deliver env.color r format output).map .inl
  | .explain query =>
    return ((e.compile query none).mapError .query).map fun p => .inl (.printed p.explain)
  | .repl history => return .ok (.inr (← openSession env e history))

/-- Carries out an invocation, or opens a session. -/
def start (env : Environment) (i : Invocation) : m Progress := do
  match ← settings (i.config.or env.config) with
  | .error e => return .error e
  | .ok config =>
    match i.task with
    | .parse query json =>
      return (parsed env.color query json).map fun text => .inl (.printed text)
    | .onStore task =>
      match ← engine env.now config i.store with
      | .error e => return .error e
      | .ok e => perform env e task

/-- Answers lines until one of them ends the session: what is printed and what is reported. -/
def converse (env : Environment) (s : Session) : List String → m (String × String)
  | [] => return ("", "")
  | line :: lines => do
    let (s, reply) ← s.dispatch env.now line
    let (out, err, exit) := shown env.color reply
    if exit then return (out, err)
    else
      let (outs, errs) ← converse env s lines
      return (out ++ outs, err ++ errs)

/-- The outcome of an invocation; a session reads its lines from `input`. -/
def run (env : Environment) (i : Invocation) (input : String) : m Outcome := do
  match ← start env i with
  | .error e => return .failed env.color e
  | .ok (.inl o) => return o
  | .ok (.inr (s, warning)) =>
    let (out, err) ← converse env s (Text.lines input)
    return ⟨0, .ofText (greeting env.color ++ out), warning ++ err⟩

end VectorQuery.CommandLine
