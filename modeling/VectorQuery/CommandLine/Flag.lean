/-
# Flags and tasks of the command line
-/
namespace VectorQuery.CommandLine

/-- What the program is asked to do. -/
inductive TaskName where
  | execute
  | parse
  | explain
  | repl
  deriving DecidableEq, Repr

namespace TaskName

/-- All tasks, in the order in which they are listed. -/
def all : List TaskName := [execute, parse, explain, repl]

/-- The word that names a task. -/
def word : TaskName → String
  | .execute => "execute"
  | .parse => "parse"
  | .explain => "explain"
  | .repl => "repl"

/-- The task that a word names. -/
def ofWord? (s : String) : Option TaskName := all.find? (·.word == s)

/-- A task in one line. -/
def description : TaskName → String
  | .execute => "Execute a query and print the result"
  | .parse => "Print the canonical form and AST of a query"
  | .explain => "Print the execution plan with cost estimates and index hints"
  | .repl => "Interactive session with history and entity browsing"

/-- The task needs a query. -/
def takesQuery : TaskName → Bool
  | .repl => false
  | _ => true

end TaskName

/-- An option of the command line. -/
inductive Flag where
  | store
  | config
  | verbose
  | help
  | version
  | format
  | limit
  | output
  | analyze
  | timeout
  | json
  | history
  deriving DecidableEq, Repr

namespace Flag

/-- All flags. -/
def all : List Flag :=
  [store, config, verbose, help, version, format, limit, output, analyze, timeout, json, history]

/-- The name of a flag after two dashes. -/
def long : Flag → String
  | .store => "store"
  | .config => "config"
  | .verbose => "verbose"
  | .help => "help"
  | .version => "version"
  | .format => "format"
  | .limit => "limit"
  | .output => "output"
  | .analyze => "analyze"
  | .timeout => "timeout-ms"
  | .json => "json"
  | .history => "history"

/-- The name of a flag after one dash. -/
def short? : Flag → Option Char
  | .verbose => some 'v'
  | .help => some 'h'
  | .version => some 'V'
  | .output => some 'o'
  | _ => none

/-- The placeholder of a flag's value, if the flag takes one. -/
def placeholder? : Flag → Option String
  | .store => some "<STORE>"
  | .config => some "<CONFIG>"
  | .format => some "<FORMAT>"
  | .limit => some "<LIMIT>"
  | .output => some "<OUTPUT>"
  | .timeout => some "<TIMEOUT_MS>"
  | .history => some "<HISTORY>"
  | _ => none

/-- The flag takes a value. -/
def takesValue (f : Flag) : Bool := f.placeholder?.isSome

/-- The flag may be given again. -/
def repeats : Flag → Bool
  | .verbose => true
  | _ => false

/-- A flag in one line. -/
def description : Flag → String
  | .store => "Ingestion bundle (`.json`) or snapshot file to query"
  | .config => "Engine configuration (TOML); falls back to `$HDQL_CONFIG`"
  | .verbose => "Log more (`-v` debug, `-vv` trace); `RUST_LOG` overrides"
  | .help => "Print help"
  | .version => "Print version"
  | .format => "[default: text] [possible values: text, json, cbor]"
  | .limit => "Keep at most this many results"
  | .output => "Write the result here instead of stdout"
  | .analyze => "Report coverage gaps and opportunities instead of plain results"
  | .timeout => "Abort once the query has run this long"
  | .json => "Print the AST as JSON"
  | .history => "Append-only history log (default `~/.hdql_history`)"

/-- A flag as messages show it. -/
def shown (f : Flag) : String :=
  "--" ++ f.long ++ match f.placeholder? with
    | some p => " " ++ p
    | none => ""

/-- The flags before the task, or of a task, in the order in which they are listed. -/
def ofTask : Option TaskName → List Flag
  | none => [store, config, verbose, help, version]
  | some .execute =>
    [format, store, config, limit, output, verbose, analyze, timeout, help]
  | some .parse => [json, store, config, verbose, help]
  | some .explain => [store, config, verbose, help]
  | some .repl => [history, store, config, verbose, help]

end Flag

end VectorQuery.CommandLine
