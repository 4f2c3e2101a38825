/-
# Commands of a session

The first word of an input line names a command; a line whose first word names none is a query.
-/
import VectorQuery.Session.Error
import VectorQuery.Text.Letter

namespace VectorQuery

/-- What a session is asked without being changed. -/
inductive Inquiry where
  | help
  | run (query : String)
  | parse (query : String)
  | explain (query : String)
  | analyze (query : String)
  | show (entityType : String)
  | types
  | history
  | examples
  deriving DecidableEq, Repr

/-- What an input line tells a session. -/
inductive Command where
  | inquire (inquiry : Inquiry)
  | exit
  | limit (most : Option Nat)
  | save (path : String)
  | load (path : String)
  deriving DecidableEq, Repr

namespace Command

/-- The first word of a line, and what stands after it. -/
def split (line : List Char) : List Char × List Char :=
  (line.takeWhile (!Text.isBlank ·), Text.trimBlanks (line.dropWhile (!Text.isBlank ·)))

/-- What stands after a command that needs it. -/
def argument (command rest : String) : Except SessionError String :=
  if rest.isEmpty then .error (.usage command) else .ok rest

/-- The argument of a limit: a number, or a word that lifts it. -/
def limitOf (rest : String) : Except SessionError (Option Nat) :=
  match rest with
  | "" => .error .limitUsage
  | "none" | "off" => .ok none
  | text => match Text.word64? text.toList with
    | some n => .ok (some n)
    | none => .error (.limitNumber text)

/-- The command of a line that is trimmed and not empty. -/
def ofLine (line : String) : Except SessionError Command := do
  let (first, rest) := split line.toList
  let word := String.ofList first
  let rest := String.ofList rest
  match word with
  | "help" | "?" => .ok (.inquire .help)
  | "exit" | "quit" => .ok .exit
  | "query" | "q" => do .ok (.inquire (.run (← argument word rest)))
  | "parse" => do .ok (.inquire (.parse (← argument word rest)))
  | "explain" => do .ok (.inquire (.explain (← argument word rest)))
  | "analyze" => do .ok (.inquire (.analyze (← argument word rest)))
  | "show" => do .ok (.inquire (.show (← argument word rest)))
  | "types" => .ok (.inquire .types)
  | "history" => .ok (.inquire .history)
  | "examples" => .ok (.inquire .examples)
  | "limit" => do .ok (.limit (← limitOf rest))
  | "save" => do .ok (.save (← argument word rest))
  | "load" => do .ok (.load (← argument word rest))
  | _ => .ok (.inquire (.run line))

/-- What `help` answers. -/
def help : List String := [
  "Commands:",
  "  help | ?                 Show this help",
  "  exit | quit              Exit the REPL",
  "",
  "  <query>                  Execute a query (same as `query <query>`)",
  "  query <query>            Execute a query",
  "  parse <query>            Print the canonical form and AST",
  "  explain <query>          Print the execution plan with costs and index hints",
  "  analyze <query>          Execute and report coverage gaps and opportunities",
  "",
  "  show <type>              List entities of a type (plural forms accepted)",
  "  types                    List entity types, relations and metadata fields",
  "  examples                 Example queries for the loaded store",
  "  history                  Show this session's input history",
  "  limit <n|none>           Set the result limit (default 10)",
  "",
  "  save <file>              Persist the current snapshot",
  "  load <file>              Load an ingestion bundle (.json) or snapshot file"]

end Command

end VectorQuery
