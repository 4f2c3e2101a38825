/-
# Help and usage errors
-/
import VectorQuery.CommandLine.Flag
import VectorQuery.Text.Lines
import VectorQuery.Text.Style

namespace VectorQuery.CommandLine

open Text (padRight)

/-- Why arguments make no sense. -/
inductive UsageError where
  | unexpectedArgument (argument : String)
  | unknownTask (word : String)
  | missingTask
  | missingQuery
  | missingValue (flag : Flag)
  | unexpectedValue (flag : Flag) (value : String)
  | invalidValue (flag : Flag) (value : String)
  | repeated (flag : Flag)
  deriving DecidableEq, Repr

/-- The error in words. -/
def UsageError.message : UsageError → String
  | .unexpectedArgument argument => "unexpected argument '" ++ argument ++ "' found"
  | .unknownTask word => "unrecognized subcommand '" ++ word ++ "'"
  | .missingTask => "'hdql' requires a subcommand but one was not provided"
  | .missingQuery => "the following required arguments were not provided:\n  <QUERY>"
  | .missingValue flag =>
    "a value is required for '" ++ flag.shown ++ "' but none was supplied"
  | .unexpectedValue flag value =>
    "unexpected value '" ++ value ++ "' for '" ++ flag.shown ++ "' found; no more were expected"
  | .invalidValue flag value => "invalid value '" ++ value ++ "' for '" ++ flag.shown ++ "'"
  | .repeated flag => "the argument '" ++ flag.shown ++ "' cannot be used multiple times"

/-- What help is given about. -/
inductive Topic where
  | program
  | task (name : TaskName)
  | help
  deriving DecidableEq, Repr

/-- How the program, a task or its help is called. -/
def Topic.usage : Topic → String
  | .program => "Usage: hdql [OPTIONS] <COMMAND>"
  | .task name =>
    "Usage: hdql " ++ name.word ++ " [OPTIONS]" ++ if name.takesQuery then " <QUERY>" else ""
  | .help => "Usage: hdql help [COMMAND]..."

/-- Names in one column, and what they mean in another. -/
def table (rows : List (String × String)) : List String :=
  let width := rows.foldl (fun w (name, _) => max w name.length) 0
  rows.map fun (name, description) => "  " ++ padRight width name ++ "  " ++ description

/-- A flag by all its names. -/
def Flag.entry (f : Flag) : String × String :=
  let short := match f.short? with
    | some c => .ofList ['-', c, ',', ' ']
    | none => "    "
  (short ++ f.shown ++ if f.repeats then "..." else "", f.description)

/-- The table of flags. -/
def options (task : Option TaskName) : List String :=
  "Options:" :: table ((Flag.ofTask task).map Flag.entry)

/-- What the `help` task does. -/
def helpDescription : String := "Print this message or the help of the given subcommand(s)"

/-- The lines of help. -/
def Topic.lines (t : Topic) : List String :=
  match t with
  | .program =>
    let tasks := TaskName.all.map fun t => (t.word, t.description)
    ["HDQL: structured semantic queries over embedded entities", "", t.usage, "", "Commands:"]
      ++ table (tasks ++ [("help", helpDescription)]) ++ "" :: options none
  | .task name =>
    [name.description, "", t.usage, ""]
      ++ (if name.takesQuery then ["Arguments:", "  <QUERY>  ", ""] else [])
      ++ options (some name)
  | .help =>
    [helpDescription, "", t.usage, "", "Arguments:",
      "  [COMMAND]...  Print help for the subcommand(s)"]

/-- The text of help. -/
def Topic.text (t : Topic) : String := Text.ofLines t.lines

/-- The version of the program. -/
def versionText : String := "hdql 0.6.0\n"

/-- A usage error as it is reported. -/
def UsageError.report (e : UsageError) : String :=
  Text.ofLines ["error: " ++ e.message, "", Topic.program.usage, "",
    "For more information, try '--help'."]

end VectorQuery.CommandLine
