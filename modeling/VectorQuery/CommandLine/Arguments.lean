/-
# Arguments of the command line

Arguments are read one after the other: flags before the task's name, the name, then flags and the
query. A flag that the task shares with the program counts where it is given last.  The first
argument that makes no sense, or that asks for help or the version, decides.
-/
import VectorQuery.CommandLine.Usage
import VectorQuery.Report.Format

namespace VectorQuery.CommandLine

/-- What to do with the entities of a store. -/
inductive StoreTask where
  | execute (query : String) (format : ReportFormat) (limit : Option Nat)
      (output : Option String) (analyze : Bool) (timeout : Option Nat)
  | explain (query : String)
  | repl (history : Option String)
  deriving DecidableEq, Repr

/-- What to do. -/
inductive Task where
  | parse (query : String) (json : Bool)
  | onStore (task : StoreTask)
  deriving DecidableEq, Repr

/-- A task, and the files that it is about. -/
structure Invocation where
  store : Option String
  config : Option String
  task : Task
  deriving DecidableEq, Repr

/-- Why there is no task to do. -/
inductive Halt where
  | help (topic : Topic)
  | version
  | usage (cause : UsageError)
  deriving DecidableEq, Repr

/-- What the arguments so far say. -/
structure Reading where
  task : Option TaskName
  /-- Flags before the task's name. -/
  before : List (Flag × String)
  /-- Flags after the task's name. -/
  after : List (Flag × String)
  words : List String
  /-- The flag whose value comes next. -/
  pending : Option Flag
  /-- No more flags follow. -/
  plain : Bool
  /-- What help is asked about. -/
  topic : Option Topic

namespace Reading

/-- No arguments. -/
def start : Reading := ⟨none, [], [], [], none, false, none⟩

/-- The flags that may be given here. -/
def allowed (r : Reading) : List Flag := Flag.ofTask r.task

/-- The value of a flag makes sense. -/
def validate (f : Flag) (value : String) : Except Halt Unit :=
  if f.takesValue && value.isEmpty then .error (.usage (.missingValue f))
  else
    let valid := match f with
      | .format => (ReportFormat.ofName? value).isSome
      | .limit | .timeout => (Text.word64? value.toList).isSome
      | _ => true
    if valid then .ok () else .error (.usage (.invalidValue f value))

/-- A flag is given. -/
def give (r : Reading) (f : Flag) (value : String) : Except Halt Reading := do
  let r := { r with pending := none }
  match f with
  | .help => .error (.help (r.task.elim .program .task))
  | .version => .error .version
  | f =>
    let given := if r.task.isSome then r.after else r.before
    if given.any (·.1 == f) && !f.repeats then .error (.usage (.repeated f))
    else do
      validate f value
      let given := given ++ [(f, value)]
      .ok (if r.task.isSome then { r with after := given } else { r with before := given })

/-- A flag with two dashes, and its value if there is one after an equals sign. -/
def long (r : Reading) (argument : String) (name : List Char) (value : Option (List Char)) :
    Except Halt Reading :=
  match r.allowed.find? (·.long.toList == name), value with
  | none, _ => .error (.usage (.unexpectedArgument argument))
  | some f, some v =>
    if f.takesValue then r.give f (.ofList v)
    else .error (.usage (.unexpectedValue f (.ofList v)))
  | some f, none =>
    if f.takesValue then .ok { r with pending := some f } else r.give f ""

/-- Flags of one letter each after one dash.  The first one that takes a value takes the rest. -/
def shorts : Reading → List Char → Except Halt Reading
  | r, [] => .ok r
  | r, c :: cs =>
    match r.allowed.find? (·.short? == some c) with
    | none => .error (.usage (.unexpectedArgument (.ofList ['-', c])))
    | some f =>
      if f.takesValue then
        match cs with
        | [] => .ok { r with pending := some f }
        | '=' :: v => r.give f (.ofList v)
        | v => r.give f (.ofList v)
      else do
        let r ← r.give f ""
        r.shorts cs

/-- A word after `help`. -/
def about (topic : Topic) (word : String) : Except Halt Topic :=
  match topic, TaskName.ofWord? word with
  | .program, some t => .ok (.task t)
  | .program, none =>
    if word = "help" then .ok .help else .error (.usage (.unknownTask word))
  | _, _ => .error (.usage (.unknownTask word))

/-- An argument that is no flag. -/
def word (r : Reading) (w : String) : Except Halt Reading :=
  match r.task with
  | some t =>
    if t.takesQuery && r.words.isEmpty then .ok { r with words := [w] }
    else .error (.usage (.unexpectedArgument w))
  | none =>
    if r.plain then .error (.usage (.unexpectedArgument w))
    else if w = "help" then .ok { r with topic := some .program }
    else match TaskName.ofWord? w with
      | some t => .ok { r with task := some t }
      | none => .error (.usage (.unknownTask w))

/-- The next argument. -/
def accept (r : Reading) (argument : String) : Except Halt Reading :=
  match r.topic, r.pending, argument.toList with
  | some t, _, _ => (about t argument).map fun t => { r with topic := some t }
  | none, some f, '-' :: _ :: _ => .error (.usage (.missingValue f))
  | none, some f, _ => r.give f argument
  | none, none, '-' :: '-' :: name =>
    if r.plain then r.word argument
    else if name.isEmpty then .ok { r with plain := true }
    else
      match name.dropWhile (· != '=') with
      | _ :: v => r.long argument (name.takeWhile (· != '=')) (some v)
      | [] => r.long argument name none
  | none, none, '-' :: c :: cs => if r.plain then r.word argument else r.shorts (c :: cs)
  | none, none, _ => r.word argument

/-- The value of a flag, that of the task before that of the program. -/
def value? (r : Reading) (f : Flag) : Option String := (r.after.lookup f).or (r.before.lookup f)

/-- The number that a flag's value is. -/
def number? (r : Reading) (f : Flag) : Option Nat := r.value? f >>= fun v => Text.word64? v.toList

/-- The task that all arguments ask for. -/
def finish (r : Reading) : Except Halt Invocation := do
  match r.topic, r.pending, r.task with
  | some t, _, _ => .error (.help t)
  | none, some f, _ => .error (.usage (.missingValue f))
  | none, none, none => .error (.usage .missingTask)
  | none, none, some t =>
    let query ← match r.words with
      | q :: _ => .ok q
      | [] => if t.takesQuery then .error (.usage .missingQuery) else .ok ""
    let task : Task := match t with
      | .execute =>
        let format := (r.value? .format >>= ReportFormat.ofName?).getD .text
        .onStore (.execute query format (r.number? .limit) (r.value? .output)
          (r.value? .analyze).isSome (r.number? .timeout))
      | .parse => .parse query (r.value? .json).isSome
      | .explain => .onStore (.explain query)
      | .repl => .onStore (.repl (r.value? .history))
    .ok ⟨r.value? .store, r.value? .config, task⟩

end Reading

/-- The task that arguments ask for. -/
def Invocation.ofArguments (arguments : List String) : Except Halt Invocation := do
  (← arguments.foldlM Reading.accept .start).finish

end VectorQuery.CommandLine
