/-
# The program on a real system

The command line of the library: real files, the clock, and the terminal.
-/
import Std.Time.DateTime.Timestamp
import VectorQuery.CommandLine.Program

namespace VectorQuery.CommandLine

/-- An error of the system. -/
def fileError : IO.Error → FileError
  | .noFileOrDirectory .. => .missing
  | .inappropriateType _ code _ =>
    if code = 20 || code = -20 then .notDirectory else .isDirectory
  | e => .other (toString e)

/-- An action on files, its error as a value. -/
def attempt {α : Type} (action : IO α) : IO (Except FileError α) := do
  match ← action.toBaseIO with
  | .ok a => return .ok a
  | .error e => return .error (fileError e)

/-- Opens a file and adds bytes to it in a mode. -/
def put (mode : IO.FS.Mode) (path : String) (bytes : Bytes) : IO (Except FileError Unit) :=
  attempt do
    let handle ← IO.FS.Handle.mk path mode
    handle.write ⟨bytes.toArray⟩

instance : Files IO where
  read path := attempt do return (← IO.FS.readBinFile path).toList
  write := put .write
  append := put .append
  rename old new := attempt (IO.FS.rename old new)

/-- The time on the clock. -/
def clock : IO Instant := do
  let t ← Std.Time.Timestamp.now
  return ⟨t.val.second.val, t.val.nano.val.toNat⟩

/-- Answers what is typed until the session or the input ends. -/
partial def serve (color prompt : Bool) (s : Session) : IO Unit := do
  let out ← IO.getStdout
  if prompt then
    out.putStr (Text.Style.cyan.paint color "hdql> ")
    out.flush
  let line ← (← IO.getStdin).getLine
  if line.isEmpty then return
  let (s, reply) ← s.dispatch (← clock) line
  let (text, problem, exit) := shown color reply
  out.putStr text
  out.flush
  (← IO.getStderr).putStr problem
  if exit then return
  serve color prompt s

/-- Prints an outcome and gives its exit code. -/
def finish (o : Outcome) : IO UInt32 := do
  (← IO.getStdout).write ⟨o.out.toArray⟩
  (← IO.getStderr).putStr o.err
  return UInt32.ofNat o.exit

/-- Carries out an invocation. -/
def carryOut (i : Invocation) : IO UInt32 := do
  let terminal ← (← IO.getStdout).isTty
  let color := terminal && (← IO.getEnv "NO_COLOR").isNone
  let env : Environment :=
    ⟨← IO.getEnv "HDQL_CONFIG", ← IO.getEnv "HOME", ← clock, color⟩
  match ← (start env i : IO Progress) with
  | .error e => finish (.failed color e)
  | .ok (.inl o) => finish o
  | .ok (.inr (s, warning)) => do
    (← IO.getStderr).putStr warning
    (← IO.getStdout).putStr (greeting color)
    serve color (← (← IO.getStdin).isTty) s
    return 0

end VectorQuery.CommandLine

open VectorQuery.CommandLine in
/-- The program. -/
def main (arguments : List String) : IO UInt32 := do
  match Invocation.ofArguments arguments with
  | .ok i => carryOut i
  | .error .version => finish (.printed versionText)
  | .error (.help topic) => finish (.printed topic.text)
  | .error (.usage cause) => finish ⟨2, [], cause.report⟩
