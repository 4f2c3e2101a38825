/-
# Files

What the library does with files it does through `Files`, so that the same definitions run on a
real file system and on a `Directory`, which is a value.
-/
import VectorQuery.Bytes.Basic
import VectorQuery.Files.Path
import VectorQuery.OrderedMap

namespace VectorQuery

/-- Why a file could not be read or written. -/
inductive FileError where
  | missing
  | isDirectory
  | notDirectory
  /-- The file is not text. -/
  | notText
  | other (reason : String)
  deriving DecidableEq, Repr

/-- The error in words. -/
def FileError.message : FileError → String
  | .missing => "No such file or directory (os error 2)"
  | .isDirectory => "Is a directory (os error 21)"
  | .notDirectory => "Not a directory (os error 20)"
  | .notText => "stream did not contain valid UTF-8"
  | .other reason => reason

/-- Access to files. -/
class Files (m : Type → Type) where
  /-- What a file holds. -/
  read : String → m (Except FileError Bytes)
  /-- Makes a file hold the bytes and nothing else. -/
  write : String → Bytes → m (Except FileError Unit)
  /-- Adds bytes to the end of a file, which is made if it is missing. -/
  append : String → Bytes → m (Except FileError Unit)
  /-- Gives a file another name, in the place of the file that had it. -/
  rename : String → String → m (Except FileError Unit)

namespace Files

variable {m : Type → Type} [Monad m] [Files m]

/-- The text that a file holds. -/
def readText (path : String) : m (Except FileError String) := do
  match ← read path with
  | .error e => return .error e
  | .ok bytes =>
    match Bytes.text? bytes with
    | some s => return .ok s
    | none => return .error .notText

/-- Makes a file hold the bytes.  They are written to another file first, which then takes the
name, so that nobody sees a part of them. -/
def replace (path other : String) (bytes : Bytes) : m (Except FileError Unit) := do
  match ← write other bytes with
  | .error e => return .error e
  | .ok () => rename other path

end Files

end VectorQuery
