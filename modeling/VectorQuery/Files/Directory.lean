/-
# Directories as values

A directory that holds files and no other directories.
-/
import VectorQuery.Files.Basic

namespace VectorQuery

/-- Files by name. -/
structure Directory where
  files : OrderedMap String Bytes

namespace Directory

/-- The directory without files. -/
def empty : Directory := ⟨.empty⟩

/-- The file that a path leads to, seen from the directory itself. -/
def resolve (d : Directory) (path : String) : Except FileError String :=
  let slashed := Path.hasSlash path || ['/', '.'].isSuffixOf path.toList
  match Path.names path with
  | [] => .error (if path = "" then .missing else .isDirectory)
  | [name] =>
    if name = ".." then .error .isDirectory
    else if Path.isAbsolute path then .error .missing
    else if slashed then .error (if d.files.contains name then .notDirectory else .missing)
    else .ok name
  | name :: _ :: _ =>
    if Path.isAbsolute path then .error .missing
    else .error (if d.files.contains name then .notDirectory else .missing)

/-- The path is a name with a slash after it, so no file can be made there. -/
def namesDirectory (path : String) : Bool :=
  match Path.names path with
  | [name] => name != ".." && !Path.isAbsolute path && Path.hasSlash path
  | _ => false

/-- The file, perhaps a new one, that a path leads to; `reason` is why there can be none where the
path demands a directory. -/
def resolveNew (d : Directory) (reason : FileError) (path : String) : Except FileError String :=
  if namesDirectory path then .error reason else d.resolve path

/-- What a file holds. -/
def read (d : Directory) (path : String) : Except FileError Bytes := do
  match d.files.get? (← d.resolve path) with
  | some bytes => .ok bytes
  | none => .error .missing

/-- The directory with a file written. -/
def write (d : Directory) (path : String) (bytes : Bytes) : Except FileError Directory := do
  .ok ⟨d.files.insert (← d.resolveNew .isDirectory path) bytes⟩

/-- The directory with bytes added to a file. -/
def append (d : Directory) (path : String) (bytes : Bytes) : Except FileError Directory := do
  let name ← d.resolveNew .isDirectory path
  .ok ⟨d.files.insert name ((d.files.get? name).getD [] ++ bytes)⟩

/-- The directory with a file renamed. -/
def rename (d : Directory) (old new : String) : Except FileError Directory := do
  let source ← d.resolve old
  let bytes ← d.read old
  let target ← d.resolveNew .notDirectory new
  .ok ⟨(d.files.filter fun name _ => name != source).insert target bytes⟩

/-- Replaces the directory when a change of it succeeds. -/
def change (f : Directory → Except FileError Directory) :
    StateM Directory (Except FileError Unit) :=
  fun d => match f d with
    | .ok d' => (.ok (), d')
    | .error e => (.error e, d)

instance : Files (StateM Directory) where
  read path := fun d => (d.read path, d)
  write path bytes := change (·.write path bytes)
  append path bytes := change (·.append path bytes)
  rename old new := change (·.rename old new)

end Directory

end VectorQuery
