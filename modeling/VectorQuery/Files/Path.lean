/-
# Paths of files

A path is names between slashes; empty names and single dots in it mean nothing.
-/
namespace VectorQuery.Path

/-- The names of a path. -/
def names (path : String) : List String :=
  ((path.toList.splitOn '/').map String.ofList).filter fun name => name != "" && name != "."

/-- The path starts from the root. -/
def isAbsolute (path : String) : Bool := ['/'].isPrefixOf path.toList

/-- The path ends with a slash. -/
def hasSlash (path : String) : Bool := ['/'].isSuffixOf path.toList

/-- The name of the file that a path leads to. -/
def fileName? (path : String) : Option String := do
  let name ← (names path).getLast?
  if name = ".." then none else some name

/-- A file name before its last point and after it.  A point at the beginning does not count. -/
def splitName (name : List Char) : List Char × Option (List Char) :=
  let after := (name.reverse.takeWhile (· != '.')).reverse
  let before := name.take (name.length - after.length - 1)
  if after.length = name.length || before.isEmpty then (name, none) else (before, some after)

/-- The extension of the file that a path leads to. -/
def extension? (path : String) : Option String := do
  (splitName (← fileName? path).toList).2.map String.ofList

/-- A path backwards, without the slashes and single dots at its end. -/
def dropEnd : List Char → List Char
  | '/' :: rest => dropEnd rest
  | '.' :: rest@('/' :: _) => dropEnd rest
  | cs => cs

/-- The path with another extension. -/
def withExtension (path extension : String) : String :=
  match fileName? path with
  | none => path
  | some name =>
    let before := (dropEnd path.toList.reverse).drop name.length
    .ofList (before.reverse ++ (splitName name.toList).1) ++ "." ++ extension

end VectorQuery.Path
