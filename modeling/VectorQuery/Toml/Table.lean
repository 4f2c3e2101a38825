/-
# Tables of settings

A table is built up by headers and keys.  A key between dots stands for a table of its own, and so
does a header above another one; `Origin` remembers which, because only the same means may add to
a table again.
-/
import VectorQuery.Json.Basic

namespace VectorQuery.Toml

/-- What made a table. -/
inductive Origin where
  /-- A header of its own. -/
  | header
  /-- The header of a table below it. -/
  | implied
  /-- A key between dots. -/
  | dotted
  deriving DecidableEq, Repr

/-- What stands under a key. -/
inductive Node where
  | value (document : Json)
  | table (origin : Origin) (entries : List (String × Node))
  /-- Tables with the same header, in double brackets. -/
  | tables (items : List (List (String × Node)))

/-- Keys and what stands under them, no key twice. -/
abbrev Table := List (String × Node)

namespace Table

/-- Puts a node under a key, in the place of what stood there. -/
def replace (t : Table) (key : String) (node : Node) : Table :=
  if t.any (·.1 == key) then t.map fun (k, n) => if k == key then (k, node) else (k, n)
  else t ++ [(key, node)]

/-- Changes the last item of a list. -/
def onLast? (f : Table → Option Table) (items : List Table) : Option (List Table) := do
  some (items.dropLast ++ [← f (← items.getLast?)])

/-- Puts a value under a key, below the keys of `path`.  The table it ends in has to be made by such
keys too. -/
def put (key : String) (document : Json) : List String → Table → Option Table
  | [], t => if t.any (·.1 == key) then none else some (t ++ [(key, .value document)])
  | step :: path, t => do
    let node ← match t.lookup step with
      | none => do some (Node.table .dotted (← put key document path []))
      | some (.table .dotted below) => do some (.table .dotted (← put key document path below))
      | some (.table .implied below) =>
        if path.isEmpty then none else do some (.table .implied (← put key document path below))
      | some (.tables items) =>
        if path.isEmpty then none else do some (.tables (← onLast? (put key document path) items))
      | some (.table .header _) | some (.value _) => none
    some (t.replace step node)

/-- Changes the table below the headers of `path`, of several tables of one header the last. -/
def below (f : Table → Option Table) : List String → Table → Option Table
  | [], t => f t
  | step :: path, t => do
    let node ← match t.lookup step with
      | none => do some (Node.table .implied (← below f path []))
      | some (.table origin entries) => do some (.table origin (← below f path entries))
      | some (.tables items) => do some (.tables (← onLast? (below f path) items))
      | some (.value _) => none
    some (t.replace step node)

/-- Opens the table of a header in brackets; it may be open only by a header below it. -/
def openTable (key : String) (t : Table) : Option Table :=
  match t.lookup key with
  | none => some (t.replace key (.table .header []))
  | some (.table .implied entries) => some (t.replace key (.table .header entries))
  | some _ => none

/-- Opens one more table of a header in double brackets. -/
def openItem (key : String) (t : Table) : Option Table :=
  match t.lookup key with
  | none => some (t.replace key (.tables [[]]))
  | some (.tables items) => some (t.replace key (.tables (items ++ [[]])))
  | some _ => none

end Table

mutual

/-- A node as a document. -/
def Node.toJson : Node → Json
  | .value j => j
  | .table _ entries => .object (fieldsOf entries)
  | .tables items => .array (documentsOf items)

/-- The fields of a table's document. -/
def fieldsOf : List (String × Node) → List (String × Json)
  | [] => []
  | (key, node) :: rest => (key, node.toJson) :: fieldsOf rest

/-- The documents of several tables. -/
def documentsOf : List (List (String × Node)) → List Json
  | [] => []
  | t :: rest => .object (fieldsOf t) :: documentsOf rest

end

/-- A table as a document. -/
def Table.toJson (t : Table) : Json := .object (fieldsOf t)

end VectorQuery.Toml
