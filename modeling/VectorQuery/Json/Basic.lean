/-
# JSON documents

A document keeps the fields of an object in the order they were written, repetitions included, so
that a reader may refuse a repeated field.  A number is kept as it was written: a whole number of
64 bits, or a floating point number of either precision.
-/
import VectorQuery.Number.Quantity

namespace VectorQuery

/-- A JSON document. -/
inductive Json where
  | null
  | bool (value : Bool)
  /-- A whole number that is not negative. -/
  | natural (value : Nat)
  /-- The whole number `-value`. -/
  | negative (value : Nat)
  | real (value : Double)
  | single (value : Single)
  /-- A part that keeps to the grammar and has no value: a number out of the range of floating
  point, a text with half of a surrogate pair, an object with a field of such a name. -/
  | illegible
  | string (value : String)
  | array (items : List Json)
  | object (fields : List (String × Json))
  deriving Inhabited

namespace Json

/-- The last field of a name. -/
def field? (name : String) : Json → Option Json
  | .object fields => (fields.reverse.find? (·.1 == name)).map (·.2)
  | _ => none

/-- The text, if it is one. -/
def string? : Json → Option String
  | .string s => some s
  | _ => none

/-- The truth value, if it is one. -/
def bool? : Json → Option Bool
  | .bool b => some b
  | _ => none

/-- The natural number of 64 bits, if it is one. -/
def natural? : Json → Option Nat
  | .natural n => some n
  | _ => none

/-- The number in double precision, if it is one. -/
def real? : Json → Option Double
  | .natural n => some (Double.ofNat n)
  | .negative n => some (-(Double.ofNat n))
  | .real x => some x
  | .single x => some x.toDouble
  | _ => none

/-- The number in single precision, if it is one.  Whole numbers are rounded once. -/
def single? : Json → Option Single
  | .natural n => some (Single.ofNat n)
  | .negative n => some (-(Single.ofNat n))
  | .single x => some x
  | j => j.real?.map Double.toSingle

/-- The word of a choice: a text, or an object with the word for its only field, which is empty. -/
def word? : Json → Option String
  | .string s | .object [(s, .null)] | .object [(s, .object [])] => some s
  | _ => none

/-- The items of an array, if it is one. -/
def array? : Json → Option (List Json)
  | .array items => some items
  | _ => none

/-- The fields of an object, if it is one. -/
def object? : Json → Option (List (String × Json))
  | .object fields => some fields
  | _ => none

/-- The values of the named fields of a record.  A record is an object, in which none of these
fields is repeated, or an array of the fields in order; with `spare` set the array may go on after
them. -/
def recordWith? (spare : Bool) (names : List String) : Json → Option (List (Option Json))
  | .object fields =>
    if names.all fun name => (fields.filter (·.1 == name)).length ≤ 1 then
      some (names.map fun name => (fields.find? (·.1 == name)).map (·.2))
    else none
  | .array items =>
    if items.length ≤ names.length || spare then
      some ((items.take names.length).map some
        ++ List.replicate (names.length - items.length) none)
    else none
  | _ => none

/-- The values of the named fields of a record. -/
def record? (names : List String) (j : Json) : Option (List (Option Json)) :=
  j.recordWith? false names

/-- The values of the named fields of a record that leaves out no item where it is an array. -/
def fullRecord? (names : List String) : Json → Option (List (Option Json))
  | .array items => if items.length = names.length then some (items.map some) else none
  | j => j.record? names

/-- A document of one of several kinds: the document that names the kind, and the rest.  An object
names it in a field, an array in its first item. -/
def tagged? (tag : String) (j : Json) : Option (Json × Json) :=
  match j with
  | .array (kind :: items) => some (kind, .array items)
  | j => (j.field? tag).map (·, j)

end Json

end VectorQuery
