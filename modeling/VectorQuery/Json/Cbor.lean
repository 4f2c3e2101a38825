/-
# JSON documents in binary

Every item starts with a head: three bits of kind, and a number that takes no more bytes than it
needs. Texts, arrays and objects tell their length in the head; a number with a fraction stands in
the narrowest format that holds it exactly.
-/
import VectorQuery.Bytes.Basic
import VectorQuery.Json.Basic
import VectorQuery.Number.Double

namespace VectorQuery.Json

/-- The kind of an item. -/
inductive CborKind where
  | natural
  | negative
  | text
  | array
  | object
  /-- Truth values, nothing, and numbers with a fraction. -/
  | simple

/-- The three bits of a kind. -/
def CborKind.bits : CborKind → Nat
  | .natural => 0
  | .negative => 1
  | .text => 3
  | .array => 4
  | .object => 5
  | .simple => 7

/-- The head of an item. -/
def cborHead (kind : CborKind) (n : Nat) : Bytes :=
  let first (low : Nat) : UInt8 := UInt8.ofNat (32 * kind.bits + low)
  if n < 24 then [first n]
  else if n < 2 ^ 8 then first 24 :: (Bytes.ofNat 1 n).reverse
  else if n < 2 ^ 16 then first 25 :: (Bytes.ofNat 2 n).reverse
  else if n < 2 ^ 32 then first 26 :: (Bytes.ofNat 4 n).reverse
  else first 27 :: (Bytes.ofNat 8 n).reverse

/-- A text. -/
def cborText (s : String) : Bytes :=
  let bytes := Bytes.ofText s
  cborHead .text bytes.length ++ bytes

/-- A number with a fraction. -/
def cborNumber (x : Double) : Bytes :=
  let (format, pattern) := x.narrowest
  let low := match format.bytes with
    | 2 => 25
    | 4 => 26
    | _ => 27
  UInt8.ofNat (32 * CborKind.simple.bits + low) :: (Bytes.ofNat format.bytes pattern).reverse

mutual

/-- A document in binary. -/
def cbor : Json → Bytes
  | .bool b => cborHead .simple (if b then 21 else 20)
  | .null | .illegible => cborHead .simple 22
  | .natural n => cborHead .natural n
  | .negative 0 => cborHead .natural 0
  | .negative (n + 1) => cborHead .negative n
  | .real x => cborNumber x
  | .single x => cborNumber x.toDouble
  | .string s => cborText s
  | .array items => cborHead .array items.length ++ cborItems items
  | .object fields => cborHead .object fields.length ++ cborFields fields

/-- The items of an array in binary. -/
def cborItems : List Json → Bytes
  | [] => []
  | j :: js => cbor j ++ cborItems js

/-- The fields of an object in binary. -/
def cborFields : List (String × Json) → Bytes
  | [] => []
  | (name, j) :: fs => cborText name ++ cbor j ++ cborFields fs

end

mutual

/-- No number of the document is undefined, so the document equals itself. -/
def isDefined : Json → Bool
  | .real x => Quantity.isDefined x
  | .single x => Quantity.isDefined x
  | .array items => isDefinedItems items
  | .object fields => isDefinedFields fields
  | _ => true

/-- No number of the items is undefined. -/
def isDefinedItems : List Json → Bool
  | [] => true
  | j :: js => isDefined j && isDefinedItems js

/-- No number of the fields is undefined. -/
def isDefinedFields : List (String × Json) → Bool
  | [] => true
  | (_, j) :: fs => isDefined j && isDefinedFields fs

end

end VectorQuery.Json
