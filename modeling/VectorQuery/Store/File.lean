/-
# Snapshot files

A file is a magic word, a format version, the length of the body, and the body.  In the body
numbers are little-endian, lists and texts start with their length, and a variant with its tag.
Restoring rebuilds everything that is derived and then compares the checksums, so a damaged file
is refused.
-/
import VectorQuery.Store.Snapshot

namespace VectorQuery.SnapshotFile

/-- The word that every snapshot file starts with. -/
def magic : Bytes := [0x48, 0x44, 0x51, 0x53]

/-- The version of the format. -/
def version : Nat := 1

/-! ### Writing -/

/-- The length of a list, then its items. -/
def putList {α : Type} (put : α → Bytes) (items : List α) : Bytes :=
  Bytes.ofNat 8 items.length ++ items.flatMap put

/-- The length of a text in bytes, then the text. -/
def putText (s : String) : Bytes :=
  let bs := Bytes.ofText s
  Bytes.ofNat 8 bs.length ++ bs

/-- A metadata value by its tag. -/
def putScalar : Scalar Double → Bytes
  | .bool b => Bytes.ofNat 4 0 ++ [if b then 1 else 0]
  | .number x => Bytes.ofNat 4 1 ++ Bytes.ofDouble x
  | .text s => Bytes.ofNat 4 2 ++ putText s

/-- An entity. -/
def putEntity (e : Entity Double) : Bytes :=
  putText e.entityType ++ putText e.id ++ putText e.displayName
    ++ putList Bytes.ofSingle e.dense ++ putList Bytes.ofSingle e.symbolic
    ++ putList (fun (name, v) => putText name ++ putScalar v) e.metadata.entries

/-- An operator by its tag. -/
def putOperator : Operator → Bytes
  | .offset v => Bytes.ofNat 4 0 ++ putList Bytes.ofSingle v
  | .composition v => Bytes.ofNat 4 1 ++ putList Bytes.ofSingle v

/-- A relation. -/
def putRelation (r : Relation) : Bytes :=
  putText r.key.sourceType ++ putText r.key.relation ++ putText r.key.targetType
    ++ putOperator r.operator

/-- The body of a snapshot's file, with the text of its creation time. -/
def body (created : String) (s : Snapshot) : Bytes :=
  Bytes.ofNat 8 s.generation ++ putText created ++ putList putEntity s.entities.toList
    ++ putList putRelation s.relationList ++ putList id s.checksums

/-- A file with a body. -/
def frame (body : Bytes) : Bytes :=
  magic ++ Bytes.ofNat 4 version ++ Bytes.ofNat 8 body.length ++ body

/-- The file of a snapshot. -/
def encode (s : Snapshot) : Bytes := frame (body s.created.stamp s)

/-! ### Reading -/

/-- Reads something off the front of a byte string. -/
abbrev Reader (α : Type) := Bytes → Option (α × Bytes)

/-- The next `n` bytes. -/
def take (n : Nat) : Reader Bytes := fun bs =>
  if bs.length < n then none else some (bs.take n, bs.drop n)

/-- A number of `width` bytes. -/
def getNat (width : Nat) : Reader Nat := fun bs =>
  (take width bs).map fun (b, rest) => (Bytes.toNat b, rest)

/-- `n` items. -/
def getItems {α : Type} (get : Reader α) : Nat → Reader (List α)
  | 0, bs => some ([], bs)
  | n + 1, bs => do
    let (a, bs) ← get bs
    let (as, bs) ← getItems get n bs
    some (a :: as, bs)

/-- A list after its length.  Every item takes a byte, so a length beyond what is left is
refused. -/
def getList {α : Type} (get : Reader α) : Reader (List α) := fun bs => do
  let (n, bs) ← getNat 8 bs
  if bs.length < n then none else getItems get n bs

/-- A text after its length. -/
def getText : Reader String := fun bs => do
  let (n, bs) ← getNat 8 bs
  let (text, bs) ← take n bs
  let s ← Bytes.text? text
  some (s, bs)

/-- A single precision number. -/
def getSingle : Reader Single := fun bs =>
  (getNat 4 bs).map fun (n, bs) => (⟨UInt32.ofNat n⟩, bs)

/-- A double precision number. -/
def getDouble : Reader Double := fun bs =>
  (getNat 8 bs).map fun (n, bs) => (⟨UInt64.ofNat n⟩, bs)

/-- A metadata value by its tag. -/
def getScalar : Reader (Scalar Double) := fun bs => do
  let (tag, bs) ← getNat 4 bs
  match tag with
  | 0 =>
    let (b, bs) ← getNat 1 bs
    match b with
    | 0 => some (.bool false, bs)
    | 1 => some (.bool true, bs)
    | _ => none
  | 1 =>
    let (x, bs) ← getDouble bs
    some (.number x, bs)
  | 2 =>
    let (s, bs) ← getText bs
    some (.text s, bs)
  | _ => none

/-- A metadata field with its value. -/
def getField : Reader (String × Scalar Double) := fun bs => do
  let (name, bs) ← getText bs
  let (v, bs) ← getScalar bs
  some ((name, v), bs)

/-- An entity. -/
def getEntity : Reader (Entity Double) := fun bs => do
  let (entityType, bs) ← getText bs
  let (id, bs) ← getText bs
  let (displayName, bs) ← getText bs
  let (dense, bs) ← getList getSingle bs
  let (symbolic, bs) ← getList getSingle bs
  let (metadata, bs) ← getList getField bs
  some (⟨entityType, id, displayName, dense, symbolic, .ofList metadata⟩, bs)

/-- An operator by its tag. -/
def getOperator : Reader Operator := fun bs => do
  let (tag, bs) ← getNat 4 bs
  match tag with
  | 0 =>
    let (v, bs) ← getList getSingle bs
    some (.offset v, bs)
  | 1 =>
    let (v, bs) ← getList getSingle bs
    some (.composition v, bs)
  | _ => none

/-- A relation. -/
def getRelation : Reader Relation := fun bs => do
  let (source, bs) ← getText bs
  let (relation, bs) ← getText bs
  let (target, bs) ← getText bs
  let (operator, bs) ← getOperator bs
  some (⟨⟨source, relation, target⟩, operator⟩, bs)

/-- What a body holds. -/
structure Body where
  generation : Nat
  created : Instant
  entities : List (Entity Double)
  relations : List Relation
  checksums : List Bytes

/-- The body that bytes begin with. -/
def getBody (bs : Bytes) : Option Body := do
  let (generation, bs) ← getNat 8 bs
  let (created, bs) ← getText bs
  let created ← Instant.ofText? created
  let (entities, bs) ← getList getEntity bs
  let (relations, bs) ← getList getRelation bs
  let (checksums, _) ← getList (take 32) bs
  some ⟨generation, created, entities, relations, checksums⟩

/-- The body of a file, after its magic word, version and length. -/
def unframe (bs : Bytes) : Except StoreError Bytes :=
  if bs.length < 8 ∨ bs.take 4 ≠ magic then .error .badMagic
  else
    let found := Bytes.toNat ((bs.drop 4).take 4)
    if found ≠ version then .error (.unsupportedVersion found version)
    else if bs.length < 16 then .error (.truncated "body length")
    else
      let length := Bytes.toNat ((bs.drop 8).take 8)
      let rest := bs.drop 16
      if rest.length < length then .error (.truncated "body") else .ok (rest.take length)

/-- The snapshot of a file. -/
def decode (config : StoreConfig) (bs : Bytes) : Except StoreError Snapshot := do
  let bytes ← unframe bs
  match getBody bytes with
  | none => .error .decode
  | some b =>
    let s ← Snapshot.build b.entities b.relations config b.generation b.created
    if b.checksums.length ≠ s.size then .error (.truncated "checksum table")
    else
      let s := { s with checksums := b.checksums }
      s.verify
      .ok s

end VectorQuery.SnapshotFile
