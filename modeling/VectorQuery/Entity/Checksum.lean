/-
# Checksums of entities

A checksum covers the key and both embeddings, each part closed by a zero byte.
-/
import VectorQuery.Bytes.Sha256
import VectorQuery.Entity.Basic

namespace VectorQuery.Entity

/-- The bytes that a checksum covers. -/
def signedBytes {α : Type} (e : Entity α) : Bytes :=
  Bytes.ofText e.entityType ++ 0 :: Bytes.ofText e.id ++ 0 :: e.dense.flatMap Bytes.ofSingle
    ++ 0 :: e.symbolic.flatMap Bytes.ofSingle

/-- The checksum of an entity. -/
def checksum {α : Type} (e : Entity α) : Bytes := Sha256.digest e.signedBytes

end VectorQuery.Entity
