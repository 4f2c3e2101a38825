/-
# Byte strings

Natural numbers in little-endian order, texts in UTF-8, and hexadecimal notation.
-/
import VectorQuery.Number.Double
import VectorQuery.Text.Digits

namespace VectorQuery

/-- A byte string. -/
abbrev Bytes := List UInt8

namespace Bytes

/-- The `width` low bytes of a number, the lowest first. -/
def ofNat : (width : Nat) → Nat → Bytes
  | 0, _ => []
  | width + 1, n => UInt8.ofNat n :: ofNat width (n / 256)

/-- The number that bytes are, the lowest first. -/
def toNat : Bytes → Nat
  | [] => 0
  | b :: bs => b.toNat + 256 * toNat bs

/-- A text in UTF-8. -/
def ofText (s : String) : Bytes := s.toUTF8.toList

/-- The text that bytes are in UTF-8. -/
def text? (bs : Bytes) : Option String := String.fromUTF8? ⟨bs.toArray⟩

/-- A single precision number. -/
def ofSingle (x : Single) : Bytes := ofNat 4 x.bits.toNat

/-- A double precision number. -/
def ofDouble (x : Double) : Bytes := ofNat 8 x.bits.toNat

/-- Two hexadecimal digits a byte. -/
def hex (bs : Bytes) : String :=
  .ofList (bs.flatMap fun b => [Nat.digitChar (b.toNat / 16), Nat.digitChar (b.toNat % 16)])

/-- The bytes that hexadecimal digits write. -/
def ofHex? : List Char → Option Bytes
  | [] => some []
  | a :: b :: rest => do
    let a ← Text.hexValue? a
    let b ← Text.hexValue? b
    let more ← ofHex? rest
    some (UInt8.ofNat (16 * a + b) :: more)
  | [_] => none

@[simp] theorem length_ofNat (width n : Nat) : (ofNat width n).length = width := by
  induction width generalizing n with
  | zero => rfl
  | succ width ih => simp [ofNat, ih]

theorem toNat_ofNat (width n : Nat) : toNat (ofNat width n) = n % 256 ^ width := by
  induction width generalizing n with
  | zero => simp [ofNat, toNat, Nat.mod_one]
  | succ width ih =>
    rw [ofNat, toNat, ih, Nat.pow_succ, Nat.mul_comm (256 ^ width), Nat.mod_mul]
    simp

end Bytes

end VectorQuery
