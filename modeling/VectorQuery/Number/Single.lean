/-
# Single precision numbers

A single precision number is a pattern of 32 bits.  The order is that of the numbers which the
patterns stand for, so it is decided on the patterns; sums and products are rounded to the nearest
number.  An operation with an undefined operand hands that operand on, the left one first, with its
sign and its bits; an operation that has no result at all (`∞ - ∞`, `0 · ∞`) leaves the undefined
number `Single.indefinite`, which is negative.
-/
import VectorQuery.Number.Decimal
import VectorQuery.Number.Pattern

namespace VectorQuery

open Number

/-- A single precision number, as its bit pattern. -/
structure Single where
  bits : UInt32
  deriving DecidableEq, Repr

namespace Single

/-- The pattern without its sign. -/
def unsigned (x : Single) : UInt32 := x.bits &&& 0x7fffffff

/-- The sign is set. -/
def isNegative (x : Single) : Bool := 0x80000000 ≤ x.bits

/-- Greater than every number. -/
def infinity : Single := ⟨0x7f800000⟩

/-- What an operation without a result leaves. -/
def indefinite : Single := ⟨0xffc00000⟩

/-- The pattern stands for a number or an infinity. -/
def isDefined (x : Single) : Bool := x.unsigned ≤ infinity.bits

/-- The number is infinite. -/
def isInfinite (x : Single) : Bool := x.unsigned = infinity.bits

/-- The pattern stands for a number. -/
def isFinite (x : Single) : Bool := x.unsigned < infinity.bits

/-- An undefined number as an operation hands it on. -/
def quiet (x : Single) : Single := ⟨x.bits ||| 0x00400000⟩

/-- What the pattern stands for. -/
def reading (x : Single) : Reading := Format.single.reading x.bits.toNat

/-! ### Order -/

/-- The place in the total order: patterns with a sign come first, in reverse. -/
def place (x : Single) : UInt32 := if x.isNegative then ~~~x.bits else x.bits ||| 0x80000000

/-- Both numbers are zero, of whatever sign. -/
def bothZero (a b : Single) : Bool := a.unsigned = 0 && b.unsigned = 0

instance : LT Single :=
  ⟨fun a b => a.isDefined && b.isDefined && !bothZero a b && a.place < b.place⟩

instance : LE Single :=
  ⟨fun a b => a.isDefined && b.isDefined && (bothZero a b || a.place ≤ b.place)⟩

instance (a b : Single) : Decidable (a < b) := inferInstanceAs (Decidable (_ = true))

instance (a b : Single) : Decidable (a ≤ b) := inferInstanceAs (Decidable (_ = true))

instance : BEq Single := ⟨fun a b => a ≤ b && b ≤ a⟩

/-! ### Arithmetic -/

/-- The result of an operation, which may have none. -/
@[inline] def ofResult (x : Float32) : Single := if x.isNaN then indefinite else ⟨x.toBits⟩

/-- An operation on one number. -/
@[inline] def lift (op : Float32 → Float32) (a : Single) : Single :=
  if a.isDefined then ofResult (op (.ofBits a.bits)) else a.quiet

/-- An operation on two numbers. -/
@[inline] def lift₂ (op : Float32 → Float32 → Float32) (a b : Single) : Single :=
  if a.isDefined then
    if b.isDefined then ofResult (op (.ofBits a.bits) (.ofBits b.bits)) else b.quiet
  else a.quiet

instance : Add Single := ⟨fun a b => lift₂ (· + ·) a b⟩

instance : Sub Single := ⟨fun a b => lift₂ (· - ·) a b⟩

instance : Mul Single := ⟨fun a b => lift₂ (· * ·) a b⟩

instance : Div Single := ⟨fun a b => lift₂ (· / ·) a b⟩

instance : Neg Single := ⟨fun x => ⟨x.bits ^^^ 0x80000000⟩⟩

/-- The square root. -/
def sqrt (x : Single) : Single := lift Float32.sqrt x

/-- The number nearest to a natural number. -/
def ofNat (n : Nat) : Single := ⟨UInt32.ofNat (Format.single.nearest false n 1)⟩

instance (n : Nat) : OfNat Single n := ⟨ofNat n⟩

/-- The number nearest to `significand · 10 ^ exponent`. -/
def ofDecimal (significand : Nat) (exponent : Int) : Single :=
  ⟨UInt32.ofNat (Format.single.ofDecimal false significand exponent)⟩

instance : OfScientific Single :=
  ⟨fun significand negative exponent =>
    ofDecimal significand (if negative then -(exponent : Int) else exponent)⟩

/-! ### Text -/

/-- The shortest text that reads back. -/
def text (x : Single) : String := x.reading.text .plain

/-- A text with a set number of decimal places. -/
def fixed (places : Nat) (x : Single) : String := x.reading.fixed false places

/-- A text with a set number of decimal places and always a sign. -/
def signed (places : Nat) (x : Single) : String := x.reading.fixed true places

end Single

end VectorQuery
