/-
# Double precision numbers

A double precision number is a pattern of 64 bits.  Order and arithmetic are those of single
precision numbers, in the wider format.  Widening a single precision number is exact, narrowing
rounds to the nearest; an undefined number keeps its sign and the bits that fit.
-/
import VectorQuery.Number.Single

namespace VectorQuery

open Number

/-- A double precision number, as its bit pattern. -/
structure Double where
  bits : UInt64
  deriving DecidableEq, Repr

namespace Double

/-- The pattern without its sign. -/
def unsigned (x : Double) : UInt64 := x.bits &&& 0x7fffffffffffffff

/-- The sign is set. -/
def isNegative (x : Double) : Bool := 0x8000000000000000 ≤ x.bits

/-- Greater than every number. -/
def infinity : Double := ⟨0x7ff0000000000000⟩

/-- What an operation without a result leaves. -/
def indefinite : Double := ⟨0xfff8000000000000⟩

/-- The undefined number without a sign. -/
def undefined : Double := ⟨0x7ff8000000000000⟩

/-- The pattern stands for a number or an infinity. -/
def isDefined (x : Double) : Bool := x.unsigned ≤ infinity.bits

/-- The number is infinite. -/
def isInfinite (x : Double) : Bool := x.unsigned = infinity.bits

/-- The pattern stands for a number. -/
def isFinite (x : Double) : Bool := x.unsigned < infinity.bits

/-- An undefined number as an operation hands it on. -/
def quiet (x : Double) : Double := ⟨x.bits ||| 0x0008000000000000⟩

/-- What the pattern stands for. -/
def reading (x : Double) : Reading := Format.double.reading x.bits.toNat

/-- The natural number that a double precision number is, if it is one. -/
def natural? (x : Double) : Option Nat := x.reading.natural?

/-! ### Order -/

/-- The place in the total order: patterns with a sign come first, in reverse. -/
def place (x : Double) : UInt64 :=
  if x.isNegative then ~~~x.bits else x.bits ||| 0x8000000000000000

/-- Both numbers are zero, of whatever sign. -/
def bothZero (a b : Double) : Bool := a.unsigned = 0 && b.unsigned = 0

instance : LT Double :=
  ⟨fun a b => a.isDefined && b.isDefined && !bothZero a b && a.place < b.place⟩

instance : LE Double :=
  ⟨fun a b => a.isDefined && b.isDefined && (bothZero a b || a.place ≤ b.place)⟩

instance (a b : Double) : Decidable (a < b) := inferInstanceAs (Decidable (_ = true))

instance (a b : Double) : Decidable (a ≤ b) := inferInstanceAs (Decidable (_ = true))

instance : BEq Double := ⟨fun a b => a ≤ b && b ≤ a⟩

/-! ### Arithmetic -/

/-- The result of an operation, which may have none. -/
@[inline] def ofResult (x : Float) : Double := if x.isNaN then indefinite else ⟨x.toBits⟩

/-- An operation on one number. -/
@[inline] def lift (op : Float → Float) (a : Double) : Double :=
  if a.isDefined then ofResult (op (.ofBits a.bits)) else a.quiet

/-- An operation on two numbers. -/
@[inline] def lift₂ (op : Float → Float → Float) (a b : Double) : Double :=
  if a.isDefined then
    if b.isDefined then ofResult (op (.ofBits a.bits) (.ofBits b.bits)) else b.quiet
  else a.quiet

instance : Add Double := ⟨fun a b => lift₂ (· + ·) a b⟩

instance : Sub Double := ⟨fun a b => lift₂ (· - ·) a b⟩

instance : Mul Double := ⟨fun a b => lift₂ (· * ·) a b⟩

instance : Div Double := ⟨fun a b => lift₂ (· / ·) a b⟩

instance : Neg Double := ⟨fun x => ⟨x.bits ^^^ 0x8000000000000000⟩⟩

/-- The logarithm to the base two. -/
def log2 (x : Double) : Double := lift Float.log2 x

/-- The number nearest to a natural number. -/
def ofNat (n : Nat) : Double := ⟨UInt64.ofNat (Format.double.nearest false n 1)⟩

instance (n : Nat) : OfNat Double n := ⟨ofNat n⟩

/-- The number nearest to `significand · 10 ^ exponent`, infinite when that is out of range. -/
def ofDecimal (significand : Nat) (exponent : Int) : Double :=
  ⟨UInt64.ofNat (Format.double.ofDecimal false significand exponent)⟩

instance : OfScientific Double :=
  ⟨fun significand negative exponent =>
    ofDecimal significand (if negative then -(exponent : Int) else exponent)⟩

/-! ### Other formats -/

/-- The pattern of an undefined number in a format with less fraction, if no bits are lost. -/
def undefinedPattern? (f : Format) (x : Double) : Option Nat :=
  let fraction := x.bits.toNat % 2 ^ 52
  let spare := 2 ^ (52 - f.fractionBits)
  if x.quiet = x ∧ fraction % spare = 0 then
    some (f.pattern x.isNegative (2 ^ f.exponentBits - 1) (fraction / spare))
  else none

/-- The pattern of a number in a format that holds it exactly. -/
def pattern? (f : Format) (x : Double) : Option Nat :=
  if x.isDefined then x.reading.pattern? f else x.undefinedPattern? f

/-- The narrowest interchange format that holds a number exactly, and its pattern there. -/
def narrowest (x : Double) : Format × Nat :=
  match x.pattern? .half, x.pattern? .single with
  | some p, _ => (.half, p)
  | none, some p => (.single, p)
  | none, none => (.double, x.bits.toNat)

/-- The number in single precision, rounded to the nearest. -/
def toSingle (x : Double) : Single :=
  match x.reading with
  | .finite b => ⟨UInt32.ofNat (b.nearest .single)⟩
  | .infinite negative => if negative then -Single.infinity else Single.infinity
  | .undefined =>
    let sign : UInt32 := if x.isNegative then 0x80000000 else 0
    ⟨sign ||| Single.infinity.bits ||| (x.quiet.bits >>> 29).toUInt32 &&& 0x007fffff⟩

end Double

/-- The number in double precision. -/
def Single.toDouble (x : Single) : Double :=
  match x.reading with
  | .finite b => ⟨UInt64.ofNat (b.nearest .double)⟩
  | .infinite negative => if negative then -Double.infinity else Double.infinity
  | .undefined =>
    let sign : UInt64 := if x.isNegative then 0x8000000000000000 else 0
    ⟨sign ||| Double.infinity.bits ||| (x.quiet.bits &&& 0x007fffff).toUInt64 <<< 29⟩

namespace Double

/-! ### Text -/

/-- The shortest text that reads back. -/
def text (x : Double) : String := x.reading.text .plain

/-- A text with a set number of decimal places. -/
def fixed (places : Nat) (x : Double) : String := x.reading.fixed false places

/-- A text with a set number of decimal places and always a sign. -/
def signed (places : Nat) (x : Double) : String := x.reading.fixed true places

end Double

end VectorQuery
