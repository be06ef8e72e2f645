/-!
Floating-point arithmetic on bits, in the binary formats of 32 and 64 bits.

Values stay bits everywhere, so that moving one never changes it; an operation reads bit patterns and
gives one. Sums, products, quotients and conversions round to nearest. Negation flips the sign bit,
comparison orders sign and magnitude, and the remainder is exact: both operands are multiples of the
least positive value, so it is a remainder of integers.
-/

namespace JavaMachine

/-- The remainder of the magnitudes `a` and `b` in a format with `p` fraction bits, neither infinite nor
NaN and `b` not zero. Above the lowest exponent a magnitude stands for its fraction with an implicit
leading one, scaled by its exponent. -/
def ieeeRemainder (p a b : Nat) : Nat :=
  let scaled (m : Nat) := if m >>> p = 0 then m else (m % (1 <<< p) + (1 <<< p)) <<< (m >>> p - 1)
  let r := scaled a % scaled b
  if r.log2 ≤ p then r else ((r.log2 - p) <<< p) + (r >>> (r.log2 - p))

namespace Ieee32

/-- The bits without the sign. -/
def magnitude (a : UInt32) : UInt32 := a &&& 0x7FFFFFFF

def infinity : UInt32 := 0x7F800000

/-- The NaN that operations give. -/
def nan : UInt32 := 0x7FC00000

def isNaN (a : UInt32) : Bool := infinity < magnitude a

def neg (a : UInt32) : UInt32 := a ^^^ 0x80000000

def add (a b : UInt32) : UInt32 := (Float32.ofBits a + Float32.ofBits b).toBits
def sub (a b : UInt32) : UInt32 := (Float32.ofBits a - Float32.ofBits b).toBits
def mul (a b : UInt32) : UInt32 := (Float32.ofBits a * Float32.ofBits b).toBits
def div (a b : UInt32) : UInt32 := (Float32.ofBits a / Float32.ofBits b).toBits

/-- The remainder of a quotient cut off toward zero; it has the sign of the dividend. -/
def rem (a b : UInt32) : UInt32 :=
  if isNaN a || isNaN b || magnitude a = infinity || magnitude b = 0 then nan
  else if magnitude b = infinity then a
  else (a &&& 0x80000000) |||
    (ieeeRemainder 23 (magnitude a).toNat (magnitude b).toNat).toUInt32

/-- A number in the order of the values; the two zeros have the same. -/
def key (a : UInt32) : Int :=
  if a = magnitude a then (magnitude a).toNat else -((magnitude a).toNat : Int)

/-- The order of two values, none if one is no number. -/
def compare? (a b : UInt32) : Option Ordering :=
  if isNaN a || isNaN b then none else some (compare (key a) (key b))

def ofInt (v : Int32) : UInt32 := v.toFloat32.toBits
def ofLong (v : Int64) : UInt32 := v.toFloat32.toBits

/-- Cut off toward zero and clamped; 0 for no number. -/
def toInt (a : UInt32) : Int32 := (Float32.ofBits a).toInt32
def toLong (a : UInt32) : Int64 := (Float32.ofBits a).toInt64

/-- The same value in 64 bits; what is no number keeps its payload and becomes quiet. -/
def toDouble (a : UInt32) : UInt64 :=
  if isNaN a then
    ((a >>> 31).toUInt64 <<< 63) ||| ((a &&& 0x7FFFFF).toUInt64 <<< 29) ||| 0x7FF8000000000000
  else (Float32.ofBits a).toFloat.toBits

end Ieee32

namespace Ieee64

/-- The bits without the sign. -/
def magnitude (a : UInt64) : UInt64 := a &&& 0x7FFFFFFFFFFFFFFF

def infinity : UInt64 := 0x7FF0000000000000

/-- The NaN that operations give. -/
def nan : UInt64 := 0x7FF8000000000000

def isNaN (a : UInt64) : Bool := infinity < magnitude a

def neg (a : UInt64) : UInt64 := a ^^^ 0x8000000000000000

def add (a b : UInt64) : UInt64 := (Float.ofBits a + Float.ofBits b).toBits
def sub (a b : UInt64) : UInt64 := (Float.ofBits a - Float.ofBits b).toBits
def mul (a b : UInt64) : UInt64 := (Float.ofBits a * Float.ofBits b).toBits
def div (a b : UInt64) : UInt64 := (Float.ofBits a / Float.ofBits b).toBits

/-- The remainder of a quotient cut off toward zero; it has the sign of the dividend. -/
def rem (a b : UInt64) : UInt64 :=
  if isNaN a || isNaN b || magnitude a = infinity || magnitude b = 0 then nan
  else if magnitude b = infinity then a
  else (a &&& 0x8000000000000000) |||
    (ieeeRemainder 52 (magnitude a).toNat (magnitude b).toNat).toUInt64

/-- A number in the order of the values; the two zeros have the same. -/
def key (a : UInt64) : Int :=
  if a = magnitude a then (magnitude a).toNat else -((magnitude a).toNat : Int)

/-- The order of two values, none if one is no number. -/
def compare? (a b : UInt64) : Option Ordering :=
  if isNaN a || isNaN b then none else some (compare (key a) (key b))

def ofInt (v : Int32) : UInt64 := v.toFloat.toBits
def ofLong (v : Int64) : UInt64 := v.toFloat.toBits

/-- Cut off toward zero and clamped; 0 for no number. -/
def toInt (a : UInt64) : Int32 := (Float.ofBits a).toInt32
def toLong (a : UInt64) : Int64 := (Float.ofBits a).toInt64

/-- The nearest value in 32 bits; what is no number keeps the front of its payload and becomes quiet. -/
def toFloat (a : UInt64) : UInt32 :=
  if isNaN a then
    ((a >>> 63).toUInt32 <<< 31) ||| ((a >>> 29).toUInt32 &&& 0x3FFFFF) ||| 0x7FC00000
  else (Float.ofBits a).toFloat32.toBits

end Ieee64

end JavaMachine
