import JavaMachine.Data.Ieee
import JavaMachine.Execution.Basic

/-!
Arithmetic, comparison and conversion on the operand stack.

Integers wrap around; a quotient is cut off toward zero, and dividing by zero raises an exception. A
shift distance counts modulo the width and is an int also for longs. The right operand is on top.
-/

namespace JavaMachine

/-! ### Integer operations -/

/-- A number that bits stand for, without a sign. -/
def shiftedDown32 (a : Int32) (distance : UInt32) : Int32 := (a.toUInt32 >>> distance).toInt32
def shiftedDown64 (a : Int64) (distance : UInt64) : Int64 := (a.toUInt64 >>> distance).toInt64

/-- The sign of a comparison as a number. -/
def signOf : Ordering → Int32
  | .lt => -1
  | .eq => 0
  | .gt => 1

namespace Exec

/-- An operation on two ints. -/
def onInts (f : Int32 → Int32 → Int32) : Exec Unit := do
  let b ← popInt
  let a ← popInt
  pushInt (f a b)

/-- An operation on two longs. -/
def onLongs (f : Int64 → Int64 → Int64) : Exec Unit := do
  let b ← popLong
  let a ← popLong
  pushLong (f a b)

/-- Raises the exception for a zero divisor. -/
def divisionByZero {α : Type} : Exec α := raise ExceptionName.arithmetic "/ by zero"

/-- A division of two ints, or the remainder of one. -/
def onDividedInts (f : Int32 → Int32 → Int32) : Exec Unit := do
  let b ← popInt
  let a ← popInt
  if b = 0 then divisionByZero else pushInt (f a b)

/-- A division of two longs, or the remainder of one. -/
def onDividedLongs (f : Int64 → Int64 → Int64) : Exec Unit := do
  let b ← popLong
  let a ← popLong
  if b = 0 then divisionByZero else pushLong (f a b)

/-- A shift of an int. -/
def shiftInt (f : Int32 → UInt32 → Int32) : Exec Unit := onInts fun a b => f a (b.toUInt32 &&& 31)

/-- A shift of a long by an int. -/
def shiftLong (f : Int64 → UInt64 → Int64) : Exec Unit := do
  let distance ← popInt
  let a ← popLong
  pushLong (f a (distance.toUInt32 &&& 63).toUInt64)

/-- An operation on two floats. -/
def onFloats (f : UInt32 → UInt32 → UInt32) : Exec Unit := do
  let b ← popFloat
  let a ← popFloat
  pushFloat (f a b)

/-- An operation on two doubles. -/
def onDoubles (f : UInt64 → UInt64 → UInt64) : Exec Unit := do
  let b ← popDouble
  let a ← popDouble
  pushDouble (f a b)

/-! ### Comparison -/

/-- The sign of a comparison of longs. -/
def compareLongs : Exec Unit := do
  let b ← popLong
  let a ← popLong
  pushInt (signOf (compare a b))

/-- The sign of a comparison of floats, or `unordered` if one is no number. -/
def compareFloats (unordered : Int32) : Exec Unit := do
  let b ← popFloat
  let a ← popFloat
  pushInt (((Ieee32.compare? a b).map signOf).getD unordered)

/-- The sign of a comparison of doubles, or `unordered` if one is no number. -/
def compareDoubles (unordered : Int32) : Exec Unit := do
  let b ← popDouble
  let a ← popDouble
  pushInt (((Ieee64.compare? a b).map signOf).getD unordered)

/-! ### Operations on one value -/

def mapInt (f : Int32 → Value) : Exec Unit := do push (f (← popInt))
def mapLong (f : Int64 → Value) : Exec Unit := do push (f (← popLong))
def mapFloat (f : UInt32 → Value) : Exec Unit := do push (f (← popFloat))
def mapDouble (f : UInt64 → Value) : Exec Unit := do push (f (← popDouble))

/-- Adds to an int in a local variable. -/
def increment (index : Nat) (constant : Int32) : Exec Unit := do
  let slot ← getLocal index
  setLocal index (.num (slot.number + constant))

end Exec

end JavaMachine
