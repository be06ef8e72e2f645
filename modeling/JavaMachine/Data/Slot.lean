/-!
Slots and values.

A slot is the unit of storage of locals, operand stacks and fields: a 32-bit number or a reference. A
long or double takes two slots, the low half first, so values are split into slots and joined again.
Floating-point values are their bits, which moves therefore never change.
-/

namespace JavaMachine

/-- An object on the heap. -/
structure Address where
  index : Nat
  deriving DecidableEq, Repr, Inhabited

/-- A 32-bit number or a reference. Two slots are equal when they hold the same kind and the same
number or object; the number 0 is not the null reference. -/
inductive Slot where
  | num (n : Int32)
  | ref (r : Option Address)
  deriving DecidableEq, Repr

namespace Slot

/-- What unused slots hold. -/
def zero : Slot := num 0

instance : Inhabited Slot := ⟨zero⟩

/-- The slot read as a number; a reference reads as 0. -/
def number : Slot → Int32
  | num n => n
  | ref _ => 0

/-- The slot read as a reference; a number reads as null. -/
def reference : Slot → Option Address
  | num _ => none
  | ref r => r

/-- A slot as diagnostics show it, objects by the name of their class. -/
def describe (className : Address → String) : Slot → String
  | num n => s!"Num({n})"
  | ref none => "null"
  | ref (some a) => s!"Ref({className a})"

end Slot

/-- The low and the high half of a long. -/
def splitLong (v : Int64) : Int32 × Int32 := (v.toInt32, (v >>> 32).toInt32)

/-- The long with the given halves. -/
def joinLong (low high : Int32) : Int64 :=
  (high.toInt64 <<< 32) ||| low.toUInt32.toUInt64.toInt64

/-- A value as it enters and leaves the machine. -/
inductive Value where
  | int (v : Int32)
  | long (v : Int64)
  | float (bits : UInt32)
  | double (bits : UInt64)
  | reference (r : Option Address)
  deriving DecidableEq, Repr, Inhabited

namespace Value

/-- Slots that the value takes. -/
def size : Value → Nat
  | long _ | double _ => 2
  | _ => 1

/-- The slots of a value, low half first. -/
def slots : Value → List Slot
  | int v => [.num v]
  | long v => let (low, high) := splitLong v; [.num low, .num high]
  | float bits => [.num bits.toInt32]
  | double bits => let (low, high) := splitLong bits.toInt64; [.num low, .num high]
  | reference r => [.ref r]

theorem length_slots (v : Value) : v.slots.length = v.size := by cases v <;> rfl

def int? : Value → Option Int32
  | int v => some v
  | _ => none

def long? : Value → Option Int64
  | long v => some v
  | _ => none

def float? : Value → Option UInt32
  | float bits => some bits
  | _ => none

def double? : Value → Option UInt64
  | double bits => some bits
  | _ => none

/-- The object of a reference; any other value has none. -/
def reference? : Value → Option Address
  | reference r => r
  | _ => none

end Value

end JavaMachine
