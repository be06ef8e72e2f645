import JavaMachine.Data.Slot

/-!
Operand stacks: a fixed array of slots, of which the first `size` are in use.

Pushing onto a full stack and reading below the bottom are `none`. The slots that are not in use hold
zero, so the array and the size together are a bounded list, `toList`.
-/

namespace JavaMachine

/-- An operand stack. -/
structure OperandStack where
  slots : Array Slot
  size : Nat
  deriving DecidableEq, Repr, Inhabited

namespace OperandStack

/-- An empty stack with room for `capacity` slots. -/
def empty (capacity : Nat) : OperandStack := ⟨Array.replicate capacity .zero, 0⟩

def capacity (s : OperandStack) : Nat := s.slots.size

def isEmpty (s : OperandStack) : Bool := s.size == 0

/-- The slots in use, bottom first. -/
def toList (s : OperandStack) : List Slot := s.slots.toList.take s.size

def push? (s : OperandStack) (slot : Slot) : Option OperandStack :=
  if h : s.size < s.slots.size then some ⟨s.slots.set s.size slot, s.size + 1⟩ else none

def pop? (s : OperandStack) : Option (Slot × OperandStack) :=
  if h : 0 < s.size ∧ s.size ≤ s.slots.size then
    some (s.slots[s.size - 1], ⟨s.slots.set (s.size - 1) .zero, s.size - 1⟩)
  else none

/-- The slot `depth` below the top. -/
def peek? (s : OperandStack) (depth : Nat) : Option Slot :=
  if depth < s.size then s.slots[s.size - 1 - depth]? else none

/-- The reference `depth` below the top. -/
def topReference? (s : OperandStack) (depth : Nat) : Option (Option Address) :=
  (s.peek? depth).map Slot.reference

/-- Empties the stack: the slots in use become zero, and the other ones are left. -/
def clear (s : OperandStack) : OperandStack :=
  ⟨s.slots.mapIdx fun i slot => if i < s.size then .zero else slot, 0⟩

/-- Pushes slots one after the other. -/
def pushAll? (s : OperandStack) : List Slot → Option OperandStack
  | [] => some s
  | slot :: slots => do pushAll? (← s.push? slot) slots

/-- Pushes a value, the low half of a wide one first. -/
def pushValue? (s : OperandStack) (value : Value) : Option OperandStack := s.pushAll? value.slots

def popInt? (s : OperandStack) : Option (Int32 × OperandStack) := do
  let (slot, s) ← s.pop?
  return (slot.number, s)

def popFloat? (s : OperandStack) : Option (UInt32 × OperandStack) := do
  let (n, s) ← s.popInt?
  return (n.toUInt32, s)

/-- Pops the high half of a long, then its low half. -/
def popLong? (s : OperandStack) : Option (Int64 × OperandStack) := do
  let (high, s) ← s.popInt?
  let (low, s) ← s.popInt?
  return (joinLong low high, s)

def popDouble? (s : OperandStack) : Option (UInt64 × OperandStack) := do
  let (v, s) ← s.popLong?
  return (v.toUInt64, s)

def popReference? (s : OperandStack) : Option (Option Address × OperandStack) := do
  let (slot, s) ← s.pop?
  return (slot.reference, s)

/-- Pops `count` slots, giving them bottom first. -/
def popMany? (s : OperandStack) : Nat → Option (List Slot × OperandStack)
  | 0 => some ([], s)
  | count + 1 => do
    let (slot, s) ← s.pop?
    let (below, s) ← s.popMany? count
    return (below ++ [slot], s)

/-- The slots in use as diagnostics show them. -/
def describe (s : OperandStack) (className : Address → String) : String :=
  "[" ++ ", ".intercalate (s.toList.map (Slot.describe className)) ++ "]"

end OperandStack

end JavaMachine
