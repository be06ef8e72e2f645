import JavaMachine.Data.Slot

/-!
Tables of slots with a fixed size: local variables, instance fields and static fields.

Reading or writing outside of the table is `none`. A wide value is read from, and written to, an index
and the one after it, low half first.
-/

namespace JavaMachine

/-- A table of slots. -/
structure SlotTable where
  slots : Array Slot
  deriving DecidableEq, Repr, Inhabited

namespace SlotTable

/-- A table of zeros. -/
def zeros (size : Nat) : SlotTable := ⟨Array.replicate size .zero⟩

def size (t : SlotTable) : Nat := t.slots.size

def slot? (t : SlotTable) (index : Nat) : Option Slot := t.slots[index]?

def set? (t : SlotTable) (index : Nat) (slot : Slot) : Option SlotTable :=
  if h : index < t.slots.size then some ⟨t.slots.set index slot⟩ else none

def int? (t : SlotTable) (index : Nat) : Option Int32 := (t.slot? index).map Slot.number

def float? (t : SlotTable) (index : Nat) : Option UInt32 := (t.int? index).map Int32.toUInt32

def long? (t : SlotTable) (index : Nat) : Option Int64 := do
  return joinLong (← t.int? index) (← t.int? (index + 1))

def double? (t : SlotTable) (index : Nat) : Option UInt64 := (t.long? index).map Int64.toUInt64

def reference? (t : SlotTable) (index : Nat) : Option (Option Address) :=
  (t.slot? index).map Slot.reference

/-- Writes slots one after the other from `index` on. -/
def setAll? (t : SlotTable) (index : Nat) : List Slot → Option SlotTable
  | [] => some t
  | slot :: slots => do setAll? (← t.set? index slot) (index + 1) slots

/-- Writes a value at `index`, which takes one or two slots. -/
def setValue? (t : SlotTable) (index : Nat) (value : Value) : Option SlotTable :=
  t.setAll? index value.slots

/-- The table as diagnostics show it. -/
def describe (t : SlotTable) (className : Address → String) : String :=
  "[" ++ ", ".intercalate (t.slots.toList.map (Slot.describe className)) ++ "]"

end SlotTable

end JavaMachine
