import JavaMachine.Machine.Class

/-!
Where fields are stored.

Fields get their slots in declaration order, static and instance fields counted apart. Instance fields
come after those of the super class, so an object holds the fields of its whole super chain, and a
field has the same slot in every subclass.
-/

namespace JavaMachine

/-- The slots given out so far. -/
structure Layout where
  instanceSlots : Nat
  staticSlots : Nat
  deriving DecidableEq, Repr

namespace Layout

/-- Gives a field the next slot of its kind, or the next two. -/
def place (l : Layout) (f : Field) : Field × Layout :=
  if f.flags.isStatic then
    ({ f with slot := l.staticSlots }, { l with staticSlots := l.staticSlots + f.width })
  else
    ({ f with slot := l.instanceSlots }, { l with instanceSlots := l.instanceSlots + f.width })

/-- Places fields one after the other. -/
def placeAll (l : Layout) : List Field → List Field × Layout
  | [] => ([], l)
  | f :: fields =>
    let (placed, l) := l.place f
    let (others, l) := l.placeAll fields
    (placed :: others, l)

end Layout

namespace Class

/-- The class with its fields placed after `inherited` instance slots, and zeroed static fields. -/
def layOut (c : Class) (inherited : Nat) : Class :=
  let (fields, layout) := Layout.placeAll ⟨inherited, 0⟩ c.fields.toList
  { c with
    fields := fields.toArray
    instanceSlots := layout.instanceSlots
    staticSlots := layout.staticSlots
    statics := .zeros layout.staticSlots }

/-- The fields that start with a constant, with the index of that constant. -/
def constantFields (c : Class) : List (Field × UInt16) :=
  c.fields.toList.filterMap fun f =>
    if f.flags.isStatic && f.flags.isFinal then f.constantIndex.map (f, ·) else none

end Class

end JavaMachine
