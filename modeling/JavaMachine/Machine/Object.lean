import JavaMachine.Data.SlotTable

/-!
Objects on the heap: instance fields, or the elements of an array.

An array stores its elements by the type that its class name gives; boolean and byte arrays share
bytes, and floating-point elements are bits.
-/

namespace JavaMachine

/-- A class known to the machine. -/
structure ClassId where
  index : Nat
  deriving DecidableEq, Repr, Inhabited

/-- The kinds of array elements. Booleans are kept as bytes. -/
inductive ElementKind where
  | int | long | float | double | reference | byte | char | short
  deriving DecidableEq, Repr

/-- What an object holds. -/
inductive ObjectData where
  | fields (slots : SlotTable)
  | bytes (elements : Array Int8)
  | chars (elements : Array UInt16)
  | shorts (elements : Array Int16)
  | ints (elements : Array Int32)
  | longs (elements : Array Int64)
  | floats (elements : Array UInt32)
  | doubles (elements : Array UInt64)
  | references (elements : Array (Option Address))
  deriving DecidableEq, Repr, Inhabited

namespace ObjectData

/-- Zeroed elements for an array class name. -/
def newArray? (className : String) (length : Nat) : Option ObjectData :=
  match className.toList with
  | '[' :: 'Z' :: _ | '[' :: 'B' :: _ => some (bytes (Array.replicate length 0))
  | '[' :: 'C' :: _ => some (chars (Array.replicate length 0))
  | '[' :: 'S' :: _ => some (shorts (Array.replicate length 0))
  | '[' :: 'I' :: _ => some (ints (Array.replicate length 0))
  | '[' :: 'J' :: _ => some (longs (Array.replicate length 0))
  | '[' :: 'F' :: _ => some (floats (Array.replicate length 0))
  | '[' :: 'D' :: _ => some (doubles (Array.replicate length 0))
  | '[' :: 'L' :: _ | '[' :: '[' :: _ => some (references (Array.replicate length none))
  | _ => none

/-- The number of elements of an array. -/
def length? : ObjectData → Option Nat
  | fields _ => none
  | bytes e => some e.size
  | chars e => some e.size
  | shorts e => some e.size
  | ints e => some e.size
  | longs e => some e.size
  | floats e => some e.size
  | doubles e => some e.size
  | references e => some e.size

/-- The kind of elements of an array. -/
def elementKind? : ObjectData → Option ElementKind
  | fields _ => none
  | bytes _ => some .byte
  | chars _ => some .char
  | shorts _ => some .short
  | ints _ => some .int
  | longs _ => some .long
  | floats _ => some .float
  | doubles _ => some .double
  | references _ => some .reference

/-- The element at an index as it is loaded: elements smaller than an int are widened, characters
without a sign. -/
def element? (index : Nat) : ObjectData → Option Value
  | fields _ => none
  | bytes e => e[index]?.map fun v => .int v.toInt32
  | chars e => e[index]?.map fun v => .int v.toUInt32.toInt32
  | shorts e => e[index]?.map fun v => .int v.toInt32
  | ints e => e[index]?.map .int
  | longs e => e[index]?.map .long
  | floats e => e[index]?.map .float
  | doubles e => e[index]?.map .double
  | references e => e[index]?.map .reference

/-- The array with a value stored at an index. An int is cut down to the element, a boolean to its
lowest bit. A value of another type, and any index outside of the array, changes nothing. -/
def store (isBoolean : Bool) (index : Nat) (value : Value) (data : ObjectData) : ObjectData :=
  match data, value with
  | bytes e, .int v => bytes (e.setIfInBounds index (if isBoolean then v &&& 1 else v).toInt8)
  | chars e, .int v => chars (e.setIfInBounds index v.toUInt32.toUInt16)
  | shorts e, .int v => shorts (e.setIfInBounds index v.toInt16)
  | ints e, .int v => ints (e.setIfInBounds index v)
  | longs e, .long v => longs (e.setIfInBounds index v)
  | floats e, .float v => floats (e.setIfInBounds index v)
  | doubles e, .double v => doubles (e.setIfInBounds index v)
  | references e, .reference v => references (e.setIfInBounds index v)
  | data, _ => data

/-- The instance fields of an object that is no array. -/
def fields? : ObjectData → Option SlotTable
  | fields slots => some slots
  | _ => none

end ObjectData

/-- An object: its class and what it holds. -/
structure Object where
  cls : ClassId
  data : ObjectData
  deriving DecidableEq, Repr, Inhabited

end JavaMachine
