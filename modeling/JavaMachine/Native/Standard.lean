import JavaMachine.Native.ArrayCopy

/-!
The native methods of the built-in library.
-/

namespace JavaMachine

namespace Natives

open VM

/-- An argument that has to be an object. -/
def object (call : NativeCall) (index : Nat) : VM Address := do
  match ← inRange (call.arguments.reference? index) with
  | some a => return a
  | Option.none =>
    raise ExceptionName.nullPointer
      s!"null argument {index} to {(← get).methodText call.method}"

/-- Gives nothing. -/
def nothing : Native := fun _ => return Option.none

/-- A number that belongs to the object: its address. -/
def identityHash : Native := fun call => do
  return some (.int (Int32.ofNat (← object call 0).index))

/-- The bits of a float as an int. -/
def floatBits : Native := fun call => do
  return some (.int (← inRange (call.arguments.float? 0)).toInt32)

/-- The float with the bits of an int. -/
def floatOfBits : Native := fun call => do
  return some (.float (← inRange (call.arguments.int? 0)).toUInt32)

/-- The bits of a double as a long. -/
def doubleBits : Native := fun call => do
  return some (.long (← inRange (call.arguments.double? 0)).toInt64)

/-- The double with the bits of a long. -/
def doubleOfBits : Native := fun call => do
  return some (.double (← inRange (call.arguments.long? 0)).toUInt64)

/-- Source and its start, destination and its start, and the number of elements to copy. -/
def arrayCopy : Native := fun call => do
  let source ← object call 0
  let destination ← object call 2
  let range : ArrayCopy.Range :=
    { source := ← inRange (call.arguments.int? 1)
      destination := ← inRange (call.arguments.int? 3)
      length := ← inRange (call.arguments.int? 4) }
  ArrayCopy.copy range source destination
  return Option.none

/-- The natives that the built-in classes declare. -/
def standard : Natives :=
  none
    |>.register ClassName.object "registerNatives" "()V" nothing
    |>.register ClassName.system "registerNatives" "()V" nothing
    |>.register ClassName.object "hashCode" "()I" identityHash
    |>.register ClassName.float "floatToRawIntBits" "(F)I" floatBits
    |>.register ClassName.float "intBitsToFloat" "(I)F" floatOfBits
    |>.register ClassName.double "doubleToRawLongBits" "(D)J" doubleBits
    |>.register ClassName.double "longBitsToDouble" "(J)D" doubleOfBits
    |>.register ClassName.system "arraycopy" "(Ljava/lang/Object;ILjava/lang/Object;II)V" arrayCopy

end Natives

end JavaMachine
