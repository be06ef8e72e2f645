import JavaMachine.Execution.Operand
import JavaMachine.Machine.Assignability
import JavaMachine.Machine.Resolution

/-!
Making arrays, and loading and storing their elements.

The array is checked for null first, then the index, then the kind of array; only a store into a
reference array checks the value before the index.
-/

namespace JavaMachine

/-! ### Elements -/

namespace Exec

/-- Pops a value of the type that an array instruction handles. -/
def popElement : ElementKind → Exec Value
  | .long => return .long (← popLong)
  | .float => return .float (← popFloat)
  | .double => return .double (← popDouble)
  | .reference => return .reference (← popReference)
  | .int | .byte | .char | .short => return .int (← popInt)

/-- An index into an array, checked against its length. -/
def checkIndex (index : Int32) (length : Nat) : Exec Nat :=
  if 0 ≤ index ∧ index.toInt < length then return index.toInt.toNat
  else raise ExceptionName.arrayIndexOutOfBounds s!"Index {index} out of bounds for length {length}"

/-- Fails because an array instruction is used on something of another kind. -/
def wrongArray {α : Type} (i : Instruction) (array : Address) : Exec α := do
  fail (.internal (.wrongArray i.opcode.mnemonic ((← machine).className array)))

/-- The index that an array instruction uses on an object; what holds no elements has length 0. -/
def elementIndex (array : Address) (index : Int32) : Exec Nat := do
  checkIndex index (((← machine).object array).data.length?.getD 0)

/-- Pushes an element of an array. -/
def loadElement (i : Instruction) (kind : ElementKind) : Exec Unit := do
  let index ← popInt
  let array ← popObject "cannot load from a null array"
  let index ← elementIndex array index
  let data := ((← machine).object array).data
  if data.elementKind? = some kind then push (← VM.inRange (data.element? index))
  else wrongArray i array

/-- Checks that a reference can be stored in an array. -/
def checkStorable (array : Address) (value : Value) : Exec Unit := do
  let component ← VM.component? ((← machine).classOf array)
  match value.reference?, component with
  | some a, some component =>
    if !(← VM.isInstance a component) then
      raise ExceptionName.arrayStore ((← machine).className a)
  | _, _ => return ()

/-- Pops a value into an element of an array. -/
def storeElement (i : Instruction) (kind : ElementKind) : Exec Unit := do
  let value ← popElement kind
  let index ← popInt
  let array ← popObject "cannot store to a null array"
  if kind = .reference then checkStorable array value
  let index ← elementIndex array index
  let isBoolean := (← machine).className array = "[Z"
  if ((← machine).object array).data.elementKind? = some kind then
    VM.modifyData array (·.store isBoolean index value)
  else wrongArray i array

/-- Pushes the length of an array. -/
def arrayLength : Exec Unit := do
  let array ← popObject "cannot read the length of a null array"
  let m ← machine
  match (m.object array).data.length? with
  | some length => pushInt (Int32.ofNat length)
  | none => fail (.internal (.lengthOfNoArray (m.className array)))

/-! ### New arrays -/

/-- The class of arrays that a type code stands for. -/
def primitiveArrayName? (code : UInt8) : Option String :=
  [(4, "[Z"), (5, "[C"), (6, "[F"), (7, "[D"), (8, "[B"), (9, "[S"), (10, "[I"), (11, "[J")].lookup code

/-- Pushes a new array of primitives. -/
def newPrimitiveArray (i : Instruction) : Exec Unit := do
  let _ ← frame
  let .arrayType code := i.operands | badOperands i
  match primitiveArrayName? code with
  | none => fail (.internal (.arrayTypeCode code))
  | some name =>
    let count ← popCount
    let id ← VM.load name
    pushReference (some (← VM.newArray id count))

/-- Pushes a new array of references. -/
def newReferenceArray (i : Instruction) : Exec Unit := do
  let owner ← owner
  let component ← VM.resolveClass owner (← poolIndex i)
  let count ← popCount
  let id ← VM.load (ArrayName.ofComponent ((← machine).cls component).name)
  pushReference (some (← VM.newArray id count))

end Exec

/-- A new array whose elements are new arrays, and so on, one dimension for each count. -/
def VM.multiArray (id : ClassId) (count : Nat) : (inner : List Nat) → VM Address
  | [] => newArray id count
  | next :: inner => do
    let array ← newArray id count
    match ← component? id with
    | none => fail (.internal (.tooFewDimensions (← cls id).name))
    | some component =>
      if (← object array).data.elementKind? = some .reference then
        let elements ← (List.replicate count ()).mapM fun _ => multiArray component next inner
        setData array (.references (elements.map some).toArray)
      return array

namespace Exec

/-- Pops the counts of an array, the innermost being on top. They come outermost first. -/
def popCounts : Nat → Exec (List Nat)
  | 0 => return []
  | dimensions + 1 => do
    let count ← popCount
    return (← popCounts dimensions) ++ [count]

/-- Pushes a new array of arrays. -/
def newMultiArray (i : Instruction) : Exec Unit := do
  let .multiArray index dimensions := i.operands | badOperands i
  if dimensions = 0 then fail (.internal .zeroDimensions)
  let id ← VM.resolveClass (← owner) index
  match ← popCounts dimensions.toNat with
  | [] => fail (.internal .zeroDimensions)
  | count :: inner => pushReference (some (← VM.multiArray id count inner))

end Exec

end JavaMachine
