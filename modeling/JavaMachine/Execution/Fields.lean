import JavaMachine.Execution.Initialization
import JavaMachine.Execution.Operand
import JavaMachine.Machine.Resolution

/-!
Reading and writing fields.

Fields move as slots. A wide field is two slots, the low half below the high half on the operand stack.
-/

namespace JavaMachine

namespace Exec

/-- The field that an instruction refers to, which has to be static or not as the instruction wants. -/
def resolveField (i : Instruction) (isStatic : Bool) : Exec FieldId := do
  let owner ← owner
  let id ← VM.resolveField owner (← poolIndex i)
  let field := (← machine).fieldAt id
  if field.flags.isStatic ≠ isStatic then
    let expected := if isStatic then "static" else "non-static"
    raise ExceptionName.incompatibleClassChange
      s!"{i.opcode.mnemonic} expects a {expected} field, {field.name} is not"
  return id

/-- The slots of a field in a table. -/
def fieldSlots (table : SlotTable) (field : Field) : VM (List Slot) :=
  (List.range' field.slot field.width).mapM fun slot => VM.inRange (table.slot? slot)

/-- Pushes slots one after the other. -/
def pushSlots (slots : List Slot) : Exec Unit := changeStack (·.pushAll? slots)

/-- Pushes a static field. -/
def getStatic (i : Instruction) : Exec Unit := do
  let id ← resolveField i true
  if ← awaitsInitialization id.owner then return ()
  let m ← machine
  pushSlots (← fieldSlots (m.cls id.owner).statics (m.fieldAt id))

/-- Pops into a static field. -/
def putStatic (i : Instruction) : Exec Unit := do
  let id ← resolveField i true
  if ← awaitsInitialization id.owner then return ()
  let field := (← machine).fieldAt id
  let slots ← popMany field.width
  let statics ← VM.inRange (((← machine).cls id.owner).statics.setAll? field.slot slots)
  VM.modifyClass id.owner ({ · with statics })

/-- The instance fields of an object; arrays have none. -/
def instanceFields (a : Address) : Exec SlotTable := do
  let m ← machine
  match (m.object a).data.fields? with
  | some fields => return fields
  | none =>
    raise ExceptionName.incompatibleClassChange s!"{m.className a} has no instance fields"

/-- Pops an object and pushes one of its fields. -/
def getField (i : Instruction) : Exec Unit := do
  let id ← resolveField i false
  let field := (← machine).fieldAt id
  let a ← popObject s!"cannot read field {field.name}"
  pushSlots (← fieldSlots (← instanceFields a) field)

/-- Pops a value and an object, and sets one of the object's fields. -/
def putField (i : Instruction) : Exec Unit := do
  let id ← resolveField i false
  let field := (← machine).fieldAt id
  let slots ← popMany field.width
  let a ← popObject s!"cannot assign field {field.name}"
  let fields ← instanceFields a
  VM.setData a (.fields (← VM.inRange (fields.setAll? field.slot slots)))

end Exec

end JavaMachine
