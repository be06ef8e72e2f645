import JavaMachine.Execution.Basic
import JavaMachine.Machine.Assignability
import JavaMachine.Machine.Resolution

/-!
Exceptions: making the objects that are thrown, and finding the frames that catch them.

A frame catches an exception with the first handler that covers the instruction it is at and whose
class the exception is an instance of. Handlers whose class cannot be resolved catch nothing, and a
frame that has not run an instruction yet has none that cover it. An exception that no frame catches
leaves the thread without frames.
-/

namespace JavaMachine

namespace VM

/-- The field of throwables that is taken for the one with the message. It may be a static one. -/
def messageSearch (m : Machine) (id : ClassId) : Search FieldId :=
  m.fieldSearch id "detailMessage" "Ljava/lang/String;"

/-- An object of the class `className` with a detail message. No constructor is run. -/
def throwable (className message : String) : VM Address := do
  let id ← load className
  let exception ← newObject id
  let m ← get
  match ← ofSearch (messageSearch m id) with
  | none => return exception
  | some field =>
    let text ← string message
    setField exception (m.fieldAt field).slot (.ref (some text))
    return exception

/-- The detail message of a throwable, empty if it has none. -/
def detailMessage (exception : Address) : VM String := do
  let m ← get
  match ← ofSearch (messageSearch m (m.classOf exception)) with
  | none => return ""
  | some field =>
    match (← field? exception (m.fieldAt field).slot).bind Slot.reference with
    | none => return ""
    | some text => return ((← unitsOfString? text).map Text.text).getD ""

/-- Whether a handler of a method of the class `owner` catches an exception. -/
def catches (owner : ClassId) (exception : Address) (handler : Handler) : VM Bool := do
  match handler.catchType with
  | none => return true
  | some index =>
    match ← attempt (resolveClass owner index) with
    | .ok id => isInstance exception id
    | .error _ => return false

/-- The handler with which a frame catches an exception. -/
def handler? (frame : Frame) (exception : Address) : VM (Option Handler) :=
  match frame.pc with
  | none => return none
  | some pc => (frame.method.handlers.filter (·.covers pc)).findM? (catches frame.owner exception)

end VM

namespace Exec

/-- The frame that goes on with a handler: its operand stack holds only the exception. -/
def caught? (frame : Frame) (exception : Address) (handler : Handler) : Option Frame :=
  (frame.stack.clear.push? (.ref (some exception))).map fun stack =>
    { frame with stack, nextPc := handler.handlerPc.toUInt64 }

/-- Goes on in the first of some frames that catches the exception, the ones above it being dropped. -/
def unwind (exception : Address) : List Frame → Exec Unit
  | [] => do
    modifyThread ({ · with frames := [] })
    let className := (← machine).className exception
    fail (.uncaught className (← VM.detailMessage exception))
  | frame :: callers => do
    match ← VM.handler? frame exception with
    | none => unwind exception callers
    | some handler =>
      let frame ← VM.inRange (caught? frame exception handler)
      modifyThread ({ · with frames := frame :: callers })

/-- Throws an exception. The frames above the lowest `depth`, which the failing instruction pushed,
do not take part. -/
def throwFrom (depth : Nat) (exception : Address) : Exec Unit := do
  let frames := (← thread).frames
  unwind exception (frames.drop (frames.length - depth))

end Exec

end JavaMachine
