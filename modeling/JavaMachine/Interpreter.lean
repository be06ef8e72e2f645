import JavaMachine.Execution.Dispatch
import JavaMachine.Execution.Exception
import JavaMachine.Native.Standard

/-!
Running code.

A step decodes the next instruction of the top frame, moves the frame past it and executes it.
Exceptions that it raises become objects and are thrown to the frames of the thread. A run takes steps
until no frame is left, and is bounded by its fuel.
-/

namespace JavaMachine

namespace Exec

/-- Decodes an instruction, giving the position behind it as well. -/
def decode (code : Array UInt8) (pc : UInt64) : Exec (Instruction × UInt64) :=
  match (Instruction.read.run ⟨code, pc⟩).run with
  | (.ok instruction, cursor) => return (instruction, cursor.pc)
  | (.error fault, _) => fail fault

/-- Reacts to the fault of an instruction. If no object can be made for an exception that the machine
raised, it is uncaught at once. -/
def handle (depth : Nat) : Fault → Exec Unit
  | .exception className message => do
    match ← VM.attempt (VM.throwable className message) with
    | .ok exception => throwFrom depth exception
    | .error _ => fail (.uncaught className message)
  | .thrown exception => throwFrom depth exception
  | fault => fail fault

/-- Runs one instruction of the top frame. -/
def step (natives : Natives) : Exec Unit := do
  let top ← frame
  modifyThread ({ · with pc := top.nextPc })
  let (instruction, next) ← decode top.method.code top.nextPc
  modifyFrame ({ · with pc := some top.nextPc, nextPc := next })
  let depth := (← thread).depth
  match ← attempt (execute natives instruction) with
  | .ok () => return ()
  | .error fault => handle depth fault

/-- Runs until no frame is left, giving what the bottom frame returned. -/
def finish (natives : Natives) : (fuel : Nat) → Exec (Option Value)
  | 0 => throw .outOfFuel
  | fuel + 1 => do
    let t ← thread
    if t.frames.isEmpty then
      modifyThread ({ · with returnValue := none })
      return t.returnValue
    else
      step natives
      finish natives fuel

/-! ### Calls from outside -/

/-- The result that a native method left on its operand stack. -/
def popResult? (stack : OperandStack) : ReturnType → Option (Option Value)
  | .void => some none
  | .value .long => stack.popLong?.map fun (v, _) => some (.long v)
  | .value .float => stack.popFloat?.map fun (bits, _) => some (.float bits)
  | .value .double => stack.popDouble?.map fun (bits, _) => some (.double bits)
  | .value (.object _) | .value (.array _) => stack.popReference?.map fun (r, _) => some (.reference r)
  | .value _ => stack.popInt?.map fun (v, _) => some (.int v)

/-- Calls a native method on an operand stack of its own, with room for the arguments and the result. -/
def invokeNative (natives : Natives) (method : Method) (arguments : List Slot) :
    VM (Option Value) := do
  let native ← natives.find (← VM.cls method.owner).name method.name method.descriptor
  let stack := OperandStack.empty (max arguments.length method.parsed.result.size)
  let stack ← match ← native { method, arguments := ⟨arguments.toArray⟩ } with
    | some value => VM.inRange (stack.pushValue? value)
    | none => pure stack
  VM.inRange (popResult? stack method.parsed.result)

/-- Runs a method to its end, initializing its class first if need be. The arguments, the receiver
included, have to fill the argument slots of the method. -/
def invoke (natives : Natives) (fuel : Nat) (method : Method) (arguments : List Value) :
    Exec (Option Value) := do
  let slots := arguments.flatMap Value.slots
  if slots.length ≠ method.argumentSlots then
    let text := (← machine).methodText method
    fail (.internal (.argumentSlots text method.argumentSlots slots.length))
  if method.flags.isNative then invokeNative natives method slots
  else
    pushFrame (← VM.inRange (Frame.enter? method slots))
    if !((← machine).cls method.owner).initStarted then initializeClass method.owner
    finish natives fuel

/-- An array of new strings. -/
def stringArray (texts : List String) : VM Address := do
  let id ← VM.load "[Ljava/lang/String;"
  let array ← VM.newArray id texts.length
  let strings ← texts.mapM VM.string
  VM.setData array (.references (strings.map some).toArray)
  return array

/-- The name of a class, given with dots or slashes between its parts. -/
def binaryName (name : String) : String :=
  String.ofList (name.toList.map fun c => if c = '.' then '/' else c)

/-- Runs the main method of a class. -/
def runMain (natives : Natives) (fuel : Nat) (name : String) (arguments : List String) :
    Exec Unit := do
  let id ← VM.load (binaryName name)
  let c := (← machine).cls id
  match c.main? with
  | none => raise ExceptionName.noSuchMethod s!"{c.name}.main([Ljava/lang/String;)V"
  | some main =>
    let array ← stringArray arguments
    let _ ← invoke natives fuel main [.reference (some array)]

end Exec

end JavaMachine
