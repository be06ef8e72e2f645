import JavaMachine.Execution.Initialization
import JavaMachine.Execution.Operand
import JavaMachine.Machine.Assignability
import JavaMachine.Machine.Resolution

/-!
Constants, new objects, type checks and throwing.
-/

namespace JavaMachine

namespace Exec

/-- The value of a constant that takes one slot, as `ldc` loads it. -/
def narrowConstant? : Constant → Option (VM Value)
  | .integer value => some (return .int value)
  | .float bits => some (return .float bits)
  | .string units => some (return .reference (some (← VM.intern units)))
  | _ => none

/-- The value of a constant that takes two slots. -/
def wideConstant? : Constant → Option (VM Value)
  | .long value => some (return .long value)
  | .double bits => some (return .double bits)
  | _ => none

/-- Pushes a constant, if `value?` loads it. -/
def loadConstant (i : Instruction) (value? : Constant → Option (VM Value)) : Exec Unit := do
  let owner ← owner
  let index ← poolIndex i
  match value? (← VM.constantAt owner index) with
  | some value => push (← value)
  | none => fail (.classFormat (.invalidIndex index (.notLoadable i.opcode.mnemonic)))

/-- Pushes a new object. -/
def newObject (i : Instruction) : Exec Unit := do
  let owner ← owner
  let id ← VM.resolveClass owner (← poolIndex i)
  let c := (← machine).cls id
  if c.isInterface || c.flags.isAbstract then raise ExceptionName.instantiation c.name
  if ← awaitsInitialization id then return ()
  pushReference (some (← VM.newObject id))

/-- Checks that the reference on top is null or an instance of a class. -/
def checkCast (i : Instruction) : Exec Unit := do
  let some a ← topReference 0 | return ()
  let id ← VM.resolveClass (← owner) (← poolIndex i)
  if !(← VM.isInstance a id) then
    let m ← machine
    raise ExceptionName.classCast s!"{m.className a} cannot be cast to {(m.cls id).name}"

/-- Replaces a reference by whether it is an instance of a class; null is not. -/
def instanceOf (i : Instruction) : Exec Unit := do
  match ← popReference with
  | none => pushInt 0
  | some a =>
    let id ← VM.resolveClass (← owner) (← poolIndex i)
    pushInt (if ← VM.isInstance a id then 1 else 0)

/-- Pops an object and throws it. -/
def throwTop : Exec Unit := do fail (.thrown (← popObject "cannot throw null"))

/-- Pops the object to synchronize on. There is only one thread, which never waits. -/
def checkMonitor : Exec Unit := do
  let _ ← popObject "cannot synchronize on null"

end Exec

end JavaMachine
