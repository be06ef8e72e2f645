import JavaMachine.Execution.Initialization
import JavaMachine.Execution.Operand
import JavaMachine.Machine.Resolution
import JavaMachine.Native

/-!
Calling methods.

The arguments move slot by slot from the operand stack of the caller into the local variables of a new
frame, the receiver first. Native methods run at once and leave their value on the caller's stack.
Which method runs is decided by the reference, and for virtual and interface calls by the class
of the receiver.
-/

namespace JavaMachine

namespace Exec

/-- Fails because of a method without code. -/
def abstractMethod {α : Type} (method : Method) : Exec α := do
  raise ExceptionName.abstractMethod ((← machine).methodText method)

/-- Raises the exception for a reference of the wrong sort. -/
def incompatible {α : Type} (problem : String) : Exec α :=
  raise ExceptionName.incompatibleClassChange problem

/-- Runs a native method on the operand stack of the top frame. -/
def callNative (natives : Natives) (method : Method) : Exec Unit := do
  let _ ← frame
  let native ← natives.find ((← machine).cls method.owner).name method.name method.descriptor
  let arguments ← popMany method.argumentSlots
  match ← native { method, arguments := ⟨arguments.toArray⟩ } with
  | some value => push value
  | none => return ()

/-- Calls a method with the arguments on top of the operand stack. -/
def call (natives : Natives) (method : Method) : Exec Unit := do
  if method.flags.isNative then callNative natives method
  else if method.flags.isAbstract then abstractMethod method
  else
    let arguments ← popMany method.argumentSlots
    pushFrame (← VM.inRange (Frame.enter? method arguments))

/-- Calls the method that a search comes to. If it finds none, there is no code for `method`. -/
def callFound (natives : Natives) (search : Search Method) (method : Method) : Exec Unit := do
  match ← VM.ofSearch search with
  | some selected => call natives selected
  | none => abstractMethod method

/-- The method that an instruction refers to, with the class that the reference names. -/
def resolveMethod (i : Instruction) : Exec (ClassId × Method) := do
  let owner ← owner
  VM.resolveMethod owner (← poolIndex i)

/-- The same for an instance method. -/
def resolveInstanceMethod (i : Instruction) : Exec (ClassId × Method) := do
  let (id, method) ← resolveMethod i
  if method.flags.isStatic then incompatible s!"{(← machine).methodText method} is static"
  return (id, method)

/-- The receiver of a call, below the arguments. -/
def receiver (method : Method) : Exec Address := do
  match ← topReference (method.argumentSlots - 1) with
  | some a => return a
  | none => nullPointer s!"cannot invoke {(← machine).methodText method} on null"

/-- Calls a static method. -/
def invokeStatic (natives : Natives) (i : Instruction) : Exec Unit := do
  let (_, method) ← resolveMethod i
  if !method.flags.isStatic then incompatible s!"{(← machine).methodText method} is not static"
  if ← awaitsInitialization method.owner then return ()
  call natives method

/-- Whether a special call from the class `caller` to a method of `named` is a call of an overridden
method, which is searched from the super class of the caller on. -/
def superCallSearch (m : Machine) (caller named : ClassId) (method : Method) : Search Unit :=
  if (m.cls caller).flags.isSuper && !method.isConstructor && !(m.cls named).isInterface then
    m.subclassSearch caller named
  else .absent

/-- Calls a constructor, a private method or an overridden method. -/
def invokeSpecial (natives : Natives) (i : Instruction) : Exec Unit := do
  let caller ← owner
  let (named, method) ← resolveInstanceMethod i
  let m ← machine
  if method.isConstructor && (m.cls method.owner).name ≠ (m.cls named).name then
    raise ExceptionName.noSuchMethod
      s!"{(m.cls named).name}.{method.name}{method.descriptor}"
  let _ ← receiver method
  match ← VM.ofSearch (superCallSearch m caller named method) with
  | none => call natives method
  | some () =>
    let declared c := (m.cls c).method? method.name method.descriptor
    callFound natives (m.searchSupers caller declared) method

/-- Calls the method that the class of the receiver has for the reference. A private method is called
as it is. -/
def invokeVirtual (natives : Natives) (i : Instruction) : Exec Unit := do
  let (_, method) ← resolveInstanceMethod i
  let a ← receiver method
  if method.flags.isPrivate then call natives method
  else
    let m ← machine
    callFound natives (m.methodSearch (m.classOf a) method.name method.descriptor) method

/-- Calls the method that the class of the receiver has for an interface method: one with code from the
super chain, else one with code from the interfaces. -/
def invokeInterface (natives : Natives) (i : Instruction) : Exec Unit := do
  let (interface, method) ← resolveInstanceMethod i
  let a ← receiver method
  let m ← machine
  let id := m.classOf a
  if (← VM.ofSearch (m.implementingSearch id interface)).isNone then
    incompatible s!"{(m.cls id).name} does not implement {(m.cls interface).name}"
  let search := ((m.methodSearch id method.name method.descriptor).filter (!·.flags.isAbstract)).orElse
    fun _ => m.defaultMethodSearch id method.name method.descriptor
  callFound natives search method

end Exec

end JavaMachine
