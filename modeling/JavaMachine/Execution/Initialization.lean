import JavaMachine.Execution.Basic

/-!
Initialization of classes.

An instruction that needs a class whose initialization has not started schedules the initializers of
the class and of its super classes and is executed again later. Each scheduled class counts as
started at once; its initializer gets a frame, and the frames pushed later, those of the super
classes, run first.
-/

namespace JavaMachine

/-- The class and the super classes to initialize with it, upwards, at most so many. An interface does
not initialize its super class, and a class that has started ends the walk. -/
def Machine.scheduleWithin (m : Machine) : (depth : Nat) → ClassId → List ClassId
  | 0, _ => []
  | depth + 1, id =>
    id :: if (m.cls id).isInterface then []
      else match (m.cls id).superClass with
        | none => []
        | some superClass =>
          if (m.cls superClass).initStarted then [] else scheduleWithin m depth superClass

/-- The classes to initialize when a class is to be initialized. -/
def Machine.schedule (m : Machine) (id : ClassId) : List ClassId := m.scheduleWithin m.classes.size id

namespace Exec

/-- Marks a class as started, and pushes a frame for its initializer if it has one. -/
def startInitialization (id : ClassId) : Exec Unit := do
  VM.modifyClass id ({ · with initStarted := true })
  match ((← machine).cls id).initializer? with
  | some initializer => pushFrame (.start initializer)
  | none => return ()

/-- Schedules the initializers of a class and its super classes. -/
def initializeClass (id : ClassId) : Exec Unit := do
  ((← machine).schedule id).forM startInitialization

/-- Whether an instruction that needs the class has to wait for its initialization. If so, the
initializers are scheduled and the top frame is set back to the start of the instruction. -/
def awaitsInitialization (id : ClassId) : Exec Bool := do
  if ((← machine).cls id).initStarted then return false
  let pc := (← thread).pc
  modifyFrame ({ · with nextPc := pc })
  initializeClass id
  return true

end Exec

end JavaMachine
