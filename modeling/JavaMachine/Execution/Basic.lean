import JavaMachine.Machine.Loader
import JavaMachine.Thread

/-!
Steps of execution: what an instruction does is put together from these.

`Exec` is a step on a machine and the thread that runs on it. Steps on the top frame fail if there is
none, and a slot outside of the operand stack or the local variables is the failure `outOfRange`.
-/

namespace JavaMachine

/-- A machine with the thread that runs on it. -/
structure Running where
  machine : Machine
  thread : Thread
  deriving Inhabited

/-- A step of execution. What a failed step did stays done. -/
abbrev Exec := ExceptT Failure (StateM Running)

namespace Exec

/-- Fails with a fault. -/
def fail {α : Type} (fault : Fault) : Exec α := throw (.fault fault)

/-- Raises an exception of the class `className`. -/
def raise {α : Type} (className message : String) : Exec α := fail (.exception className message)

/-- Catches faults, and only faults. -/
def attempt {α : Type} (step : Exec α) : Exec (Except Fault α) :=
  tryCatch (Except.ok <$> step) fun
    | .fault fault => pure (.error fault)
    | failure => throw failure

/-! ### The two parts -/

/-- The thread. -/
def thread : Exec Thread := do return (← get).thread

/-- Changes the thread. -/
def modifyThread (change : Thread → Thread) : Exec Unit :=
  modify fun ⟨machine, thread⟩ => ⟨machine, change thread⟩

/-- A step on the machine alone. -/
def onMachine {α : Type} (step : VM α) : Exec α :=
  ExceptT.mk fun ⟨machine, thread⟩ =>
    let (result, machine) := step.run machine
    (result, ⟨machine, thread⟩)

instance : MonadLift VM Exec := ⟨onMachine⟩

/-- The machine. -/
def machine : Exec Machine := onMachine get

/-! ### Frames -/

/-- Puts a frame on top, unless the thread is as deep as it may be. -/
def pushFrame (frame : Frame) : Exec Unit := do
  let t ← thread
  if t.maxDepth ≤ t.depth then
    raise ExceptionName.stackOverflow s!"frame stack exceeded {t.maxDepth} frames"
  modifyThread fun t => { t with frames := frame :: t.frames }

/-- Takes the top frame off. -/
def popFrame : Exec Frame := do
  match (← thread).frames with
  | [] => raise ExceptionName.stackUnderflow "frame stack is empty"
  | frame :: callers =>
    modifyThread ({ · with frames := callers })
    return frame

/-- Runs a partial function on the top frame. -/
def onFrame {α : Type} (step : Frame → Option (α × Frame)) : Exec α := do
  match (← thread).frames with
  | [] => raise ExceptionName.stackUnderflow "no current frame"
  | frame :: callers =>
    match step frame with
    | none => throw .outOfRange
    | some (result, frame) =>
      modifyThread ({ · with frames := frame :: callers })
      return result

/-- The top frame. -/
def frame : Exec Frame := onFrame fun frame => some (frame, frame)

/-- Changes the top frame. -/
def modifyFrame (change : Frame → Frame) : Exec Unit := onFrame fun frame => some ((), change frame)

/-- Makes the top frame go on at a distance from the instruction being executed. -/
def branch (offset : Int32) : Exec Unit := do
  let pc := (← thread).pc
  modifyFrame (·.branch pc offset)

/-! ### The operand stack of the top frame -/

/-- Runs a partial function on the operand stack. -/
def onStack {α : Type} (step : OperandStack → Option (α × OperandStack)) : Exec α :=
  onFrame fun frame => (step frame.stack).map fun (result, stack) => (result, { frame with stack })

/-- Runs a partial change of the operand stack. -/
def changeStack (change : OperandStack → Option OperandStack) : Exec Unit :=
  onStack fun stack => (change stack).map ((), ·)

def popSlot : Exec Slot := onStack (·.pop?)
def popInt : Exec Int32 := onStack (·.popInt?)
def popLong : Exec Int64 := onStack (·.popLong?)
def popFloat : Exec UInt32 := onStack (·.popFloat?)
def popDouble : Exec UInt64 := onStack (·.popDouble?)
def popReference : Exec (Option Address) := onStack (·.popReference?)

/-- Pops so many slots, giving them bottom first. -/
def popMany (count : Nat) : Exec (List Slot) := onStack (·.popMany? count)

def pushSlot (slot : Slot) : Exec Unit := changeStack (·.push? slot)
def push (value : Value) : Exec Unit := changeStack (·.pushValue? value)
def pushInt (v : Int32) : Exec Unit := push (.int v)
def pushLong (v : Int64) : Exec Unit := push (.long v)
def pushFloat (bits : UInt32) : Exec Unit := push (.float bits)
def pushDouble (bits : UInt64) : Exec Unit := push (.double bits)
def pushReference (r : Option Address) : Exec Unit := push (.reference r)

/-- The reference `depth` slots below the top, which stays. -/
def topReference (depth : Nat) : Exec (Option Address) :=
  onStack fun stack => (stack.topReference? depth).map (·, stack)

/-- Raises the exception for a null reference. -/
def nullPointer {α : Type} (problem : String) : Exec α := raise ExceptionName.nullPointer problem

/-- Pops a reference to an object. -/
def popObject (problem : String) : Exec Address := do
  match ← popReference with
  | some a => return a
  | none => nullPointer problem

/-- Pops an array length. -/
def popCount : Exec Nat := do
  let count ← popInt
  if count < 0 then raise ExceptionName.negativeArraySize (toString count)
  return count.toInt.toNat

/-! ### The local variables of the top frame -/

/-- The local variable at an index. -/
def getLocal (index : Nat) : Exec Slot :=
  onFrame fun frame => (frame.locals.slot? index).map (·, frame)

/-- Sets the local variable at an index. -/
def setLocal (index : Nat) (slot : Slot) : Exec Unit :=
  onFrame fun frame => (frame.locals.set? index slot).map fun locals => ((), { frame with locals })

end Exec

end JavaMachine
