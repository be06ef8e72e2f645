import JavaMachine.Data.OperandStack
import JavaMachine.Data.SlotTable
import JavaMachine.Machine.Class

/-!
Threads: a stack of frames, the top one first.

A frame is one activation of a method. It knows the position of the next instruction and, once it has
run one, that of the instruction it is at; handlers are matched against the latter. The thread keeps
the position of the instruction that is being executed, so that an instruction can be made to run again.
-/

namespace JavaMachine

/-- One activation of a method. -/
structure Frame where
  method : Method
  locals : SlotTable
  stack : OperandStack
  nextPc : UInt64
  /-- Absent until the frame has run an instruction. -/
  pc : Option UInt64
  deriving DecidableEq, Repr, Inhabited

namespace Frame

/-- A frame for a method, before its first instruction. -/
def start (method : Method) : Frame :=
  { method, locals := .zeros method.maxLocals, stack := .empty method.maxStack,
    nextPc := 0, pc := none }

/-- A frame for a method with its first local variables set. -/
def enter? (method : Method) (arguments : List Slot) : Option Frame :=
  let frame := start method
  (frame.locals.setAll? 0 arguments).map fun locals => { frame with locals }

/-- The class that declares the method. -/
def owner (frame : Frame) : ClassId := frame.method.owner

/-- Goes on at a distance from `pc`. Positions wrap around. -/
def branch (frame : Frame) (pc : UInt64) (offset : Int32) : Frame :=
  { frame with nextPc := pc + offset.toInt64.toUInt64 }

/-- The frame as diagnostics show it. -/
def describe (frame : Frame) (methodText : String) (className : Address → String) : String :=
  let pc := match frame.pc with
    | some pc => s!"Some({pc})"
    | none => "None"
  s!"Frame \x7b method: {methodText}, pc: {pc}, next_pc: {frame.nextPc}, "
    ++ s!"locals: {frame.locals.describe className}, stack: {frame.stack.describe className} \x7d"

end Frame

/-- A thread of execution. -/
structure Thread where
  /-- Position of the instruction being executed. -/
  pc : UInt64
  maxDepth : Nat
  /-- The frames, each called by the one after it. -/
  frames : List Frame
  /-- What the bottom frame returned. -/
  returnValue : Option Value
  deriving DecidableEq, Repr, Inhabited

namespace Thread

/-- The depth of threads that ask for no other. -/
def defaultDepth : Nat := 1024

/-- A thread without frames. -/
def start (maxDepth : Nat) : Thread := { pc := 0, maxDepth, frames := [], returnValue := none }

def depth (t : Thread) : Nat := t.frames.length

end Thread

end JavaMachine
