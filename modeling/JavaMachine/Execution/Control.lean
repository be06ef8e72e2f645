import JavaMachine.Execution.Operand

/-!
Branches, switches, subroutines and returns.

Distances are relative to the start of the branching instruction.
-/

namespace JavaMachine

namespace Exec

/-- Branches if a condition holds. -/
def branchIf (i : Instruction) (condition : Bool) : Exec Unit := do
  if condition then branch (← offset i)

/-- Branches if the int on top passes a test against zero. -/
def branchIfInt (i : Instruction) (test : Int32 → Bool) : Exec Unit := do
  branchIf i (test (← popInt))

/-- Branches if two ints pass a test. -/
def branchIfInts (i : Instruction) (test : Int32 → Int32 → Bool) : Exec Unit := do
  let b ← popInt
  let a ← popInt
  branchIf i (test a b)

/-- Branches if two references are the same object, or are not. -/
def branchIfSame (i : Instruction) (same : Bool) : Exec Unit := do
  let b ← popReference
  let a ← popReference
  branchIf i (decide (a = b) == same)

/-- Branches if a reference is null, or is not. -/
def branchIfNull (i : Instruction) (null : Bool) : Exec Unit := do
  branchIf i ((← popReference).isNone == null)

/-- Branches. -/
def jump (i : Instruction) : Exec Unit := do
  let _ ← frame
  branch (← offset i)

/-- Branches and pushes the position of the next instruction. -/
def jumpToSubroutine (i : Instruction) : Exec Unit := do
  let distance ← offset i
  pushSlot (.num (← frame).nextPc.toUInt32.toInt32)
  branch distance

/-- Goes on at the position in a local variable. -/
def returnFromSubroutine (i : Instruction) : Exec Unit := do
  let _ ← frame
  let position := (← getLocal (← localIndex i)).number
  modifyFrame ({ · with nextPc := position.toInt64.toUInt64 })

/-- The distance for a key between `low` and `high` by its place, and the default outside; none if the
table is too short. -/
def tableTarget? (default low high : Int32) (offsets : List Int32) (key : Int32) : Option Int32 :=
  if key < low || high < key then some default else offsets[(key.toInt - low.toInt).toNat]?

/-- The distance of the first pair with the key, or the default. -/
def lookupTarget (default : Int32) (pairs : List (Int32 × Int32)) (key : Int32) : Int32 :=
  (pairs.lookup key).getD default

/-- Branches by the key on top, through a table. -/
def tableSwitch (i : Instruction) : Exec Unit := do
  let _ ← frame
  let .tableSwitch default low high offsets := i.operands | badOperands i
  branch (← VM.inRange (tableTarget? default low high offsets (← popInt)))

/-- Branches by the key on top, through pairs. -/
def lookupSwitch (i : Instruction) : Exec Unit := do
  let _ ← frame
  let .lookupSwitch default pairs := i.operands | badOperands i
  branch (lookupTarget default pairs (← popInt))

/-- Takes the top frame off and gives its result, taken from its operand stack, to the caller. The
result of the bottom frame is kept by the thread. -/
def returnValue {α : Type} (pop? : OperandStack → Option (α × OperandStack)) (value : α → Value) :
    Exec Unit := do
  let frame ← popFrame
  let (result, _) ← VM.inRange (pop? frame.stack)
  if (← thread).frames.isEmpty then modifyThread ({ · with returnValue := some (value result) })
  else push (value result)

/-- Takes the top frame off. -/
def leaveFrame : Exec Unit := do
  let _ ← popFrame

end Exec

end JavaMachine
