import JavaMachine.Code.Instruction
import JavaMachine.Execution.Basic

/-!
Operands during execution.

Decoding gives every opcode operands of its shape. An instruction put together by hand may lack them;
it fails when it first uses them.
-/

namespace JavaMachine

namespace Exec

/-- Fails because the operands do not have the shape of the opcode. -/
def badOperands {α : Type} (i : Instruction) : Exec α :=
  fail (.internal (.badOperands i.opcode.mnemonic i.operands.describe))

/-- Fails because the instruction is of another group. -/
def wrongGroup {α : Type} (i : Instruction) : Exec α := fail (.internal (.wrongGroup i.opcode.mnemonic))

/-- The operand that is there, or the failure for bad operands. -/
def operand {α : Type} (i : Instruction) : Option α → Exec α
  | some value => return value
  | none => badOperands i

def poolIndex (i : Instruction) : Exec UInt16 := operand i i.operands.poolIndex?
def localIndex (i : Instruction) : Exec Nat := operand i i.operands.localIndex?
def offset (i : Instruction) : Exec Int32 := operand i i.operands.offset?

/-- The class whose method the top frame runs: its pool is the one that pool indices mean. -/
def owner : Exec ClassId := do return (← frame).owner

end Exec

end JavaMachine
