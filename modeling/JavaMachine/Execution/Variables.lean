import JavaMachine.Execution.Basic

/-!
Moving local variables to the operand stack and back, slot by slot.

Nothing looks at what the slots hold, so the same steps serve all types of the same width. The low
half of a wide value is in the lower variable and lower on the stack.
-/

namespace JavaMachine

namespace Exec

/-- Pushes a local variable. -/
def loadOne (index : Nat) : Exec Unit := do pushSlot (← getLocal index)

/-- Pushes a local variable and the one after it. -/
def loadTwo (index : Nat) : Exec Unit := do
  loadOne index
  loadOne (index + 1)

/-- Pops into a local variable. -/
def storeOne (index : Nat) : Exec Unit := do
  let slot ← popSlot
  setLocal index slot

/-- Pops into a local variable and the one after it, the latter first. -/
def storeTwo (index : Nat) : Exec Unit := do
  storeOne (index + 1)
  storeOne index

end Exec

end JavaMachine
