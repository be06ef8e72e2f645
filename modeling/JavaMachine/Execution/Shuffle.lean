import JavaMachine.Execution.Basic

/-!
Operand stack shuffles.

A shuffle takes slots off the top and puts some of them back, in another order or more than once. It
never looks at what they hold, so one that moves two slots serves a wide value and two narrow ones
alike.
-/

namespace JavaMachine

/-- What a shuffle does to the top slots, given bottom first. -/
inductive Shuffle where
  | pop | pop2 | dup | dupX1 | dupX2 | dup2 | dup2X1 | dup2X2 | swap
  deriving DecidableEq, Repr

namespace Shuffle

/-- How many slots the shuffle takes. -/
def size : Shuffle → Nat
  | pop | dup => 1
  | pop2 | dupX1 | dup2 | swap => 2
  | dupX2 | dup2X1 => 3
  | dup2X2 => 4

/-- The slots that come back for the ones taken. -/
def arrange {α : Type} : Shuffle → List α → List α
  | dup, [a] => [a, a]
  | dupX1, [b, a] => [a, b, a]
  | dupX2, [c, b, a] => [a, c, b, a]
  | dup2, [b, a] => [b, a, b, a]
  | dup2X1, [c, b, a] => [b, a, c, b, a]
  | dup2X2, [d, c, b, a] => [b, a, d, c, b, a]
  | swap, [b, a] => [a, b]
  | _, _ => []

end Shuffle

/-- The operand stack after a shuffle. -/
def OperandStack.shuffle? (s : OperandStack) (shuffle : Shuffle) : Option OperandStack := do
  let (slots, s) ← s.popMany? shuffle.size
  s.pushAll? (shuffle.arrange slots)

end JavaMachine
