import JavaMachine.Data.BigEndian
import JavaMachine.Fault

/-!
Reading a code array from any position.

A read that the code cuts short fails with the position of the cursor and does not move it.
-/

namespace JavaMachine

/-- A position in a code array. -/
structure CodeCursor where
  code : Array UInt8
  pc : UInt64
  deriving DecidableEq, Repr, Inhabited

/-- A reading step on code. The cursor is known after a failure too. -/
abbrev CodeReader := ExceptT Fault (StateM CodeCursor)

namespace CodeReader

/-- The position of the next byte. -/
def pc : CodeReader UInt64 := do return (← get).pc

/-- Moves to `pc`. -/
def seek (pc : UInt64) : CodeReader Unit := modify ({ · with pc })

/-- Moves to `pc` in another code array. -/
def restart (code : Array UInt8) (pc : UInt64) : CodeReader Unit := set (CodeCursor.mk code pc)

/-- A big-endian number of `width` bytes. -/
def number (width : Nat) : CodeReader Nat := do
  let ⟨code, pc⟩ ← get
  let start := pc.toNat
  if start + width ≤ code.size then
    set (CodeCursor.mk code (pc + width.toUInt64))
    return BigEndian.toNat (code.extract start (start + width)).toList
  else throw (.classFormat (.truncated start))

def u1 : CodeReader UInt8 := Nat.toUInt8 <$> number 1
def i1 : CodeReader Int8 := UInt8.toInt8 <$> u1
def u2 : CodeReader UInt16 := Nat.toUInt16 <$> number 2
def i2 : CodeReader Int16 := UInt16.toInt16 <$> u2
def i4 : CodeReader Int32 := (·.toUInt32.toInt32) <$> number 4

/-- So many four-byte numbers in a row. -/
def i4s : Nat → CodeReader (List Int32)
  | 0 => return []
  | count + 1 => return (← i4) :: (← i4s count)

/-- Moves to the next multiple of four: the operands of switches are aligned on the start of the
code. -/
def align : CodeReader Unit := modify fun c => { c with pc := c.pc + (4 - c.pc % 4) % 4 }

end CodeReader

end JavaMachine
