import JavaMachine.ClassFile.FormatError
import JavaMachine.Data.BigEndian

/-!
Reading class file structures from bytes, front to back.

A reader knows its position and what is left. A number that the input cuts short fails with the
position at which it began and leaves the reader at the end; a run of bytes that is too short fails
likewise but leaves the reader where it was.
-/

namespace JavaMachine

/-- Bytes being read: how many are behind, and the ones ahead. -/
structure ByteInput where
  position : Nat
  rest : List UInt8
  deriving DecidableEq, Repr, Inhabited

/-- All of some bytes, at their start. -/
def ByteInput.ofBytes (bytes : List UInt8) : ByteInput := ⟨0, bytes⟩

/-- A reading step. The reader's state is known after a failure too. -/
abbrev ByteReader := ExceptT FormatError (StateM ByteInput)

namespace ByteReader

/-- Bytes not yet read. -/
def remaining : ByteReader Nat := do return (← get).rest.length

/-- A big-endian number of `width` bytes. -/
def number (width : Nat) : ByteReader Nat := do
  let input ← get
  let bytes := input.rest.take width
  set (ByteInput.mk (input.position + bytes.length) (input.rest.drop width))
  if bytes.length = width then return BigEndian.toNat bytes
  else throw (.truncated input.position)

def u8 : ByteReader UInt8 := Nat.toUInt8 <$> number 1
def u16 : ByteReader UInt16 := Nat.toUInt16 <$> number 2
def u32 : ByteReader UInt32 := Nat.toUInt32 <$> number 4
def u64 : ByteReader UInt64 := Nat.toUInt64 <$> number 8

/-- A run of exactly `count` bytes. -/
def bytes (count : Nat) : ByteReader (List UInt8) := do
  let input ← get
  let taken := input.rest.take count
  if taken.length = count then
    set (ByteInput.mk (input.position + count) (input.rest.drop count))
    return taken
  else throw (.truncated input.position)

/-- A four-byte length and that many bytes. -/
def lengthPrefixed : ByteReader (List UInt8) := do
  let length ← u32
  bytes length.toNat

/-- The same step `count` times. -/
def times {α : Type} (count : Nat) (step : ByteReader α) : ByteReader (List α) :=
  (List.replicate count ()).mapM fun _ => step

/-- A two-byte count and that many entries. -/
def table {α : Type} (entry : ByteReader α) : ByteReader (List α) := do
  let count ← u16
  times count.toNat entry

/-- Runs a reader on bytes of their own, from position 0. -/
def onBytes {α : Type} (input : List UInt8) (reader : ByteReader α) : ByteReader α :=
  match (reader.run (.ofBytes input)).1 with
  | .ok value => pure value
  | .error error => throw error

/-- Goes on if a check succeeded. -/
def ofChecked : Except FormatError Unit → ByteReader Unit
  | .ok () => pure ()
  | .error error => throw error

end ByteReader

end JavaMachine
