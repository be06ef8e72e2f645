import JavaMachine.Code.Cursor
import JavaMachine.Code.Opcode

/-!
Instructions: an opcode and operands whose shape the opcode determines.

Decoding reads the opcode byte and then the operands, and leaves the cursor behind the last one.
-/

namespace JavaMachine

/-- Operands, by shape. -/
inductive Operands where
  | none
  /-- A signed byte to push. -/
  | i1 (v : Int8)
  /-- A signed short to push, or a branch offset. -/
  | i2 (v : Int16)
  /-- A wide branch offset. -/
  | i4 (v : Int32)
  /-- A pool index or a local variable. -/
  | u1 (v : UInt8)
  /-- A pool index, or a local variable under `wide`. -/
  | u2 (v : UInt16)
  /-- A local variable and its increment. -/
  | increment (index : UInt16) (constant : Int16)
  /-- The element type of a primitive array. -/
  | arrayType (code : UInt8)
  | tableSwitch (default low high : Int32) (offsets : List Int32)
  | lookupSwitch (default : Int32) (pairs : List (Int32 × Int32))
  | interfaceCall (index : UInt16) (count : UInt8)
  | multiArray (index : UInt16) (dimensions : UInt8)
  /-- An instruction on a local variable, widened. -/
  | wide (opcode : Opcode) (index : UInt16) (constant : Option Int16)
  deriving DecidableEq, Repr, Inhabited

namespace Operands

/-- The local variable of a load, a store, a return from subroutine or an increment. -/
def localIndex? : Operands → Option Nat
  | u1 v => some v.toNat
  | u2 v | increment v _ => some v.toNat
  | _ => Option.none

/-- The pool index. -/
def poolIndex? : Operands → Option UInt16
  | u1 v => some v.toUInt16
  | u2 v | interfaceCall v _ | multiArray v _ => some v
  | _ => Option.none

/-- The branch offset. -/
def offset? : Operands → Option Int32
  | i2 v => some v.toInt32
  | i4 v => some v
  | _ => Option.none

/-- Items between brackets, as diagnostics show a list. -/
def describeList (items : List String) : String := "[" ++ ", ".intercalate items ++ "]"

/-- Named parts between braces, as diagnostics show a record. -/
def describeRecord (name : String) (parts : List (String × String)) : String :=
  name ++ " \x7b " ++ ", ".intercalate (parts.map fun (part, value) => part ++ ": " ++ value) ++ " \x7d"

/-- The operands as diagnostics show them. -/
def describe : Operands → String
  | none => "None"
  | i1 v => s!"I1({v})"
  | i2 v => s!"I2({v})"
  | i4 v => s!"I4({v})"
  | u1 v => s!"U1({v})"
  | u2 v => s!"U2({v})"
  | increment index constant =>
    describeRecord "IndexConst" [("index", toString index), ("constant", toString constant)]
  | arrayType code => s!"ArrayType({code})"
  | tableSwitch default low high offsets =>
    describeRecord "TableSwitch" [("default", toString default), ("low", toString low),
      ("high", toString high), ("offsets", describeList (offsets.map toString))]
  | lookupSwitch default pairs =>
    describeRecord "LookupSwitch" [("default", toString default),
      ("pairs", describeList (pairs.map fun (key, offset) => s!"({key}, {offset})"))]
  | interfaceCall index count =>
    describeRecord "InvokeInterface" [("index", toString index), ("count", toString count)]
  | multiArray index dimensions =>
    describeRecord "MultiANewArray" [("index", toString index), ("dimensions", toString dimensions)]
  | wide opcode index constant =>
    describeRecord "Wide" [("opcode", opcode.label), ("index", toString index),
      ("constant", match constant with
        | some v => s!"Some({v})"
        | Option.none => "None")]

end Operands

/-- An opcode with operands. -/
structure Instruction where
  opcode : Opcode
  operands : Operands
  deriving DecidableEq, Repr, Inhabited

namespace Instruction

open CodeReader

/-- Whether `wide` may come before the opcode. -/
def isWidenable : Opcode → Bool
  | .iload | .lload | .fload | .dload | .aload | .istore | .lstore | .fstore | .dstore | .astore
  | .ret | .iinc => true
  | _ => false

/-- The operands of a table switch: one offset for every key from low to high. -/
def readTableSwitch : CodeReader Operands := do
  align
  let default ← i4
  let low ← i4
  let high ← i4
  if high < low then throw (.internal (.switchRange low high))
  return .tableSwitch default low high (← i4s (high.toInt - low.toInt + 1).toNat)

/-- A flat list of keys and offsets as pairs. -/
def pairs : List Int32 → List (Int32 × Int32)
  | key :: offset :: rest => (key, offset) :: pairs rest
  | _ => []

/-- The operands of a lookup switch; a negative count of pairs counts as none. -/
def readLookupSwitch : CodeReader Operands := do
  align
  let default ← i4
  let count ← i4
  return .lookupSwitch default (pairs (← i4s (count.toInt.toNat * 2)))

/-- The operands of `wide`: an opcode that may be widened, a local variable, and an increment where the
opcode takes one. -/
def readWide : CodeReader Operands := do
  let start ← CodeReader.pc
  let byte ← u1
  match (Opcode.ofByte? byte).filter isWidenable with
  | Option.none => throw (.unknownOpcode byte start)
  | some opcode =>
    let index ← u2
    if opcode = .iinc then return .wide opcode index (some (← i2))
    else return .wide opcode index Option.none

/-- The operands of an opcode, the cursor being right behind its byte. -/
def readOperands : Opcode → CodeReader Operands
  | .bipush => .i1 <$> i1
  | .sipush => .i2 <$> i2
  | .ldc | .iload | .lload | .fload | .dload | .aload | .istore | .lstore | .fstore | .dstore
  | .astore | .ret => .u1 <$> u1
  | .newarray => .arrayType <$> u1
  | .ldcW | .ldc2W | .getstatic | .putstatic | .getfield | .putfield | .invokevirtual
  | .invokespecial | .invokestatic | .new | .anewarray | .checkcast | .instanceof => .u2 <$> u2
  | .iinc => return .increment (← u1).toUInt16 (← i1).toInt16
  | .ifeq | .ifne | .iflt | .ifge | .ifgt | .ifle | .ifIcmpeq | .ifIcmpne | .ifIcmplt | .ifIcmpge
  | .ifIcmpgt | .ifIcmple | .ifAcmpeq | .ifAcmpne | .goto | .jsr | .ifnull | .ifnonnull =>
    .i2 <$> i2
  | .gotoW | .jsrW => .i4 <$> i4
  | .tableswitch => readTableSwitch
  | .lookupswitch => readLookupSwitch
  | .invokeinterface | .invokedynamic => do
    let index ← u2
    let count ← u1
    let _ ← u1
    return .interfaceCall index count
  | .multianewarray => return .multiArray (← u2) (← u1)
  | .wide => readWide
  | _ => return .none

/-- Decodes the instruction at the cursor. -/
def read : CodeReader Instruction := do
  let start ← CodeReader.pc
  let byte ← u1
  match Opcode.ofByte? byte with
  | Option.none => throw (.unknownOpcode byte start)
  | some opcode => return { opcode, operands := ← readOperands opcode }

end Instruction

end JavaMachine
