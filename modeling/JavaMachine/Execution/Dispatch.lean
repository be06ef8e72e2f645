import JavaMachine.Execution.Arithmetic
import JavaMachine.Execution.Arrays
import JavaMachine.Execution.Control
import JavaMachine.Execution.Fields
import JavaMachine.Execution.Invocation
import JavaMachine.Execution.Objects
import JavaMachine.Execution.Shuffle
import JavaMachine.Execution.Variables

/-!
What each instruction does.

Instructions are executed in groups, and the byte of an opcode decides which group it is in.
`perform` gives an instruction to its group; `execute` adds the widened forms, which are the plain
ones with wider operands.
-/

namespace JavaMachine

namespace Exec

/-- Shuffles the operand stack. -/
def shuffle (s : Shuffle) : Exec Unit := changeStack (·.shuffle? s)

/-- Loads one or two slots from the local variable that the operands name. -/
def loadNamed (i : Instruction) (load : Nat → Exec Unit) : Exec Unit := do
  let _ ← frame
  load (← localIndex i)

/-- Pushes the constant among the operands. -/
def pushImmediate (i : Instruction) : Exec Unit := do
  let _ ← frame
  match i.opcode, i.operands with
  | .bipush, .i1 v => pushInt v.toInt32
  | .sipush, .i2 v => pushInt v.toInt32
  | _, _ => badOperands i

/-- Adds a constant to a local variable. -/
def incrementNamed (i : Instruction) : Exec Unit := do
  let _ ← frame
  let .increment index constant := i.operands | badOperands i
  increment index.toNat constant.toInt32

end Exec

/-! ### Groups -/

/-- The groups that instructions are executed in. -/
inductive InstructionGroup where
  | constants | loads | stores | shuffles | arithmetic | conversions | comparisons | control | calls
  | references | extended
  deriving DecidableEq, Repr

/-- The group of an opcode, by its byte. The calls are in the middle of the references. -/
def Opcode.group (opcode : Opcode) : InstructionGroup :=
  let byte := opcode.toByte
  if byte ≤ 0x14 then .constants
  else if byte ≤ 0x35 then .loads
  else if byte ≤ 0x56 then .stores
  else if byte ≤ 0x5F then .shuffles
  else if byte ≤ 0x84 then .arithmetic
  else if byte ≤ 0x93 then .conversions
  else if byte ≤ 0xA6 then .comparisons
  else if byte ≤ 0xB1 then .control
  else if 0xB6 ≤ byte && byte ≤ 0xBA then .calls
  else if 0xB2 ≤ byte && byte ≤ 0xC3 then .references
  else .extended

namespace Exec

open Opcode in
/-- Pushes a constant. -/
def performConstant (i : Instruction) : Exec Unit :=
  match i.opcode with
  | nop => do let _ ← frame
  | aconstNull => pushReference none
  | iconstM1 => pushInt (-1)
  | iconst0 => pushInt 0
  | iconst1 => pushInt 1
  | iconst2 => pushInt 2
  | iconst3 => pushInt 3
  | iconst4 => pushInt 4
  | iconst5 => pushInt 5
  | lconst0 => pushLong 0
  | lconst1 => pushLong 1
  | fconst0 => pushFloat 0
  | fconst1 => pushFloat 0x3F800000
  | fconst2 => pushFloat 0x40000000
  | dconst0 => pushDouble 0
  | dconst1 => pushDouble 0x3FF0000000000000
  | bipush | sipush => pushImmediate i
  | ldc | ldcW => loadConstant i narrowConstant?
  | ldc2W => loadConstant i wideConstant?
  | _ => wrongGroup i

open Opcode in
/-- Loads a local variable or an array element. -/
def performLoad (i : Instruction) : Exec Unit :=
  match i.opcode with
  | iload | fload | aload => loadNamed i loadOne
  | lload | dload => loadNamed i loadTwo
  | iload0 | fload0 | aload0 => loadOne 0
  | iload1 | fload1 | aload1 => loadOne 1
  | iload2 | fload2 | aload2 => loadOne 2
  | iload3 | fload3 | aload3 => loadOne 3
  | lload0 | dload0 => loadTwo 0
  | lload1 | dload1 => loadTwo 1
  | lload2 | dload2 => loadTwo 2
  | lload3 | dload3 => loadTwo 3
  | iaload => loadElement i .int
  | laload => loadElement i .long
  | faload => loadElement i .float
  | daload => loadElement i .double
  | aaload => loadElement i .reference
  | baload => loadElement i .byte
  | caload => loadElement i .char
  | saload => loadElement i .short
  | _ => wrongGroup i

open Opcode in
/-- Stores into a local variable or an array element. -/
def performStore (i : Instruction) : Exec Unit :=
  match i.opcode with
  | istore | fstore | astore => loadNamed i storeOne
  | lstore | dstore => loadNamed i storeTwo
  | istore0 | fstore0 | astore0 => storeOne 0
  | istore1 | fstore1 | astore1 => storeOne 1
  | istore2 | fstore2 | astore2 => storeOne 2
  | istore3 | fstore3 | astore3 => storeOne 3
  | lstore0 | dstore0 => storeTwo 0
  | lstore1 | dstore1 => storeTwo 1
  | lstore2 | dstore2 => storeTwo 2
  | lstore3 | dstore3 => storeTwo 3
  | iastore => storeElement i .int
  | lastore => storeElement i .long
  | fastore => storeElement i .float
  | dastore => storeElement i .double
  | aastore => storeElement i .reference
  | bastore => storeElement i .byte
  | castore => storeElement i .char
  | sastore => storeElement i .short
  | _ => wrongGroup i

open Opcode in
/-- Shuffles the operand stack. -/
def performShuffle (i : Instruction) : Exec Unit :=
  match i.opcode with
  | pop => shuffle .pop
  | pop2 => shuffle .pop2
  | dup => shuffle .dup
  | dupX1 => shuffle .dupX1
  | dupX2 => shuffle .dupX2
  | dup2 => shuffle .dup2
  | dup2X1 => shuffle .dup2X1
  | dup2X2 => shuffle .dup2X2
  | swap => shuffle .swap
  | _ => wrongGroup i

open Opcode in
/-- Computes with numbers, on the operand stack or in a local variable. -/
def performArithmetic (i : Instruction) : Exec Unit :=
  match i.opcode with
  | iadd => onInts (· + ·)
  | ladd => onLongs (· + ·)
  | fadd => onFloats Ieee32.add
  | dadd => onDoubles Ieee64.add
  | isub => onInts (· - ·)
  | lsub => onLongs (· - ·)
  | fsub => onFloats Ieee32.sub
  | dsub => onDoubles Ieee64.sub
  | imul => onInts (· * ·)
  | lmul => onLongs (· * ·)
  | fmul => onFloats Ieee32.mul
  | dmul => onDoubles Ieee64.mul
  | idiv => onDividedInts (· / ·)
  | ldiv => onDividedLongs (· / ·)
  | fdiv => onFloats Ieee32.div
  | ddiv => onDoubles Ieee64.div
  | irem => onDividedInts (· % ·)
  | lrem => onDividedLongs (· % ·)
  | frem => onFloats Ieee32.rem
  | drem => onDoubles Ieee64.rem
  | ineg => mapInt fun v => .int (-v)
  | lneg => mapLong fun v => .long (-v)
  | fneg => mapFloat fun v => .float (Ieee32.neg v)
  | dneg => mapDouble fun v => .double (Ieee64.neg v)
  | ishl => shiftInt fun a distance => a <<< distance.toInt32
  | lshl => shiftLong fun a distance => a <<< distance.toInt64
  | ishr => shiftInt fun a distance => a >>> distance.toInt32
  | lshr => shiftLong fun a distance => a >>> distance.toInt64
  | iushr => shiftInt shiftedDown32
  | lushr => shiftLong shiftedDown64
  | iand => onInts (· &&& ·)
  | land => onLongs (· &&& ·)
  | ior => onInts (· ||| ·)
  | lor => onLongs (· ||| ·)
  | ixor => onInts (· ^^^ ·)
  | lxor => onLongs (· ^^^ ·)
  | iinc => incrementNamed i
  | _ => wrongGroup i

open Opcode in
/-- Converts a number. -/
def performConversion (i : Instruction) : Exec Unit :=
  match i.opcode with
  | i2l => mapInt fun v => .long v.toInt64
  | i2f => mapInt fun v => .float (Ieee32.ofInt v)
  | i2d => mapInt fun v => .double (Ieee64.ofInt v)
  | l2i => mapLong fun v => .int v.toInt32
  | l2f => mapLong fun v => .float (Ieee32.ofLong v)
  | l2d => mapLong fun v => .double (Ieee64.ofLong v)
  | f2i => mapFloat fun v => .int (Ieee32.toInt v)
  | f2l => mapFloat fun v => .long (Ieee32.toLong v)
  | f2d => mapFloat fun v => .double (Ieee32.toDouble v)
  | d2i => mapDouble fun v => .int (Ieee64.toInt v)
  | d2l => mapDouble fun v => .long (Ieee64.toLong v)
  | d2f => mapDouble fun v => .float (Ieee64.toFloat v)
  | i2b => mapInt fun v => .int v.toInt8.toInt32
  | i2c => mapInt fun v => .int v.toUInt32.toUInt16.toUInt32.toInt32
  | i2s => mapInt fun v => .int v.toInt16.toInt32
  | _ => wrongGroup i

open Opcode in
/-- Compares, and pushes the result or branches by it. -/
def performComparison (i : Instruction) : Exec Unit :=
  match i.opcode with
  | lcmp => compareLongs
  | fcmpl => compareFloats (-1)
  | fcmpg => compareFloats 1
  | dcmpl => compareDoubles (-1)
  | dcmpg => compareDoubles 1
  | ifeq => branchIfInt i (· == 0)
  | ifne => branchIfInt i (· != 0)
  | iflt => branchIfInt i (· < 0)
  | ifge => branchIfInt i (0 ≤ ·)
  | ifgt => branchIfInt i (0 < ·)
  | ifle => branchIfInt i (· ≤ 0)
  | ifIcmpeq => branchIfInts i (· == ·)
  | ifIcmpne => branchIfInts i (· != ·)
  | ifIcmplt => branchIfInts i (· < ·)
  | ifIcmpge => branchIfInts i fun a b => b ≤ a
  | ifIcmpgt => branchIfInts i fun a b => b < a
  | ifIcmple => branchIfInts i (· ≤ ·)
  | ifAcmpeq => branchIfSame i true
  | ifAcmpne => branchIfSame i false
  | _ => wrongGroup i

open Opcode in
/-- Jumps, switches, or returns. -/
def performControl (i : Instruction) : Exec Unit :=
  match i.opcode with
  | goto => jump i
  | jsr => jumpToSubroutine i
  | ret => returnFromSubroutine i
  | tableswitch => tableSwitch i
  | lookupswitch => lookupSwitch i
  | ireturn => returnValue OperandStack.popInt? .int
  | lreturn => returnValue OperandStack.popLong? .long
  | freturn => returnValue OperandStack.popFloat? .float
  | dreturn => returnValue OperandStack.popDouble? .double
  | areturn => returnValue OperandStack.popReference? .reference
  | returnVoid => leaveFrame
  | _ => wrongGroup i

open Opcode in
/-- Calls a method. -/
def performCall (natives : Natives) (i : Instruction) : Exec Unit :=
  match i.opcode with
  | invokevirtual => invokeVirtual natives i
  | invokespecial => invokeSpecial natives i
  | invokestatic => invokeStatic natives i
  | invokeinterface => invokeInterface natives i
  | invokedynamic => fail (.unsupported "invokedynamic")
  | _ => wrongGroup i

open Opcode in
/-- Works on fields, objects and arrays. -/
def performReference (i : Instruction) : Exec Unit :=
  match i.opcode with
  | getstatic => getStatic i
  | putstatic => putStatic i
  | getfield => getField i
  | putfield => putField i
  | new => newObject i
  | newarray => newPrimitiveArray i
  | anewarray => newReferenceArray i
  | arraylength => arrayLength
  | athrow => throwTop
  | checkcast => checkCast i
  | instanceof => instanceOf i
  | monitorenter | monitorexit => checkMonitor
  | _ => wrongGroup i

open Opcode in
/-- Executes an instruction of the last group. A widened instruction does not widen another. -/
def performExtended (i : Instruction) : Exec Unit :=
  match i.opcode with
  | wide => badOperands i
  | multianewarray => newMultiArray i
  | ifnull => branchIfNull i true
  | ifnonnull => branchIfNull i false
  | gotoW => jump i
  | jsrW => jumpToSubroutine i
  | _ => wrongGroup i

/-- Executes an instruction that is not widened, in its group. -/
def perform (natives : Natives) (i : Instruction) : Exec Unit :=
  match i.opcode.group with
  | .constants => performConstant i
  | .loads => performLoad i
  | .stores => performStore i
  | .shuffles => performShuffle i
  | .arithmetic => performArithmetic i
  | .conversions => performConversion i
  | .comparisons => performComparison i
  | .control => performControl i
  | .calls => performCall natives i
  | .references => performReference i
  | .extended => performExtended i

/-- The operands of the plain form of a widened instruction. -/
def widened (index : UInt16) : Option Int16 → Operands
  | some constant => .increment index constant
  | none => .u2 index

/-- Executes an instruction. -/
def execute (natives : Natives) (i : Instruction) : Exec Unit :=
  match i with
  | ⟨.wide, .wide opcode index constant⟩ => perform natives ⟨opcode, widened index constant⟩
  | _ => perform natives i

end Exec

end JavaMachine
