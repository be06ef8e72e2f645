/-!
The opcodes of the instruction set, 0x00 to 0xC9 without a gap.

The order of the constructors is the numbering: the byte of an opcode is its place among them. Every
opcode has the mnemonic that the instruction set gives it, and a label under which diagnostics show it
inside of an operand.
-/

namespace JavaMachine

/-- An opcode. -/
inductive Opcode where
  | nop | aconstNull | iconstM1 | iconst0 | iconst1 | iconst2 | iconst3 | iconst4 | iconst5
  | lconst0 | lconst1 | fconst0 | fconst1 | fconst2 | dconst0 | dconst1 | bipush | sipush | ldc
  | ldcW | ldc2W | iload | lload | fload | dload | aload | iload0 | iload1 | iload2 | iload3
  | lload0 | lload1 | lload2 | lload3 | fload0 | fload1 | fload2 | fload3 | dload0 | dload1 | dload2
  | dload3 | aload0 | aload1 | aload2 | aload3 | iaload | laload | faload | daload | aaload | baload
  | caload | saload | istore | lstore | fstore | dstore | astore | istore0 | istore1 | istore2
  | istore3 | lstore0 | lstore1 | lstore2 | lstore3 | fstore0 | fstore1 | fstore2 | fstore3
  | dstore0 | dstore1 | dstore2 | dstore3 | astore0 | astore1 | astore2 | astore3 | iastore
  | lastore | fastore | dastore | aastore | bastore | castore | sastore | pop | pop2 | dup | dupX1
  | dupX2 | dup2 | dup2X1 | dup2X2 | swap | iadd | ladd | fadd | dadd | isub | lsub | fsub | dsub
  | imul | lmul | fmul | dmul | idiv | ldiv | fdiv | ddiv | irem | lrem | frem | drem | ineg | lneg
  | fneg | dneg | ishl | lshl | ishr | lshr | iushr | lushr | iand | land | ior | lor | ixor | lxor
  | iinc | i2l | i2f | i2d | l2i | l2f | l2d | f2i | f2l | f2d | d2i | d2l | d2f | i2b | i2c | i2s
  | lcmp | fcmpl | fcmpg | dcmpl | dcmpg | ifeq | ifne | iflt | ifge | ifgt | ifle | ifIcmpeq
  | ifIcmpne | ifIcmplt | ifIcmpge | ifIcmpgt | ifIcmple | ifAcmpeq | ifAcmpne | goto | jsr | ret
  | tableswitch | lookupswitch | ireturn | lreturn | freturn | dreturn | areturn | returnVoid
  | getstatic | putstatic | getfield | putfield | invokevirtual | invokespecial | invokestatic
  | invokeinterface | invokedynamic | new | newarray | anewarray | arraylength | athrow | checkcast
  | instanceof | monitorenter | monitorexit | wide | multianewarray | ifnull | ifnonnull | gotoW
  | jsrW
  deriving DecidableEq, Repr, Inhabited

namespace Opcode

/-- The byte of an opcode. -/
def toByte (opcode : Opcode) : UInt8 := opcode.ctorIdx.toUInt8

/-- The opcode of a byte; bytes above 0xC9 are reserved or unassigned. -/
def ofByte? (byte : UInt8) : Option Opcode :=
  if byte ≤ 0xC9 then some (ofNat byte.toNat) else none

theorem ofByte?_toByte (opcode : Opcode) : ofByte? opcode.toByte = some opcode := by
  cases opcode <;> rfl

/-- Mnemonic and label. -/
def names : Opcode → String × String
  | nop => ("nop", "NOP")
  | aconstNull => ("aconst_null", "AconstNull")
  | iconstM1 => ("iconst_m1", "IconstM1")
  | iconst0 => ("iconst_0", "Iconst0")
  | iconst1 => ("iconst_1", "Iconst1")
  | iconst2 => ("iconst_2", "Iconst2")
  | iconst3 => ("iconst_3", "Iconst3")
  | iconst4 => ("iconst_4", "Iconst4")
  | iconst5 => ("iconst_5", "Iconst5")
  | lconst0 => ("lconst_0", "Lconst0")
  | lconst1 => ("lconst_1", "Lconst1")
  | fconst0 => ("fconst_0", "Fconst0")
  | fconst1 => ("fconst_1", "Fconst1")
  | fconst2 => ("fconst_2", "Fconst2")
  | dconst0 => ("dconst_0", "Dconst0")
  | dconst1 => ("dconst_1", "Dconst1")
  | bipush => ("bipush", "BiPush")
  | sipush => ("sipush", "SiPush")
  | ldc => ("ldc", "Ldc")
  | ldcW => ("ldc_w", "LdcW")
  | ldc2W => ("ldc2_w", "Ldc2W")
  | iload => ("iload", "ILoad")
  | lload => ("lload", "LLoad")
  | fload => ("fload", "FLoad")
  | dload => ("dload", "DLoad")
  | aload => ("aload", "ALoad")
  | iload0 => ("iload_0", "ILoad0")
  | iload1 => ("iload_1", "ILoad1")
  | iload2 => ("iload_2", "ILoad2")
  | iload3 => ("iload_3", "ILoad3")
  | lload0 => ("lload_0", "LLoad0")
  | lload1 => ("lload_1", "LLoad1")
  | lload2 => ("lload_2", "LLoad2")
  | lload3 => ("lload_3", "LLoad3")
  | fload0 => ("fload_0", "FLoad0")
  | fload1 => ("fload_1", "FLoad1")
  | fload2 => ("fload_2", "FLoad2")
  | fload3 => ("fload_3", "FLoad3")
  | dload0 => ("dload_0", "DLoad0")
  | dload1 => ("dload_1", "DLoad1")
  | dload2 => ("dload_2", "DLoad2")
  | dload3 => ("dload_3", "DLoad3")
  | aload0 => ("aload_0", "ALoad0")
  | aload1 => ("aload_1", "ALoad1")
  | aload2 => ("aload_2", "ALoad2")
  | aload3 => ("aload_3", "ALoad3")
  | iaload => ("iaload", "IALoad")
  | laload => ("laload", "LALoad")
  | faload => ("faload", "FALoad")
  | daload => ("daload", "DALoad")
  | aaload => ("aaload", "AALoad")
  | baload => ("baload", "BALoad")
  | caload => ("caload", "CALoad")
  | saload => ("saload", "SALoad")
  | istore => ("istore", "IStore")
  | lstore => ("lstore", "LStore")
  | fstore => ("fstore", "FStore")
  | dstore => ("dstore", "DStore")
  | astore => ("astore", "AStore")
  | istore0 => ("istore_0", "IStore0")
  | istore1 => ("istore_1", "IStore1")
  | istore2 => ("istore_2", "IStore2")
  | istore3 => ("istore_3", "IStore3")
  | lstore0 => ("lstore_0", "LStore0")
  | lstore1 => ("lstore_1", "LStore1")
  | lstore2 => ("lstore_2", "LStore2")
  | lstore3 => ("lstore_3", "LStore3")
  | fstore0 => ("fstore_0", "FStore0")
  | fstore1 => ("fstore_1", "FStore1")
  | fstore2 => ("fstore_2", "FStore2")
  | fstore3 => ("fstore_3", "FStore3")
  | dstore0 => ("dstore_0", "DStore0")
  | dstore1 => ("dstore_1", "DStore1")
  | dstore2 => ("dstore_2", "DStore2")
  | dstore3 => ("dstore_3", "DStore3")
  | astore0 => ("astore_0", "AStore0")
  | astore1 => ("astore_1", "AStore1")
  | astore2 => ("astore_2", "AStore2")
  | astore3 => ("astore_3", "AStore3")
  | iastore => ("iastore", "IAStore")
  | lastore => ("lastore", "LAStore")
  | fastore => ("fastore", "FAStore")
  | dastore => ("dastore", "DAStore")
  | aastore => ("aastore", "AAStore")
  | bastore => ("bastore", "BAStore")
  | castore => ("castore", "CAStore")
  | sastore => ("sastore", "SAStore")
  | pop => ("pop", "Pop")
  | pop2 => ("pop2", "Pop2")
  | dup => ("dup", "Dup")
  | dupX1 => ("dup_x1", "DupX1")
  | dupX2 => ("dup_x2", "DupX2")
  | dup2 => ("dup2", "Dup2")
  | dup2X1 => ("dup2_x1", "Dup2X1")
  | dup2X2 => ("dup2_x2", "Dup2X2")
  | swap => ("swap", "Swap")
  | iadd => ("iadd", "IAdd")
  | ladd => ("ladd", "LAdd")
  | fadd => ("fadd", "FAdd")
  | dadd => ("dadd", "DAdd")
  | isub => ("isub", "ISub")
  | lsub => ("lsub", "LSub")
  | fsub => ("fsub", "FSub")
  | dsub => ("dsub", "DSub")
  | imul => ("imul", "IMul")
  | lmul => ("lmul", "LMul")
  | fmul => ("fmul", "FMul")
  | dmul => ("dmul", "DMul")
  | idiv => ("idiv", "IDiv")
  | ldiv => ("ldiv", "LDiv")
  | fdiv => ("fdiv", "FDiv")
  | ddiv => ("ddiv", "DDiv")
  | irem => ("irem", "IRem")
  | lrem => ("lrem", "LRem")
  | frem => ("frem", "FRem")
  | drem => ("drem", "DRem")
  | ineg => ("ineg", "INeg")
  | lneg => ("lneg", "LNeg")
  | fneg => ("fneg", "FNeg")
  | dneg => ("dneg", "DNeg")
  | ishl => ("ishl", "IShl")
  | lshl => ("lshl", "LShl")
  | ishr => ("ishr", "IShr")
  | lshr => ("lshr", "LShr")
  | iushr => ("iushr", "IUShr")
  | lushr => ("lushr", "LUShr")
  | iand => ("iand", "IAnd")
  | land => ("land", "LAnd")
  | ior => ("ior", "IOr")
  | lor => ("lor", "LOr")
  | ixor => ("ixor", "IXor")
  | lxor => ("lxor", "LXor")
  | iinc => ("iinc", "IInc")
  | i2l => ("i2l", "I2L")
  | i2f => ("i2f", "I2F")
  | i2d => ("i2d", "I2D")
  | l2i => ("l2i", "L2I")
  | l2f => ("l2f", "L2F")
  | l2d => ("l2d", "L2D")
  | f2i => ("f2i", "F2I")
  | f2l => ("f2l", "F2L")
  | f2d => ("f2d", "F2D")
  | d2i => ("d2i", "D2I")
  | d2l => ("d2l", "D2L")
  | d2f => ("d2f", "D2F")
  | i2b => ("i2b", "I2B")
  | i2c => ("i2c", "I2C")
  | i2s => ("i2s", "I2S")
  | lcmp => ("lcmp", "LCmp")
  | fcmpl => ("fcmpl", "FCmpL")
  | fcmpg => ("fcmpg", "FCmpG")
  | dcmpl => ("dcmpl", "DCmpL")
  | dcmpg => ("dcmpg", "DCmpG")
  | ifeq => ("ifeq", "IfEq")
  | ifne => ("ifne", "IfNe")
  | iflt => ("iflt", "IfLt")
  | ifge => ("ifge", "IfGe")
  | ifgt => ("ifgt", "IfGt")
  | ifle => ("ifle", "IfLe")
  | ifIcmpeq => ("if_icmpeq", "IfICmpEq")
  | ifIcmpne => ("if_icmpne", "IfICmpNe")
  | ifIcmplt => ("if_icmplt", "IfICmpLt")
  | ifIcmpge => ("if_icmpge", "IfICmpGe")
  | ifIcmpgt => ("if_icmpgt", "IfICmpGt")
  | ifIcmple => ("if_icmple", "IfICmpLe")
  | ifAcmpeq => ("if_acmpeq", "IfACmpEq")
  | ifAcmpne => ("if_acmpne", "IfACmpNe")
  | goto => ("goto", "Goto")
  | jsr => ("jsr", "Jsr")
  | ret => ("ret", "Ret")
  | tableswitch => ("tableswitch", "TableSwitch")
  | lookupswitch => ("lookupswitch", "LookupSwitch")
  | ireturn => ("ireturn", "IReturn")
  | lreturn => ("lreturn", "LReturn")
  | freturn => ("freturn", "FReturn")
  | dreturn => ("dreturn", "DReturn")
  | areturn => ("areturn", "AReturn")
  | returnVoid => ("return", "Return")
  | getstatic => ("getstatic", "GetStatic")
  | putstatic => ("putstatic", "PutStatic")
  | getfield => ("getfield", "GetField")
  | putfield => ("putfield", "PutField")
  | invokevirtual => ("invokevirtual", "InvokeVirtual")
  | invokespecial => ("invokespecial", "InvokeSpecial")
  | invokestatic => ("invokestatic", "InvokeStatic")
  | invokeinterface => ("invokeinterface", "InvokeInterface")
  | invokedynamic => ("invokedynamic", "InvokeDynamic")
  | new => ("new", "New")
  | newarray => ("newarray", "NewArray")
  | anewarray => ("anewarray", "ANewArray")
  | arraylength => ("arraylength", "ArrayLength")
  | athrow => ("athrow", "AThrow")
  | checkcast => ("checkcast", "CheckCast")
  | instanceof => ("instanceof", "InstanceOf")
  | monitorenter => ("monitorenter", "MonitorEnter")
  | monitorexit => ("monitorexit", "MonitorExit")
  | wide => ("wide", "Wide")
  | multianewarray => ("multianewarray", "MultiANewArray")
  | ifnull => ("ifnull", "IfNull")
  | ifnonnull => ("ifnonnull", "IfNonNull")
  | gotoW => ("goto_w", "GotoW")
  | jsrW => ("jsr_w", "JsrW")

/-- The mnemonic of the instruction set. -/
def mnemonic (opcode : Opcode) : String := opcode.names.1

/-- The label that diagnostics show. -/
def label (opcode : Opcode) : String := opcode.names.2

end Opcode

end JavaMachine
