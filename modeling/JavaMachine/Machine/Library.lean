import JavaMachine.ClassFile.Builder

/-!
The built-in library: class files of the core classes that the machine depends on.

They are used only when no directory provides the class. `Library.names` lists them, every throwable
class after its super class, and `Library.find?` assembles the class file of a name.
-/

namespace JavaMachine

/-! ### Names of core classes -/

namespace ClassName

def object := "java/lang/Object"
def string := "java/lang/String"
def throwable := "java/lang/Throwable"
def cloneable := "java/lang/Cloneable"
def serializable := "java/io/Serializable"
def system := "java/lang/System"
def float := "java/lang/Float"
def double := "java/lang/Double"

end ClassName

namespace Library

/-- The throwable classes below the root of throwables, each with its super class. -/
def throwables : List (String × String) :=
  [("java/lang/Exception", ClassName.throwable),
   ("java/lang/Error", ClassName.throwable),
   ("java/lang/RuntimeException", "java/lang/Exception"),
   ("java/lang/ArithmeticException", "java/lang/RuntimeException"),
   ("java/lang/IndexOutOfBoundsException", "java/lang/RuntimeException"),
   ("java/lang/ArrayIndexOutOfBoundsException", "java/lang/IndexOutOfBoundsException"),
   ("java/lang/ArrayStoreException", "java/lang/RuntimeException"),
   ("java/lang/ClassCastException", "java/lang/RuntimeException"),
   ("java/lang/NegativeArraySizeException", "java/lang/RuntimeException"),
   ("java/lang/NullPointerException", "java/lang/RuntimeException"),
   ("java/lang/IllegalArgumentException", "java/lang/RuntimeException"),
   ("java/lang/ReflectiveOperationException", "java/lang/Exception"),
   ("java/lang/ClassNotFoundException", "java/lang/ReflectiveOperationException"),
   ("java/lang/LinkageError", "java/lang/Error"),
   ("java/lang/ClassCircularityError", "java/lang/LinkageError"),
   ("java/lang/UnsatisfiedLinkError", "java/lang/LinkageError"),
   ("java/lang/IncompatibleClassChangeError", "java/lang/LinkageError"),
   ("java/lang/InstantiationError", "java/lang/IncompatibleClassChangeError"),
   ("java/lang/NoSuchFieldError", "java/lang/IncompatibleClassChangeError"),
   ("java/lang/NoSuchMethodError", "java/lang/IncompatibleClassChangeError"),
   ("java/lang/AbstractMethodError", "java/lang/IncompatibleClassChangeError"),
   ("java/lang/VirtualMachineError", "java/lang/Error"),
   ("java/lang/StackOverflowError", "java/lang/VirtualMachineError"),
   ("java/lang/StackUnderflowError", "java/lang/VirtualMachineError")]

/-- The names of all built-in classes. -/
def names : List String :=
  [ClassName.object, ClassName.string, ClassName.throwable, ClassName.cloneable,
    ClassName.serializable, ClassName.system, ClassName.float, ClassName.double]
  ++ throwables.map (·.1)

open Builder AccessFlags

/-- The two operand bytes of a pool index. -/
def operand (index : UInt16) : List UInt8 := [(index >>> 8).toUInt8, index.toUInt8]

def publicFlags : AccessFlags := ⟨publicBit⟩
def publicStatic : AccessFlags := ⟨publicBit ||| staticBit⟩
def privateStatic : AccessFlags := ⟨privateBit ||| staticBit⟩
def finalClass : AccessFlags := ⟨publicBit ||| finalBit ||| superBit⟩

/-- A constructor without arguments that calls the one of the super class. -/
def addConstructor (superName : String) : Builder Unit := do
  let init ← methodRef superName "<init>" "()V"
  addMethod publicFlags "<init>" "()V" 1 1 ([0x2A, 0xB7] ++ operand init ++ [0xB1]) []

/-- The root of the hierarchy: an empty constructor, equality by identity, and native methods. -/
def objectClass : ClassFile :=
  .build ClassName.object none do
    addMethod publicFlags "<init>" "()V" 0 1 [0xB1] []
    addMethod publicFlags "equals" "(Ljava/lang/Object;)Z" 2 2
      [0x2A, 0x2B, 0xA6, 0x00, 0x05, 0x04, 0xAC, 0x03, 0xAC] []
    addNative publicFlags "hashCode" "()I"
    addNative privateStatic "registerNatives" "()V"

/-- Strings hold their units in a character array. -/
def stringClass : ClassFile :=
  .build ClassName.string (some ClassName.object) do
    setFlags finalClass
    addInterface ClassName.serializable
    addField ⟨privateBit ||| finalBit⟩ "value" "[C"
    addConstructor ClassName.object
    let value ← fieldRef ClassName.string "value" "[C"
    addMethod publicFlags "length" "()I" 1 1 ([0x2A, 0xB4] ++ operand value ++ [0xBE, 0xAC]) []
    addMethod publicFlags "charAt" "(I)C" 2 2
      ([0x2A, 0xB4] ++ operand value ++ [0x1B, 0x34, 0xAC]) []

/-- The root of throwables keeps a detail message. -/
def throwableClass : ClassFile :=
  .build ClassName.throwable (some ClassName.object) do
    addInterface ClassName.serializable
    addField ⟨privateBit⟩ "detailMessage" "Ljava/lang/String;"
    addConstructor ClassName.object
    let init ← methodRef ClassName.object "<init>" "()V"
    let message ← fieldRef ClassName.throwable "detailMessage" "Ljava/lang/String;"
    addMethod publicFlags "<init>" "(Ljava/lang/String;)V" 2 2
      ([0x2A, 0x59, 0xB7] ++ operand init ++ [0x2B, 0xB5] ++ operand message ++ [0xB1]) []
    addMethod publicFlags "getMessage" "()Ljava/lang/String;" 1 1
      ([0x2A, 0xB4] ++ operand message ++ [0xB0]) []

/-- A throwable class has a constructor without arguments and one that takes a message. -/
def throwableSubclass (name superName : String) : ClassFile :=
  .build name (some superName) do
    addConstructor superName
    let init ← methodRef superName "<init>" "(Ljava/lang/String;)V"
    addMethod publicFlags "<init>" "(Ljava/lang/String;)V" 2 2
      ([0x2A, 0x2B, 0xB7] ++ operand init ++ [0xB1]) []

/-- An interface without members. -/
def markerInterface (name : String) : ClassFile :=
  .build name (some ClassName.object) do
    setFlags ⟨publicBit ||| interfaceBit ||| abstractBit⟩

/-- Array copying, and an initializer that calls a native method. -/
def systemClass : ClassFile :=
  .build ClassName.system (some ClassName.object) do
    setFlags finalClass
    let register ← methodRef ClassName.system "registerNatives" "()V"
    addNative privateStatic "registerNatives" "()V"
    addNative publicStatic "arraycopy" "(Ljava/lang/Object;ILjava/lang/Object;II)V"
    addMethod ⟨staticBit⟩ "<clinit>" "()V" 0 0 ([0xB8] ++ operand register ++ [0xB1]) []

/-- A class with two native conversions between a number and its bits. -/
def bitsClass (name toBits toDescriptor ofBits ofDescriptor : String) : ClassFile :=
  .build name (some ClassName.object) do
    setFlags finalClass
    addNative publicStatic toBits toDescriptor
    addNative publicStatic ofBits ofDescriptor

/-- The class file of a built-in class. -/
def find? (name : String) : Option ClassFile :=
  if name = ClassName.object then some objectClass
  else if name = ClassName.string then some stringClass
  else if name = ClassName.throwable then some throwableClass
  else if name = ClassName.cloneable || name = ClassName.serializable then
    some (markerInterface name)
  else if name = ClassName.system then some systemClass
  else if name = ClassName.float then
    some (bitsClass name "floatToRawIntBits" "(F)I" "intBitsToFloat" "(I)F")
  else if name = ClassName.double then
    some (bitsClass name "doubleToRawLongBits" "(D)J" "longBitsToDouble" "(J)D")
  else (throwables.lookup name).map (throwableSubclass name)

end Library

end JavaMachine
