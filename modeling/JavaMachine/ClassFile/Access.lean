/-!
Access flags of classes, fields and methods.

Some bits mean different things depending on where they stand: 0x20 is `super` on a class and
`synchronized` on a method, 0x40 `volatile` or `bridge`, 0x80 `transient` or `varargs`.
-/

namespace JavaMachine

/-- A set of access flags. -/
structure AccessFlags where
  bits : UInt16
  deriving DecidableEq, Repr, Inhabited

namespace AccessFlags

def publicBit : UInt16 := 0x0001
def privateBit : UInt16 := 0x0002
def staticBit : UInt16 := 0x0008
def finalBit : UInt16 := 0x0010
def superBit : UInt16 := 0x0020
def nativeBit : UInt16 := 0x0100
def interfaceBit : UInt16 := 0x0200
def abstractBit : UInt16 := 0x0400

/-- The bits that have a meaning; bit 0x8000 has none. -/
def known (flags : AccessFlags) : AccessFlags := ⟨flags.bits &&& 0x7FFF⟩

/-- Whether the single bit `bit` is set. -/
def has (flags : AccessFlags) (bit : UInt16) : Bool := flags.bits &&& bit != 0

/-- The flags with the bits of `bits` set as well. -/
def adding (flags : AccessFlags) (bits : UInt16) : AccessFlags := ⟨flags.bits ||| bits⟩

def isPublic (flags : AccessFlags) : Bool := flags.has publicBit
def isPrivate (flags : AccessFlags) : Bool := flags.has privateBit
def isStatic (flags : AccessFlags) : Bool := flags.has staticBit
def isFinal (flags : AccessFlags) : Bool := flags.has finalBit
def isSuper (flags : AccessFlags) : Bool := flags.has superBit
def isNative (flags : AccessFlags) : Bool := flags.has nativeBit
def isInterface (flags : AccessFlags) : Bool := flags.has interfaceBit
def isAbstract (flags : AccessFlags) : Bool := flags.has abstractBit

end AccessFlags

end JavaMachine
