import JavaMachine.ClassFile.Basic

/-!
Assembling class files in memory.

A `Builder` step adds to a class file under construction. An entry that the pool already has is not
added again: the index of the first equal entry is returned. Names and descriptors of a member enter
the pool after the name of its attribute.
-/

namespace JavaMachine

/-- A construction step on a class file. -/
abbrev Builder := StateM ClassFile

namespace Builder

/-- The index of the first entry equal to `entry`, which is appended if there is none. A wide entry is
followed by an unusable one. -/
def constant (entry : PoolEntry) : Builder UInt16 := do
  let c ← get
  match c.pool.toList.findIdx? (· = entry) with
  | some index => return index.toUInt16
  | none =>
    let pool := c.pool.push entry
    set { c with pool := if entry.isWide then pool.push .unusable else pool }
    return c.pool.size.toUInt16

/-- A Utf8 entry of the given text. -/
def utf8 (value : String) : Builder UInt16 := constant (.utf8 (Text.units value))

def classRef (name : String) : Builder UInt16 := do constant (.classRef (← utf8 name))

def string (value : String) : Builder UInt16 := do constant (.string (← utf8 value))

/-- A string constant over raw code units. -/
def stringOfUnits (units : Text.Units) : Builder UInt16 := do
  constant (.string (← constant (.utf8 units)))

def integer (value : Int32) : Builder UInt16 := constant (.integer value)
def float (bits : UInt32) : Builder UInt16 := constant (.float bits)
def long (value : Int64) : Builder UInt16 := constant (.long value)
def double (bits : UInt64) : Builder UInt16 := constant (.double bits)

def nameAndType (name descriptor : String) : Builder UInt16 := do
  constant (.nameAndType (← utf8 name) (← utf8 descriptor))

def fieldRef (owner name descriptor : String) : Builder UInt16 := do
  constant (.fieldRef (← classRef owner) (← nameAndType name descriptor))

def methodRef (owner name descriptor : String) : Builder UInt16 := do
  constant (.methodRef (← classRef owner) (← nameAndType name descriptor))

def interfaceMethodRef (owner name descriptor : String) : Builder UInt16 := do
  constant (.interfaceMethodRef (← classRef owner) (← nameAndType name descriptor))

def setFlags (flags : AccessFlags) : Builder Unit := modify ({ · with flags })

def setMajorVersion (majorVersion : UInt16) : Builder Unit := modify ({ · with majorVersion })

def addInterface (name : String) : Builder Unit := do
  let index ← classRef name
  modify fun c => { c with interfaces := c.interfaces ++ [index] }

/-- A member whose attributes are already in place. -/
def member (flags : AccessFlags) (name descriptor : String) (attributes : List Attribute) :
    Builder Member := do
  return { flags, nameIndex := ← utf8 name, descriptorIndex := ← utf8 descriptor, attributes }

def addField (flags : AccessFlags) (name descriptor : String) : Builder Unit := do
  let field ← member flags name descriptor []
  modify fun c => { c with fields := c.fields ++ [field] }

/-- A public static final field with the constant at an existing pool index as its value. -/
def addConstantField (name descriptor : String) (valueIndex : UInt16) : Builder Unit := do
  let attributeName ← utf8 "ConstantValue"
  let flags := ⟨AccessFlags.publicBit ||| AccessFlags.staticBit ||| AccessFlags.finalBit⟩
  let field ← member flags name descriptor [.leaf attributeName (.constantValue valueIndex)]
  modify fun c => { c with fields := c.fields ++ [field] }

/-- A public static final int field. -/
def addConstantInt (name : String) (value : Int32) : Builder Unit := do
  addConstantField name "I" (← integer value)

/-- A method with code. -/
def addMethod (flags : AccessFlags) (name descriptor : String) (maxStack maxLocals : UInt16)
    (code : List UInt8) (handlers : List HandlerEntry) : Builder Unit := do
  let attributeName ← utf8 "Code"
  let method ← member flags name descriptor
    [.code attributeName maxStack maxLocals code handlers []]
  modify fun c => { c with methods := c.methods ++ [method] }

/-- A method without a code attribute. -/
def addBodiless (flags : AccessFlags) (name descriptor : String) : Builder Unit := do
  let method ← member flags name descriptor []
  modify fun c => { c with methods := c.methods ++ [method] }

/-- A method without code, flagged native. -/
def addNative (flags : AccessFlags) (name descriptor : String) : Builder Unit :=
  addBodiless (flags.adding AccessFlags.nativeBit) name descriptor

def setSourceFile (file : String) : Builder Unit := do
  let attributeName ← utf8 "SourceFile"
  let index ← utf8 file
  modify fun c => { c with attributes := c.attributes ++ [.leaf attributeName (.sourceFile index)] }

/-- A class file with nothing in it but the unusable first entry of its pool. -/
def blank : ClassFile :=
  { magic := ClassFile.expectedMagic, minorVersion := 0, majorVersion := 52, pool := #[.unusable]
    flags := ⟨AccessFlags.publicBit ||| AccessFlags.superBit⟩
    thisClass := 0, superClass := 0, interfaces := [], fields := [], methods := [], attributes := [] }

/-- Names the class and its super class, which come first in the pool. -/
def start (name : String) (superName : Option String) : Builder Unit := do
  let thisClass ← classRef name
  modify ({ · with thisClass })
  if let some superName := superName then
    let superClass ← classRef superName
    modify ({ · with superClass })

end Builder

/-- The public class `name`, with whatever `steps` add to it. -/
def ClassFile.build (name : String) (superName : Option String) (steps : Builder Unit) : ClassFile :=
  (do Builder.start name superName; steps : Builder Unit).run Builder.blank |>.2

end JavaMachine
