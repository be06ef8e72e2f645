import JavaMachine.ClassFile.Access
import JavaMachine.ClassFile.Attribute
import JavaMachine.ClassFile.PoolEntry

/-!
The structure of a class file, as its indices have it.
-/

namespace JavaMachine

/-- A field or a method. -/
structure Member where
  flags : AccessFlags
  nameIndex : UInt16
  descriptorIndex : UInt16
  attributes : List Attribute
  deriving DecidableEq, Repr, Inhabited

/-- A class file. The super class index is 0 only for the root of the hierarchy. -/
structure ClassFile where
  magic : UInt32
  minorVersion : UInt16
  majorVersion : UInt16
  pool : Pool
  flags : AccessFlags
  thisClass : UInt16
  superClass : UInt16
  interfaces : List UInt16
  fields : List Member
  methods : List Member
  attributes : List Attribute
  deriving DecidableEq, Repr, Inhabited

namespace ClassFile

/-- The four bytes that start every class file. -/
def expectedMagic : UInt32 := 0xCAFEBABE

/-- The class file versions that are read. -/
def isSupported (majorVersion : UInt16) : Bool := 45 ≤ majorVersion && majorVersion ≤ 53

/-- Binary name of the class. -/
def name? (c : ClassFile) : Option String := c.pool.className? c.thisClass

/-- Binary name of the super class. -/
def superName? (c : ClassFile) : Option String :=
  if c.superClass = 0 then none else c.pool.className? c.superClass

/-- The names of the interfaces; an index that names no class is passed over. -/
def interfaceNames (c : ClassFile) : List String := c.interfaces.filterMap c.pool.className?

/-- The file named by the first SourceFile attribute. -/
def sourceFile? (c : ClassFile) : Option String :=
  (c.attributes.findSome? fun
    | .leaf _ (.sourceFile fileIndex) => some fileIndex
    | _ => none).bind c.pool.text?

end ClassFile

end JavaMachine
