import JavaMachine.ClassFile.Attribute
import JavaMachine.ClassFile.Access
import JavaMachine.ClassFile.FormatError
import JavaMachine.Descriptor
import JavaMachine.Machine.Object
import JavaMachine.Text.Units

/-!
Classes as the machine runs them: members, run-time constants, and the state that loading, linking and
initialization leave.

Names are text; descriptors are parsed. What a symbolic reference resolves to is kept in the reference.
-/

namespace JavaMachine

/-! ### Names of array classes -/

namespace ArrayName

/-- Whether a name is the one-letter descriptor of a primitive type. -/
def isPrimitive (name : String) : Bool := ["Z", "B", "C", "S", "I", "J", "F", "D"].contains name

/-- Whether a name is the name of an array class. -/
def isArray (name : String) : Bool := name.toList.head? = some '['

/-- The array class whose elements are `component`: a class, an array class or a primitive. -/
def ofComponent (component : String) : String :=
  if isArray component || isPrimitive component then "[" ++ component
  else "[L" ++ component ++ ";"

/-- The component of an array class: a class, an array class or a primitive. -/
def component? (name : String) : Option String :=
  match name.toList with
  | '[' :: 'L' :: rest =>
    if rest.getLast? = some ';' then some (String.ofList rest.dropLast) else none
  | '[' :: rest => some (String.ofList rest)
  | _ => none

end ArrayName

/-! ### Members -/

/-- A field. Its slot, assigned when its class is linked, is an index into the instance fields of
objects or into the static fields of the class. -/
structure Field where
  flags : AccessFlags
  name : String
  descriptor : String
  slot : Nat
  /-- The pool index of the constant that a static final field starts with. -/
  constantIndex : Option UInt16
  deriving DecidableEq, Repr, Inhabited

namespace Field

/-- Long and double fields take two slots. -/
def isWide (f : Field) : Bool :=
  f.descriptor.toList.head? = some 'J' || f.descriptor.toList.head? = some 'D'

def width (f : Field) : Nat := if f.isWide then 2 else 1

/-- The field as diagnostics show it. -/
def describe (f : Field) : String := s!"Field({f.name}:{f.descriptor} @{f.slot})"

end Field

/-- A field of a class, by its place among the class's fields. -/
structure FieldId where
  owner : ClassId
  index : Nat
  deriving DecidableEq, Repr, Inhabited

/-- A range of code that a handler covers. -/
structure Handler where
  startPc : UInt16
  endPc : UInt16
  handlerPc : UInt16
  /-- The pool index of the class it catches; without one it catches everything. -/
  catchType : Option UInt16
  deriving DecidableEq, Repr, Inhabited

/-- The start is covered, the end is not. -/
def Handler.covers (h : Handler) (pc : UInt64) : Bool :=
  h.startPc.toUInt64 ≤ pc && pc < h.endPc.toUInt64

/-- A method. -/
structure Method where
  owner : ClassId
  flags : AccessFlags
  name : String
  descriptor : String
  parsed : MethodDescriptor
  maxStack : Nat
  /-- Size of the local variable table; the arguments always fit. -/
  maxLocals : Nat
  code : Array UInt8
  handlers : List Handler
  lines : List LineEntry
  deriving DecidableEq, Repr, Inhabited

namespace Method

/-- Slots that the arguments take, the receiver of an instance method included. -/
def argumentSlots (m : Method) : Nat :=
  m.parsed.argumentSlots + if m.flags.isStatic then 0 else 1

def isConstructor (m : Method) : Bool := m.name = "<init>"

/-- The later of two entries, by start; of two with the same start the second. -/
def laterEntry (a b : LineEntry) : LineEntry := if a.startPc ≤ b.startPc then b else a

/-- The source line of the instruction at `pc`: that of the last entry that starts at or before it. -/
def line? (m : Method) (pc : Nat) : Option UInt16 :=
  match m.lines.filter (·.startPc.toNat ≤ pc) with
  | first :: rest => some (rest.foldl laterEntry first).line
  | [] => none

end Method

/-! ### Run-time constants -/

/-- A reference to a class by name, with the class once it is resolved. -/
structure ClassRef where
  name : String
  resolved : Option ClassId
  deriving DecidableEq, Repr, Inhabited

/-- A reference to a member: its owner, name and descriptor, with the member once it is resolved. -/
structure MemberRef (α : Type) where
  owner : ClassRef
  name : String
  descriptor : String
  resolved : Option α
  deriving DecidableEq, Repr, Inhabited

/-- The reference as diagnostics show it. -/
def MemberRef.describe {α : Type} (r : MemberRef α) : String :=
  s!"{r.owner.name}.{r.name}:{r.descriptor}"

/-- An entry of a run-time constant pool. Texts and names are folded into the references that use them
and leave empty entries. -/
inductive Constant where
  | empty
  | integer (value : Int32)
  | float (bits : UInt32)
  | long (value : Int64)
  | double (bits : UInt64)
  | string (units : Text.Units)
  | classRef (ref : ClassRef)
  | field (ref : MemberRef FieldId)
  | method (ref : MemberRef Method)
  | interfaceMethod (ref : MemberRef Method)
  deriving DecidableEq, Repr, Inhabited

/-! ### Classes -/

/-- A class. -/
structure Class where
  flags : AccessFlags
  name : String
  superName : Option String
  interfaceNames : List String
  pool : Array Constant
  fields : Array Field
  methods : Array Method
  sourceFile : Option String
  /-- Absent for the root of the hierarchy, and while the class is being defined. -/
  superClass : Option ClassId
  interfaces : List ClassId
  /-- Component class of a reference array, once it has been loaded. -/
  component : Option ClassId
  instanceSlots : Nat
  staticSlots : Nat
  statics : SlotTable
  initStarted : Bool
  linked : Bool
  deriving DecidableEq, Repr, Inhabited

namespace Class

/-- The class as diagnostics show it. -/
def describe (c : Class) : String := s!"Class({c.name})"

/-- The fields of the class as diagnostics show them. -/
def describeFields (c : Class) : String :=
  "[" ++ ", ".intercalate (c.fields.toList.map Field.describe) ++ "]"

def isInterface (c : Class) : Bool := c.flags.isInterface

def isArray (c : Class) : Bool := ArrayName.isArray c.name

/-- The constant at an index. Index 0, the second index of a wide entry and folded entries have none. -/
def constantAt (c : Class) (index : UInt16) : Except FormatError Constant :=
  match c.pool[index.toNat]? with
  | none | some .empty => .error (.invalidIndex index .noConstant)
  | some constant => .ok constant

/-- The method that the class itself declares. -/
def method? (c : Class) (name descriptor : String) : Option Method :=
  c.methods.find? fun m => m.name = name && m.descriptor = descriptor

def staticMethod? (c : Class) (name descriptor : String) : Option Method :=
  (c.method? name descriptor).filter (·.flags.isStatic)

/-- The place of the field that the class itself declares. -/
def fieldIndex? (c : Class) (name descriptor : String) : Option Nat :=
  c.fields.findIdx? fun f => f.name = name && f.descriptor = descriptor

/-- The initializer of the class. -/
def initializer? (c : Class) : Option Method := c.staticMethod? "<clinit>" "()V"

/-- The method that a program starts with. -/
def main? (c : Class) : Option Method := c.staticMethod? "main" "([Ljava/lang/String;)V"

end Class

end JavaMachine
