import JavaMachine.ClassFile.Basic
import JavaMachine.ClassFile.ByteReader
import JavaMachine.Text.ModifiedUtf8

/-!
Decoding class files.

The parts come in the order the format lays them out: magic and version, constant pool, flags, this
and super class, interfaces, fields, methods, attributes. The answer is a whole class file or the
first structural error. Indices inside the pool are checked when the pool has been read, the class
indices at the very end.
-/

namespace JavaMachine

open ByteReader

namespace Pool

/-- One entry, which will stand at `index`. -/
def readEntry (index : UInt16) : ByteReader PoolEntry := do
  let tag ← u8
  match tag with
  | 1 => do
    let length ← u16
    let raw ← bytes length.toNat
    match Text.ModifiedUtf8.decode raw with
    | some units => return .utf8 units
    | none => throw (.invalidUtf8 index)
  | 3 => return .integer (← u32).toInt32
  | 4 => return .float (← u32)
  | 5 => return .long (← u64).toInt64
  | 6 => return .double (← u64)
  | 7 => return .classRef (← u16)
  | 8 => return .string (← u16)
  | 9 => return .fieldRef (← u16) (← u16)
  | 10 => return .methodRef (← u16) (← u16)
  | 11 => return .interfaceMethodRef (← u16) (← u16)
  | 12 => return .nameAndType (← u16) (← u16)
  | _ => throw (.unsupportedTag tag index)

/-- How far a pool is read: the index of the next entry, and the entries before it. -/
structure Progress where
  index : UInt16
  entries : Pool
  deriving DecidableEq, Repr

namespace Progress

/-- One entry more. -/
def add (p : Progress) (entry : PoolEntry) : Progress := ⟨p.index + 1, p.entries.push entry⟩

@[simp]
theorem entries_add (p : Progress) (entry : PoolEntry) :
    (p.add entry).entries = p.entries.push entry := rfl

/-- Below a count there is a next index, which does not wrap around. -/
theorem index_add {p : Progress} {count : UInt16} {entry : PoolEntry} (left : p.index < count) :
    p.index < (p.add entry).index ∧ (p.add entry).index ≤ count := by
  have hcount := count.toNat_lt
  rw [UInt16.lt_iff_toNat_lt] at left ⊢
  rw [UInt16.le_iff_toNat_le, add, UInt16.toNat_add, UInt16.toNat_one]
  omega

/-- One iteration: reads the entry at the next index, and puts an unusable one behind a wide entry.
The index comes closer to the count. -/
def advance (count : UInt16) (p : Progress) (left : p.index < count) :
    ByteReader { next : Progress // p.index < next.index ∧ next.index ≤ count } := do
  let entry ← readEntry p.index
  if entry.isWide then
    if room : (p.add entry).index < count then
      return ⟨(p.add entry).add .unusable,
        UInt16.lt_trans (index_add left).1 (index_add room).1, (index_add room).2⟩
    else throw (.invalidIndex (p.add entry).index .wideOverrun)
  else return ⟨p.add entry, index_add left⟩

end Progress

/-- Reads entries until the index has reached the count. -/
def readFrom (count : UInt16) (p : Progress) : ByteReader Pool :=
  if left : p.index < count then do
    let next ← p.advance count left
    readFrom count next.val
  else return p.entries
termination_by count.toNat - p.index.toNat
decreasing_by
  have hnext := UInt16.lt_iff_toNat_lt.mp next.property.1
  have hleft := UInt16.lt_iff_toNat_lt.mp left
  omega

/-- Checks that `index` points at an entry of the wanted kind. -/
def check (pool : Pool) (index : UInt16) (wanted : PoolEntry → Bool) (problem : IndexProblem) :
    Except FormatError Unit :=
  if (pool[index.toNat]?).any wanted then .ok () else .error (.invalidIndex index problem)

/-- Checks the indices that an entry stores. -/
def checkEntry (pool : Pool) : PoolEntry → Except FormatError Unit
  | .classRef name => pool.check name PoolEntry.isUtf8 .expectedUtf8
  | .string units => pool.check units PoolEntry.isUtf8 .expectedUtf8
  | .fieldRef owner nameAndType | .methodRef owner nameAndType
  | .interfaceMethodRef owner nameAndType => do
    pool.check owner PoolEntry.isClass .expectedClass
    pool.check nameAndType PoolEntry.isNameAndType .expectedNameAndType
  | .nameAndType name descriptor => do
    pool.check name PoolEntry.isUtf8 .expectedUtf8
    pool.check descriptor PoolEntry.isUtf8 .expectedUtf8
  | _ => .ok ()

/-- Checks every entry, in order. -/
def checkAll (pool : Pool) : Except FormatError Unit := pool.toList.forM pool.checkEntry

/-- The whole pool: its count, its entries, and the check of their indices. -/
def read : ByteReader Pool := do
  let count ← u16
  let pool ← readFrom count ⟨1, #[.unusable]⟩
  ofChecked pool.checkAll
  return pool

end Pool

def VerificationType.read : ByteReader VerificationType := do
  let tag ← u8
  match tag with
  | 0 => return .top
  | 1 => return .integer
  | 2 => return .float
  | 3 => return .double
  | 4 => return .long
  | 5 => return .null
  | 6 => return .uninitializedThis
  | 7 => return .object (← u16)
  | 8 => return .uninitialized (← u16)
  | _ => throw (.malformedAttribute "StackMapTable" (.unknownVerificationType tag))

/-- The frame type says which kind of frame follows; 128 to 246 are reserved. -/
def StackMapFrame.read : ByteReader StackMapFrame := do
  let frameType ← u8
  if frameType ≤ 63 then return .same frameType
  else if frameType ≤ 127 then return .sameOneItem frameType (← VerificationType.read)
  else if frameType ≤ 246 then
    throw (.malformedAttribute "StackMapTable" (.reservedFrameType frameType))
  else if frameType = 247 then
    return .sameOneItemExtended (← u16) (← VerificationType.read)
  else if frameType ≤ 250 then return .chop frameType (← u16)
  else if frameType = 251 then return .sameExtended (← u16)
  else if frameType ≤ 254 then
    return .append frameType (← u16) (← times (frameType.toNat - 251) VerificationType.read)
  else return .full (← u16) (← table VerificationType.read) (← table VerificationType.read)

def HandlerEntry.read : ByteReader HandlerEntry := do
  return { startPc := ← u16, endPc := ← u16, handlerPc := ← u16, catchType := ← u16 }

def LineEntry.read : ByteReader LineEntry := do
  return { startPc := ← u16, line := ← u16 }

namespace Attribute

/-- Runs a reader on the body of the attribute `name`, which it has to use up. -/
def readBody {α : Type} (name : String) (body : List UInt8) (reader : ByteReader α) :
    ByteReader α :=
  onBytes body do
    let value ← reader
    if (← remaining) = 0 then return value
    else throw (.malformedAttribute name .lengthMismatch)

/-- The body of a code attribute; `nested` reads the attributes at its end. -/
def readCode (nameIndex : UInt16) (nested : ByteReader (List Attribute)) :
    ByteReader Attribute := do
  let maxStack ← u16
  let maxLocals ← u16
  let code ← lengthPrefixed
  if code.isEmpty then throw (.malformedAttribute "Code" .emptyCode)
  let handlers ← table HandlerEntry.read
  return .code nameIndex maxStack maxLocals code handlers (← nested)

/-- One attribute: the index of its name, its length and its body. `nested` reads the attributes of a
code attribute. -/
def readOne (pool : Pool) (nested : ByteReader (List Attribute)) : ByteReader Attribute := do
  let nameIndex ← u16
  match pool.text? nameIndex with
  | none => throw (.invalidIndex nameIndex .attributeName)
  | some name =>
    let info ← lengthPrefixed
    let leaf (reader : ByteReader AttributeContent) : ByteReader Attribute :=
      readBody name info (.leaf nameIndex <$> reader)
    match name with
    | "Code" => readBody name info (readCode nameIndex nested)
    | "ConstantValue" => leaf (.constantValue <$> u16)
    | "SourceFile" => leaf (.sourceFile <$> u16)
    | "Exceptions" => leaf (.exceptions <$> table u16)
    | "StackMapTable" => leaf (.stackMapTable <$> table StackMapFrame.read)
    | "LineNumberTable" => leaf (.lineNumberTable <$> table LineEntry.read)
    | _ => return .leaf nameIndex (.other info)

/-- A table of attributes, code nested at most `depth` deep. Nothing is deeper than the input is
long: at depth 0 the input is empty and reading the count fails. -/
def readAll (pool : Pool) : (depth : Nat) → ByteReader (List Attribute)
  | 0 => do
    let _ ← u16
    return []
  | depth + 1 => table (readOne pool (readAll pool depth))

end Attribute

namespace Member

/-- A field or method, its attributes nested at most `depth` deep. Its name and descriptor are checked
before its attributes are read. -/
def read (pool : Pool) (depth : Nat) : ByteReader Member := do
  let flags ← u16
  let nameIndex ← u16
  let descriptorIndex ← u16
  ofChecked (pool.check nameIndex PoolEntry.isUtf8 .memberName)
  ofChecked (pool.check descriptorIndex PoolEntry.isUtf8 .memberName)
  return { flags := ⟨flags⟩, nameIndex, descriptorIndex, attributes := ← Attribute.readAll pool depth }

end Member

namespace ClassFile

/-- Checks that `index` names a class. -/
def checkClass (pool : Pool) (index : UInt16) : Except FormatError Unit :=
  if (pool.className? index).isSome then .ok () else .error (.invalidIndex index .expectedClass)

/-- Checks this class, the super class if there is one, and the interfaces. -/
def checkClasses (c : ClassFile) : Except FormatError Unit := do
  checkClass c.pool c.thisClass
  if c.superClass ≠ 0 then checkClass c.pool c.superClass
  c.interfaces.forM (checkClass c.pool)

/-- Magic and version, with the version as minor and major. -/
def readHeader : ByteReader (UInt16 × UInt16) := do
  let magic ← u32
  if magic ≠ expectedMagic then throw (.invalidMagic magic)
  let minorVersion ← u16
  let majorVersion ← u16
  if isSupported majorVersion then return (minorVersion, majorVersion)
  else throw (.unsupportedVersion majorVersion minorVersion)

/-- A class file that takes up the whole input. -/
def read : ByteReader ClassFile := do
  let (minorVersion, majorVersion) ← readHeader
  let pool ← Pool.read
  let depth ← remaining
  let flags ← u16
  let thisClass ← u16
  let superClass ← u16
  let interfaces ← table u16
  let fields ← table (Member.read pool depth)
  let methods ← table (Member.read pool depth)
  let attributes ← Attribute.readAll pool depth
  let left ← remaining
  if left ≠ 0 then throw (.trailingBytes left)
  let c : ClassFile :=
    { magic := expectedMagic, minorVersion, majorVersion, pool, flags := ⟨flags⟩, thisClass,
      superClass, interfaces, fields, methods, attributes }
  ofChecked c.checkClasses
  return c

/-- Decodes a class file. -/
def decode (bytes : List UInt8) : Except FormatError ClassFile :=
  (read.run (.ofBytes bytes)).1

end ClassFile

end JavaMachine
