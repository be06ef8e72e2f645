import JavaMachine.ClassFile.Basic
import JavaMachine.Data.BigEndian
import JavaMachine.Text.ModifiedUtf8

/-!
Encoding class files, the inverse of decoding.

The encoding of a structure is the concatenation of the encodings of its parts. Counts and lengths
are written from what they count, reduced to their width.
-/

namespace JavaMachine

namespace Encode

def u8 (v : UInt8) : List UInt8 := [v]
def u16 (v : UInt16) : List UInt8 := BigEndian.ofNat 2 v.toNat
def u32 (v : UInt32) : List UInt8 := BigEndian.ofNat 4 v.toNat
def u64 (v : UInt64) : List UInt8 := BigEndian.ofNat 8 v.toNat

/-- A four-byte length and the bytes. -/
def lengthPrefixed (bytes : List UInt8) : List UInt8 := BigEndian.ofNat 4 bytes.length ++ bytes

/-- A two-byte count and the entries. -/
def table {α : Type} (entry : α → List UInt8) (entries : List α) : List UInt8 :=
  BigEndian.ofNat 2 entries.length ++ entries.flatMap entry

end Encode

open Encode

namespace PoolEntry

/-- The bytes after an entry's tag. -/
def encodeBody : PoolEntry → List UInt8
  | unusable => []
  | utf8 units =>
    let raw := Text.ModifiedUtf8.encode units
    BigEndian.ofNat 2 raw.length ++ raw
  | integer value => u32 value.toUInt32
  | float bits => u32 bits
  | long value => u64 value.toUInt64
  | double bits => u64 bits
  | classRef index | string index => u16 index
  | fieldRef first second | methodRef first second | interfaceMethodRef first second
  | nameAndType first second => u16 first ++ u16 second

/-- An entry is its tag and its body; an unusable entry is not written. -/
def encode (entry : PoolEntry) : List UInt8 :=
  match entry.tag? with
  | some tag => tag :: entry.encodeBody
  | none => []

end PoolEntry

/-- The count, which includes entry 0, and the entries after it. -/
def Pool.encode (pool : Pool) : List UInt8 :=
  BigEndian.ofNat 2 pool.size ++ (pool.toList.drop 1).flatMap PoolEntry.encode

def VerificationType.encode : VerificationType → List UInt8
  | top => [0]
  | integer => [1]
  | float => [2]
  | double => [3]
  | long => [4]
  | null => [5]
  | uninitializedThis => [6]
  | object index => 7 :: u16 index
  | uninitialized offset => 8 :: u16 offset

def StackMapFrame.encode : StackMapFrame → List UInt8
  | same frameType => [frameType]
  | sameOneItem frameType stack => frameType :: stack.encode
  | sameOneItemExtended delta stack => 247 :: u16 delta ++ stack.encode
  | chop frameType delta => frameType :: u16 delta
  | sameExtended delta => 251 :: u16 delta
  | append frameType delta locals =>
    frameType :: u16 delta ++ locals.flatMap VerificationType.encode
  | full delta locals stack =>
    255 :: u16 delta ++ table VerificationType.encode locals
      ++ table VerificationType.encode stack

def HandlerEntry.encode (h : HandlerEntry) : List UInt8 :=
  u16 h.startPc ++ u16 h.endPc ++ u16 h.handlerPc ++ u16 h.catchType

def LineEntry.encode (l : LineEntry) : List UInt8 := u16 l.startPc ++ u16 l.line

def AttributeContent.encode : AttributeContent → List UInt8
  | constantValue index | sourceFile index => u16 index
  | exceptions indices => table u16 indices
  | stackMapTable frames => table StackMapFrame.encode frames
  | lineNumberTable lines => table LineEntry.encode lines
  | other info => info

namespace Attribute

mutual

/-- An attribute: the index of its name, its length and its body. -/
def encode : Attribute → List UInt8
  | code name maxStack maxLocals bytes handlers attributes =>
    u16 name ++ lengthPrefixed
      (u16 maxStack ++ u16 maxLocals ++ lengthPrefixed bytes ++ table HandlerEntry.encode handlers
        ++ BigEndian.ofNat 2 attributes.length ++ encodeEach attributes)
  | leaf name content => u16 name ++ lengthPrefixed content.encode

/-- Attributes one after the other. -/
def encodeEach : List Attribute → List UInt8
  | [] => []
  | first :: rest => first.encode ++ encodeEach rest

end

/-- A table of attributes. -/
def encodeTable (attributes : List Attribute) : List UInt8 :=
  BigEndian.ofNat 2 attributes.length ++ encodeEach attributes

end Attribute

def Member.encode (m : Member) : List UInt8 :=
  u16 m.flags.bits ++ u16 m.nameIndex ++ u16 m.descriptorIndex ++ Attribute.encodeTable m.attributes

/-- The bytes of a class file. -/
def ClassFile.encode (c : ClassFile) : List UInt8 :=
  u32 c.magic ++ u16 c.minorVersion ++ u16 c.majorVersion ++ c.pool.encode ++ u16 c.flags.bits
    ++ u16 c.thisClass ++ u16 c.superClass ++ table u16 c.interfaces
    ++ table Member.encode c.fields ++ table Member.encode c.methods
    ++ Attribute.encodeTable c.attributes

end JavaMachine
