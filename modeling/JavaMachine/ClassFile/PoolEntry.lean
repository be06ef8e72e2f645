import JavaMachine.Text.Units

/-!
Entries of the constant pool.

The pool is indexed as the class file counts it: entry 0 and the second index of a long or double
hold `unusable`. Floating-point values are kept as their bits, and strings as code units, so that a
pool is written back exactly as it was read.
-/

namespace JavaMachine

/-- One entry of the constant pool. -/
inductive PoolEntry where
  | unusable
  | utf8 (units : Text.Units)
  | integer (value : Int32)
  | float (bits : UInt32)
  | long (value : Int64)
  | double (bits : UInt64)
  | classRef (nameIndex : UInt16)
  | string (unitsIndex : UInt16)
  | fieldRef (classIndex nameAndTypeIndex : UInt16)
  | methodRef (classIndex nameAndTypeIndex : UInt16)
  | interfaceMethodRef (classIndex nameAndTypeIndex : UInt16)
  | nameAndType (nameIndex descriptorIndex : UInt16)
  deriving DecidableEq, Repr, Inhabited

namespace PoolEntry

/-- Long and double entries take two indices. -/
def isWide : PoolEntry → Bool
  | long _ | double _ => true
  | _ => false

def isUtf8 : PoolEntry → Bool
  | utf8 _ => true
  | _ => false

def isClass : PoolEntry → Bool
  | classRef _ => true
  | _ => false

def isNameAndType : PoolEntry → Bool
  | nameAndType _ _ => true
  | _ => false

/-- The byte that starts an entry; an unusable entry is not written. -/
def tag? : PoolEntry → Option UInt8
  | unusable => none
  | utf8 _ => some 1
  | integer _ => some 3
  | float _ => some 4
  | long _ => some 5
  | double _ => some 6
  | classRef _ => some 7
  | string _ => some 8
  | fieldRef _ _ => some 9
  | methodRef _ _ => some 10
  | interfaceMethodRef _ _ => some 11
  | nameAndType _ _ => some 12

end PoolEntry

/-- A constant pool, indexed as in the class file. -/
abbrev Pool := Array PoolEntry

namespace Pool

/-- The text of the Utf8 entry at `index`. -/
def text? (pool : Pool) (index : UInt16) : Option String :=
  match pool[index.toNat]? with
  | some (.utf8 units) => some (Text.text units)
  | _ => none

/-- The name of the Class entry at `index`. -/
def className? (pool : Pool) (index : UInt16) : Option String :=
  match pool[index.toNat]? with
  | some (.classRef nameIndex) => text? pool nameIndex
  | _ => none

end Pool

end JavaMachine
