import JavaMachine.ClassFile.Encode

/-!
Well-formed class files.

What a class file has to satisfy for its bytes to mean what it says: indices point at entries of the
right kind, attributes are the ones their names select, frames of stack maps have types in the range of
their kind, and every count and length fits the field that it is written to.
-/

namespace JavaMachine

namespace Pool

/-- The entry at `index` exists and is of the wanted kind. -/
def Points (pool : Pool) (index : UInt16) (wanted : PoolEntry → Bool) : Prop :=
  ∃ entry, pool[index.toNat]? = some entry ∧ wanted entry = true

end Pool

/-- The indices that an entry stores point at entries of the kinds that it requires. -/
def PoolEntry.IndicesIn (pool : Pool) : PoolEntry → Prop
  | .classRef name => pool.Points name PoolEntry.isUtf8
  | .string units => pool.Points units PoolEntry.isUtf8
  | .fieldRef owner signature | .methodRef owner signature | .interfaceMethodRef owner signature =>
    pool.Points owner PoolEntry.isClass ∧ pool.Points signature PoolEntry.isNameAndType
  | .nameAndType name descriptor =>
    pool.Points name PoolEntry.isUtf8 ∧ pool.Points descriptor PoolEntry.isUtf8
  | _ => True

/-- The text of a Utf8 entry fits the two-byte length that it is written with. -/
def PoolEntry.Fits : PoolEntry → Prop
  | .utf8 units => (Text.ModifiedUtf8.encode units).length < UInt16.size
  | _ => True

/-- A pool as the format counts it: the entry after a wide one is unusable, and apart from entry 0 no
other entry is. -/
structure Pool.WellFormed (pool : Pool) : Prop where
  size_lt : pool.size < UInt16.size
  first : pool[0]? = some .unusable
  wide : ∀ i entry, pool[i]? = some entry → entry.isWide = true → pool[i + 1]? = some .unusable
  unusable : ∀ i, pool[i + 1]? = some .unusable → ∃ entry, pool[i]? = some entry ∧ entry.isWide = true
  fits : ∀ entry ∈ pool.toList, entry.Fits
  indices : ∀ entry ∈ pool.toList, entry.IndicesIn pool

/-- The type of a frame lies in the range of its kind, an appending frame has the locals that its type
counts, and the lists of a full frame fit their counts. -/
def StackMapFrame.WellFormed : StackMapFrame → Prop
  | .same frameType => frameType ≤ 63
  | .sameOneItem frameType _ => 64 ≤ frameType ∧ frameType ≤ 127
  | .sameOneItemExtended _ _ | .sameExtended _ => True
  | .chop frameType _ => 248 ≤ frameType ∧ frameType ≤ 250
  | .append frameType _ locals => 252 ≤ frameType ∧ frameType ≤ 254 ∧
      locals.length = frameType.toNat - 251
  | .full _ locals stack => locals.length < UInt16.size ∧ stack.length < UInt16.size

namespace AttributeContent

/-- The name that selects the content; content that is kept as it is has any other name. -/
def name? : AttributeContent → Option String
  | constantValue _ => some "ConstantValue"
  | sourceFile _ => some "SourceFile"
  | exceptions _ => some "Exceptions"
  | stackMapTable _ => some "StackMapTable"
  | lineNumberTable _ => some "LineNumberTable"
  | other _ => none

/-- The tables of the content fit their counts. -/
def Fits : AttributeContent → Prop
  | exceptions indices => indices.length < UInt16.size
  | stackMapTable frames => frames.length < UInt16.size ∧ ∀ frame ∈ frames, frame.WellFormed
  | lineNumberTable lines => lines.length < UInt16.size
  | constantValue _ | sourceFile _ | other _ => True

end AttributeContent

namespace Attribute

/-- The names of the attributes that are decoded. -/
def decodedNames : List String :=
  ["Code", "ConstantValue", "SourceFile", "Exceptions", "StackMapTable", "LineNumberTable"]

/-- An attribute with the name `name` may hold `content`. -/
def Selects (name : String) (content : AttributeContent) : Prop :=
  match content.name? with
  | some own => name = own
  | none => name ∉ decodedNames

/-- The bytes of a code attribute after its length. -/
def encodeCode (maxStack maxLocals : UInt16) (code : List UInt8) (handlers : List HandlerEntry)
    (attributes : List Attribute) : List UInt8 :=
  Encode.u16 maxStack ++ Encode.u16 maxLocals ++ Encode.lengthPrefixed code
    ++ Encode.table HandlerEntry.encode handlers ++ encodeTable attributes

/-- Attributes that their names select and whose parts fit their counts and lengths, at every depth. -/
inductive WellFormed (pool : Pool) : Attribute → Prop where
  | code {nameIndex maxStack maxLocals code handlers attributes}
      (named : pool.text? nameIndex = some "Code") (nonempty : code ≠ [])
      (code_lt : code.length < UInt32.size) (handlers_lt : handlers.length < UInt16.size)
      (attributes_lt : attributes.length < UInt16.size)
      (nested : ∀ a ∈ attributes, WellFormed pool a)
      (body_lt : (encodeCode maxStack maxLocals code handlers attributes).length < UInt32.size) :
      WellFormed pool (.code nameIndex maxStack maxLocals code handlers attributes)
  | leaf {nameIndex content name} (named : pool.text? nameIndex = some name)
      (selects : Selects name content) (fits : content.Fits)
      (body_lt : content.encode.length < UInt32.size) :
      WellFormed pool (.leaf nameIndex content)

/-- A table of well-formed attributes that fits its count. -/
def TableWellFormed (pool : Pool) (attributes : List Attribute) : Prop :=
  attributes.length < UInt16.size ∧ ∀ a ∈ attributes, a.WellFormed pool

end Attribute

/-- A member whose name and descriptor are Utf8 entries. -/
structure Member.WellFormed (pool : Pool) (m : Member) : Prop where
  name : pool.Points m.nameIndex PoolEntry.isUtf8
  descriptor : pool.Points m.descriptorIndex PoolEntry.isUtf8
  attributes : Attribute.TableWellFormed pool m.attributes

/-- A well-formed class file. -/
structure ClassFile.WellFormed (c : ClassFile) : Prop where
  magic : c.magic = expectedMagic
  version : 45 ≤ c.majorVersion ∧ c.majorVersion ≤ 53
  pool : c.pool.WellFormed
  thisClass : c.pool.Points c.thisClass PoolEntry.isClass
  superClass : c.superClass ≠ 0 → c.pool.Points c.superClass PoolEntry.isClass
  interfaces : ∀ index ∈ c.interfaces, c.pool.Points index PoolEntry.isClass
  interfaces_lt : c.interfaces.length < UInt16.size
  fields_lt : c.fields.length < UInt16.size
  fields : ∀ field ∈ c.fields, field.WellFormed c.pool
  methods_lt : c.methods.length < UInt16.size
  methods : ∀ method ∈ c.methods, method.WellFormed c.pool
  attributes : Attribute.TableWellFormed c.pool c.attributes

namespace Pool

theorem isUtf8_iff {entry : PoolEntry} : entry.isUtf8 = true ↔ ∃ units, entry = .utf8 units := by
  cases entry <;> simp [PoolEntry.isUtf8]

theorem isClass_iff {entry : PoolEntry} : entry.isClass = true ↔ ∃ name, entry = .classRef name := by
  cases entry <;> simp [PoolEntry.isClass]

theorem points_isUtf8_iff {pool : Pool} {index : UInt16} :
    pool.Points index PoolEntry.isUtf8 ↔ ∃ name, pool.text? index = some name := by
  unfold Points text?
  constructor
  · rintro ⟨entry, hentry, hkind⟩
    obtain ⟨units, rfl⟩ := isUtf8_iff.mp hkind
    exact ⟨_, by rw [hentry]⟩
  · rintro ⟨name, h⟩
    split at h
    · exact ⟨_, by assumption, rfl⟩
    · cases h

/-- In a well-formed pool a Class entry has a name. -/
theorem WellFormed.points_isClass_iff {pool : Pool} (h : pool.WellFormed) {index : UInt16} :
    pool.Points index PoolEntry.isClass ↔ (pool.className? index).isSome = true := by
  unfold Points className?
  constructor
  · rintro ⟨entry, hentry, hkind⟩
    obtain ⟨name, rfl⟩ := isClass_iff.mp hkind
    have hmem : PoolEntry.classRef name ∈ pool.toList :=
      List.mem_of_getElem? (by rwa [Array.getElem?_toList])
    have hpoints : pool.Points name PoolEntry.isUtf8 := h.indices _ hmem
    obtain ⟨text, htext⟩ := points_isUtf8_iff.mp hpoints
    simp only [hentry, htext, Option.isSome_some]
  · intro hsome
    split at hsome
    · exact ⟨_, by assumption, rfl⟩
    · cases hsome

end Pool

end JavaMachine
