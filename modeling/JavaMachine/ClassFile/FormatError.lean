import JavaMachine.Text.Hex

/-!
What can be structurally wrong with a class file.

Each error is its cause; `FormatError.message` is the one place that words it. Problems with a pool
index and problems with an attribute have causes of their own.
-/

namespace JavaMachine

/-- What an index into the constant pool should have pointed at. -/
inductive IndexProblem where
  /-- A long or double entry at the last index of the pool. -/
  | wideOverrun
  | expectedUtf8
  | expectedClass
  | expectedNameAndType
  | expectedField
  | expectedMethod
  | attributeName
  | memberName
  | thisClass
  | noSuperClass (className : String)
  | malformedDescriptor (descriptor : String)
  /-- No value at run time: index 0, the second index of a wide entry, or a folded entry. -/
  | noConstant
  | notLoadable (mnemonic : String)
  deriving DecidableEq, Repr

def IndexProblem.message : IndexProblem → String
  | wideOverrun => "wide constant overruns the pool"
  | expectedUtf8 => "expected Utf8"
  | expectedClass => "expected Class"
  | expectedNameAndType => "expected NameAndType"
  | expectedField => "expected Fieldref"
  | expectedMethod => "expected Methodref"
  | attributeName => "attribute name must be Utf8"
  | memberName => "member name and descriptor must be Utf8"
  | thisClass => "this_class is not a Class constant"
  | noSuperClass className => s!"{className} has no super class"
  | malformedDescriptor descriptor => s!"malformed method descriptor {descriptor}"
  | noConstant => "no runtime constant at index"
  | notLoadable mnemonic => s!"not loadable by {mnemonic}"

/-- What is wrong inside of an attribute. -/
inductive AttributeProblem where
  | emptyCode
  | lengthMismatch
  | unknownVerificationType (tag : UInt8)
  | reservedFrameType (frameType : UInt8)
  | notConstant (fieldName : String)
  | noCode (methodName : String)
  deriving DecidableEq, Repr

def AttributeProblem.message : AttributeProblem → String
  | emptyCode => "empty code array"
  | lengthMismatch => "length does not match contents"
  | unknownVerificationType tag => s!"unknown verification type {tag}"
  | reservedFrameType frameType => s!"reserved frame type {frameType}"
  | notConstant fieldName => s!"field {fieldName} points at a non-constant entry"
  | noCode methodName => s!"method {methodName} has no code"

/-- The first structural error of a class file. -/
inductive FormatError where
  /-- The first four bytes are not CAFEBABE. -/
  | invalidMagic (actual : UInt32)
  | unsupportedVersion (major minor : UInt16)
  /-- A pool tag that is unknown or not implemented. -/
  | unsupportedTag (tag : UInt8) (index : UInt16)
  | invalidIndex (index : UInt16) (problem : IndexProblem)
  /-- The input ended inside of something that began at `offset`. -/
  | truncated (offset : Nat)
  | trailingBytes (count : Nat)
  | malformedAttribute (name : String) (problem : AttributeProblem)
  /-- A pool string that is no modified UTF-8. -/
  | invalidUtf8 (index : UInt16)
  deriving DecidableEq, Repr

def FormatError.message : FormatError → String
  | invalidMagic actual => s!"Invalid magic: expected CAFEBABE, got {Text.hex 8 actual.toNat}"
  | unsupportedVersion major minor => s!"Unsupported class file version {major}.{minor}"
  | unsupportedTag tag index => s!"Unsupported constant pool tag {tag} at index {index}"
  | invalidIndex index problem => s!"Invalid constant pool index {index}: {problem.message}"
  | truncated offset => s!"Truncated class file at offset {offset}"
  | trailingBytes count => s!"Trailing {count} bytes after class file"
  | malformedAttribute name problem => s!"Malformed {name} attribute: {problem.message}"
  | invalidUtf8 index => s!"Invalid modified UTF-8 at constant pool index {index}"

end JavaMachine
