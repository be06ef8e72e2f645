import JavaMachine.ClassFile.FormatError
import JavaMachine.Data.Slot

/-!
What can go wrong while classes are loaded and code runs.

A `Fault` is an error that is reported: a malformed class file, an exception that the machine raises
or the program throws, or something the machine cannot do. A `Failure` is a fault, or one of three
ends that no handler sees: a slot was used outside of its table, the fuel of a bounded run is spent,
or a search of the class hierarchy never ends.
-/

namespace JavaMachine

/-! ### Binary names of the exceptions that the machine raises -/

namespace ExceptionName

def arithmetic := "java/lang/ArithmeticException"
def arrayIndexOutOfBounds := "java/lang/ArrayIndexOutOfBoundsException"
def arrayStore := "java/lang/ArrayStoreException"
def classCast := "java/lang/ClassCastException"
def classCircularity := "java/lang/ClassCircularityError"
def classNotFound := "java/lang/ClassNotFoundException"
def incompatibleClassChange := "java/lang/IncompatibleClassChangeError"
def instantiation := "java/lang/InstantiationError"
def linkage := "java/lang/LinkageError"
def negativeArraySize := "java/lang/NegativeArraySizeException"
def noSuchField := "java/lang/NoSuchFieldError"
def noSuchMethod := "java/lang/NoSuchMethodError"
def nullPointer := "java/lang/NullPointerException"
def stackOverflow := "java/lang/StackOverflowError"
def stackUnderflow := "java/lang/StackUnderflowError"
def unsatisfiedLink := "java/lang/UnsatisfiedLinkError"
def abstractMethod := "java/lang/AbstractMethodError"

end ExceptionName

/-- Code or a caller broke a rule that the machine relies on. -/
inductive InternalError where
  | switchRange (low high : Int32)
  /-- An instruction whose operands do not have its shape. -/
  | badOperands (mnemonic operands : String)
  /-- An instruction that was given to another group than its own. -/
  | wrongGroup (mnemonic : String)
  | argumentSlots (method : String) (expected given : Nat)
  /-- An array instruction on an array of another kind, or on no array. -/
  | wrongArray (mnemonic className : String)
  | notAnArrayClass (className : String)
  | lengthOfNoArray (className : String)
  | arrayTypeCode (code : UInt8)
  | zeroDimensions
  | tooFewDimensions (className : String)
  /-- Raised by a native method. -/
  | native (problem : String)
  deriving DecidableEq, Repr

def InternalError.message : InternalError → String
  | switchRange low high => s!"tableswitch with low {low} above high {high}"
  | badOperands mnemonic operands => s!"{mnemonic} has operands {operands}"
  | wrongGroup mnemonic => s!"{mnemonic} dispatched to the wrong group"
  | argumentSlots method expected given => s!"{method} takes {expected} argument slots, got {given}"
  | wrongArray mnemonic className => s!"{mnemonic} on {className}"
  | notAnArrayClass className => s!"{className} is not an array class"
  | lengthOfNoArray className => s!"arraylength on Object({className})"
  | arrayTypeCode code => s!"invalid newarray type {code}"
  | zeroDimensions => "multianewarray with zero dimensions"
  | tooFewDimensions className => s!"{className} has too few dimensions"
  | native problem => problem

/-- An error that is reported. -/
inductive Fault where
  | classFormat (error : FormatError)
  /-- The machine raises an exception of this class. -/
  | exception (className message : String)
  /-- The program has thrown an object, which looks for a handler. -/
  | thrown (object : Address)
  /-- An exception that left the bottom frame. -/
  | uncaught (className message : String)
  | unknownOpcode (opcode : UInt8) (pc : UInt64)
  | unsupported (feature : String)
  | internal (error : InternalError)
  deriving DecidableEq, Repr

namespace Fault

/-- The wording of a fault; objects are named by their class. -/
def message (className : Address → String) : Fault → String
  | classFormat error => s!"Class format error: {error.message}"
  | exception name message => s!"{name}: {message}"
  | thrown object => s!"thrown {className object}"
  | uncaught name message => s!"Uncaught exception {name}: {message}"
  | unknownOpcode opcode pc => s!"Unknown opcode 0x{Text.hex 2 opcode.toNat} at pc {pc}"
  | unsupported feature => s!"Unsupported: {feature}"
  | internal error => s!"Internal error: {error.message}"

end Fault

/-- How something the machine does can end other than with a result. -/
inductive Failure where
  | fault (fault : Fault)
  /-- A slot outside of an operand stack or a slot table was used. -/
  | outOfRange
  /-- The bound on a run was too small. -/
  | outOfFuel
  /-- A search runs in a circle of classes, and never ends. -/
  | endless
  deriving DecidableEq, Repr

end JavaMachine
