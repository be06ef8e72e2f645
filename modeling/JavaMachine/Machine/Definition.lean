import JavaMachine.ClassFile.Basic
import JavaMachine.Fault
import JavaMachine.Machine.Class
import JavaMachine.Machine.Library

/-!
From a class file to a class.

Every constant of the pool is turned into a run-time constant, names and descriptors of members are
looked up, and methods get their code. The class that results is neither linked nor attached to its
super class and interfaces.
-/

namespace JavaMachine

namespace Definition

open Except

/-- The text of the Utf8 entry at `index`, which has to be one. -/
def text (pool : Pool) (index : UInt16) : Except FormatError String :=
  match pool.text? index with
  | some text => .ok text
  | none => .error (.invalidIndex index .expectedUtf8)

/-- The name of the Class entry at `index`, which has to be one. -/
def className (pool : Pool) (index : UInt16) : Except FormatError String :=
  match pool.className? index with
  | some name => .ok name
  | none => .error (.invalidIndex index .expectedClass)

/-- A reference to a member, unresolved. -/
def memberRef {α : Type} (pool : Pool) (owner nameAndType : UInt16) :
    Except FormatError (MemberRef α) :=
  match pool[nameAndType.toNat]? with
  | some (.nameAndType nameIndex descriptorIndex) => do
    let name ← text pool nameIndex
    let descriptor ← text pool descriptorIndex
    return { owner := ⟨← className pool owner, none⟩, name, descriptor, resolved := none }
  | _ => .error (.invalidIndex nameAndType .expectedNameAndType)

/-- The run-time constant of an entry. -/
def constant (pool : Pool) : PoolEntry → Except FormatError Constant
  | .unusable | .utf8 _ | .nameAndType _ _ => .ok .empty
  | .integer value => .ok (.integer value)
  | .float bits => .ok (.float bits)
  | .long value => .ok (.long value)
  | .double bits => .ok (.double bits)
  | .string index =>
    match pool[index.toNat]? with
    | some (.utf8 units) => .ok (.string units)
    | _ => .error (.invalidIndex index .expectedUtf8)
  | .classRef index => return .classRef ⟨← text pool index, none⟩
  | .fieldRef owner nameAndType => return .field (← memberRef pool owner nameAndType)
  | .methodRef owner nameAndType => return .method (← memberRef pool owner nameAndType)
  | .interfaceMethodRef owner nameAndType =>
    return .interfaceMethod (← memberRef pool owner nameAndType)

/-- One run-time constant per entry. -/
def constants (pool : Pool) : Except FormatError (Array Constant) := pool.mapM (constant pool)

/-- The first constant value attribute. -/
def constantIndex? (m : Member) : Option UInt16 :=
  m.attributes.findSome? fun
    | .leaf _ (.constantValue index) => some index
    | _ => none

def field (pool : Pool) (m : Member) : Except FormatError Field := do
  let name ← text pool m.nameIndex
  let descriptor ← text pool m.descriptorIndex
  return { flags := m.flags, name, descriptor, slot := 0, constantIndex := constantIndex? m }

def handler (entry : HandlerEntry) : Handler :=
  { startPc := entry.startPc, endPc := entry.endPc, handlerPc := entry.handlerPc
    catchType := if entry.catchType = 0 then none else some entry.catchType }

/-- The first line number table. -/
def lines (attributes : List Attribute) : List LineEntry :=
  (attributes.findSome? fun
    | .leaf _ (.lineNumberTable lines) => some lines
    | _ => none).getD []

/-- A method without its code. -/
def bareMethod (owner : ClassId) (pool : Pool) (m : Member) : Except FormatError Method := do
  let name ← text pool m.nameIndex
  let descriptor ← text pool m.descriptorIndex
  match MethodDescriptor.parse descriptor with
  | none => .error (.invalidIndex m.descriptorIndex (.malformedDescriptor descriptor))
  | some parsed =>
    return { owner, flags := m.flags, name, descriptor, parsed, maxStack := 0, maxLocals := 0
             code := #[], handlers := [], lines := [] }

/-- A method. Only a native or abstract one may lack code, and the locals always have room for the
arguments. -/
def method (owner : ClassId) (pool : Pool) (m : Member) : Except FormatError Method := do
  let bare ← bareMethod owner pool m
  let isCode : Attribute → Option Method
    | .code _ maxStack maxLocals code handlers attributes =>
      some { bare with
        maxStack := maxStack.toNat, maxLocals := max maxLocals.toNat bare.argumentSlots
        code := code.toArray, handlers := handlers.map handler, lines := lines attributes }
    | .leaf _ _ => none
  match m.attributes.findSome? isCode with
  | some method => return method
  | none =>
    if m.flags.isNative || m.flags.isAbstract then
      return { bare with maxLocals := bare.argumentSlots }
    else .error (.malformedAttribute "Code" (.noCode bare.name))

/-- The name of the super class; only the root of the hierarchy has none. -/
def superName (name : String) (c : ClassFile) : Except FormatError (Option String) :=
  match c.superName? with
  | some superName => .ok (some superName)
  | none =>
    if name = ClassName.object then .ok none
    else .error (.invalidIndex c.superClass (.noSuperClass name))

/-- The class of a class file, to be known as `id`. -/
def ofClassFile (id : ClassId) (c : ClassFile) : Except FormatError Class :=
  match c.name? with
  | none => .error (.invalidIndex c.thisClass .thisClass)
  | some name => do
    let superName ← superName name c
    let pool ← constants c.pool
    let fields ← c.fields.toArray.mapM (field c.pool)
    let methods ← c.methods.toArray.mapM (method id c.pool)
    return { flags := c.flags, name, superName, interfaceNames :=
      c.interfaceNames, pool, fields, methods
             sourceFile := c.sourceFile?, superClass := none, interfaces := [], component := none
             instanceSlots := 0, staticSlots := 0, statics := .zeros 0
             initStarted := false, linked := false }

/-- An array class: it extends the root, implements the two interfaces of arrays, and needs no
initialization. -/
def arrayClass (name : String) : Class :=
  { flags := ⟨AccessFlags.publicBit ||| AccessFlags.finalBit⟩, name
    superName := some ClassName.object
    interfaceNames := [ClassName.cloneable, ClassName.serializable]
    pool := #[], fields := #[], methods := #[], sourceFile := none
    superClass := none, interfaces := [], component := none
    instanceSlots := 0, staticSlots := 0, statics := .zeros 0
    initStarted := true, linked := false }

end Definition

end JavaMachine
