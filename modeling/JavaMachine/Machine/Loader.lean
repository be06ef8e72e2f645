import JavaMachine.ClassFile.Decode
import JavaMachine.Machine.Definition
import JavaMachine.Machine.Hierarchy
import JavaMachine.Machine.Layout

/-!
Finding, defining and linking classes, and making strings.

A class is searched among the loaded classes, in the directories in their order, and in the built-in
library; array classes are made as needed. While a class is being defined its name is already bound, so
that a class which reaches itself through its super classes or interfaces finds itself unlinked and
is refused. If a definition fails, the name is unbound again.

Defining a class loads others. The definitions below take the loading of those as an argument;
`loadWithin` ties the knot with a bound on the nesting, and `Machine.nesting` is a bound that is never
reached: nested definitions bind different names, each from a file or from the library, and
at most one array class stands between two of them.
-/

namespace JavaMachine

namespace Loader

open VM

/-- A way to get the class of a name. -/
abbrev Load := String → VM ClassId

/-! ### Strings -/

/-- A new string object with the given units. -/
def stringOfUnits (load : Load) (units : Text.Units) : VM Address := do
  let stringClass ← load ClassName.string
  let charsClass ← load "[C"
  let m ← get
  match ← ofSearch (m.fieldSearch stringClass "value" "[C") with
  | none => raise ExceptionName.noSuchField "java/lang/String.value:[C"
  | some field =>
    let chars ← allocate ⟨charsClass, .chars units.toArray⟩
    let string ← newObject stringClass
    setField string (m.fieldAt field).slot (.ref (some chars))
    return string

/-- The string object of a literal, the same one for the same units. -/
def intern (load : Load) (units : Text.Units) : VM Address := do
  match (← get).literals.lookup units with
  | some string => return string
  | none =>
    let string ← stringOfUnits load units
    bindLiteral units string
    return string

/-! ### Linking -/

/-- Writes a value into a static field. -/
def setStatic (id : ClassId) (slot : Nat) (value : Value) : VM Unit := do
  let statics ← inRange ((← cls id).statics.setValue? slot value)
  modifyClass id ({ · with statics })

/-- Gives a static final field its constant. The kind of the constant decides how it is stored. -/
def initializeField (load : Load) (id : ClassId) (field : Field) (index : UInt16) : VM Unit := do
  match ← ofFormat ((← cls id).constantAt index) with
  | .integer value => setStatic id field.slot (.int value)
  | .float bits => setStatic id field.slot (.float bits)
  | .long value => setStatic id field.slot (.long value)
  | .double bits => setStatic id field.slot (.double bits)
  | .string units => setStatic id field.slot (.reference (some (← intern load units)))
  | _ => fail (.classFormat (.malformedAttribute "ConstantValue" (.notConstant field.name)))

/-- Lays out the fields of a class whose super class is attached, and gives constants their values. -/
def link (load : Load) (id : ClassId) : VM Unit := do
  let inherited ← match (← cls id).superClass with
    | some superClass => pure (← cls superClass).instanceSlots
    | none => pure 0
  modifyClass id (·.layOut inherited)
  (← cls id).constantFields.forM fun (field, index) => initializeField load id field index
  modifyClass id ({ · with linked := true })

/-! ### Definition -/

/-- Loads a class that the class `className` extends or implements. It has to be linked already. -/
def loadLinked (load : Load) (className name : String) : VM ClassId := do
  let id ← load name
  if (← cls id).linked then return id
  else raise ExceptionName.classCircularity s!"{className} reaches itself through {name}"

/-- Loads and attaches the super class, which may not be an interface. -/
def attachSuper (load : Load) (id : ClassId) : VM Unit := do
  let c ← cls id
  match c.superName with
  | none => return ()
  | some name =>
    let superClass ← loadLinked load c.name name
    if (← cls superClass).isInterface then
      raise ExceptionName.incompatibleClassChange s!"{c.name} has interface {name} as super class"
    modifyClass id ({ · with superClass := some superClass })

/-- Loads one of the interfaces of a class. -/
def loadInterface (load : Load) (className name : String) : VM ClassId := do
  let interface ← loadLinked load className name
  if (← cls interface).isInterface then return interface
  else raise ExceptionName.incompatibleClassChange s!"{className} implements non-interface {name}"

/-- Loads and attaches the interfaces. -/
def attachInterfaces (load : Load) (id : ClassId) : VM Unit := do
  let c ← cls id
  let interfaces ← c.interfaceNames.mapM (loadInterface load c.name)
  modifyClass id ({ · with interfaces })

/-- What is left to do for a class once its name is bound. -/
def complete (load : Load) (id : ClassId) : VM Unit := do
  attachSuper load id
  attachInterfaces load id
  link load id

/-- Defines the class of a class file. A name is defined once. -/
def define (load : Load) (file : ClassFile) : VM ClassId := do
  let m ← get
  let c ← ofFormat (Definition.ofClassFile m.nextClassId file)
  if m.isLoaded c.name then raise ExceptionName.linkage s!"duplicate class definition: {c.name}"
  let id ← addClass c
  bindName c.name id
  match ← attempt (complete load id) with
  | .ok () => return id
  | .error fault =>
    unbindName c.name
    fail fault

/-- Defines the class that some bytes encode. -/
def defineBytes (load : Load) (bytes : List UInt8) : VM ClassId := do
  define load (← ofFormat (ClassFile.decode bytes))

/-- Makes an array class. The component is not loaded for it. -/
def defineArray (load : Load) (name : String) : VM ClassId := do
  if (FieldType.parse name).isNone then raise ExceptionName.classNotFound name
  let superClass ← load ClassName.object
  let interfaces ← [ClassName.cloneable, ClassName.serializable].mapM load
  let id ← addClass { Definition.arrayClass name with superClass := some superClass, interfaces }
  link load id
  bindName name id
  return id

/-- The class of a name, with at most so many loads inside of each other. -/
def loadWithin : (nesting : Nat) → Load
  | 0, _ => throw .outOfFuel
  | nesting + 1, name => do
    let m ← get
    match m.lookup? name with
    | some id => return id
    | none =>
      if ArrayName.isArray name then defineArray (loadWithin nesting) name
      else match m.classFile? name with
        | some bytes => defineBytes (loadWithin nesting) bytes
        | none => match Library.find? name with
          | some file => define (loadWithin nesting) file
          | none => raise ExceptionName.classNotFound name

end Loader

/-- More loads than can be inside of each other. -/
def Machine.nesting (m : Machine) : Nat :=
  let files := m.directories.foldr (fun d count => d.files.length + count) 0
  2 * (files + Library.names.length) + 4

namespace VM

/-- The class of a name, loaded if need be. -/
def load (name : String) : VM ClassId := do Loader.loadWithin (← get).nesting name

/-- Defines the class of a class file. -/
def define (file : ClassFile) : VM ClassId := Loader.define load file

/-- Defines the class that some bytes encode. -/
def defineBytes (bytes : List UInt8) : VM ClassId := Loader.defineBytes load bytes

/-- A new string object with the given units. -/
def stringOfUnits (units : Text.Units) : VM Address := Loader.stringOfUnits load units

/-- A new string object with the given text. -/
def string (text : String) : VM Address := stringOfUnits (Text.units text)

/-- The string object of a literal, the same one for the same units. -/
def intern (units : Text.Units) : VM Address := Loader.intern load units

/-- The units of a string object; other objects have none. -/
def unitsOfString? (a : Address) : VM (Option Text.Units) := do
  let m ← get
  if m.className a ≠ ClassName.string then return none
  match ← ofSearch (m.fieldSearch (m.classOf a) "value" "[C") with
  | none => return none
  | some field =>
    match ← field? a (m.fieldAt field).slot with
    | some (.ref (some chars)) =>
      match m.object chars with
      | ⟨_, .chars units⟩ => return some units.toList
      | _ => return none
    | _ => return none

/-- The class of the elements of a reference array, loaded on first use. Other classes have none. -/
def component? (id : ClassId) : VM (Option ClassId) := do
  let c ← cls id
  match (ArrayName.component? c.name).filter (!ArrayName.isPrimitive ·) with
  | none => return none
  | some name =>
    match c.component with
    | some component => return some component
    | none =>
      let component ← load name
      modifyClass id ({ · with component := some component })
      return some component

end VM

end JavaMachine
