import JavaMachine.Fault
import JavaMachine.Machine.Class
import JavaMachine.Machine.ClassPath

/-!
The state that all code shares: classes, objects and interned strings.

Classes and objects live in arenas and are never removed; a name is bound to a class while the class is
being defined and, if that succeeds, from then on. `VM` is a step on this state that may fail. What a
failed step did to the state stays done.
-/

namespace JavaMachine

/-- Classes, objects and interned strings, and the directories that classes come from. -/
structure Machine where
  directories : List Directory
  classes : Array Class
  /-- Classes by name, at most one for each. -/
  names : List (String × ClassId)
  /-- Interned strings by their units. -/
  literals : List (Text.Units × Address)
  heap : Array Object
  deriving Inhabited

/-- A step on the shared state. -/
abbrev VM := ExceptT Failure (StateM Machine)

namespace Machine

/-- A machine that has loaded nothing. -/
def start (directories : List Directory) : Machine :=
  { directories, classes := #[], names := [], literals := [], heap := #[] }

/-- The class `id`; every id in a machine's state is the id of one of its classes. -/
def cls (m : Machine) (id : ClassId) : Class := m.classes.getD id.index default

/-- The object at an address; every address in a machine's state is on its heap. -/
def object (m : Machine) (a : Address) : Object := m.heap.getD a.index default

/-- The class of an object. -/
def classOf (m : Machine) (a : Address) : ClassId := (m.object a).cls

/-- The name of an object's class. -/
def className (m : Machine) (a : Address) : String := (m.cls (m.classOf a)).name

/-- The class bound to a name. -/
def lookup? (m : Machine) (name : String) : Option ClassId := m.names.lookup name

/-- The id that the next class to be added gets. -/
def nextClassId (m : Machine) : ClassId := ⟨m.classes.size⟩

/-- The class file that the directories have for a name. -/
def classFile? (m : Machine) (name : String) : Option (List UInt8) :=
  (ClassPath.file? name).bind fun path => m.directories.findSome? (·.read? path)

def isLoaded (m : Machine) (name : String) : Bool := (m.lookup? name).isSome

/-- A method with its class and descriptor. -/
def methodText (m : Machine) (method : Method) : String :=
  s!"{(m.cls method.owner).name}.{method.name}{method.descriptor}"

/-- The methods of a class as diagnostics show them. -/
def describeMethods (m : Machine) (id : ClassId) : String :=
  let items := (m.cls id).methods.toList.map fun method => s!"Method({m.methodText method})"
  "[" ++ ", ".intercalate items ++ "]"

/-- The wording of a fault. -/
def message (m : Machine) (fault : Fault) : String := fault.message m.className

end Machine

namespace VM

/-- Fails with a fault. -/
def fail {α : Type} (fault : Fault) : VM α := throw (.fault fault)

/-- Raises an exception of the class `className`. -/
def raise {α : Type} (className message : String) : VM α := fail (.exception className message)

/-- Goes on with a result, or fails with a format error. -/
def ofFormat {α : Type} : Except FormatError α → VM α
  | .ok value => pure value
  | .error error => fail (.classFormat error)

/-- Goes on with a slot or table that is there; none means that a slot was out of range. -/
def inRange {α : Type} : Option α → VM α
  | some value => pure value
  | none => throw .outOfRange

/-- Catches faults, and only faults. -/
def attempt {α : Type} (step : VM α) : VM (Except Fault α) :=
  tryCatch (Except.ok <$> step) fun
    | .fault fault => pure (.error fault)
    | failure => throw failure

/-- The class `id`. -/
def cls (id : ClassId) : VM Class := do return (← get).cls id

/-- The object at an address. -/
def object (a : Address) : VM Object := do return (← get).object a

/-- Changes a class. -/
def modifyClass (id : ClassId) (change : Class → Class) : VM Unit :=
  modify fun m => { m with classes := m.classes.modify id.index change }

/-- Changes what an object holds. -/
def modifyData (a : Address) (change : ObjectData → ObjectData) : VM Unit :=
  modify fun m => { m with heap := m.heap.modify a.index fun o => { o with data := change o.data } }

/-- Replaces what an object holds. -/
def setData (a : Address) (data : ObjectData) : VM Unit := modifyData a fun _ => data

/-- Adds a class to the arena, without binding its name. -/
def addClass (c : Class) : VM ClassId :=
  modifyGet fun m => (m.nextClassId, { m with classes := m.classes.push c })

/-- Binds a name to a class, in place of any class it was bound to. -/
def bindName (name : String) (id : ClassId) : VM Unit :=
  modify fun m => { m with names := (name, id) :: m.names.filter (·.1 ≠ name) }

/-- Unbinds a name. -/
def unbindName (name : String) : VM Unit :=
  modify fun m => { m with names := m.names.filter (·.1 ≠ name) }

/-- Binds a literal to its string object. -/
def bindLiteral (units : Text.Units) (string : Address) : VM Unit :=
  modify fun m =>
    { m with literals := (units, string) :: m.literals.filter fun (other, _) => other ≠ units }

/-- Puts an object on the heap. -/
def allocate (object : Object) : VM Address :=
  modifyGet fun m => (⟨m.heap.size⟩, { m with heap := m.heap.push object })

/-- An instance of a class with zeroed fields. -/
def newObject (id : ClassId) : VM Address := do
  allocate ⟨id, .fields (.zeros (← cls id).instanceSlots)⟩

/-- A zeroed array of an array class. -/
def newArray (id : ClassId) (length : Nat) : VM Address := do
  let name := (← cls id).name
  match ObjectData.newArray? name length with
  | some data => allocate ⟨id, data⟩
  | none => fail (.internal (.notAnArrayClass name))

/-- Stores a value in an element of an array, whatever the class of the array says about it. -/
def setElement (a : Address) (index : Nat) (value : Value) : VM Unit := do
  let _ ← inRange ((← object a).data.element? index)
  modifyData a (·.store false index value)

/-- The instance field in a slot of an object; none for arrays. -/
def field? (a : Address) (slot : Nat) : VM (Option Slot) := do
  match (← object a).data.fields? with
  | none => return none
  | some fields => return some (← inRange (fields.slot? slot))

/-- Sets the instance field in a slot of an object; arrays have none. -/
def setField (a : Address) (slot : Nat) (value : Slot) : VM Unit := do
  match (← object a).data.fields? with
  | none => return ()
  | some fields => setData a (.fields (← inRange (fields.set? slot value)))

end VM

end JavaMachine
