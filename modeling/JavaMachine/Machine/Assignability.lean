import JavaMachine.Machine.Loader

/-!
Whether a reference to one class can be stored where another is expected.

Between classes that are no arrays this is the hierarchy. An array can be stored as the root of the
hierarchy, as one of the two interfaces of arrays, or as an array whose components are
assignable; components of primitive type have to be the same. Looking at components may load them; if
that fails, the classes are not assignable.

The name of a component is shorter than that of its array. Only a file that holds a class of another
name than its own makes the names longer again, and each file is defined once, so the components
below a class come to an end after `Machine.componentBound` steps or never.
-/

namespace JavaMachine

namespace Machine

/-- Whether a class that is no array can be stored as `target`. -/
def assignableSearch (m : Machine) (target source : ClassId) : Search Unit :=
  match (m.cls source).isInterface, (m.cls target).isInterface with
  | false, false => m.subclassSearch source target
  | false, true => m.implementingSearch source target
  | true, true => .ofBool (m.isSubInterface source target)
  | true, false => .ofBool ((m.cls target).name = ClassName.object)

/-- The same, if the search comes to an end. -/
def isObjectAssignable (m : Machine) (target source : ClassId) : Bool :=
  (m.assignableSearch target source).found?.isSome

theorem isObjectAssignable_eq (m : Machine) (target source : ClassId) :
    m.isObjectAssignable target source =
    match (m.cls source).isInterface, (m.cls target).isInterface with
    | false, false => m.isSubclass source target
    | false, true => m.isImplementing source target
    | true, true => m.isSubInterface source target
    | true, false => (m.cls target).name = ClassName.object := by
  unfold isObjectAssignable assignableSearch
  cases (m.cls source).isInterface <;> cases (m.cls target).isInterface <;>
    simp only [Search.found?_ofBool, isSubclass, isImplementing]

/-- Whether an array can be stored as a class that is none. -/
def isArraySupertype (m : Machine) (target : ClassId) : Bool :=
  let c := m.cls target
  if c.isInterface then c.name = ClassName.cloneable || c.name = ClassName.serializable
  else c.name = ClassName.object

/-- More components than can be below a class before one comes again. -/
def componentBound (m : Machine) (id : ClassId) : Nat :=
  let inFiles (d : Directory) := d.files.foldr (fun (_, bytes) count => bytes.length + 1 + count) 0
  (m.cls id).name.length + 1 + m.directories.foldr (fun d count => inFiles d + count) 0

/-- Steps that decide whether one class is assignable to another. A class that is no array takes one. -/
def assignabilityBound (m : Machine) (target source : ClassId) : Nat :=
  if (m.cls target).isArray && (m.cls source).isArray then
    m.componentBound target + m.componentBound source
  else 1

end Machine

namespace VM

/-- Assignability, decided in at most so many steps from arrays to their components. -/
def isAssignableWithin : (steps : Nat) → (target source : ClassId) → VM Bool
  | 0, _, _ => throw .outOfFuel
  | steps + 1, target, source => do
    let m ← get
    if target = source then return true
    else if !(m.cls source).isArray then return (← ofSearch (m.assignableSearch target source)).isSome
    else if !(m.cls target).isArray then return m.isArraySupertype target
    else
      let targetComponent ← attempt (component? target)
      let sourceComponent ← attempt (component? source)
      match targetComponent, sourceComponent with
      | .ok (some target), .ok (some source) => isAssignableWithin steps target source
      | .ok none, .ok none => return (m.cls target).name = (m.cls source).name
      | _, _ => return false

/-- Whether a reference to `source` can be stored as `target`. -/
def isAssignable (target source : ClassId) : VM Bool := do
  isAssignableWithin ((← get).assignabilityBound target source) target source

/-- Whether an object is an instance of a class. -/
def isInstance (a : Address) (id : ClassId) : VM Bool := do
  isAssignable id ((← get).classOf a)

end VM

end JavaMachine
