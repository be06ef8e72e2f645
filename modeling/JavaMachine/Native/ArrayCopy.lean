import JavaMachine.Native

/-!
Copying a range of elements from one array to another, or within one array.

The ranges may overlap: the elements are those before the copy. Arrays of primitives only copy into
arrays of the same class. References are checked one by one against the component class of the
destination, and the elements before the first that does not fit stay copied.
-/

namespace JavaMachine

namespace ArrayCopy

open VM

/-- What is copied: `length` elements, from one position to another. -/
structure Range where
  source : Int32
  destination : Int32
  length : Int32

namespace Range

/-- Whether both ranges lie inside of arrays with the given lengths. -/
def fits (r : Range) (sourceLength destinationLength : Nat) : Bool :=
  0 ≤ r.source && 0 ≤ r.destination && 0 ≤ r.length
    && r.source.toInt + r.length.toInt ≤ sourceLength
    && r.destination.toInt + r.length.toInt ≤ destinationLength

/-- The two ranges as diagnostics show them. -/
def describe (r : Range) (sourceLength destinationLength : Nat) : String :=
  s!"range [{r.source}, {r.source} + {r.length}) of length {sourceLength}" ++
  s!" into [{r.destination}, {r.destination} + {r.length}) of length {destinationLength}"

end Range

/-- The elements of a range. -/
def taken {α : Type} (r : Range) (elements : Array α) : Array α :=
  let start := r.source.toInt.toNat
  elements.extract start (start + r.length.toInt.toNat)

/-- An array with `elements` in place of those from `start` on. -/
def overwrite {α : Type} (array : Array α) (start : Nat) (elements : Array α) : Array α :=
  array.extract 0 start ++ elements ++ array.extract (start + elements.size) array.size

/-- The destination after a copy; none if the kinds of elements differ. -/
def copied? (r : Range) (source destination : ObjectData) : Option ObjectData :=
  let start := r.destination.toInt.toNat
  match source, destination with
  | .bytes s, .bytes d => some (.bytes (overwrite d start (taken r s)))
  | .chars s, .chars d => some (.chars (overwrite d start (taken r s)))
  | .shorts s, .shorts d => some (.shorts (overwrite d start (taken r s)))
  | .ints s, .ints d => some (.ints (overwrite d start (taken r s)))
  | .longs s, .longs d => some (.longs (overwrite d start (taken r s)))
  | .floats s, .floats d => some (.floats (overwrite d start (taken r s)))
  | .doubles s, .doubles d => some (.doubles (overwrite d start (taken r s)))
  | .references s, .references d => some (.references (overwrite d start (taken r s)))
  | _, _ => none

/-- The elements before the first one that is no instance of `component`, and that one. -/
def storable (component : ClassId) :
    List (Option Address) → VM (List (Option Address) × Option Address)
  | [] => return ([], none)
  | element :: elements => do
    let fits ← match element with
      | some a => isInstance a component
      | none => pure true
    if fits then
      let (others, misfit) ← storable component elements
      return (element :: others, misfit)
    else return ([], element)

/-- Whether the components of an array class are primitives. -/
def isPrimitiveArray (className : String) : Bool :=
  match className.toList with
  | _ :: c :: _ => c ≠ 'L' && c ≠ '['
  | _ => false

/-- Raises the exception for elements that cannot be stored. -/
def mismatch {α : Type} (problem : String) : VM α :=
  raise ExceptionName.arrayStore s!"arraycopy: {problem}"

/-- The length of an array; what holds no elements has length 0. -/
def lengthOf (object : Object) : Nat := object.data.length?.getD 0

/-- Copies references into an array with the given component class. -/
def copyReferences (r : Range) (destination : Address) (component : Option ClassId)
    (s d : Array (Option Address)) : VM Unit := do
  let (elements, misfit) ← match component with
    | some component => storable component (taken r s).toList
    | none => pure ((taken r s).toList, none)
  setData destination (.references (overwrite d r.destination.toInt.toNat elements.toArray))
  match misfit with
  | none => return ()
  | some a =>
    let m ← get
    mismatch s!"element type mismatch: {m.className a} stored into {m.className destination}"

/-- Copies a range that fits between two arrays. -/
def copyRange (r : Range) (source destination : Address) : VM Unit := do
  let m ← get
  let s := (m.object source).data
  if source = destination then
    match copied? r s s with
    | some data => setData destination data
    | none => return ()
  else
    let component ← component? (m.classOf destination)
    let d := (m.object destination).data
    match s, d with
    | .references s, .references d => copyReferences r destination component s d
    | _, _ =>
      match copied? r s d with
      | some data => setData destination data
      | none =>
        mismatch s!"type mismatch: can not copy {m.className source} into {m.className destination}"

/-- Checks that an object is an array. -/
def checkArray (a : Address) : VM Unit := do
  let m ← get
  if !(m.cls (m.classOf a)).isArray then mismatch s!"{m.className a} is not an array"

/-- Copies a range of elements, after all checks. -/
def copy (r : Range) (source destination : Address) : VM Unit := do
  checkArray source
  checkArray destination
  let m ← get
  let sourceClass := m.className source
  let destinationClass := m.className destination
  if (isPrimitiveArray sourceClass || isPrimitiveArray destinationClass)
      && sourceClass ≠ destinationClass then
    mismatch s!"type mismatch: can not copy {sourceClass} into {destinationClass}"
  let sourceLength := lengthOf (m.object source)
  let destinationLength := lengthOf (m.object destination)
  if r.fits sourceLength destinationLength then copyRange r source destination
  else
    raise ExceptionName.arrayIndexOutOfBounds
      s!"arraycopy: {r.describe sourceLength destinationLength}"

end ArrayCopy

end JavaMachine
