import JavaMachine.Machine.Loader

/-!
Objects as trees, for showing them.

Objects are numbered in the order in which they are first met, each before what it refers to. An object
that is met again is shown by its number, so shared and circular structure stays visible and the tree
is finite.
-/

namespace JavaMachine

/-- What is shown for a slot or an element. -/
inductive ObjectTree where
  | null
  | value (v : Value)
  /-- An object that was met before. -/
  | seen (number : Nat)
  | string (number : Nat) (className : String) (units : Text.Units)
  | object (number : Nat) (className : String) (fields : List ObjectTree)
  | array (number : Nat) (className : String) (elements : List ObjectTree)
  deriving Inhabited

namespace ObjectTree

/-- A step that knows the objects met so far, in their order. -/
abbrev Walk := StateT (Array Address) VM

/-- The number of an object, and whether it was met before. -/
def meet (a : Address) : Walk (Nat × Bool) := do
  let met ← getThe (Array Address)
  match met.idxOf? a with
  | some number => return (number, true)
  | none =>
    set (met.push a)
    return (met.size, false)

/-- The elements of an array as they are loaded. -/
def elements (data : ObjectData) : List Value :=
  (List.range (data.length?.getD 0)).filterMap fun index => data.element? index

/-- A value, whose reference is shown by `reference`. -/
def ofValue (reference : Option Address → Walk ObjectTree) : Value → Walk ObjectTree
  | .reference r => reference r
  | v => return value v

/-- A slot, whose reference is shown by `reference`. -/
def ofSlot (reference : Option Address → Walk ObjectTree) : Slot → Walk ObjectTree
  | .num n => return value (.int n)
  | .ref r => reference r

/-- A reference, at most so deep. -/
def ofReference : (depth : Nat) → Option Address → Walk ObjectTree
  | _, none => return null
  | 0, some _ => throw .outOfFuel
  | depth + 1, some a => do
    let (number, isKnown) ← meet a
    if isKnown then return seen number
    let m ← getThe Machine
    match ← VM.unitsOfString? a, (m.object a).data with
    | some units, _ => return string number (m.className a) units
    | none, .fields fields =>
      return object number (m.className a) (← fields.slots.toList.mapM (ofSlot (ofReference depth)))
    | none, data =>
      return array number (m.className a) (← (elements data).mapM (ofValue (ofReference depth)))

end ObjectTree

namespace VM

/-- The tree of a reference. On a path through the tree every object is a different one. -/
def tree (r : Option Address) : VM ObjectTree := do
  (ObjectTree.ofReference ((← get).heap.size + 1) r).run' #[]

/-- The trees of slots, their objects numbered together. -/
def trees (slots : List Slot) : VM (List ObjectTree) := do
  let depth := (← get).heap.size + 1
  (slots.mapM (ObjectTree.ofSlot (ObjectTree.ofReference depth))).run' #[]

end VM

end JavaMachine
