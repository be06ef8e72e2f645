import JavaMachine.Machine.Loader

/-!
Resolution of symbolic references.

A reference is resolved when it is first needed and keeps what it resolved to. A failure is not
kept: the next use tries again. The class of a member reference is resolved, and kept, before the member
is searched.
-/

namespace JavaMachine

namespace VM

/-- The constant at an index of a class's pool. -/
def constantAt (owner : ClassId) (index : UInt16) : VM Constant := do
  ofFormat ((← cls owner).constantAt index)

/-- Replaces a constant of a class's pool. -/
def setConstant (owner : ClassId) (index : UInt16) (constant : Constant) : VM Unit :=
  modifyClass owner fun c => { c with pool := c.pool.setIfInBounds index.toNat constant }

/-- Fails because the constant at an index is of the wrong kind. -/
def wrongKind {α : Type} (index : UInt16) (problem : IndexProblem) : VM α :=
  fail (.classFormat (.invalidIndex index problem))

/-- The class that a reference names. -/
def target (ref : ClassRef) : VM ClassId :=
  match ref.resolved with
  | some id => return id
  | none => load ref.name

/-- Resolves the class reference at an index. -/
def resolveClass (owner : ClassId) (index : UInt16) : VM ClassId := do
  match ← constantAt owner index with
  | .classRef ref =>
    let id ← target ref
    setConstant owner index (.classRef { ref with resolved := some id })
    return id
  | _ => wrongKind index .expectedClass

/-- Resolves a member reference: its class, kept by `keep`, and then the member, which `search`
looks for in the class. -/
def resolveMember {α : Type} (ref : MemberRef α) (keep : MemberRef α → VM Unit)
    (search : Machine → ClassId → VM α) : VM (ClassId × α) := do
  let id ← target ref.owner
  let ref := { ref with owner := { ref.owner with resolved := some id } }
  keep ref
  match ref.resolved with
  | some member => return (id, member)
  | none =>
    let member ← search (← get) id
    keep { ref with resolved := some member }
    return (id, member)

/-- The field that a class declares or inherits, for a reference to it. -/
def searchField (ref : MemberRef FieldId) (m : Machine) (id : ClassId) : VM FieldId := do
  match ← ofSearch (m.fieldSearch id ref.name ref.descriptor) with
  | some field => return field
  | none => raise ExceptionName.noSuchField ref.describe

/-- The method of a class that is no interface: declared or inherited from super classes, else from the
interfaces that the class itself leads to. -/
def searchMethod (ref : MemberRef Method) (m : Machine) (id : ClassId) : VM Method := do
  if (m.cls id).isInterface then
    raise ExceptionName.incompatibleClassChange s!"{(m.cls id).name} is an interface"
  else
    let search := (m.methodSearch id ref.name ref.descriptor).orElse fun _ =>
      .ofOption (m.interfaceMethod? id ref.name ref.descriptor)
    match ← ofSearch search with
    | some method => return method
    | none => raise ExceptionName.noSuchMethod ref.describe

/-- The method of an interface: its own, else one from its super-interfaces, else one that its super
class declares. -/
def searchInterfaceMethod (ref : MemberRef Method) (m : Machine) (id : ClassId) : VM Method :=
  let c := m.cls id
  if !c.isInterface then
    raise ExceptionName.incompatibleClassChange s!"{c.name} is not an interface"
  else
    match ((c.method? ref.name ref.descriptor).orElse fun _ =>
      m.interfaceMethod? id ref.name ref.descriptor).orElse fun _ =>
        c.superClass.bind fun superClass => (m.cls superClass).method? ref.name ref.descriptor with
    | some method => return method
    | none => raise ExceptionName.noSuchMethod ref.describe

/-- Resolves the field reference at an index. -/
def resolveField (owner : ClassId) (index : UInt16) : VM FieldId := do
  match ← constantAt owner index with
  | .field ref =>
    return (← resolveMember ref (fun ref => setConstant owner index (.field ref)) (searchField ref)).2
  | _ => wrongKind index .expectedField

/-- Resolves the method reference at an index, giving the class it names and the method. -/
def resolveMethod (owner : ClassId) (index : UInt16) : VM (ClassId × Method) := do
  match ← constantAt owner index with
  | .method ref =>
    resolveMember ref (fun ref => setConstant owner index (.method ref)) (searchMethod ref)
  | .interfaceMethod ref =>
    resolveMember ref (fun ref => setConstant owner index (.interfaceMethod ref))
      (searchInterfaceMethod ref)
  | _ => wrongKind index .expectedMethod

end VM

end JavaMachine
