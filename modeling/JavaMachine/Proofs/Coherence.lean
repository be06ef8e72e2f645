import JavaMachine.Proofs.Defining

/-!
Classes, their fields and their objects fit together.

`Machine.Coherent` is what holds of a machine whatever classes are being defined on it. A name is
bound to the class that has it, the fields of a linked class come right after those of its super
class, and an object has a slot for every instance field. While a class is being defined its fields
may not have been placed yet; an object of it is then only made if they have been, because otherwise
nothing could be stored in it.
-/

namespace JavaMachine

/-- A reference to a class that, if it is resolved, is one of the first `n`. -/
def ClassRef.Within (n : Nat) (ref : ClassRef) : Prop := ∀ id, ref.resolved = some id → id.index < n

/-- A constant that refers, as far as it is resolved, to the first `n` classes and their members. -/
def Constant.Within (n : Nat) : Constant → Prop
  | .classRef ref => ref.Within n
  | .field ref => ref.owner.Within n ∧ ∀ field, ref.resolved = some field → field.owner.index < n
  | .method ref | .interfaceMethod ref =>
    ref.owner.Within n ∧ ∀ method, ref.resolved = some method → method.owner.index < n
  | _ => True

theorem ClassRef.Within.mono {n n' : Nat} {ref : ClassRef} (h : ref.Within n)
    (hle : n ≤ n') : ref.Within n' :=
  fun id hid => Nat.lt_of_lt_of_le (h id hid) hle

theorem Constant.Within.mono {n n' : Nat} {constant : Constant} (h : constant.Within n) (hle : n ≤ n') :
    constant.Within n' := by
  cases constant with
  | classRef ref => exact ClassRef.Within.mono h hle
  | field ref | method ref | interfaceMethod ref =>
    exact ⟨h.1.mono hle, fun member hmember => Nat.lt_of_lt_of_le (h.2 member hmember) hle⟩
  | _ => trivial

/-- The same reference later on. It keeps the class that it was resolved to. -/
structure ClassRef.Later (ref ref' : ClassRef) : Prop where
  name : ref'.name = ref.name
  resolved : ∀ id, ref.resolved = some id → ref'.resolved = some id

theorem ClassRef.Later.refl (ref : ClassRef) : ref.Later ref := ⟨rfl, fun _ => id⟩

theorem ClassRef.Later.trans {ref ref' ref'' : ClassRef} (h : ref.Later ref')
    (h' : ref'.Later ref'') : ref.Later ref'' :=
  ⟨h'.name.trans h.name, fun id hid => h'.resolved id (h.resolved id hid)⟩

/-- The same reference later on. It keeps the class and the member that it was resolved to. -/
structure MemberRef.Later {α : Type} (ref ref' : MemberRef α) : Prop where
  owner : ref.owner.Later ref'.owner
  name : ref'.name = ref.name
  descriptor : ref'.descriptor = ref.descriptor
  resolved : ∀ member, ref.resolved = some member → ref'.resolved = some member

theorem MemberRef.Later.refl {α : Type} (ref : MemberRef α) : ref.Later ref :=
  ⟨.refl _, rfl, rfl, fun _ => id⟩

theorem MemberRef.Later.trans {α : Type} {ref ref' ref'' : MemberRef α} (h : ref.Later ref')
    (h' : ref'.Later ref'') :
    ref.Later ref'' :=
  ⟨h.owner.trans h'.owner, h'.name.trans h.name, h'.descriptor.trans h.descriptor,
    fun member hmember => h'.resolved member (h.resolved member hmember)⟩

namespace Constant

/-- The same constant later on. Nothing but references changes, and these only by being resolved. -/
inductive Later : Constant → Constant → Prop where
  | refl (constant : Constant) : Later constant constant
  | classRef {ref ref' : ClassRef} (later : ref.Later ref') : Later (.classRef ref) (.classRef ref')
  | field {ref ref' : MemberRef FieldId} (later : ref.Later ref') : Later (.field ref) (.field ref')
  | method {ref ref' : MemberRef Method} (later : ref.Later ref') : Later (.method ref) (.method ref')
  | interfaceMethod {ref ref' : MemberRef Method} (later : ref.Later ref') :
      Later (.interfaceMethod ref) (.interfaceMethod ref')

theorem Later.trans {constant constant' constant'' : Constant} (h : constant.Later constant')
    (h' : constant'.Later constant'') : constant.Later constant'' := by
  cases h with
  | refl => exact h'
  | classRef later => cases h' with
    | refl => exact .classRef later
    | classRef later' => exact .classRef (later.trans later')
  | field later => cases h' with
    | refl => exact .field later
    | field later' => exact .field (later.trans later')
  | method later => cases h' with
    | refl => exact .method later
    | method later' => exact .method (later.trans later')
  | interfaceMethod later => cases h' with
    | refl => exact .interfaceMethod later
    | interfaceMethod later' => exact .interfaceMethod (later.trans later')

theorem Later.field_cases {ref : MemberRef FieldId} {constant : Constant}
    (h : (Constant.field ref).Later constant) :
    ∃ ref', constant = .field ref' ∧ ref.Later ref' := by
  cases h with
  | refl => exact ⟨ref, rfl, .refl ref⟩
  | field later => exact ⟨_, rfl, later⟩

end Constant

namespace ObjectData

/-- How many slots or elements there are. -/
def size : ObjectData → Nat
  | fields slots => slots.size
  | bytes e => e.size
  | chars e => e.size
  | shorts e => e.size
  | ints e => e.size
  | longs e => e.size
  | floats e => e.size
  | doubles e => e.size
  | references e => e.size

/-- Elements as arrays of a class of this name have them. -/
def OfArray (data : ObjectData) (className : String) : Prop :=
  ∃ fresh, newArray? className data.size = some fresh ∧ fresh.elementKind? = data.elementKind?

/-- What holds elements holds those of an array of a class of this name. -/
def Suits (data : ObjectData) (className : String) : Prop :=
  data.fields? = none → data.OfArray className

/-- Data that still are fields, or elements, and as many of them. -/
structure SameShape (before after : ObjectData) : Prop where
  fields : after.fields?.isSome = before.fields?.isSome
  size : after.size = before.size

theorem suits_fields (slots : SlotTable) (className : String) : (fields slots).Suits className :=
  fun h => by cases h

theorem suits_newArray? {className : String} {length : Nat} {data : ObjectData}
    (h : newArray? className length = some data) : data.size = length ∧ data.OfArray className := by
  have hsize : data.size = length := by
    unfold newArray? at h
    split at h <;> cases h <;> exact Array.size_replicate
  exact ⟨hsize, data, by rw [hsize, h], rfl⟩

theorem references_of_kind {data : ObjectData} (h : data.elementKind? = some .reference) :
    ∃ elements, data = .references elements := by
  cases data <;> first
    | exact ⟨_, rfl⟩
    | cases h

namespace SameShape

variable {data data' data'' : ObjectData} {className : String}

theorem refl (data : ObjectData) : data.SameShape data := ⟨rfl, rfl⟩

theorem of_eq (h : data' = data) : data.SameShape data' := h ▸ refl data

theorem symm (h : data.SameShape data') : data'.SameShape data := ⟨h.fields.symm, h.size.symm⟩

theorem trans (h : data.SameShape data') (h' : data'.SameShape data'') : data.SameShape data'' :=
  ⟨h'.fields.trans h.fields, h'.size.trans h.size⟩

/-- Fields stay fields. -/
theorem of_fields {slots : SlotTable} (h : (ObjectData.fields slots).SameShape data) :
    ∃ slots', data = .fields slots' ∧ slots'.size = slots.size := by
  cases data with
  | fields slots' => exact ⟨slots', rfl, h.size⟩
  | _ => cases h.fields

theorem fields?_eq_none (h : data.SameShape data') : data'.fields? = none ↔ data.fields? = none := by
  rw [← Option.not_isSome_iff_eq_none, ← Option.not_isSome_iff_eq_none, h.fields]

/-- What holds as many elements of the same kind suits the same classes. -/
theorem suits (h : data.SameShape data') (hkind : data'.elementKind? = data.elementKind?)
    (hsuits : data.Suits className) :
    data'.Suits className := fun hnone => by
  obtain ⟨fresh, hfresh, hsame⟩ := hsuits (h.fields?_eq_none.mp hnone)
  exact ⟨fresh, h.size.symm ▸ hfresh, hsame.trans hkind.symm⟩

end SameShape

end ObjectData

namespace Class

/-- The instance fields of the class come right after `inherited` slots, and its static fields from
the first slot on. -/
def Placed (c : Class) (inherited : Nat) : Prop :=
  ∃ fields, Layout.placeAll ⟨inherited, 0⟩ fields = (c.fields.toList, ⟨c.instanceSlots, c.staticSlots⟩)

theorem placed_layOut (c : Class) (inherited : Nat) : (c.layOut inherited).Placed inherited :=
  ⟨c.fields.toList, by simp [layOut]⟩

/-- Two classes that are made from the same class file, or two array classes. -/
structure SameOrigin (c c' : Class) : Prop where
  flags : c'.flags = c.flags
  name : c'.name = c.name
  superName : c'.superName = c.superName
  interfaceNames : c'.interfaceNames = c.interfaceNames
  poolSize : c'.pool.size = c.pool.size

theorem SameOrigin.refl (c : Class) : c.SameOrigin c := ⟨rfl, rfl, rfl, rfl, rfl⟩

theorem SameOrigin.of_eq {c c' : Class} (h : c' = c) : c.SameOrigin c' := h ▸ refl c

theorem SameOrigin.trans {c c' c'' : Class} (h : c.SameOrigin c') (h' : c'.SameOrigin c'') :
    c.SameOrigin c'' :=
  ⟨h'.flags.trans h.flags, h'.name.trans h.name, h'.superName.trans h.superName,
    h'.interfaceNames.trans h.interfaceNames, h'.poolSize.trans h.poolSize⟩

/-- The same class later on. What running code may change is left out; a component class is kept
once it is loaded, and references are once they are resolved. -/
structure Later (c c' : Class) : Prop extends c.SameOrigin c' where
  fields : c'.fields = c.fields
  methods : c'.methods = c.methods
  superClass : c'.superClass = c.superClass
  interfaces : c'.interfaces = c.interfaces
  instanceSlots : c'.instanceSlots = c.instanceSlots
  staticSlots : c'.staticSlots = c.staticSlots
  linked : c'.linked = c.linked
  started : c.initStarted = true → c'.initStarted = true
  component : ∀ k, c.component = some k → c'.component = some k
  constants : ∀ (i : Nat) constant, c.pool[i]? = some constant →
    ∃ constant', c'.pool[i]? = some constant' ∧ constant.Later constant'

namespace Later

variable {c c' c'' : Class}

theorem refl (c : Class) : c.Later c :=
  ⟨.refl c, rfl, rfl, rfl, rfl, rfl, rfl, rfl, id, fun _ => id,
    fun _ constant h => ⟨constant, h, .refl constant⟩⟩

theorem of_eq (h : c' = c) : c.Later c' := h ▸ refl c

theorem trans (h : c.Later c') (h' : c'.Later c'') : c.Later c'' where
  toSameOrigin := h.toSameOrigin.trans h'.toSameOrigin
  fields := h'.fields.trans h.fields
  methods := h'.methods.trans h.methods
  superClass := h'.superClass.trans h.superClass
  interfaces := h'.interfaces.trans h.interfaces
  instanceSlots := h'.instanceSlots.trans h.instanceSlots
  staticSlots := h'.staticSlots.trans h.staticSlots
  linked := h'.linked.trans h.linked
  started hs := h'.started (h.started hs)
  component k hk := h'.component k (h.component k hk)
  constants i constant hi := by
    obtain ⟨constant', hi', hlater⟩ := h.constants i constant hi
    obtain ⟨constant'', hi'', hlater'⟩ := h'.constants i constant' hi'
    exact ⟨constant'', hi'', hlater.trans hlater'⟩

theorem withStatics (c : Class) (statics : SlotTable) : c.Later { c with statics } :=
  ⟨⟨rfl, rfl, rfl, rfl, rfl⟩, rfl, rfl, rfl, rfl, rfl, rfl, rfl, id, fun _ => id, (refl c).constants⟩

theorem initStarted (c : Class) : c.Later { c with initStarted := true } :=
  ⟨⟨rfl, rfl, rfl, rfl, rfl⟩, rfl, rfl, rfl, rfl, rfl, rfl, rfl, fun _ => rfl, fun _ => id,
    (refl c).constants⟩

/-- A constant may come to be what it is later on. -/
theorem withConstant (c : Class) (index : Nat) {constant : Constant}
    (h : ∀ before, c.pool[index]? = some before → before.Later constant) :
    c.Later { c with pool := c.pool.setIfInBounds index constant } := by
  refine ⟨⟨rfl, rfl, rfl, rfl, Array.size_setIfInBounds⟩, rfl, rfl, rfl, rfl, rfl, rfl,
    rfl, id, fun _ => id, fun i before hi => ?_⟩
  by_cases heq : index = i
  · subst heq
    have hlt := (Array.getElem?_eq_some_iff.mp hi).1
    exact ⟨constant, Array.getElem?_setIfInBounds_self_of_lt hlt, h before hi⟩
  · exact ⟨before, by rw [Array.getElem?_setIfInBounds_ne heq, hi], .refl before⟩

theorem withComponent {component : ClassId} (h : ∀ k, c.component = some k → k = component) :
    c.Later { c with component := some component } :=
  ⟨⟨rfl, rfl, rfl, rfl, rfl⟩, rfl, rfl, rfl, rfl, rfl, rfl, rfl, id,
    fun k hk => congrArg some (h k hk).symm, (refl c).constants⟩

theorem samePlace (h : c.Later c') : c.SamePlace c' := ⟨h.name, h.superClass, h.interfaces, h.linked⟩

theorem isArray (h : c.Later c') : c'.isArray = c.isArray := h.samePlace.isArray

theorem initializer? (h : c.Later c') : c'.initializer? = c.initializer? := by
  simp only [Class.initializer?, Class.staticMethod?, Class.method?, h.methods]

theorem placed (h : c.Later c') {inherited : Nat} : c'.Placed inherited ↔ c.Placed inherited := by
  rw [Placed, Placed, h.fields, h.instanceSlots, h.staticSlots]

end Later

end Class

namespace Machine

variable {m m' : Machine} {id : ClassId} {name : String}

/-- The instance slots of the super class. -/
def inherited (m : Machine) (id : ClassId) : Nat :=
  ((m.cls id).superClass.map fun k => (m.cls k).instanceSlots).getD 0

/-- The fields of the class and of the classes above it are placed one after the other. An array
class has no fields, and is linked while the root of the hierarchy may still be in the course of
being defined. -/
inductive LaidOut (m : Machine) : ClassId → Prop where
  | array {id : ClassId} (array : (m.cls id).isArray = true) (started : (m.cls id).initStarted =
      true) : LaidOut m id
  | after {id : ClassId} (placed : (m.cls id).Placed (m.inherited id))
      (super : ∀ k, (m.cls id).superClass = some k → LaidOut m k) : LaidOut m id

/-- The class has the name, or the directories have a file of it under the name, which is not that
of an array class. -/
def Answers (m : Machine) (name : String) (id : ClassId) : Prop :=
  (m.cls id).name = name ∨ ArrayName.isArray name = false ∧ ∃ bytes file,
    m.classFile? name = some bytes ∧
    ClassFile.decode bytes = .ok file ∧ file.name? = some (m.cls id).name

/-- What is above a class is what it names. Array classes, which have no constants, all name the
same. -/
structure Lineage (m : Machine) (c : Class) : Prop where
  super : ∀ k, c.superClass = some k → ∃ name, c.superName = some name ∧ m.Answers name k
  interfaces : ∀ k ∈ c.interfaces, ∃ name ∈ c.interfaceNames, m.Answers name k
  declared : c.pool.size ≠ 0 → ∀ k ∈ c.interfaces, (m.cls k).isInterface = true
  array : c.pool.size = 0 → (Definition.arrayClass c.name).SameOrigin c

/-- What holds of the classes and objects of a machine at any time, also while classes are being
defined. -/
structure Coherent (m : Machine) : Prop where
  sound : m.Sound
  named : ∀ name id, m.lookup? name = some id → (m.cls id).name = name
  lineage : ∀ id, id.index < m.classes.size → m.Lineage (m.cls id)
  root : ∀ id, (m.cls id).linked = true → (m.cls id).isArray = false → (m.cls id).superClass = none →
    m.lookup? ClassName.object = some id
  owners : ∀ id, ∀ method ∈ (m.cls id).methods, method.owner = id
  super : ∀ id k, (m.cls id).superClass = some k →
    (m.cls k).linked = true ∨ (m.cls id).isArray = true ∧ (m.cls id).initStarted = true
  laidOut : ∀ id, (m.cls id).linked = true → m.LaidOut id
  statics : ∀ id, (m.cls id).statics.size = (m.cls id).staticSlots
  constants : ∀ id, ∀ constant ∈ (m.cls id).pool, constant.Within m.classes.size
  there : ∀ a, a.index < m.heap.size → (m.classOf a).index < m.classes.size
  instances : ∀ a, a.index < m.heap.size → (m.cls (m.classOf a)).isArray = false →
    ∃ fields, (m.object a).data = .fields fields ∧ fields.size = (m.cls (m.classOf a)).instanceSlots
  arrays : ∀ a, a.index < m.heap.size → (m.object a).data.Suits (m.cls (m.classOf a)).name
  occupied : ∀ a name, a.index < m.heap.size → (m.cls (m.classOf a)).isArray = false →
    m.lookup? name = some (m.classOf a) →
    (m.cls (m.classOf a)).linked = true ∨ 0 < (m.cls (m.classOf a)).instanceSlots

/-! ### Layouts -/

/-- A layout only depends on linked classes. -/
theorem LaidOut.keep (hm : m.Coherent) (hlater : ∀ k, (m.cls k).linked = true →
      (m.cls k).Later (m'.cls k))
    (h : m.LaidOut id) (hlinked : (m.cls id).linked = true) : m'.LaidOut id := by
  induction h with
  | array array started =>
      exact .array ((hlater _ hlinked).isArray.trans array) ((hlater _ hlinked).started started)
  | @after id placed super ih =>
    have hid := hlater id hlinked
    rcases hsuper : (m.cls id).superClass with _ | k
    · refine .after ?_ fun k hk => ?_
      · rw [inherited, hid.superClass, hsuper]
        rw [inherited, hsuper] at placed
        exact hid.placed.mpr placed
      · rw [hid.superClass, hsuper] at hk
        cases hk
    · rcases hm.super id k hsuper with hk | ⟨harray, hstarted⟩
      · refine .after ?_ fun other hother => ?_
        · rw [inherited, hid.superClass, hsuper]
          rw [inherited, hsuper] at placed
          rw [hid.placed, Option.map_some, Option.getD_some, (hlater k hk).instanceSlots]
          exact placed
        · rw [hid.superClass, hsuper] at hother
          cases hother
          exact ih k hsuper hk
      · exact .array (hid.isArray.trans harray) (hid.started hstarted)

/-- Whether classes are linked does not matter for a layout itself. -/
theorem LaidOut.of_linking (hsame : ∀ k, ∃ linked, m'.cls k = { m.cls k with linked })
    (h : m.LaidOut id) :
    m'.LaidOut id := by
  induction h with
  | @array id array started =>
    obtain ⟨linked, hid⟩ := hsame id
    exact .array (by rw [hid]; exact array) (by rw [hid]; exact started)
  | @after id placed super ih =>
    obtain ⟨linked, hid⟩ := hsame id
    have hinherited : m'.inherited id = m.inherited id := by
      rw [inherited, inherited, hid]
      rcases (m.cls id).superClass with _ | k
      · rfl
      · obtain ⟨linked, hk⟩ := hsame k
        rw [Option.map_some, Option.map_some, hk]
    refine .after (by rw [hinherited, hid]; exact placed) fun k hk => ih k ?_
    rw [hid] at hk
    exact hk

/-! ### Lineages -/

theorem Answers.keep {k : ClassId} (h : m.Answers name k)
    (hdirectories : m'.directories = m.directories)
    (hname : (m'.cls k).name = (m.cls k).name) : m'.Answers name k := by
  rw [Answers, hname, classFile?, hdirectories]
  exact h

/-- A lineage only depends on where the classes come from. -/
theorem Lineage.keep {c : Class} (h : m.Lineage c) (hdirectories : m'.directories = m.directories)
    (hkeep : ∀ k, c.Below k → (m.cls k).SameOrigin (m'.cls k)) : m'.Lineage c where
  super k hk := by
    obtain ⟨name, hname, hanswers⟩ := h.super k hk
    exact ⟨name, hname, hanswers.keep hdirectories (hkeep k (.inl hk)).name⟩
  interfaces k hk := by
    obtain ⟨name, hname, hanswers⟩ := h.interfaces k hk
    exact ⟨name, hname, hanswers.keep hdirectories (hkeep k (.inr hk)).name⟩
  declared hpool k hk := by
    rw [Class.isInterface, (hkeep k (.inr hk)).flags]
    exact h.declared hpool k hk
  array := h.array

/-- A class whose place in the hierarchy stays the same keeps its lineage. -/
theorem Lineage.same {c c' : Class} (h : m.Lineage c) (horigin : c.SameOrigin c')
    (hsuper : c'.superClass = c.superClass)
    (hinterfaces : c'.interfaces = c.interfaces) : m.Lineage c' where
  super := by rw [hsuper, horigin.superName]; exact h.super
  interfaces := by rw [hinterfaces, horigin.interfaceNames]; exact h.interfaces
  declared := by rw [hinterfaces, horigin.poolSize]; exact h.declared
  array := by
    rw [horigin.poolSize, horigin.name]
    exact fun hpool => (h.array hpool).trans horigin

/-! ### Objects -/

/-- What a coherent machine says about its objects. -/
structure Housed (m : Machine) : Prop where
  there : ∀ a, a.index < m.heap.size → (m.classOf a).index < m.classes.size
  instances : ∀ a, a.index < m.heap.size → (m.cls (m.classOf a)).isArray = false →
    ∃ fields, (m.object a).data = .fields fields ∧ fields.size = (m.cls (m.classOf a)).instanceSlots
  arrays : ∀ a, a.index < m.heap.size → (m.object a).data.Suits (m.cls (m.classOf a)).name
  occupied : ∀ a name, a.index < m.heap.size → (m.cls (m.classOf a)).isArray = false →
    m.lookup? name = some (m.classOf a) →
    (m.cls (m.classOf a)).linked = true ∨ 0 < (m.cls (m.classOf a)).instanceSlots

theorem Coherent.housed (hm : m.Coherent) : m.Housed := ⟨hm.there, hm.instances, hm.arrays, hm.occupied⟩

/-- Classes may change around the objects. Those that have objects keep their names, and but for
arrays their slots. -/
theorem Housed.keep (hm : m.Housed) (hheap : m'.heap = m.heap)
    (hsize : m.classes.size ≤ m'.classes.size)
    (hbound : ∀ name id, m'.lookup? name = some id → m.lookup? name = some id)
    (hlinked : ∀ id, (m.cls id).linked = true → (m'.cls id).linked = true)
    (hname : ∀ a, a.index < m.heap.size → (m'.cls (m.classOf a)).name = (m.cls (m.classOf a)).name)
    (hslots : ∀ a, a.index < m.heap.size → (m.cls (m.classOf a)).isArray = false →
      (m'.cls (m.classOf a)).instanceSlots = (m.cls (m.classOf a)).instanceSlots) : m'.Housed := by
  have hobject : ∀ a, m'.object a = m.object a := fun a => by rw [object, object, hheap]
  have hclass : ∀ a, m'.classOf a = m.classOf a := fun a => by rw [classOf, classOf, hobject]
  have harray : ∀ a, a.index < m.heap.size →
      (m'.cls (m.classOf a)).isArray = (m.cls (m.classOf a)).isArray :=
    fun a ha => by rw [Class.isArray, Class.isArray, hname a ha]
  constructor
  case there =>
    intro a ha
    rw [hheap] at ha
    rw [hclass]
    exact Nat.lt_of_lt_of_le (hm.there a ha) hsize
  case instances =>
    intro a ha hinstance
    rw [hheap] at ha
    rw [hclass, harray a ha] at hinstance
    rw [hclass, hobject, hslots a ha hinstance]
    exact hm.instances a ha hinstance
  case arrays =>
    intro a ha
    rw [hheap] at ha
    rw [hclass, hobject, hname a ha]
    exact hm.arrays a ha
  case occupied =>
    intro a name ha hinstance hname
    rw [hheap] at ha
    rw [hclass, harray a ha] at hinstance
    rw [hclass] at hname
    rw [hclass, hslots a ha hinstance]
    exact (hm.occupied a name ha hinstance (hbound _ _ hname)).imp_left (hlinked _)

/-! ### Single changes -/

namespace Coherent

variable {change : Class → Class}

theorem of_eq (hm : m.Coherent) (hdirectories : m'.directories = m.directories)
    (hclasses : m'.classes = m.classes)
    (hnames : m'.names = m.names) (hheap : m'.heap = m.heap) : m'.Coherent := by
  have hcls := cls_congr hclasses
  have hlookup : ∀ name, m'.lookup? name = m.lookup? name := fun name => by simp only [lookup?, hnames]
  have hhoused : m'.Housed := hm.housed.keep hheap (Nat.le_of_eq (congrArg Array.size hclasses).symm)
    (fun name _ h => (hlookup name).symm.trans h) (fun id h => by rw [hcls, h])
    (fun a _ => by rw [hcls])
    fun a _ _ => by rw [hcls]
  constructor
  case sound => exact hm.sound.of_eq hclasses hnames
  case named =>
    intro name id h
    rw [hcls]
    exact hm.named name id ((hlookup name).symm.trans h)
  case lineage =>
    intro id hid
    rw [hclasses] at hid
    rw [hcls]
    exact (hm.lineage id hid).keep hdirectories fun k _ => .of_eq (hcls k)
  case root => exact fun id => by rw [hcls, hlookup]; exact hm.root id
  case owners => exact fun id => by rw [hcls]; exact hm.owners id
  case super => exact fun id k => by rw [hcls, hcls]; exact hm.super id k
  case laidOut =>
    intro id h
    rw [hcls] at h
    exact (hm.laidOut id h).keep hm (fun k _ => .of_eq (hcls k)) h
  case statics => exact fun id => by rw [hcls]; exact hm.statics id
  case constants => exact fun id => by rw [hcls, hclasses]; exact hm.constants id
  case there => exact hhoused.there
  case instances => exact hhoused.instances
  case arrays => exact hhoused.arrays
  case occupied => exact hhoused.occupied

/-- A class changes. If it is linked already it stays the same in what its layout depends on, and
the number of its instance slots only changes if there is no object of it. -/
theorem changeClass (hm : m.Coherent) (hsound : (m.changeClass id change).Sound)
    (horigin : (m.cls id).SameOrigin (change (m.cls id)))
    (hlineage : m.Lineage (m.cls id) → m.Lineage (change (m.cls id)))
    (hroot : (change (m.cls id)).linked = true → (m.cls id).isArray = false →
      (change (m.cls id)).superClass = none →
      (m.cls id).linked = true ∧ (m.cls id).superClass = none ∨ m.lookup? ClassName.object = some id)
    (hmethods : (change (m.cls id)).methods = (m.cls id).methods)
    (hstarted : (m.cls id).initStarted = true → (change (m.cls id)).initStarted = true)
    (hsuper : ∀ k, (change (m.cls id)).superClass = some k → (m.cls id).superClass = some k ∨
      (m.cls k).linked = true)
    (hlater : (m.cls id).linked = true → (m.cls id).Later (change (m.cls id)))
    (hlaidOut : (change (m.cls id)).linked = true → (m.cls id).linked = true ∨
      (m.changeClass id change).LaidOut id)
    (hstatics : (change (m.cls id)).statics.size = (change (m.cls id)).staticSlots)
    (hconstants : ∀ constant ∈ (change (m.cls id)).pool, constant ∈ (m.cls id).pool ∨
      constant.Within m.classes.size)
    (hslots : (change (m.cls id)).instanceSlots = (m.cls id).instanceSlots ∨
      ∀ a, a.index < m.heap.size → m.classOf a = id → (m.cls id).isArray = true) :
    (m.changeClass id change).Coherent := by
  have hname := horigin.name
  have harray : (change (m.cls id)).isArray = (m.cls id).isArray := by
    rw [Class.isArray, Class.isArray, hname]
  have horigin : ∀ k, (m.cls k).SameOrigin ((m.changeClass id change).cls k) := by
    intro k
    rcases cls_changeClass m id change k with heq | ⟨rfl, heq⟩ <;> rw [heq]
    · exact .refl _
    · exact horigin
  have hlater : ∀ k, (m.cls k).linked = true → (m.cls k).Later ((m.changeClass id change).cls k) := by
    intro k hk
    rcases cls_changeClass m id change k with heq | ⟨rfl, heq⟩ <;> rw [heq]
    · exact .refl _
    · exact hlater hk
  have hkeep : ∀ k, (m.cls k).linked = true → ((m.changeClass id change).cls k).linked = true :=
    fun k hk => (hlater k hk).linked.trans hk
  have hhoused : (m.changeClass id change).Housed := by
    refine hm.housed.keep rfl (Nat.le_of_eq (size_changeClass ..).symm) (fun _ _ h => h) hkeep
      (fun a _ => (horigin _).name)
      fun a ha hinstance => ?_
    rcases cls_changeClass m id change (m.classOf a) with heq | ⟨hid, heq⟩ <;> rw [heq]
    rcases hslots with hslots | hnone
    · rw [hslots, ← hid]
    · rw [hid, hnone a ha hid] at hinstance
      cases hinstance
  constructor
  case sound => exact hsound
  case named =>
    intro name other h
    rcases cls_changeClass m id change other with heq | ⟨rfl, heq⟩ <;> rw [heq]
    · exact hm.named name other h
    · exact hname.trans (hm.named name other h)
  case lineage =>
    intro other hother
    rw [size_changeClass] at hother
    rcases cls_changeClass m id change other with heq | ⟨rfl, heq⟩ <;> rw [heq]
    · exact (hm.lineage other hother).keep rfl fun k _ => horigin k
    · exact (hlineage (hm.lineage other hother)).keep rfl fun k _ => horigin k
  case root =>
    intro other h hobject hsuper
    rcases cls_changeClass m id change other with heq | ⟨rfl, heq⟩ <;> rw [heq] at h hobject hsuper
    · exact hm.root other h hobject hsuper
    · rw [harray] at hobject
      exact (hroot h hobject hsuper).elim (fun hold => hm.root other hold.1 hobject hold.2) fun h => h
  case owners =>
    intro other
    rcases cls_changeClass m id change other with heq | ⟨rfl, heq⟩ <;> rw [heq]
    · exact hm.owners other
    · rw [hmethods]; exact hm.owners other
  case super =>
    intro other k h
    rcases cls_changeClass m id change other with heq | ⟨rfl, heq⟩ <;> rw [heq] at h ⊢
    · exact (hm.super other k h).imp_left (hkeep k)
    · rw [harray]
      rcases hsuper k h with hk | hk
      · exact (hm.super other k hk).imp (hkeep k) (And.imp_right hstarted)
      · exact .inl (hkeep k hk)
  case laidOut =>
    intro other h
    rcases cls_changeClass m id change other with heq | ⟨rfl, heq⟩ <;> rw [heq] at h
    · exact (hm.laidOut other h).keep hm hlater h
    · rcases hlaidOut h with h | h
      · exact (hm.laidOut other h).keep hm hlater h
      · exact h
  case statics =>
    intro other
    rcases cls_changeClass m id change other with heq | ⟨rfl, heq⟩ <;> rw [heq]
    · exact hm.statics other
    · exact hstatics
  case constants =>
    intro other
    rw [size_changeClass]
    rcases cls_changeClass m id change other with heq | ⟨rfl, heq⟩ <;> rw [heq]
    · exact hm.constants other
    · exact fun constant hconstant => (hconstants constant hconstant).elim
        (hm.constants other constant) fun h => h
  case there => exact hhoused.there
  case instances => exact hhoused.instances
  case arrays => exact hhoused.arrays
  case occupied => exact hhoused.occupied

/-- Running code changes a class. -/
theorem changeLater (hm : m.Coherent) (hlater : (m.cls id).Later (change (m.cls id)))
    (hstatics : (change (m.cls id)).statics.size = (m.cls id).statics.size)
    (hconstants : ∀ constant ∈ (change (m.cls id)).pool, constant ∈ (m.cls id).pool ∨
      constant.Within m.classes.size) :
    (m.changeClass id change).Coherent :=
  hm.changeClass (hm.sound.changePlaced hlater.samePlace) hlater.toSameOrigin
    (fun h => h.same hlater.toSameOrigin hlater.superClass hlater.interfaces)
    (fun hl _ hs => .inl ⟨hlater.linked.symm.trans hl, hlater.superClass.symm.trans hs⟩)
      hlater.methods hlater.started
    (fun k hk => .inl (hlater.superClass.symm.trans hk)) (fun _ => hlater)
    (fun h => .inl (hlater.linked.symm.trans h))
    (by rw [hstatics, hm.statics, hlater.staticSlots]) hconstants (.inl hlater.instanceSlots)

/-- A class is added that is not linked, and has no objects. -/
theorem withClass {c : Class} (hm : m.Coherent) (hsound : (m.withClass c).Sound)
    (hlinked : c.linked = false)
    (hlineage : m.Lineage c) (hbelow : ∀ k, c.Below k → k.index < m.classes.size)
    (howners : ∀ method ∈ c.methods, method.owner = m.nextClassId)
    (hsuper : ∀ k, c.superClass = some k → (m.cls k).linked = true ∨ c.isArray = true ∧
      c.initStarted = true)
    (hstatics : c.statics.size = c.staticSlots) (hconstants : ∀ constant ∈ c.pool, constant.Within 0) :
    (m.withClass c).Coherent := by
  have hcls : ∀ id, id = m.nextClassId ∧ (m.withClass c).cls id = c ∨
      (m.withClass c).cls id = m.cls id := by
    intro id
    by_cases h : id = m.nextClassId
    · subst h; exact .inl ⟨rfl, cls_withClass_new c⟩
    · exact .inr (cls_withClass_ne h)
  have hold : ∀ k, k.index < m.classes.size → (m.withClass c).cls k = m.cls k := by
    intro k hk
    exact cls_withClass_ne (by rintro rfl; exact Nat.lt_irrefl _ hk)
  have hkeep : ∀ k, (m.cls k).linked = true → ((m.withClass c).cls k).linked = true :=
    fun k hk => by rw [hold k (lt_of_linked hk)]; exact hk
  have hhoused : (m.withClass c).Housed := by
    refine hm.housed.keep rfl ?_ (fun _ _ h => h) hkeep (fun a ha => ?_) fun a ha _ => ?_
    · rw [size_withClass]
      exact Nat.le_succ _
    · rw [hold _ (hm.there a ha)]
    · rw [hold _ (hm.there a ha)]
  constructor
  case sound => exact hsound
  case named =>
    intro name id h
    rw [hold id (hm.sound.bound name id h)]
    exact hm.named name id h
  case lineage =>
    intro id hid
    by_cases hnew : id = m.nextClassId
    · rw [hnew, cls_withClass_new]
      exact hlineage.keep rfl fun k hk => .of_eq (hold k (hbelow k hk))
    · rw [size_withClass] at hid
      have hlt : id.index < m.classes.size :=
        Nat.lt_of_le_of_ne (Nat.lt_succ_iff.mp hid) fun heq => hnew (by cases id; cases heq; rfl)
      rw [cls_withClass_ne hnew]
      exact (hm.lineage id hlt).keep rfl fun k hk => .of_eq (hold k (hm.sound.above id k hk))
  case root =>
    intro id h
    rcases hcls id with ⟨rfl, heq⟩ | heq <;> rw [heq] at h ⊢
    · rw [hlinked] at h; cases h
    · exact hm.root id h
  case owners =>
    intro id
    rcases hcls id with ⟨rfl, heq⟩ | heq <;> rw [heq]
    · exact howners
    · exact hm.owners id
  case super =>
    intro id k h
    rcases hcls id with ⟨rfl, heq⟩ | heq <;> rw [heq] at h ⊢
    · exact (hsuper k h).imp_left (hkeep k)
    · exact (hm.super id k h).imp_left (hkeep k)
  case laidOut =>
    intro id h
    rcases hcls id with ⟨rfl, heq⟩ | heq <;> rw [heq] at h
    · rw [hlinked] at h; cases h
    · exact (hm.laidOut id h).keep hm (fun k hk => .of_eq (hold k (lt_of_linked hk))) h
  case statics =>
    intro id
    rcases hcls id with ⟨rfl, heq⟩ | heq <;> rw [heq]
    · exact hstatics
    · exact hm.statics id
  case constants =>
    intro id
    rw [size_withClass]
    rcases hcls id with ⟨rfl, heq⟩ | heq <;> rw [heq]
    · exact fun constant hconstant => (hconstants constant hconstant).mono (Nat.zero_le _)
    · exact fun constant hconstant => (hm.constants id constant hconstant).mono (Nat.le_succ _)
  case there => exact hhoused.there
  case instances => exact hhoused.instances
  case arrays => exact hhoused.arrays
  case occupied => exact hhoused.occupied

/-- A name is bound to the class that has it. -/
theorem withName (hm : m.Coherent) (hid : id.index < m.classes.size)
    (hfree : m.lookup? (m.cls id).name = none ∨ (m.cls id).isArray = true)
    (hobjects : (m.cls id).isArray = true ∨ (∀ a, a.index < m.heap.size → m.classOf a ≠ id)) :
    (m.withName (m.cls id).name id).Coherent := by
  have hbound : ∀ name other, (m.withName (m.cls id).name id).lookup? name = some other →
      name = (m.cls id).name ∧ other = id ∨ m.lookup? name = some other := by
    intro name other h
    by_cases hname : name = (m.cls id).name
    · subst hname
      rw [lookup?_withName_self] at h
      cases h
      exact .inl ⟨rfl, rfl⟩
    · rw [lookup?_withName_ne hname] at h
      exact .inr h
  constructor
  case sound => exact hm.sound.withName hid
  case named =>
    intro name other h
    rcases hbound name other h with ⟨rfl, rfl⟩ | h
    · rfl
    · exact hm.named name other h
  case lineage => exact fun other hother => (hm.lineage other hother).keep rfl fun _ _ => .refl _
  case root =>
    intro other h hobject hsuper
    have hroot := hm.root other h hobject hsuper
    rw [lookup?_withName_ne, hroot]
    intro heq
    rcases hfree with hfree | harray
    · rw [← heq, hroot] at hfree; cases hfree
    · rw [Class.isArray, ← heq] at harray
      exact absurd harray (by decide)
  case owners => exact hm.owners
  case super => exact hm.super
  case laidOut => exact fun k hk => (hm.laidOut k hk).keep hm (fun k _ => .refl _) hk
  case statics => exact hm.statics
  case constants => exact hm.constants
  case there => exact hm.there
  case instances => exact hm.instances
  case arrays => exact hm.arrays
  case occupied =>
    intro a name ha hobject h
    rcases hbound name _ h with ⟨-, hclass⟩ | h
    · rcases hobjects with harray | hnone
      · change m.classOf a = id at hclass
        change (m.cls (m.classOf a)).isArray = false at hobject
        rw [hclass, harray] at hobject
        cases hobject
      · exact absurd hclass (hnone a ha)
    · exact hm.occupied a name ha hobject h

/-- The name of a class that is not linked is unbound. -/
theorem withoutName (hm : m.Coherent)
    (hunlinked : ∀ id, m.lookup? name = some id → (m.cls id).linked = false) :
    (m.withoutName name).Coherent := by
  have hbound : ∀ other id, (m.withoutName name).lookup? other = some id →
      m.lookup? other = some id := by
    intro other id h
    by_cases hname : other = name
    · subst hname
      rw [lookup?_withoutName_self] at h
      cases h
    · rwa [lookup?_withoutName_ne hname] at h
  refine ⟨hm.sound.withoutName name, fun other id h => hm.named other id (hbound other id h),
    fun id hid => (hm.lineage id hid).keep rfl fun _ _ => .refl _, fun id h hobject hsuper => ?_,
    hm.owners, hm.super,
    fun k hk => (hm.laidOut k hk).keep hm (fun k _ => .refl _) hk, hm.statics, hm.constants,
    hm.there, hm.instances,
    hm.arrays, fun a other ha hobject h => hm.occupied a other ha hobject (hbound other _ h)⟩
  have hroot := hm.root id h hobject hsuper
  rw [lookup?_withoutName_ne, hroot]
  rintro rfl
  exact Bool.false_ne_true ((hunlinked id hroot).symm.trans h)

/-- The definition of a class begins. -/
theorem begun {c : Class} (hm : m.Coherent) (hfree : m.lookup? c.name = none) (hnone : ∀ k, ¬ c.Below k)
    (hlinked : c.linked = false) (hpool : c.pool.size ≠ 0)
    (howners : ∀ method ∈ c.methods, method.owner = m.nextClassId)
    (hstatics : c.statics.size = c.staticSlots)
    (hconstants : ∀ constant ∈ c.pool, constant.Within 0) : (m.begun c).Coherent := by
  have hadded : (m.withClass c).Coherent := by
    refine hm.withClass ?_ hlinked ⟨fun k hk => absurd (.inl hk) (hnone k),
      fun k hk => absurd (.inr hk) (hnone k),
      fun _ k hk => absurd (.inr hk) (hnone k), fun h => absurd h hpool⟩
      (fun k hk => absurd hk (hnone k)) howners
      (fun k hk => absurd (.inl hk) (hnone k)) hstatics hconstants
    exact hm.sound.withClass (fun k h => absurd h (hnone k)) fun _ k h => absurd h (hnone k)
  have hname : ((m.withClass c).cls m.nextClassId).name = c.name := by rw [cls_withClass_new]
  rw [Machine.begun, ← hname]
  refine hadded.withName (by rw [size_withClass]; exact Nat.lt_succ_self _)
    (.inl (by rw [hname]; exact hfree))
    (.inr fun a ha h => ?_)
  have hthere := hm.there a ha
  change m.classOf a = m.nextClassId at h
  rw [h] at hthere
  exact Nat.lt_irrefl _ hthere

/-- An object is made that has a slot for each instance field of its class. -/
theorem withObject {object : Object} (hm : m.Coherent) (hthere : object.cls.index < m.classes.size)
    (hfields : (m.cls object.cls).isArray = false →
      ∃ fields, object.data = .fields fields ∧ fields.size = (m.cls object.cls).instanceSlots)
    (hsuits : object.data.Suits (m.cls object.cls).name)
    (hoccupied : (m.cls object.cls).isArray = false → ∀ name, m.lookup? name = some object.cls →
      (m.cls object.cls).linked = true ∨ 0 < (m.cls object.cls).instanceSlots) :
      (m.withObject object).Coherent := by
  have hobject : ∀ a : Address, a.index < (m.withObject object).heap.size →
      a.index < m.heap.size ∧ (m.withObject object).object a = m.object a ∨
      (m.withObject object).object a = object := by
    rintro ⟨index⟩ ha
    rw [heap_size_withObject] at ha
    rcases Nat.lt_succ_iff_lt_or_eq.mp ha with hlt | rfl
    · exact .inl ⟨hlt, object_withObject_of_lt hlt⟩
    · exact .inr (object_withObject_new object)
  refine ⟨hm.sound.of_eq rfl rfl, hm.named,
    fun id hid => (hm.lineage id hid).keep rfl fun _ _ => .refl _, hm.root, hm.owners, hm.super,
    fun k hk => (hm.laidOut k hk).keep hm (fun k _ => .refl _) hk, hm.statics, hm.constants,
    fun a ha => ?_, fun a ha => ?_,
    fun a ha => ?_, fun a name ha => ?_⟩ <;> rw [classOf] <;> rcases hobject a ha with
    ⟨hold, heq⟩ | heq <;> rw [heq]
  · exact hm.there a hold
  · exact hthere
  · exact hm.instances a hold
  · exact hfields
  · exact hm.arrays a hold
  · exact hsuits
  · exact hm.occupied a name hold
  · exact fun h => hoccupied h name

/-- An object comes to hold something else of the same shape. -/
theorem withData {a : Address} {data : ObjectData} (hm : m.Coherent)
    (hshape : a.index < m.heap.size → (m.object a).data.SameShape data)
    (hsuits : a.index < m.heap.size → data.Suits (m.cls (m.classOf a)).name) :
    (m.withData a data).Coherent := by
  have hclass : ∀ other, (m.withData a data).classOf other = m.classOf other := by
    intro other
    by_cases h : other = a ∧ a.index < m.heap.size
    · obtain ⟨rfl, hlt⟩ := h
      rw [classOf, object_withData_self hlt]
    · by_cases hne : other = a
      · subst hne
        have hge : m.heap.size ≤ other.index := Nat.le_of_not_lt fun hlt => h ⟨rfl, hlt⟩
        simp [classOf, object, Array.getD, Nat.not_lt_of_le hge]
      · rw [classOf, classOf, object_withData_ne hne]
  refine ⟨hm.sound.of_eq rfl rfl, hm.named,
    fun id hid => (hm.lineage id hid).keep rfl fun _ _ => .refl _, hm.root, hm.owners, hm.super,
    fun k hk => (hm.laidOut k hk).keep hm (fun k _ => .refl _) hk, hm.statics, hm.constants,
    fun other hother => ?_,
    fun other hother => ?_, fun other hother => ?_, fun other name hother => ?_⟩ <;>
    rw [heap_size_withData] at hother <;>
    rw [hclass]
  · exact hm.there other hother
  · by_cases hne : other = a
    · subst hne
      rw [object_withData_self hother]
      intro harray
      obtain ⟨before, hbefore, hsize⟩ := hm.instances other hother harray
      obtain ⟨after, hafter, hsame⟩ := ObjectData.SameShape.of_fields (hbefore ▸ hshape hother)
      exact ⟨after, hafter, hsame.trans hsize⟩
    · rw [object_withData_ne hne]
      exact hm.instances other hother
  · by_cases hne : other = a
    · subst hne
      rw [object_withData_self hother]
      exact hsuits hother
    · rw [object_withData_ne hne]
      exact hm.arrays other hother
  · exact hm.occupied other name hother

end Coherent

/-! ### Classes that are being defined -/

/-- A class that is being defined, before its fields are placed. -/
structure Opened (m : Machine) (id : ClassId) : Prop where
  there : id.index < m.classes.size
  unlinked : (m.cls id).linked = false
  empty : (m.cls id).instanceSlots = 0
  known : (m.cls id).isArray = true ∨ m.lookup? (m.cls id).name = some id
  orphan : (m.cls id).superName = none → (m.cls id).name = ClassName.object

/-- A class that is being defined, after its super class was attached. Only the root of the
hierarchy has none. -/
structure Attached (m : Machine) (id : ClassId) : Prop extends m.Opened id where
  root : (m.cls id).superClass = none → (m.cls id).isArray = true ∨ m.lookup? ClassName.object = some id

/-- The class of a name that is being defined, once its fields are placed. -/
structure Ready (m : Machine) (id : ClassId) (name : String) : Prop where
  there : id.index < m.classes.size
  root : (m.cls id).superClass = none → (m.cls id).isArray = true ∨ m.lookup? ClassName.object = some id
  called : (m.cls id).name = name
  placed : (m.cls id).isArray = true ∧ (m.cls id).initStarted = true ∨
    (m.cls id).Placed (m.inherited id)

theorem Opened.grows {own : ClassId → Prop} (h : m.Opened id) (hgrows : m.Grows own m')
    (hown : ¬ own id) :
    m'.Opened id := by
  have hcls := hgrows.same id h.there hown
  refine ⟨Nat.lt_of_lt_of_le h.there hgrows.classes, ?_, ?_, ?_, ?_⟩ <;> rw [hcls]
  · exact h.unlinked
  · exact h.empty
  · exact h.known.imp_right (hgrows.bound _ id)
  · exact h.orphan

theorem Attached.grows {own : ClassId → Prop} (h : m.Attached id) (hgrows : m.Grows own m')
    (hown : ¬ own id) :
    m'.Attached id := by
  refine ⟨h.toOpened.grows hgrows hown, ?_⟩
  rw [hgrows.same id h.there hown]
  exact fun hsuper => (h.root hsuper).imp_right (hgrows.bound _ id)

theorem Ready.grows {own : ClassId → Prop} (h : m.Ready id name) (hm : m.Sound)
    (hgrows : m.Grows own m') (hown : ∀ k, ¬ own k) : m'.Ready id name := by
  have hcls := hgrows.same id h.there (hown id)
  refine ⟨Nat.lt_of_lt_of_le h.there hgrows.classes, fun hsuper => ?_, by rw [hcls]; exact h.called, ?_⟩
  · rw [hcls] at hsuper ⊢
    exact (h.root hsuper).imp_right (hgrows.bound _ id)
  have hinherited : m'.inherited id = m.inherited id := by
    rw [inherited, inherited, hcls]
    rcases hsuper : (m.cls id).superClass with _ | k
    · rfl
    · rw [Option.map_some, Option.map_some, hgrows.same k (hm.above id k (.inl hsuper)) (hown k)]
  rw [hinherited, hcls]
  exact h.placed

namespace Coherent

/-- No object stands in the way of placing the fields of a class that is being defined. -/
theorem no_object (hm : m.Coherent) (h : m.Opened id) (a : Address) (ha : a.index < m.heap.size)
    (hclass : m.classOf a = id) : (m.cls id).isArray = true := by
  rcases harray : (m.cls id).isArray with _ | _
  · rcases h.known with hknown | hknown
    · rw [harray] at hknown; cases hknown
    · subst hclass
      rcases hm.occupied a _ ha harray hknown with hlinked | hslots
      · rw [h.unlinked] at hlinked; cases hlinked
      · rw [h.empty] at hslots; cases hslots
  · rfl

/-- The fields of a class that is being defined are placed. -/
theorem layOut {inherited : Nat} (hm : m.Coherent) (h : m.Attached id)
    (hinherited : m.inherited id = inherited) :
    (m.changeClass id (·.layOut inherited)).Coherent ∧
      (m.changeClass id (·.layOut inherited)).Ready id (m.cls id).name := by
  have hself := cls_changeClass_self (·.layOut inherited) h.there
  have horigin : (m.cls id).SameOrigin ((m.cls id).layOut inherited) := ⟨rfl, rfl, rfl, rfl, rfl⟩
  refine ⟨hm.changeClass (hm.sound.changePlaced (Class.samePlace_layOut _ _)) horigin
    (fun hl => hl.same horigin rfl rfl)
    (fun hl _ hs => .inl ⟨hl, hs⟩) rfl (fun hs => hs) (fun k hk => .inl hk) (fun hl => ?_)
    (fun hl => .inl hl) ?_
    (fun _ => .inl) (.inr (hm.no_object h.toOpened)), ?_, ?_, (by rw [hself]; rfl), ?_⟩
  · rw [h.unlinked] at hl; cases hl
  · simp [Class.layOut, SlotTable.zeros, SlotTable.size]
  · rw [size_changeClass]; exact h.there
  · rw [hself]
    exact h.root
  · rw [Machine.inherited, hself]
    change _ ∨ ((m.cls id).layOut inherited).Placed (((m.cls id).superClass.map _).getD 0)
    rw [Machine.inherited] at hinherited
    rcases hsuper : (m.cls id).superClass with _ | k <;> rw [hsuper] at hinherited
    · subst hinherited
      exact .inr (Class.placed_layOut _ _)
    · rcases hm.super id k hsuper with hk | harray
      · have hne : k ≠ id := by rintro rfl; rw [h.unlinked] at hk; cases hk
        rw [Option.map_some, Option.getD_some, cls_changeClass_ne hne]
        rw [Option.map_some, Option.getD_some] at hinherited
        rw [hinherited]
        exact .inr (Class.placed_layOut _ _)
      · exact .inl harray

/-- A class whose fields are placed is marked as linked. -/
theorem link (hm : m.Coherent) (h : m.Ready id name) (hunlinked : (m.cls id).linked = false) :
    (m.changeClass id ({ · with linked := true })).Coherent := by
  have horigin : (m.cls id).SameOrigin { m.cls id with linked := true } := ⟨rfl, rfl, rfl, rfl, rfl⟩
  refine hm.changeClass (hm.sound.changeClass rfl (fun _ => rfl) fun k hk => .inl hk) horigin
    (fun hl => hl.same horigin rfl rfl)
    (fun _ hobject hs => .inr ((h.root hs).resolve_left (by simp [hobject]))) rfl
    (fun hs => hs) (fun k hk => .inl hk) (fun hl => ?_) (fun _ => .inr ?_) (hm.statics id)
    (fun _ => .inl) (.inl rfl)
  · rw [hunlinked] at hl; cases hl
  · have hlaidOut : m.LaidOut id := by
      rcases h.placed with ⟨harray, hstarted⟩ | hplaced
      · exact .array harray hstarted
      · by_cases harray : (m.cls id).isArray = true ∧ (m.cls id).initStarted = true
        · exact .array harray.1 harray.2
        · exact .after hplaced fun k hk => hm.laidOut k ((hm.super id k hk).resolve_right harray)
    refine hlaidOut.of_linking fun k => ?_
    rcases cls_changeClass m id ({ · with linked := true }) k with heq | ⟨rfl, heq⟩
    · exact ⟨(m.cls k).linked, heq⟩
    · exact ⟨true, heq⟩

end Coherent

end Machine

end JavaMachine
