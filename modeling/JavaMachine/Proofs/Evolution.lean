import JavaMachine.Machine.Resolution
import JavaMachine.Proofs.Following
import JavaMachine.Proofs.LoadSteps

/-!
How a machine changes while code runs.

`Machine.Regular` is what holds of a machine between operations: it is coherent, and all that is
bound is linked. `Machine.Evolves` is what stays true of a class, an object and a name for the rest
of a run. A step on a machine is `Steady` if it keeps the machine regular, lets it evolve and begins
no initialization.
-/

namespace JavaMachine

/-- The name of the component class of a reference array class; other classes have none. -/
def Class.componentName? (c : Class) : Option String :=
  (ArrayName.component? c.name).filter (!ArrayName.isPrimitive ·)

theorem Class.Later.componentName? {c c' : Class} (h : c.Later c') :
    c'.componentName? = c.componentName? := by
  rw [Class.componentName?, Class.componentName?, h.name]

/-- Only array classes have a component class. -/
theorem Class.isArray_of_componentName? {c : Class} {name : String} (h : c.componentName? = some name) :
    c.isArray = true := by
  obtain ⟨hname, -⟩ := Option.filter_eq_some_iff.mp h
  unfold ArrayName.component? at hname
  rw [Class.isArray, ArrayName.isArray]
  split at hname
  · rename_i heq
    rw [heq]
    rfl
  · rename_i heq
    rw [heq]
    rfl
  · cases hname

/-- A store leaves the number of elements and their kind. -/
theorem ObjectData.store_shape (data : ObjectData) (isBoolean : Bool) (index : Nat) (value : Value) :
    data.SameShape (data.store isBoolean index value) ∧
      (data.store isBoolean index value).elementKind? = data.elementKind? := by
  cases data <;> cases value <;> first
    | exact ⟨.refl _, rfl⟩
    | exact ⟨⟨rfl, Array.size_setIfInBounds⟩, rfl⟩

namespace Machine

variable {m m₁ m' : Machine} {id : ClassId} {change : Class → Class}

/-- `k` was loaded as the component class of `id`. -/
structure ComponentOf (m : Machine) (k id : ClassId) : Prop where
  bound : m.lookup? (m.cls k).name = some k
  answers : ∃ name, (m.cls id).componentName? = some name ∧ m.Answers name k

/-- A coherent machine on which no definition is going on. -/
structure Regular (m : Machine) : Prop where
  coherent : m.Coherent
  linked : ∀ name id, m.lookup? name = some id → (m.cls id).linked = true
  component : ∀ id k, (m.cls id).component = some k → m.ComponentOf k id

theorem ComponentOf.keep {k : ClassId} (h : m.ComponentOf k id)
    (hdirectories : m'.directories = m.directories)
    (hbound : ∀ name id, m.lookup? name = some id → m'.lookup? name = some id)
    (hk : (m'.cls k).name = (m.cls k).name) (hid : (m'.cls id).name = (m.cls id).name) :
    m'.ComponentOf k id := by
  obtain ⟨name, hname, hanswers⟩ := h.answers
  refine ⟨by rw [hk]; exact hbound _ _ h.bound, name, ?_, hanswers.keep hdirectories hk⟩
  rw [Class.componentName?, hid]
  exact hname

/-- What stays of a machine: its classes, what objects are instances of, how much they hold, and its
names. -/
structure Evolves (m m' : Machine) : Prop where
  classes : m.classes.size ≤ m'.classes.size
  heap : m.heap.size ≤ m'.heap.size
  later : ∀ id, id.index < m.classes.size → (m.cls id).Later (m'.cls id)
  classOf : ∀ a, a.index < m.heap.size → m'.classOf a = m.classOf a
  shape : ∀ a, a.index < m.heap.size → (m.object a).data.SameShape (m'.object a).data
  bound : ∀ name id, m.lookup? name = some id → m'.lookup? name = some id
  recalls : m.Recalls m'

namespace Evolves

theorem refl (m : Machine) : m.Evolves m :=
  ⟨Nat.le_refl _, Nat.le_refl _, fun _ _ => .refl _, fun _ _ => rfl, fun _ _ => .refl _,
    fun _ _ h => h, .refl m⟩

theorem trans (h : m.Evolves m₁) (h' : m₁.Evolves m') : m.Evolves m' where
  classes := Nat.le_trans h.classes h'.classes
  heap := Nat.le_trans h.heap h'.heap
  later id hid := (h.later id hid).trans (h'.later id (Nat.lt_of_lt_of_le hid h.classes))
  classOf a ha := (h'.classOf a (Nat.lt_of_lt_of_le ha h.heap)).trans (h.classOf a ha)
  shape a ha := (h.shape a ha).trans (h'.shape a (Nat.lt_of_lt_of_le ha h.heap))
  bound name id hid := h'.bound name id (h.bound name id hid)
  recalls := h.recalls.trans h'.recalls h.heap h'.heap

theorem of_grows (h : m.Grows (fun _ => False) m') : m.Evolves m' :=
  ⟨h.classes, h.heap, fun id hid => .of_eq (h.same id hid fun hfalse => hfalse),
    fun a ha => by rw [Machine.classOf, Machine.classOf, h.object a ha], fun a ha =>
    .of_eq (by rw [h.object a ha]), h.bound, h.recalls⟩

theorem changeClass (h : (m.cls id).Later (change (m.cls id))) :
    m.Evolves (m.changeClass id change) := by
  refine ⟨Nat.le_of_eq size_changeClass.symm, Nat.le_refl _, fun other _ => ?_, fun _ _ => rfl,
    fun _ _ => .refl _, fun _ _ h => h, .of_eq rfl⟩
  rcases cls_changeClass m id change other with heq | ⟨rfl, heq⟩ <;> rw [heq]
  · exact .refl _
  · exact h

theorem withObject (object : Object) : m.Evolves (m.withObject object) :=
  of_grows (grows_of_eq rfl rfl rfl rfl (by simp) fun _ ha => object_withObject_of_lt ha)

theorem classOf_withData (m : Machine) (a other : Address) (data : ObjectData) :
    (m.withData a data).classOf other = m.classOf other := by
  by_cases hne : other = a
  · subst hne
    by_cases hlt : other.index < m.heap.size
    · rw [Machine.classOf, object_withData_self hlt]
    · simp [Machine.classOf, object, Array.getD, hlt]
  · rw [Machine.classOf, Machine.classOf, object_withData_ne hne]

theorem withData {a : Address} {data : ObjectData}
    (h : a.index < m.heap.size → (m.object a).data.SameShape data) :
    m.Evolves (m.withData a data) := by
  refine ⟨Nat.le_refl _, Nat.le_of_eq (heap_size_withData data).symm, fun _ _ => .refl _,
    fun other _ => classOf_withData m a other data, fun other hother => ?_, fun _ _ h => h, .of_eq rfl⟩
  by_cases hne : other = a
  · subst hne
    rw [object_withData_self hother]
    exact h hother
  · rw [object_withData_ne hne]
    exact .refl _

end Evolves

namespace Regular

theorem grows (hm : m.Regular) (hm' : m'.Coherent) (h : m.Grows (fun _ => False) m')
    (hcomponent : ∀ id k, (m'.cls id).component = some k → (m.cls id).component = some k) :
    m'.Regular := by
  refine ⟨hm', fun name id hid => ?_, fun id k hk => ?_⟩
  · rcases h.added name id hid with hold | ⟨-, hlinked⟩
    · exact (h.linked id (hm.coherent.sound.bound name id hold)).trans (hm.linked name id hold)
    · exact hlinked
  · have hold := hm.component id k (hcomponent id k hk)
    have hid : id.index < m.classes.size := by
      obtain ⟨name, hname, -⟩ := hold.answers
      exact lt_of_isArray (Class.isArray_of_componentName? hname)
    have hsame : ∀ {id : ClassId}, id.index < m.classes.size → (m'.cls id).name = (m.cls id).name :=
      fun hid => congrArg Class.name (h.same _ hid fun h => h)
    exact hold.keep h.directories h.bound (hsame (hm.coherent.sound.bound _ _ hold.bound)) (hsame hid)

theorem changeClass (hm : m.Regular) (hlater : (m.cls id).Later (change (m.cls id)))
    (hstatics : (change (m.cls id)).statics.size = (m.cls id).statics.size)
    (hconstants : ∀ constant ∈ (change (m.cls id)).pool, constant ∈ (m.cls id).pool ∨
      constant.Within m.classes.size)
    (hcomponent : ∀ k, (change (m.cls id)).component = some k → (m.cls id).component = some k ∨
      m.ComponentOf k id) :
    (m.changeClass id change).Regular := by
  have hname : ∀ k, ((m.changeClass id change).cls k).name = (m.cls k).name := by
    intro k
    rcases cls_changeClass m id change k with heq | ⟨rfl, heq⟩ <;> rw [heq]
    exact hlater.name
  have hkeep : ∀ {k other : ClassId}, m.ComponentOf k other →
      (m.changeClass id change).ComponentOf k other :=
    fun hk => hk.keep rfl (fun _ _ h => h) (hname _) (hname _)
  refine ⟨hm.coherent.changeLater hlater hstatics hconstants, fun name other h => ?_,
    fun other k hk => ?_⟩
  · rcases cls_changeClass m id change other with heq | ⟨rfl, heq⟩ <;> rw [heq]
    · exact hm.linked name other h
    · exact hlater.linked.trans (hm.linked name other h)
  · rcases cls_changeClass m id change other with heq | ⟨rfl, heq⟩ <;> rw [heq] at hk
    · exact hkeep (hm.component other k hk)
    · exact hkeep ((hcomponent k hk).elim (hm.component other k) fun h => h)

/-- The initialization of a class begins. -/
theorem startInitialization (hm : m.Regular) (id : ClassId) :
    (m.changeClass id ({ · with initStarted := true })).Regular ∧
      m.Evolves (m.changeClass id ({ · with initStarted := true })) :=
  ⟨hm.changeClass (.initStarted _) rfl (fun _ => .inl) fun _ => .inl, .changeClass (.initStarted _)⟩

/-- An instance of a class is made. -/
theorem newInstance {fields : SlotTable} (hm : m.Regular) (hid : id.index < m.classes.size)
    (hfields : fields.size = (m.cls id).instanceSlots) : (m.withObject ⟨id, .fields fields⟩).Regular :=
  ⟨hm.coherent.withObject hid (fun _ => ⟨fields, rfl, hfields⟩) (ObjectData.suits_fields _ _)
    fun _ name hbound => .inl (hm.linked name id hbound), hm.linked,
    fun id k hk => (hm.component id k hk).keep rfl (fun _ _ h => h) rfl rfl⟩

/-- An instance of an array class is made. -/
theorem newArray {data : ObjectData} (hm : m.Regular) (harray : (m.cls id).isArray = true)
    (hdata : data.OfArray (m.cls id).name) : (m.withObject ⟨id, data⟩).Regular := by
  have hnot : ∀ {p : Prop}, (m.cls id).isArray = false → p := fun h => by rw [harray] at h; cases h
  exact ⟨hm.coherent.withObject (lt_of_isArray harray) hnot (fun _ => hdata) hnot, hm.linked,
    fun id k hk => (hm.component id k hk).keep rfl (fun _ _ h => h) rfl rfl⟩

theorem withData {a : Address} {data : ObjectData} (hm : m.Regular)
    (hshape : a.index < m.heap.size → (m.object a).data.SameShape data)
    (hsuits : a.index < m.heap.size → data.Suits (m.cls (m.classOf a)).name) :
    (m.withData a data).Regular :=
  ⟨hm.coherent.withData hshape hsuits, hm.linked,
    fun id k hk => (hm.component id k hk).keep rfl (fun _ _ h => h) rfl rfl⟩

end Regular

/-- There is an array at an address. -/
structure HasArray (m : Machine) (a : Address) : Prop where
  there : a.index < m.heap.size
  array : (m.cls (m.classOf a)).isArray = true

/-- An array stays an array. -/
theorem HasArray.evolves {a : Address} (h : m.HasArray a) (hm : m.Coherent) (hevolves : m.Evolves m') :
    m'.HasArray a := by
  refine ⟨Nat.lt_of_lt_of_le h.there hevolves.heap, ?_⟩
  rw [hevolves.classOf a h.there, (hevolves.later _ (hm.there a h.there)).isArray]
  exact h.array

/-- Only arrays have elements. -/
theorem Regular.hasArray {a : Address} (hm : m.Regular) (helements : (m.object a).data.fields? = none) :
    m.HasArray a := by
  have hlt : a.index < m.heap.size := by
    refine Nat.lt_of_not_le fun hle => ?_
    rw [show m.object a = default by simp [object, Array.getD, Nat.not_lt_of_le hle]] at helements
    cases helements
  refine ⟨hlt, ?_⟩
  rcases harray : (m.cls (m.classOf a)).isArray with _ | _
  · obtain ⟨fields, hdata, -⟩ := hm.coherent.instances a hlt harray
    rw [hdata] at helements
    cases helements
  · rfl

/-- What an object may hold instead of what it holds: as much, and of the kind that its class asks
for. -/
structure Accepts (m : Machine) (a : Address) (data : ObjectData) : Prop where
  there : a.index < m.heap.size
  shape : (m.object a).data.SameShape data
  suits : data.Suits (m.cls (m.classOf a)).name

theorem Accepts.evolves {a : Address} {data : ObjectData} (h : m.Accepts a data) (hm : m.Coherent)
    (hevolves : m.Evolves m') : m'.Accepts a data := by
  refine ⟨Nat.lt_of_lt_of_le h.there hevolves.heap, (hevolves.shape a h.there).symm.trans h.shape, ?_⟩
  rw [hevolves.classOf a h.there, (hevolves.later _ (hm.there a h.there)).name]
  exact h.suits

/-- An array may hold as many elements of the same kind. -/
theorem Regular.accepts {a : Address} {data : ObjectData} (hm : m.Regular)
    (helements : (m.object a).data.fields? = none)
    (hshape : (m.object a).data.SameShape data)
    (hkind : data.elementKind? = (m.object a).data.elementKind?) :
    m.Accepts a data :=
  have hthere := (hm.hasArray helements).there
  ⟨hthere, hshape, hshape.suits hkind (hm.coherent.arrays a hthere)⟩

/-- An array of references may hold as many others. -/
theorem Regular.accepts_references {a : Address} {before after : Array (Option Address)}
    (hm : m.Regular)
    (hbefore : (m.object a).data = .references before) (hsize : after.size = before.size) :
    m.Accepts a (.references after) :=
  hm.accepts (by rw [hbefore]; rfl) (by rw [hbefore]; exact ⟨rfl, hsize⟩) (by rw [hbefore]; rfl)

theorem Regular.accepts_references_of_kind {a : Address} {elements : Array (Option Address)}
    (hm : m.Regular)
    (hkind : (m.object a).data.elementKind? = some .reference)
    (hsize : elements.size = (m.object a).data.size) :
    m.Accepts a (.references elements) := by
  obtain ⟨before, hbefore⟩ := ObjectData.references_of_kind hkind
  rw [hbefore] at hsize
  exact hm.accepts_references hbefore hsize

/-- An array of strings is one of references. -/
theorem Regular.elementKind?_of_strings {a : Address} (hm : m.Regular)
    (helements : (m.object a).data.fields? = none)
    (hname : m.className a = "[Ljava/lang/String;") : (m.object a).data.elementKind? =
      some .reference := by
  obtain ⟨fresh, hnew, hkind⟩ := hm.coherent.arrays a (hm.hasArray helements).there helements
  rw [show (m.cls (m.classOf a)).name = "[Ljava/lang/String;" from hname] at hnew
  cases hnew
  exact hkind.symm

theorem regular_start (directories : List Directory) : (start directories).Regular := by
  have hcls : ∀ id, (start directories).cls id = default := fun id => cls_of_size_le (Nat.zero_le _)
  refine ⟨⟨⟨fun name id h => (by cases h), fun id k h => ?_, fun id k _ h => ?_⟩,
    fun name id h => (by cases h),
    fun id hid => absurd hid (Nat.not_lt_zero _), fun id h => ?_, fun id => ?_, fun id k h =>
    ?_, fun id h => ?_,
    fun id => ?_, fun id constant h => ?_, fun a ha => absurd ha (Nat.not_lt_zero _),
    fun a ha => absurd ha (Nat.not_lt_zero _), fun a ha => absurd ha (Nat.not_lt_zero _),
    fun a name ha => absurd ha (Nat.not_lt_zero _)⟩, fun name id h => (by cases h), fun id k h => ?_⟩
  · rw [hcls] at h
    exact absurd h (Class.not_below_default k)
  · rw [hcls] at h
    exact absurd h (Class.not_below_default k)
  · rw [hcls] at h; cases h
  · rw [hcls]
    intro method hmethod
    cases hmethod
    contradiction
  · rw [hcls] at h; cases h
  · rw [hcls] at h; cases h
  · rw [hcls]; rfl
  · rw [hcls] at h
    cases h
    contradiction
  · rw [hcls] at h; cases h

end Machine

namespace VM

open Machine

variable {α β : Type} {m m' : Machine}

/-- The instance fields of an object; arrays have none. -/
def instanceFields (a : Address) : VM SlotTable := do
  let m ← get
  match (m.object a).data.fields? with
  | some fields => return fields
  | none => raise ExceptionName.incompatibleClassChange s!"{m.className a} has no instance fields"

/-- Stores slots one after the other in the instance fields of an object. -/
def storeFields (a : Address) (slot : Nat) (slots : List Slot) : VM Unit := do
  let fields ← instanceFields a
  setData a (.fields (← inRange (fields.setAll? slot slots)))

/-- Stores slots one after the other in the static fields of a class. -/
def storeStatics (id : ClassId) (slot : Nat) (slots : List Slot) : VM Unit := do
  let statics ← inRange ((← cls id).statics.setAll? slot slots)
  modifyClass id ({ · with statics })

/-- A load of a name that is bound only looks it up. -/
theorem outcome_load_of_bound {name : String} {id : ClassId} (h : m.lookup? name = some id) :
    outcome (load name) m = (.ok id, m) := by
  unfold load Machine.nesting
  rw [outcome_bind_of_ok (outcome_get m), Loader.outcome_loadWithin_of_bound h]

/-- A load of a name that has a file is the definition of the class that the file holds. -/
theorem outcome_load_of_file {name : String} {bytes : List UInt8} {file : ClassFile}
    (hfree : m.lookup? name = none) (harray : ArrayName.isArray name = false)
    (hfile : m.classFile? name = some bytes) (hdecode : ClassFile.decode bytes = .ok file) :
    outcome (load name) m = outcome (Loader.define (Loader.loadWithin (m.nesting - 1)) file) m := by
  obtain ⟨nesting, hnesting⟩ : ∃ nesting, m.nesting = nesting + 1 := ⟨_, rfl⟩
  rw [load, outcome_bind_of_ok (outcome_get m), hnesting, Nat.add_sub_cancel,
    Loader.outcome_loadWithin_of_file hfree harray hfile hdecode]

theorem component?_eq (id : ClassId) : component? id = (do
    let c ← cls id
    match c.componentName? with
    | none => return none
    | some name =>
      match c.component with
      | some component => return some component
      | none =>
        let component ← load name
        modifyClass id ({ · with component := some component })
        return some component) := rfl

theorem outcome_modifyData (a : Address) (change : ObjectData → ObjectData) :
    outcome (modifyData a change) m = (.ok ⟨⟩, m.withData a (change (m.object a).data)) := by
  refine Prod.ext rfl ?_
  change { m with heap := _ } = { m with heap := _ }
  congr 1
  apply Array.ext
  · simp
  · intro i hi hi'
    have hlt : i < m.heap.size := by simpa using hi
    by_cases h : a.index = i
    · simp [Array.getElem_modify, h, Machine.object, Array.getD, hlt]
    · simp [Array.getElem_modify, h]

/-- A step on `m` that keeps it regular, lets it evolve and begins no initialization, if it
completes. -/
def SteadyOn (m : Machine) (x : VM α) : Prop :=
  ∀ r m', m.Regular → outcome x m = (r, m') → Completes r → m'.Regular ∧ m.Evolves m' ∧ m.Quiet m'

/-- A step that is steady on every machine. -/
def Steady (x : VM α) : Prop := ∀ m, SteadyOn m x

namespace SteadyOn

variable {x : VM α}

theorem of_same (h : (outcome x m).2 = m) : SteadyOn m x := fun r m' hm hrun _ => by
  rw [hrun] at h
  cases h
  exact ⟨hm, .refl _, .refl _⟩

/-- The second step is only asked for what it does after the first one. -/
theorem bind {f : α → VM β} (hx : SteadyOn m x)
    (hf : ∀ a m₁, m.Regular → m₁.Regular → m.Evolves m₁ → outcome x m = (.ok a, m₁) →
      SteadyOn m₁ (f a)) :
    SteadyOn m (x >>= f) := by
  intro r m' hm hrun hr
  obtain ⟨fault, hfirst, rfl⟩ | ⟨a, m₁, hfirst, hrun⟩ := outcome_bind_completes hrun hr
  · exact hx _ _ hm hfirst trivial
  · obtain ⟨hm₁, hevolves, hquiet⟩ := hx _ m₁ hm hfirst trivial
    obtain ⟨hm', hevolves', hquiet'⟩ := hf a m₁ hm hm₁ hevolves hfirst r m' hm₁ hrun hr
    exact ⟨hm', hevolves.trans hevolves', hquiet.trans hquiet'⟩

/-- An object comes to hold something else of the same shape. -/
theorem setData {a : Address} {data : ObjectData} (hshape : (m.object a).data.SameShape data)
    (hsuits : m.Regular → a.index < m.heap.size → data.Suits (m.cls (m.classOf a)).name) :
    SteadyOn m (VM.setData a data) := fun r m' hm hrun _ => by
  cases hrun
  exact ⟨hm.withData (fun _ => hshape) (hsuits hm), .withData fun _ => hshape, .of_eq rfl⟩

/-- The fields of an object are replaced by as many. -/
theorem setFields {a : Address} {before after : SlotTable}
    (hbefore : (m.object a).data.fields? = some before)
    (hsize : after.size = before.size) : SteadyOn m (VM.setData a (.fields after)) := by
  have hdata : (m.object a).data = .fields before := by
    generalize (m.object a).data = data at hbefore
    cases data <;> cases hbefore
    rfl
  exact .setData ⟨by rw [hdata]; rfl, by rw [hdata]; exact hsize⟩ fun _ _ => ObjectData.suits_fields _ _

/-- What an object holds is replaced by what it may hold. -/
theorem setAccepted {a : Address} {data : ObjectData} (h : m.Accepts a data) :
    SteadyOn m (VM.setData a data) :=
  .setData h.shape fun _ _ => h.suits

/-- A constant is replaced by what it may come to be, which refers to classes that are there. -/
theorem setConstant {owner : ClassId} {index : UInt16} {constant : Constant}
    (h : constant.Within m.classes.size)
    (hbefore : ∀ before, (m.cls owner).pool[index.toNat]? = some before → before.Later constant) :
    SteadyOn m (VM.setConstant owner index constant) := fun r m' hm hrun _ => by
  cases hrun
  have hlater := Class.Later.withConstant (m.cls owner) index.toNat hbefore
  refine ⟨hm.changeClass hlater rfl (fun other hother => ?_) (fun _ => .inl), .changeClass hlater,
    .changeClass rfl rfl⟩
  rcases Array.mem_or_eq_of_mem_setIfInBounds hother with hold | rfl
  · exact .inl hold
  · exact .inr h

/-- An instance is made of a class that is there. -/
theorem newObject {id : ClassId} (hid : id.index < m.classes.size) : SteadyOn m (VM.newObject id) :=
  fun r m' hm hrun _ => by
    cases hrun
    exact ⟨hm.newInstance hid (SlotTable.size_zeros _), .withObject _, .of_eq rfl⟩

end SteadyOn

namespace Steady

variable {x : VM α}

theorem pure (a : α) : Steady (pure a : VM α) := fun _ => .of_same rfl

theorem throw (e : Failure) : Steady (throw e : VM α) := fun _ => .of_same rfl

theorem get : Steady (get : VM Machine) := fun _ => .of_same rfl

theorem bind {f : α → VM β} (hx : Steady x) (hf : ∀ a, Steady (f a)) : Steady (x >>= f) :=
  fun m => (hx m).bind fun a m₁ _ _ _ _ => hf a m₁

theorem attempt (hx : Steady x) : Steady (attempt x) := by
  intro m r m' hm hrun hr
  obtain ⟨fault, hfirst, rfl⟩ | ⟨a, hfirst, rfl⟩ := outcome_vm_attempt_completes hrun hr
  · exact hx m _ _ hm hfirst trivial
  · exact hx m _ _ hm hfirst trivial

/-- What steps of the loader do. -/
theorem of_follows {gives gives' : Machine → Machine → α → Prop}
    (h : ∀ m, Loader.Follows (fun _ => False) m x (gives m))
    (htraced : ∀ m : Machine, Loader.Traced m.classes.size m x (gives' m)) : Steady x := by
  intro m r m' hm hrun hr
  have hleft := h m hm.coherent r m' hrun hr
  have hloading := (htraced m hm.coherent.sound (Nat.le_refl _) r m' hrun hr).1
  exact ⟨hm.grows hleft.coherent hleft.grows fun _ _ => hloading.component,
    .of_grows hleft.grows, hleft.quiet⟩

theorem load (name : String) : Steady (load name) :=
  of_follows (load_faithful · name) (load_tracing · name)

theorem define (file : ClassFile) : Steady (define file) :=
  of_follows (fun _ => Loader.define_follows load_faithful) fun _ =>
    Loader.define_traced load_tracing file

theorem stringOfUnits (units : Text.Units) : Steady (stringOfUnits units) :=
  of_follows (fun _ => Loader.stringOfUnits_follows load_faithful units) fun _ =>
    Loader.stringOfUnits_traced load_tracing units

theorem intern (units : Text.Units) : Steady (intern units) :=
  of_follows (fun _ => Loader.intern_follows load_faithful units) fun _ =>
    Loader.intern_traced load_tracing units

/-- A component class is loaded once, and kept from then on. -/
theorem component? (id : ClassId) : Steady (component? id) := by
  intro m
  rw [component?_eq]
  refine .bind (.of_same rfl) fun c m₁ _ _ _ hc => ?_
  cases hc
  rcases hname : (m.cls id).componentName? with _ | name
  · exact .of_same rfl
  dsimp only
  rcases hkept : (m.cls id).component with _ | component
  · refine .bind (load name m) fun component m₁ hm hm₁ hevolves hload => ?_
    have hfound := (load_faithful m name hm.coherent _ _ hload trivial)
    have hnone : (m₁.cls id).component = none := Option.eq_none_iff_forall_ne_some.mpr fun k hk => by
      have hold := (load_tracing m name hm.coherent.sound (Nat.le_refl _)
        _ _ hload trivial).1.component hk
      rw [hkept] at hold
      cases hold
    have hcomponent : m₁.ComponentOf component id :=
      ⟨(hfound.given _ rfl).bound, name,
        (hevolves.later id (lt_of_isArray (Class.isArray_of_componentName? hname))).componentName?.trans
        hname, (hfound.given _ rfl).answers hfound.grows.directories⟩
    have hlater : (m₁.cls id).Later { m₁.cls id with component := some component } :=
      .withComponent fun k hk => by rw [hnone] at hk; cases hk
    refine .bind (fun r m' hm hrun _ => ?_) fun _ _ _ _ _ _ => .of_same rfl
    cases hrun
    exact ⟨hm.changeClass hlater rfl (fun _ => .inl) fun k hk => .inr (Option.some.inj hk ▸ hcomponent),
      .changeClass hlater, .changeClass rfl rfl⟩
  · exact .of_same rfl

/-! ### Objects -/

/-- A new object of a class that was just loaded. -/
theorem create (name : String) {f : ClassId → Address → VM β} (hf : ∀ id a, Steady (f id a)) :
    Steady (VM.load name >>= fun id => newObject id >>= f id) := fun m =>
  (load name m).bind fun id m₁ hm hm₁ _ hload => by
    have hfound := (load_faithful m name hm.coherent _ _ hload trivial).given id rfl
    exact .bind (.newObject (hm₁.coherent.sound.bound _ _ hfound.bound)) fun a m₂ _ _ _ _ => hf id a m₂

theorem isArray_of_newArray? {name : String} {length : Nat} {data : ObjectData}
    (h : ObjectData.newArray? name length = some data) : ArrayName.isArray name = true ∧
      data.fields? = none := by
  unfold ObjectData.newArray? at h
  rw [ArrayName.isArray]
  split at h <;> first
    | (rename_i heq; cases h; rw [heq]; exact ⟨rfl, rfl⟩)
    | cases h

/-- A new array is an object with as many elements, of the kind that its class has. -/
theorem newArray_made {id : ClassId} {length : Nat} {a : Address}
    (hrun : outcome (newArray id length) m = (.ok a, m')) :
    ∃ data, ObjectData.newArray? (m.cls id).name length = some data ∧ a = ⟨m.heap.size⟩ ∧
      m' = m.withObject ⟨id, data⟩ := by
  unfold newArray at hrun
  rw [outcome_bind_of_ok (outcome_cls id)] at hrun
  dsimp only at hrun
  rcases hnew : ObjectData.newArray? (m.cls id).name length with _ | data <;>
    rw [hnew] at hrun <;> cases hrun
  exact ⟨data, rfl, rfl, rfl⟩

/-- A new array is on the heap. -/
theorem newArray_ok {id : ClassId} {length : Nat} {a : Address}
    (hrun : outcome (newArray id length) m = (.ok a, m')) :
    m'.HasArray a := by
  obtain ⟨data, hnew, rfl, rfl⟩ := newArray_made hrun
  have hobject := object_withObject_new (m := m) ⟨id, data⟩
  refine ⟨(m.heap_size_withObject _).symm ▸ Nat.lt_succ_self _, ?_⟩
  change ((m.withObject ⟨id, data⟩).cls
    ((m.withObject ⟨id, data⟩).object ⟨m.heap.size⟩).cls).isArray = true
  rw [hobject]
  exact (isArray_of_newArray? hnew).1

theorem newArray_classOf {id : ClassId} {length : Nat} {a : Address}
    (hrun : outcome (newArray id length) m = (.ok a, m')) :
    m'.classOf a = id := by
  obtain ⟨data, -, rfl, rfl⟩ := newArray_made hrun
  exact congrArg Object.cls (object_withObject_new ⟨id, data⟩)

theorem newArray_cls {id : ClassId} {length : Nat} {a : Address}
    (hrun : outcome (newArray id length) m = (.ok a, m'))
    (other : ClassId) : m'.cls other = m.cls other := by
  obtain ⟨data, -, rfl, rfl⟩ := newArray_made hrun
  rfl

/-- A new array has as many elements as it was asked to have. -/
theorem newArray_data {id : ClassId} {length : Nat} {a : Address}
    (hrun : outcome (newArray id length) m = (.ok a, m')) :
    (m'.object a).data.fields? = none ∧ (m'.object a).data.size = length := by
  obtain ⟨data, hnew, rfl, rfl⟩ := newArray_made hrun
  rw [object_withObject_new]
  exact ⟨(isArray_of_newArray? hnew).2, (ObjectData.suits_newArray? hnew).1⟩

theorem newArray (id : ClassId) (length : Nat) : Steady (newArray id length) := by
  intro m r m' hm hrun _
  unfold VM.newArray at hrun
  rw [outcome_bind_of_ok (outcome_cls id)] at hrun
  dsimp only at hrun
  rcases hnew : ObjectData.newArray? (m.cls id).name length with _ | data <;>
    rw [hnew] at hrun <;> cases hrun
  · exact ⟨hm, .refl m, .refl m⟩
  · exact ⟨hm.newArray (isArray_of_newArray? hnew).1 (ObjectData.suits_newArray? hnew).2,
      .withObject _, .of_eq rfl⟩

theorem setField (a : Address) (slot : Nat) (value : Slot) : Steady (setField a slot value) := by
  intro m
  rcases hfields : (m.object a).data.fields? with _ | fields
  · refine .of_same ?_
    unfold VM.setField
    rw [outcome_bind_of_ok (outcome_object a), hfields]
    rfl
  · unfold VM.setField
    refine .bind (.of_same rfl) fun o m₁ _ _ _ ho => ?_
    cases ho
    rw [hfields]
    refine .bind (.of_same (by cases fields.set? slot value <;> rfl)) fun after m₂ _ _ _ hafter => ?_
    rcases hset : fields.set? slot value with _ | fields' <;> rw [hset] at hafter <;> cases hafter
    exact .setFields hfields (SlotTable.size_set? hset)

theorem storeFields (a : Address) (slot : Nat) (slots : List Slot) :
    Steady (storeFields a slot slots) := by
  intro m
  unfold VM.storeFields VM.instanceFields
  rw [bind_assoc]
  refine .bind (.of_same rfl) fun m₀ m₁ _ _ _ hget => ?_
  cases hget
  rcases hfields : (m.object a).data.fields? with _ | fields
  · exact .of_same rfl
  · refine .bind (.of_same rfl) fun before m₁ _ _ _ hbefore => ?_
    cases hbefore
    refine .bind (.of_same (by cases fields.setAll? slot slots <;> rfl)) fun after m₂ _ _ _ hafter => ?_
    rcases hset : fields.setAll? slot slots with _ | fields' <;> rw [hset] at hafter <;> cases hafter
    exact .setFields hfields (SlotTable.size_setAll? hset)

theorem storeStatics (id : ClassId) (slot : Nat) (slots : List Slot) :
    Steady (storeStatics id slot slots) := by
  intro m
  unfold VM.storeStatics
  refine .bind (.of_same rfl) fun c m₁ _ _ _ hc => ?_
  cases hc
  refine .bind (.of_same (by cases (m.cls id).statics.setAll? slot slots <;> rfl))
    fun statics m₁ _ _ _ hstatics => ?_
  rcases hset : (m.cls id).statics.setAll? slot slots with _ | after <;>
    rw [hset] at hstatics <;> cases hstatics
  intro r m' hm hrun _
  cases hrun
  have hlater := Class.Later.withStatics (m.cls id) statics
  exact ⟨hm.changeClass hlater (SlotTable.size_setAll? hset) (fun _ => .inl) (fun _ => .inl),
    .changeClass hlater, .changeClass rfl rfl⟩

/-- An element is stored in an array; what holds fields stays as it is. -/
theorem storeElement (a : Address) (isBoolean : Bool) (index : Nat) (value : Value) :
    Steady (modifyData a (·.store isBoolean index value)) := by
  intro m r m' hm hrun hr
  obtain ⟨hshape, hkind⟩ := (m.object a).data.store_shape isBoolean index value
  rw [outcome_modifyData] at hrun
  exact SteadyOn.setData hshape (fun hm ha => hshape.suits hkind (hm.coherent.arrays a ha))
    r m' hm hrun hr

end Steady

end VM

end JavaMachine
