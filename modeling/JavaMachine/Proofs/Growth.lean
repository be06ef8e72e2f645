import JavaMachine.Machine.Loader
import JavaMachine.Proofs.Literals
import JavaMachine.Proofs.Running

/-!
How a machine grows while classes are loaded.

`Machine.Sound` is what holds of a machine at any time, also while classes are being defined: names
are bound to classes of the machine, and a class that is no array class has only linked classes
above it. `Machine.Grows` is what a step of loading may do: it adds classes, objects and names, and
leaves the classes that were there as they are, except for those that the step owns because it is
defining them.
-/

namespace JavaMachine

/-- `k` is the super class of the class, or one of its interfaces. -/
def Class.Below (c : Class) (k : ClassId) : Prop := c.superClass = some k ∨ k ∈ c.interfaces

theorem Class.not_below_default (k : ClassId) : ¬ (default : Class).Below k := by
  rintro (h | h) <;> cases h

/-- Two classes with the same name and the same place in the hierarchy. -/
structure Class.SamePlace (c c' : Class) : Prop where
  name : c'.name = c.name
  superClass : c'.superClass = c.superClass
  interfaces : c'.interfaces = c.interfaces
  linked : c'.linked = c.linked

namespace Class.SamePlace

variable {c c' : Class}

theorem isArray (h : c.SamePlace c') : c'.isArray = c.isArray := by
  rw [Class.isArray, Class.isArray, h.name]

theorem below (h : c.SamePlace c') (k : ClassId) : c'.Below k ↔ c.Below k := by
  rw [Below, Below, h.superClass, h.interfaces]

end Class.SamePlace

theorem Class.samePlace_layOut (c : Class) (inherited : Nat) : c.SamePlace (c.layOut inherited) :=
  ⟨rfl, rfl, rfl, rfl⟩

namespace Machine

/-- Bound names and the hierarchy lead to classes of the machine. What an array class extends may
still be in the course of being defined, what any other class extends is linked. -/
structure Sound (m : Machine) : Prop where
  bound : ∀ name id, m.lookup? name = some id → id.index < m.classes.size
  above : ∀ id k, (m.cls id).Below k → k.index < m.classes.size
  linked : ∀ id k, (m.cls id).isArray = false → (m.cls id).Below k → (m.cls k).linked = true

/-- What a step of loading may change. It may do more to the classes that it owns, but does not link
them. -/
structure Grows (own : ClassId → Prop) (m m' : Machine) : Prop where
  directories : m'.directories = m.directories
  classes : m.classes.size ≤ m'.classes.size
  same : ∀ id, id.index < m.classes.size → ¬ own id → m'.cls id = m.cls id
  linked : ∀ id, id.index < m.classes.size → (m'.cls id).linked = (m.cls id).linked
  heap : m.heap.size ≤ m'.heap.size
  object : ∀ a, a.index < m.heap.size → m'.object a = m.object a
  bound : ∀ name id, m.lookup? name = some id → m'.lookup? name = some id
  added : ∀ name id, m'.lookup? name = some id →
    m.lookup? name = some id ∨ m.classes.size ≤ id.index ∧ (m'.cls id).linked = true
  recalls : m.Recalls m'

namespace Grows

variable {own own' : ClassId → Prop} {m m₁ m₂ : Machine}

theorem refl (m : Machine) : m.Grows own m :=
  ⟨rfl, Nat.le_refl _, fun _ _ _ => rfl, fun _ _ => rfl, Nat.le_refl _, fun _ _ => rfl, fun _ _ h => h,
    fun _ _ h => .inl h, .refl m⟩

theorem trans (h₁ : m.Grows own m₁) (hm₁ : m₁.Sound) (h₂ : m₁.Grows own m₂) : m.Grows own m₂ where
  directories := h₂.directories.trans h₁.directories
  classes := Nat.le_trans h₁.classes h₂.classes
  same id hid hown := by
    rw [h₂.same id (Nat.lt_of_lt_of_le hid h₁.classes) hown, h₁.same id hid hown]
  linked id hid := by
    rw [h₂.linked id (Nat.lt_of_lt_of_le hid h₁.classes), h₁.linked id hid]
  heap := Nat.le_trans h₁.heap h₂.heap
  object a ha := by
    rw [h₂.object a (Nat.lt_of_lt_of_le ha h₁.heap), h₁.object a ha]
  bound name id h := h₂.bound name id (h₁.bound name id h)
  added name id h := by
    rcases h₂.added name id h with h | ⟨hnew, hlinked⟩
    · rcases h₁.added name id h with hold | ⟨hnew, hlinked⟩
      · exact .inl hold
      · exact .inr ⟨hnew, by rw [h₂.linked id (hm₁.bound name id h), hlinked]⟩
    · exact .inr ⟨Nat.le_trans h₁.classes hnew, hlinked⟩
  recalls := h₁.recalls.trans h₂.recalls h₁.heap h₂.heap

theorem mono (h : m.Grows own m₁) (hown : ∀ id, own id → own' id) : m.Grows own' m₁ :=
  { h with same := fun id hid hnot => h.same id hid fun ho => hnot (hown id ho) }

/-- Classes that were added later are not among the ones that stay the same. -/
theorem forget (h : m.Grows own m₁) (hnew : ∀ id, own id → m.classes.size ≤ id.index) :
    m.Grows own' m₁ :=
  { h with same := fun id hid _ => h.same id hid fun ho => Nat.not_le_of_lt hid (hnew id ho) }

end Grows

/-! ### Single changes -/

theorem cls_of_size_le {m : Machine} {id : ClassId} (h : m.classes.size ≤ id.index) :
    m.cls id = default := by
  simp [cls, Array.getD, Nat.not_lt_of_le h]

theorem lt_of_linked {m : Machine} {id : ClassId} (h : (m.cls id).linked = true) :
    id.index < m.classes.size := by
  refine Nat.lt_of_not_le fun hle => ?_
  rw [cls_of_size_le hle] at h
  cases h

theorem lt_of_isArray {m : Machine} {id : ClassId} (h : (m.cls id).isArray = true) :
    id.index < m.classes.size := by
  refine Nat.lt_of_not_le fun hle => ?_
  rw [cls_of_size_le hle] at h
  cases h

/-- A machine with another class of some id. -/
def changeClass (m : Machine) (id : ClassId) (change : Class → Class) : Machine :=
  { m with classes := m.classes.modify id.index change }

/-- A machine with one more class. -/
def withClass (m : Machine) (c : Class) : Machine := { m with classes := m.classes.push c }

/-- A machine with a name bound, in place of any other binding of it. -/
def withName (m : Machine) (name : String) (id : ClassId) : Machine :=
  { m with names := (name, id) :: m.names.filter (·.1 ≠ name) }

/-- A machine with a name unbound. -/
def withoutName (m : Machine) (name : String) : Machine :=
  { m with names := m.names.filter (·.1 ≠ name) }

section

variable {m : Machine} {id : ClassId} {change : Class → Class}

@[simp]
theorem size_changeClass : (m.changeClass id change).classes.size = m.classes.size := by
  simp [changeClass]

theorem cls_changeClass_self (change : Class → Class) (h : id.index < m.classes.size) :
    (m.changeClass id change).cls id = change (m.cls id) := by
  simp [changeClass, cls, Array.getD, h, Array.getElem_modify]

theorem cls_changeClass_ne {other : ClassId} (h : other ≠ id) :
    (m.changeClass id change).cls other = m.cls other := by
  have hindex : id.index ≠ other.index := fun heq => h (by cases id; cases other; cases heq; rfl)
  by_cases hlt : other.index < m.classes.size
  · simp [changeClass, cls, Array.getD, hlt, Array.getElem_modify, hindex]
  · simp [changeClass, cls, Array.getD, hlt]

/-- What holds of both the old and the changed class holds of the class of any id. -/
theorem cls_changeClass (m : Machine) (id : ClassId) (change : Class → Class) (other : ClassId) :
    (m.changeClass id change).cls other = m.cls other ∨
      other = id ∧ (m.changeClass id change).cls other = change (m.cls id) := by
  by_cases h : other = id
  · subst h
    by_cases hlt : other.index < m.classes.size
    · exact .inr ⟨rfl, cls_changeClass_self _ hlt⟩
    · left
      rw [cls_of_size_le (Nat.le_of_not_lt hlt), cls_of_size_le (by simpa using hlt)]
  · exact .inl (cls_changeClass_ne h)

theorem cls_withClass_new (c : Class) : (m.withClass c).cls m.nextClassId = c := by
  simp [withClass, cls, nextClassId, Array.getD]

theorem cls_withClass_ne {c : Class} (h : id ≠ m.nextClassId) : (m.withClass c).cls id = m.cls id := by
  have hindex : id.index ≠ m.classes.size := fun heq => h (by cases id; cases heq; rfl)
  by_cases hlt : id.index < m.classes.size
  · simp [withClass, cls, Array.getD, hlt, Nat.lt_succ_of_lt hlt, Array.getElem_push]
  · have hsucc : ¬ id.index < m.classes.size + 1 := by omega
    simp [withClass, cls, Array.getD, hlt, hsucc]

@[simp]
theorem size_withClass (c : Class) : (m.withClass c).classes.size = m.classes.size + 1 := by
  simp [withClass]

end

/-- A machine with one more object. -/
def withObject (m : Machine) (object : Object) : Machine := { m with heap := m.heap.push object }

/-- A machine in which an object holds something else. -/
def withData (m : Machine) (a : Address) (data : ObjectData) : Machine :=
  { m with heap := m.heap.modify a.index fun object => { object with data } }

section

variable {m : Machine} {a : Address}

theorem object_withObject_new (object : Object) :
    (m.withObject object).object ⟨m.heap.size⟩ = object := by
  simp [withObject, Machine.object, Array.getD]

theorem object_withObject_of_lt {object : Object} (h : a.index < m.heap.size) :
    (m.withObject object).object a = m.object a := by
  simp [withObject, Machine.object, Array.getD, h, Nat.lt_succ_of_lt h, Array.getElem_push]

@[simp]
theorem heap_size_withObject (object : Object) : (m.withObject object).heap.size = m.heap.size + 1 := by
  simp [withObject]

theorem object_withData_self {data : ObjectData} (h : a.index < m.heap.size) :
    (m.withData a data).object a = ⟨m.classOf a, data⟩ := by
  simp [withData, Machine.object, classOf, Array.getD, h, Array.getElem_modify]

theorem object_withData_ne {other : Address} {data : ObjectData} (h : other ≠ a) :
    (m.withData a data).object other = m.object other := by
  have hindex : a.index ≠ other.index := fun heq => h (by cases a; cases other; cases heq; rfl)
  by_cases hlt : other.index < m.heap.size
  · simp [withData, Machine.object, Array.getD, hlt, Array.getElem_modify, hindex]
  · simp [withData, Machine.object, Array.getD, hlt]

theorem withData_withObject {id : ClassId} {data data' : ObjectData} :
    (m.withObject ⟨id, data⟩).withData ⟨m.heap.size⟩ data' = m.withObject ⟨id, data'⟩ := by
  unfold withObject withData
  congr 1
  apply Array.ext
  · simp
  · intro i hi _
    by_cases h : i < m.heap.size
    · simp [Array.getElem_modify, Array.getElem_push, h, Nat.ne_of_gt h]
    · obtain rfl : i = m.heap.size := by simp at hi; omega
      simp [Array.getElem_modify]

@[simp]
theorem heap_size_withData (data : ObjectData) : (m.withData a data).heap.size = m.heap.size := by
  simp [withData]

end

section

variable {m : Machine} {name other : String} {id : ClassId}

theorem lookup?_withoutName_self : (m.withoutName name).lookup? name = none := by
  simp only [lookup?, withoutName, List.lookup_eq_none_iff, List.mem_filter]
  rintro ⟨key, value⟩ ⟨-, hkey⟩
  have hne : key ≠ name := by simpa using hkey
  simpa using hne.symm

theorem lookup?_withoutName_ne (h : other ≠ name) :
    (m.withoutName name).lookup? other = m.lookup? other := by
  unfold lookup? withoutName
  dsimp only
  induction m.names with
  | nil => rfl
  | cons entry names ih =>
    obtain ⟨key, value⟩ := entry
    by_cases hkey : key = name
    · have hmiss : (other == key) = false := by simp [hkey, h]
      rw [List.filter_cons_of_neg (by simp [hkey]), List.lookup_cons, hmiss]
      exact ih
    · rw [List.filter_cons_of_pos (by simp [hkey]), List.lookup_cons, List.lookup_cons, ih]

theorem lookup?_withName_self : (m.withName name id).lookup? name = some id := by
  simp [lookup?, withName]

theorem lookup?_withName_ne (h : other ≠ name) :
    (m.withName name id).lookup? other = m.lookup? other := by
  have hmiss : (other == name) = false := by simp [h]
  have hrest := lookup?_withoutName_ne (m := m) h
  unfold lookup? withName withoutName at *
  rw [List.lookup_cons, hmiss]
  exact hrest

end

end Machine

namespace VM

variable {m : Machine}

@[simp]
theorem outcome_cls (id : ClassId) : outcome (cls id) m = (.ok (m.cls id), m) := rfl

@[simp]
theorem outcome_ofFormat_ok {α : Type} (a : α) : outcome (ofFormat (.ok a)) m = (.ok a, m) := rfl

/-- A search that does not end gives nothing to go on with. -/
theorem outcome_ofSearch_bind {α β : Type} (search : Search α) (f : Option α → VM β) :
    outcome (ofSearch search >>= f) m = match search with
      | .found a => outcome (f (some a)) m
      | .absent => outcome (f none) m
      | .endless => (.error .endless, m) := by
  cases search <;> rfl

@[simp]
theorem outcome_raise {α : Type} (className message : String) :
    outcome (raise className message : VM α) m =
      (.error (.fault (.exception className message)), m) := rfl

@[simp]
theorem outcome_object (a : Address) : outcome (object a) m = (.ok (m.object a), m) := rfl

@[simp]
theorem outcome_modifyClass (id : ClassId) (change : Class → Class) :
    outcome (modifyClass id change) m = (.ok ⟨⟩, m.changeClass id change) := rfl

@[simp]
theorem outcome_setData (a : Address) (data : ObjectData) :
    outcome (setData a data) m = (.ok ⟨⟩, m.withData a data) := rfl

@[simp]
theorem outcome_addClass (c : Class) :
    outcome (addClass c) m = (.ok m.nextClassId, m.withClass c) := rfl

@[simp]
theorem outcome_bindName (name : String) (id : ClassId) :
    outcome (bindName name id) m = (.ok ⟨⟩, m.withName name id) := rfl

@[simp]
theorem outcome_unbindName (name : String) :
    outcome (unbindName name) m = (.ok ⟨⟩, m.withoutName name) := rfl

@[simp]
theorem outcome_bindLiteral (units : Text.Units) (string : Address) :
    outcome (bindLiteral units string) m = (.ok ⟨⟩, m.withLiteral units string) := rfl

@[simp]
theorem outcome_allocate (object : Object) :
    outcome (allocate object) m = (.ok ⟨m.heap.size⟩, m.withObject object) := rfl

@[simp]
theorem outcome_newObject (id : ClassId) : outcome (newObject id) m =
    (.ok ⟨m.heap.size⟩, m.withObject ⟨id, .fields (.zeros (m.cls id).instanceSlots)⟩) := rfl

theorem outcome_setField {a : Address} {id : ClassId} {fields : SlotTable} {slot : Nat} {value : Slot}
    (h : m.object a = ⟨id, .fields fields⟩) :
    outcome (setField a slot value) m = match fields.set? slot value with
      | none => (.error .outOfRange, m)
      | some fields => (.ok ⟨⟩, m.withData a (.fields fields)) := by
  unfold setField
  rw [outcome_bind_of_ok (outcome_object a), h]
  cases hset : fields.set? slot value <;> simp only [ObjectData.fields?, hset] <;> rfl

/-- A string that is made refers to its characters, which are put on the heap just before it. -/
theorem string_made {stringClass charsClass : ClassId} {units : Text.Units} {slot : Nat}
    {r : Except Failure Address} {m' : Machine}
    (hrun : outcome (do
      let chars ← allocate ⟨charsClass, .chars units.toArray⟩
      let string ← newObject stringClass
      setField string slot (.ref (some chars))
      return string) m = (r, m')) (hr : Completes r) :
    ∃ fields, (SlotTable.zeros (m.cls stringClass).instanceSlots).set? slot
      (.ref (some ⟨m.heap.size⟩)) = some fields ∧ r = .ok ⟨m.heap.size + 1⟩ ∧
      m' = (m.withObject ⟨charsClass, .chars units.toArray⟩).withObject ⟨stringClass,
        .fields fields⟩ := by
  rw [outcome_bind_of_ok (outcome_allocate _), outcome_bind_of_ok (outcome_newObject _), outcome_bind,
    outcome_setField (Machine.object_withObject_new _)] at hrun
  rcases hset : (SlotTable.zeros
    (((m.withObject ⟨charsClass, .chars units.toArray⟩).cls stringClass).instanceSlots)).set?
    slot (.ref (some ⟨m.heap.size⟩)) with _ | fields <;> rw [hset] at hrun
  · cases hrun
    exact hr.elim
  · dsimp only at hrun
    rw [Machine.withData_withObject] at hrun
    cases hrun
    exact ⟨fields, hset, by simp, rfl⟩

end VM

namespace Machine

/-! ### Soundness of changed machines -/

section

variable {m m' : Machine} {own : ClassId → Prop}

theorem cls_congr (h : m'.classes = m.classes) (id : ClassId) : m'.cls id = m.cls id := by
  simp only [cls, h]

/-- A search for a field looks at the fields of classes and at what is above them. -/
theorem fieldSearch_of_same (hsize : m'.classes.size = m.classes.size)
    (hfields : ∀ id, (m'.cls id).fields = (m.cls id).fields)
    (hsuper : ∀ id, (m'.cls id).superClass = (m.cls id).superClass)
    (hinterfaces : ∀ id, (m'.cls id).interfaces = (m.cls id).interfaces) (id : ClassId)
    (name descriptor : String) :
    m'.fieldSearch id name descriptor = m.fieldSearch id name descriptor := by
  have hparents : m'.parents = m.parents := funext fun id => by
    rw [parents, supers, hinterfaces, hsuper]; rfl
  have hdeclared : (m'.declaredField? · name descriptor) = (m.declaredField? · name descriptor) :=
      funext fun id => by
    rw [declaredField?, Class.fieldIndex?, hfields]
    rfl
  rw [fieldSearch, hparents, hdeclared, hsize]
  rfl

/-- Fields are searched among the classes only. -/
theorem fieldSearch_congr (h : m'.classes = m.classes) (id : ClassId) (name descriptor : String) :
    m'.fieldSearch id name descriptor = m.fieldSearch id name descriptor := by
  have hcls := cls_congr h
  exact fieldSearch_of_same (by rw [h]) (fun id => by rw [hcls]) (fun id => by rw [hcls])
    (fun id => by rw [hcls]) id
    name descriptor

/-- Objects and literals do not matter. -/
theorem Sound.of_eq (hm : m.Sound) (hclasses : m'.classes = m.classes) (hnames : m'.names = m.names) :
    m'.Sound := by
  have hcls := cls_congr hclasses
  have hlookup : ∀ name, m'.lookup? name = m.lookup? name := fun name => by simp only [lookup?, hnames]
  constructor
  · intro name id h
    rw [hclasses]
    exact hm.bound name id (by rwa [hlookup] at h)
  · intro id k h
    rw [hclasses]
    exact hm.above id k (by rwa [hcls] at h)
  · intro id k harray h
    rw [hcls] at harray h ⊢
    exact hm.linked id k harray h

theorem grows_of_eq (hdirectories : m'.directories = m.directories) (hclasses : m'.classes = m.classes)
    (hnames : m'.names = m.names) (hliterals : m'.literals = m.literals)
    (hheap : m.heap.size ≤ m'.heap.size)
    (hobject : ∀ a, a.index < m.heap.size → m'.object a = m.object a) : m.Grows own m' := by
  have hcls := cls_congr hclasses
  have hlookup : ∀ name, m'.lookup? name = m.lookup? name := fun name => by simp only [lookup?, hnames]
  exact ⟨hdirectories, Nat.le_of_eq (by rw [hclasses]), fun id _ _ => hcls id,
    fun id _ => by rw [hcls], hheap, hobject, fun name id h => by rwa [hlookup],
    fun name id h => .inl (by rwa [hlookup] at h), .of_eq hliterals⟩

variable {id : ClassId} {change : Class → Class}

/-- A class may come to extend classes that are linked. -/
theorem Sound.changeClass (hm : m.Sound) (harray : (change (m.cls id)).isArray = (m.cls id).isArray)
    (hlinked : (m.cls id).linked = true → (change (m.cls id)).linked = true)
    (habove : ∀ k, (change (m.cls id)).Below k → (m.cls id).Below k ∨ (m.cls k).linked = true) :
    (m.changeClass id change).Sound := by
  have hkeep : ∀ k, (m.cls k).linked = true → ((m.changeClass id change).cls k).linked = true := by
    intro k hk
    rcases cls_changeClass m id change k with h | ⟨rfl, h⟩
    · rwa [h]
    · rw [h]; exact hlinked hk
  constructor
  · intro name other h
    rw [size_changeClass]
    exact hm.bound name other h
  · intro other k h
    rw [size_changeClass]
    rcases cls_changeClass m id change other with heq | ⟨rfl, heq⟩ <;> rw [heq] at h
    · exact hm.above other k h
    · rcases habove k h with h | h
      · exact hm.above other k h
      · exact lt_of_linked h
  · intro other k hother h
    rcases cls_changeClass m id change other with heq | ⟨rfl, heq⟩ <;>
      rw [heq] at hother h
    · exact hkeep k (hm.linked other k hother h)
    · rcases habove k h with h | h
      · exact hkeep k (hm.linked other k (by rwa [harray] at hother) h)
      · exact hkeep k h

theorem Sound.changePlaced (hm : m.Sound) (hplace : (m.cls id).SamePlace (change (m.cls id))) :
    (m.changeClass id change).Sound :=
  hm.changeClass hplace.isArray (fun h => hplace.linked.trans h) fun k h => .inl ((hplace.below k).mp h)

theorem grows_changeClass (hown : own id) (hlinked : (change (m.cls id)).linked = (m.cls id).linked) :
    m.Grows own (m.changeClass id change) where
  directories := rfl
  classes := Nat.le_of_eq size_changeClass.symm
  same other _ hnot := cls_changeClass_ne (by rintro rfl; exact hnot hown)
  linked other _ := by
    rcases cls_changeClass m id change other with h | ⟨rfl, h⟩
    · rw [h]
    · rw [h, hlinked]
  heap := Nat.le_refl _
  object _ _ := rfl
  bound _ _ h := h
  added _ _ h := .inl h
  recalls := .of_eq rfl

/-- A class is added that extends classes of the machine. -/
theorem Sound.withClass {c : Class} (hm : m.Sound) (habove : ∀ k, c.Below k → k.index < m.classes.size)
    (hlinked : c.isArray = false → ∀ k, c.Below k → (m.cls k).linked = true) :
    (m.withClass c).Sound := by
  have hcls : ∀ id, id = m.nextClassId ∧ (m.withClass c).cls id = c ∨
      (m.withClass c).cls id = m.cls id := by
    intro id
    by_cases h : id = m.nextClassId
    · subst h; exact .inl ⟨rfl, cls_withClass_new c⟩
    · exact .inr (cls_withClass_ne h)
  have hold : ∀ k, k.index < m.classes.size → (m.withClass c).cls k = m.cls k := by
    intro k hk
    exact cls_withClass_ne (by rintro rfl; exact Nat.lt_irrefl _ hk)
  constructor
  · intro name id h
    rw [size_withClass]
    exact Nat.lt_succ_of_lt (hm.bound name id h)
  · intro id k h
    rw [size_withClass]
    rcases hcls id with ⟨-, heq⟩ | heq <;> rw [heq] at h
    · exact Nat.lt_succ_of_lt (habove k h)
    · exact Nat.lt_succ_of_lt (hm.above id k h)
  · intro id k harray h
    rcases hcls id with ⟨-, heq⟩ | heq <;> rw [heq] at harray h
    · rw [hold k (habove k h)]; exact hlinked harray k h
    · rw [hold k (hm.above id k h)]; exact hm.linked id k harray h

theorem grows_withClass (c : Class) : m.Grows own (m.withClass c) where
  directories := rfl
  classes := by rw [size_withClass]; exact Nat.le_succ _
  same id hid _ := cls_withClass_ne (by rintro rfl; exact Nat.lt_irrefl _ hid)
  linked id hid := by rw [cls_withClass_ne (by rintro rfl; exact Nat.lt_irrefl _ hid)]
  heap := Nat.le_refl _
  object _ _ := rfl
  bound _ _ h := h
  added _ _ h := .inl h
  recalls := .of_eq rfl

theorem Sound.withName {name : String} (hm : m.Sound) (hid : id.index < m.classes.size) :
    (m.withName name id).Sound := by
  constructor
  · intro other k h
    by_cases hname : other = name
    · subst hname
      rw [lookup?_withName_self] at h
      cases h
      exact hid
    · rw [lookup?_withName_ne hname] at h
      exact hm.bound other k h
  · exact hm.above
  · exact hm.linked

theorem Sound.withoutName (hm : m.Sound) (name : String) : (m.withoutName name).Sound := by
  constructor
  · intro other k h
    by_cases hname : other = name
    · subst hname
      rw [lookup?_withoutName_self] at h
      cases h
    · rw [lookup?_withoutName_ne hname] at h
      exact hm.bound other k h
  · exact hm.above
  · exact hm.linked

end

/-! ### Definitions that begin and end -/

section

variable {m m₁ m' : Machine} {own : ClassId → Prop} {c : Class} {name : String} {id : ClassId}

/-- The machine in which the definition of a class begins: its name is bound already. -/
def begun (m : Machine) (c : Class) : Machine := (m.withClass c).withName c.name m.nextClassId

theorem Sound.begun (hm : m.Sound) (hnone : ∀ k, ¬ c.Below k) : (m.begun c).Sound :=
  (hm.withClass (fun k h => absurd h (hnone k)) fun _ k h => absurd h (hnone k)).withName (by
    rw [size_withClass]
    exact Nat.lt_succ_self _)

@[simp]
theorem size_begun : (m.begun c).classes.size = m.classes.size + 1 := size_withClass c

theorem cls_begun_self : (m.begun c).cls m.nextClassId = c := cls_withClass_new c

theorem cls_begun_of_lt (h : id.index < m.classes.size) : (m.begun c).cls id = m.cls id :=
  cls_withClass_ne (by rintro rfl; exact Nat.lt_irrefl _ h)

theorem lookup?_begun_self : (m.begun c).lookup? c.name = some m.nextClassId := lookup?_withName_self

theorem lookup?_begun_ne (h : name ≠ c.name) : (m.begun c).lookup? name = m.lookup? name :=
  lookup?_withName_ne h

/-- Once the name of a failed definition is unbound, all that is left is growth. -/
theorem Grows.undone (h : (m.begun c).Grows (· = m.nextClassId) m₁) (hfree : m.lookup? c.name = none) :
    m.Grows own (m₁.withoutName c.name) := by
  have hsize : m.classes.size + 1 ≤ m₁.classes.size := by simpa using h.classes
  have hsame : ∀ k : ClassId, k.index < m.classes.size → m₁.cls k = m.cls k := by
    intro k hk
    have hne : k ≠ m.nextClassId := by rintro rfl; exact Nat.lt_irrefl _ hk
    rw [h.same k (by simpa using Nat.lt_succ_of_lt hk) hne, cls_begun_of_lt hk]
  constructor
  · exact h.directories
  · exact Nat.le_of_succ_le hsize
  · exact fun k hk _ => hsame k hk
  · exact fun k hk => congrArg Class.linked (hsame k hk)
  · exact h.heap
  · exact h.object
  · intro other k hk
    have hne : other ≠ c.name := by rintro rfl; rw [hfree] at hk; cases hk
    rw [lookup?_withoutName_ne hne]
    exact h.bound other k (by rwa [lookup?_begun_ne hne])
  · intro other k hk
    have hne : other ≠ c.name := by rintro rfl; rw [lookup?_withoutName_self] at hk; cases hk
    rw [lookup?_withoutName_ne hne] at hk
    rcases h.added other k hk with hold | ⟨hnew, hlinked⟩
    · rw [lookup?_begun_ne hne] at hold
      exact .inl hold
    · rw [size_begun] at hnew
      exact .inr ⟨Nat.le_of_succ_le hnew, hlinked⟩
  · have hbegun : m.Recalls (m.begun c) := .of_eq rfl
    exact (hbegun.trans h.recalls (Nat.le_refl _) h.heap).trans (.of_eq rfl) h.heap (Nat.le_refl _)

/-- What happens to a class that was not there at first does not matter, as long as it stays linked. -/
theorem Grows.changeClass {change : Class → Class} (h : m.Grows own m₁)
    (hnew : m.classes.size ≤ id.index)
    (hlinked : (m₁.cls id).linked = true → (change (m₁.cls id)).linked = true) :
    m.Grows own (m₁.changeClass id change) := by
  have hsame : ∀ k : ClassId, k.index < m.classes.size →
      (m₁.changeClass id change).cls k = m₁.cls k := by
    intro k hk
    exact cls_changeClass_ne (by rintro rfl; exact Nat.not_lt_of_le hnew hk)
  refine { h with classes := ?_, same := ?_, linked := ?_, added := ?_, recalls := ?_ }
  · rw [size_changeClass]; exact h.classes
  · intro k hk hown
    rw [hsame k hk, h.same k hk hown]
  · intro k hk
    rw [hsame k hk, h.linked k hk]
  · intro name k hk
    rcases h.added name k hk with hold | ⟨hlater, hthere⟩
    · exact .inl hold
    · refine .inr ⟨hlater, ?_⟩
      rcases cls_changeClass m₁ id change k with heq | ⟨rfl, heq⟩ <;> rw [heq]
      · exact hthere
      · exact hlinked hthere
  · exact h.recalls.trans (.of_eq rfl) h.heap (Nat.le_refl _)

/-- A name that was free at first is bound to a new class. -/
theorem Grows.named (h : m.Grows own m₁) (hfree : m.lookup? name = none)
    (hnew : m.classes.size ≤ id.index)
    (hlinked : (m₁.cls id).linked = true) (hself : m'.lookup? name = some id)
    (hother : ∀ other, other ≠ name → m'.lookup? other = m₁.lookup? other)
    (hclasses : m'.classes = m₁.classes)
    (hheap : m'.heap = m₁.heap) (hliterals : m'.literals = m₁.literals)
    (hdirectories : m'.directories = m₁.directories) : m.Grows own m' := by
  have hcls := cls_congr hclasses
  constructor
  · exact hdirectories.trans h.directories
  · rw [hclasses]; exact h.classes
  · exact fun k hk hown => (hcls k).trans (h.same k hk hown)
  · exact fun k hk => (congrArg Class.linked (hcls k)).trans (h.linked k hk)
  · rw [hheap]; exact h.heap
  · exact fun a ha => by simpa only [Machine.object, hheap] using h.object a ha
  · intro other k hk
    rw [hother other (by rintro rfl; rw [hfree] at hk; cases hk)]
    exact h.bound other k hk
  · intro other k hk
    rw [hcls k]
    by_cases hname : other = name
    · subst hname
      rw [hself] at hk
      cases hk
      exact .inr ⟨hnew, hlinked⟩
    · rw [hother other hname] at hk
      exact h.added other k hk
  · exact h.recalls.trans (.of_eq hliterals) h.heap (Nat.le_of_eq (by rw [hheap]))

/-- A literal that was not bound at first is bound to a new string. -/
theorem Grows.withLiteral {units : Text.Units} {string : Address} (h : m.Grows own m₁)
    (hfree : m.literals.lookup units = none) (hnew : m.heap.size ≤ string.index)
    (hthere : string.index < m₁.heap.size)
    (hspares : m.Spares string m₁) : m.Grows own (m₁.withLiteral units string) :=
  { h with recalls := h.recalls.withLiteral hfree hnew hthere hspares }

end

end Machine

end JavaMachine
