import JavaMachine.Proofs.LoadSteps

/-!
Loads do not look at objects.

A load looks at class files, at classes and their names, and at which literals there are. Which
objects there are, what static fields hold and which component classes are kept makes no difference.
On two machines that differ in nothing else (`Machine.Resembles`) a load that gives a class gives
the same class (`VM.load_repeats`). Nor does a load make anything refer to an object that only
elements of arrays refer to.
-/

namespace JavaMachine

/-! ### What refers to an object -/

namespace SlotTable

variable {t t' u : SlotTable} {index : Nat} {a : Address}

/-- The table refers to the object. -/
def Holds (t : SlotTable) (a : Address) : Prop := .ref (some a) ∈ t.slots

theorem not_holds_zeros (size : Nat) (a : Address) : ¬ (zeros size).Holds a := fun h => by
  cases (Array.mem_replicate.mp h).2

/-- Whether a slot can be written depends on the size of the table only. -/
theorem exists_set?_of_size {slot : Slot} (slot' : Slot) (hsize : u.size = t.size)
    (h : t.set? index slot = some t') :
    ∃ u', u.set? index slot' = some u' ∧ u'.size = t'.size ∧ ∀ a, u'.Holds a → u.Holds a ∨
      slot' = .ref (some a) := by
  unfold set? at h
  split at h <;> cases h
  rename_i hindex
  have hindex' : index < u.slots.size := Nat.lt_of_lt_of_eq hindex hsize.symm
  refine ⟨⟨u.slots.set index slot' hindex'⟩, dif_pos hindex',
    by simpa [size] using hsize, fun a ha => ?_⟩
  have hmem : .ref (some a) ∈ u.slots.set index slot' hindex' := ha
  exact (Array.mem_or_eq_of_mem_set hmem).imp_right Eq.symm

theorem exists_setAll?_of_size : ∀ {slots slots' : List Slot} {t u : SlotTable} {index : Nat},
      slots'.length = slots.length →
    u.size = t.size → t.setAll? index slots = some t' → ∃ u', u.setAll? index slots' = some u' ∧
      u'.size = t'.size ∧ ∀ a, u'.Holds a → u.Holds a ∨ .ref (some a) ∈ slots'
  | [], [], t, u, _, _, hsize, h => by
    cases h
    exact ⟨u, rfl, hsize, fun _ => .inl⟩
  | slot :: slots, slot' :: slots', t, u, index, hlength, hsize, h => by
    obtain ⟨t₁, hset, hrest⟩ := Option.bind_eq_some_iff.mp h
    obtain ⟨u₁, hset', hsize₁, hholds₁⟩ := exists_set?_of_size slot' hsize hset
    obtain ⟨u', hrest', hsize', hholds⟩ := exists_setAll?_of_size (Nat.succ.inj hlength) hsize₁ hrest
    refine ⟨u', Option.bind_eq_some_iff.mpr ⟨u₁, hset', hrest'⟩, hsize', fun a ha => ?_⟩
    rcases hholds a ha with hfirst | hlater
    · rcases hholds₁ a hfirst with hold | rfl
      · exact .inl hold
      · exact .inr List.mem_cons_self
    · exact .inr (List.mem_cons_of_mem _ hlater)

end SlotTable

/-! ### Machines that differ in their objects -/

/-- Two classes that only differ in what their static fields hold and in the component class that
they keep. -/
structure Class.Resembles (c c' : Class) : Prop where
  same : c' = { c with statics := c'.statics, component := c'.component }
  size : c'.statics.size = c.statics.size

namespace Class.Resembles

variable {α : Type} {c c' : Class}

theorem refl (c : Class) : c.Resembles c := ⟨rfl, rfl⟩

theorem keeps (h : c.Resembles c') (part : Class → α)
    (hpart : ∀ c statics component, part { c with statics, component } = part c) :
    part c' = part c := by
  rw [h.same, hpart]

theorem name (h : c.Resembles c') : c'.name = c.name := h.keeps Class.name fun _ _ _ => rfl

theorem superClass (h : c.Resembles c') : c'.superClass = c.superClass :=
  h.keeps Class.superClass fun _ _ _ => rfl

theorem interfaces (h : c.Resembles c') : c'.interfaces = c.interfaces :=
  h.keeps Class.interfaces fun _ _ _ => rfl

theorem fields (h : c.Resembles c') : c'.fields = c.fields := h.keeps Class.fields fun _ _ _ => rfl

theorem linked (h : c.Resembles c') : c'.linked = c.linked := h.keeps Class.linked fun _ _ _ => rfl

theorem isInterface (h : c.Resembles c') : c'.isInterface = c.isInterface :=
  h.keeps Class.isInterface fun _ _ _ => rfl

theorem instanceSlots (h : c.Resembles c') : c'.instanceSlots = c.instanceSlots :=
  h.keeps Class.instanceSlots fun _ _ _ => rfl

/-- A change that neither looks at static fields nor at the component class, nor changes them. -/
theorem change (h : c.Resembles c') (change : Class → Class)
    (hchange : ∀ c statics component,
      change { c with statics, component } = { change c with statics, component })
    (hstatics : ∀ c, (change c).statics = c.statics) : (change c).Resembles (change c') := by
  refine ⟨?_, by rw [hstatics, hstatics, h.size]⟩
  rw [h.same, hchange]

theorem layOut (h : c.Resembles c') (inherited : Nat) :
    (c.layOut inherited).Resembles (c'.layOut inherited) := by
  refine ⟨?_, ?_⟩ <;> rw [h.same] <;> rfl

end Class.Resembles

namespace Machine

variable {hidden : Address → Prop} {m m' : Machine} {a : Address}

/-- Only elements of arrays may refer to the object: no static field, no literal and no instance
field does. -/
structure Hides (m : Machine) (a : Address) : Prop where
  there : a.index < m.heap.size
  statics : ∀ id, ¬ (m.cls id).statics.Holds a
  literals : ∀ entry ∈ m.literals, entry.2 ≠ a
  fields : ∀ b slots, (m.object b).data = .fields slots → ¬ slots.Holds a

theorem object_withObject_ne {object : Object} (h : a ≠ ⟨m.heap.size⟩) :
    (m.withObject object).object a = m.object a := by
  by_cases hlt : a.index < m.heap.size
  · exact object_withObject_of_lt hlt
  · have hindex : a.index ≠ m.heap.size := fun heq => h (by cases a; cases heq; rfl)
    have hsucc : ¬ a.index < m.heap.size + 1 := by omega
    simp [withObject, Machine.object, Array.getD, hlt, hsucc]

namespace Hides

theorem withClass (h : m.Hides a) {c : Class} (hblank : c.statics = .zeros 0) :
    (m.withClass c).Hides a := by
  refine ⟨h.there, fun id => ?_, h.literals, h.fields⟩
  by_cases hnew : id = m.nextClassId
  · rw [hnew, cls_withClass_new, hblank]
    exact SlotTable.not_holds_zeros 0 a
  · rw [cls_withClass_ne hnew]
    exact h.statics id

theorem changeClass (h : m.Hides a) {id : ClassId} {change : Class → Class}
    (hstatics : ¬ (change (m.cls id)).statics.Holds a) : (m.changeClass id change).Hides a := by
  refine ⟨h.there, fun other => ?_, h.literals, h.fields⟩
  rcases m.cls_changeClass id change other with heq | ⟨rfl, heq⟩ <;> rw [heq]
  · exact h.statics other
  · exact hstatics

theorem withObject (h : m.Hides a) {object : Object}
    (hfields : ∀ slots, object.data = .fields slots → ¬ slots.Holds a) :
    (m.withObject object).Hides a := by
  refine ⟨?_, h.statics, h.literals, fun b slots hslots => ?_⟩
  · rw [heap_size_withObject]
    exact Nat.lt_succ_of_lt h.there
  · by_cases hb : b = ⟨m.heap.size⟩
    · rw [hb, object_withObject_new] at hslots
      exact hfields slots hslots
    · rw [object_withObject_ne hb] at hslots
      exact h.fields b slots hslots

theorem withLiteral (h : m.Hides a) {units : Text.Units} {string : Address} (hstring : string ≠ a) :
    (m.withLiteral units string).Hides a := by
  refine ⟨h.there, h.statics, fun entry hentry => ?_, h.fields⟩
  rcases List.mem_cons.mp hentry with rfl | hold
  · exact hstring
  · exact h.literals entry (List.mem_filter.mp hold).1

end Hides

/-- The machine `m'` has the directories, classes, names and literals of `m`. Only elements of its
arrays refer to some of its objects, which are `hidden`. -/
structure Resembles (hidden : Address → Prop) (m m' : Machine) : Prop where
  directories : m'.directories = m.directories
  names : m'.names = m.names
  size : m'.classes.size = m.classes.size
  cls : ∀ id, (m.cls id).Resembles (m'.cls id)
  literals : m'.literals.map Prod.fst = m.literals.map Prod.fst
  hides : ∀ a, hidden a → m'.Hides a

namespace Resembles

theorem refl (h : ∀ a, hidden a → m.Hides a) : m.Resembles hidden m :=
  ⟨rfl, rfl, rfl, fun _ => .refl _, rfl, h⟩

theorem lookup? (h : m.Resembles hidden m') (name : String) : m'.lookup? name = m.lookup? name := by
  rw [Machine.lookup?, Machine.lookup?, h.names]

theorem classFile? (h : m.Resembles hidden m') (name : String) :
    m'.classFile? name = m.classFile? name := by
  rw [Machine.classFile?, Machine.classFile?, h.directories]

theorem nextClassId (h : m.Resembles hidden m') : m'.nextClassId = m.nextClassId := by
  rw [Machine.nextClassId, Machine.nextClassId, h.size]

theorem fieldSearch (h : m.Resembles hidden m') (id : ClassId) (name descriptor : String) :
    m'.fieldSearch id name descriptor = m.fieldSearch id name descriptor :=
  fieldSearch_of_same h.size (fun id => (h.cls id).fields) (fun id => (h.cls id).superClass)
    (fun id => (h.cls id).interfaces) id name descriptor

theorem fieldAt (h : m.Resembles hidden m') (field : FieldId) : m'.fieldAt field = m.fieldAt field := by
  rw [Machine.fieldAt, Machine.fieldAt, (h.cls _).fields]

/-- The same literals are known. -/
theorem exists_literal (h : m.Resembles hidden m') (units : Text.Units) :
    (m'.literals.lookup units).isSome = (m.literals.lookup units).isSome := by
  have hknown : ∀ literals : List (Text.Units × Address),
      (literals.lookup units).isSome = (literals.map Prod.fst).contains units := fun literals => by
    induction literals with
    | nil => rfl
    | cons entry literals ih =>
      rw [List.lookup_cons, List.map_cons, List.contains_cons]
      cases units == entry.1
      · exact ih
      · rfl
  rw [hknown, hknown, h.literals]

theorem withClass (h : m.Resembles hidden m') {c : Class} (hblank : c.statics = .zeros 0) :
    (m.withClass c).Resembles hidden (m'.withClass c) := by
  refine ⟨h.directories, h.names,
    by simp [h.size], fun id => ?_, h.literals, fun a ha => (h.hides a ha).withClass hblank⟩
  by_cases hnew : id = m.nextClassId
  · subst hnew
    rw [cls_withClass_new, ← h.nextClassId, cls_withClass_new]
    exact .refl c
  · rw [cls_withClass_ne hnew, cls_withClass_ne (h.nextClassId ▸ hnew)]
    exact h.cls id

theorem changeClass (h : m.Resembles hidden m') {id : ClassId} (change change' : Class → Class)
    (hchange : (change (m.cls id)).Resembles (change' (m'.cls id)))
    (hhidden : ∀ a, hidden a → ¬ (change' (m'.cls id)).statics.Holds a) :
    (m.changeClass id change).Resembles hidden (m'.changeClass id change') := by
  refine ⟨h.directories, h.names, by simp [h.size], fun other => ?_, h.literals,
    fun a ha => (h.hides a ha).changeClass (hhidden a ha)⟩
  by_cases hother : other = id
  · subst hother
    by_cases hlt : other.index < m.classes.size
    · rw [cls_changeClass_self _ hlt, cls_changeClass_self _ (h.size ▸ hlt)]
      exact hchange
    · have hle := Nat.le_of_not_lt hlt
      rw [cls_of_size_le (by simpa using hle), cls_of_size_le (by simpa [h.size] using hle)]
      exact .refl _
  · rw [cls_changeClass_ne hother, cls_changeClass_ne hother]
    exact h.cls other

theorem withName (h : m.Resembles hidden m') (name : String) (id : ClassId) :
    (m.withName name id).Resembles hidden (m'.withName name id) :=
  ⟨h.directories, by rw [Machine.withName, Machine.withName, h.names], h.size, h.cls,
      h.literals, fun a ha =>
    ⟨(h.hides a ha).there, (h.hides a ha).statics, (h.hides a ha).literals, (h.hides a ha).fields⟩⟩

theorem withObject (h : m.Resembles hidden m') (object : Object) {object' : Object}
    (hfields : ∀ a, hidden a → ∀ slots, object'.data = .fields slots → ¬ slots.Holds a) :
    (m.withObject object).Resembles hidden (m'.withObject object') :=
  ⟨h.directories, h.names, h.size, h.cls, h.literals,
    fun a ha => (h.hides a ha).withObject (hfields a ha)⟩

theorem withLiteral (h : m.Resembles hidden m') (units : Text.Units) (string : Address)
    {string' : Address}
    (hstring : ¬ hidden string') :
    (m.withLiteral units string).Resembles hidden (m'.withLiteral units string') := by
  refine ⟨h.directories, h.names, h.size, h.cls, ?_,
    fun a ha => (h.hides a ha).withLiteral fun heq => hstring (heq ▸ ha)⟩
  have hknown : ∀ (m : Machine) (string : Address),
      (m.withLiteral units string).literals.map Prod.fst =
      units :: (m.literals.map Prod.fst).filter (· ≠ units) :=
    fun m string => by rw [List.filter_map]; rfl
  rw [hknown, hknown, h.literals]

end Resembles

end Machine

open Machine (Resembles)

/-! ### Steps that do the same -/

namespace VM

variable {α β : Type} {hidden : Address → Prop} {x y : VM α} {r : α → α → Prop} {q : β → β → Prop}

/-- Where `x` gives a result, `y` gives a related one on every machine that resembles the one of `x`. -/
def Repeats (hidden : Address → Prop) (x y : VM α) (r : α → α → Prop) : Prop :=
  ∀ ⦃m m' a m₁⦄, m.Resembles hidden m' → outcome x m = (.ok a, m₁) →
    ∃ b m₁', outcome y m' = (.ok b, m₁') ∧ r a b ∧ m₁.Resembles hidden m₁'

namespace Repeats

theorem pure {a b : α} (h : r a b) : Repeats hidden (pure a) (pure b) r := fun m m' _ _ hm hrun => by
  cases hrun
  exact ⟨b, m', rfl, h, hm⟩

theorem throw (e : Failure) : Repeats hidden (throw e) y r := fun _ _ _ _ _ hrun => by cases hrun

theorem raise (className message : String) : Repeats hidden (VM.raise className message) y r := throw _

theorem bind {f g : α → VM β} (first : Repeats hidden x y r)
    (second : ∀ a b, r a b → Repeats hidden (f a) (g b) q) : Repeats hidden (x >>= f) (y >>= g) q := by
  intro m m' c m₂ hm hrun
  obtain ⟨a, m₁, hx, hf⟩ := outcome_bind_ok.mp hrun
  obtain ⟨b, m₁', hy, hab, hm₁⟩ := first hm hx
  obtain ⟨d, m₂', hg, hcd, hm₂⟩ := second a b hab hm₁ hf
  exact ⟨d, m₂', outcome_bind_ok.mpr ⟨b, m₁', hy, hg⟩, hcd, hm₂⟩

/-- Nothing comes after an exception. -/
theorem raise_bind {f : α → VM β} {y : VM β} (className message : String) :
    Repeats hidden (VM.raise className message >>= f) y q := fun _ _ _ _ _ hrun => by cases hrun

theorem ofFormat {f g : α → VM β} (checked : Except FormatError α)
    (second : ∀ a, Repeats hidden (f a) (g a) q) :
    Repeats hidden (VM.ofFormat checked >>= f) (VM.ofFormat checked >>= g) q := by
  cases checked with
  | ok a => exact bind (pure (r := Eq) rfl) fun _ _ hab => hab ▸ second _
  | error e => exact fun _ _ _ _ _ hrun => by cases hrun

theorem get : Repeats hidden get get (Resembles hidden) := fun m m' _ _ hm hrun => by
  cases hrun
  exact ⟨m', m', rfl, hm, hm⟩

theorem cls (id : ClassId) : Repeats hidden (VM.cls id) (VM.cls id) fun c c' =>
    c.Resembles c' ∧ ∀ a, hidden a → ¬ c'.statics.Holds a := fun m m' _ _ hm hrun => by
  cases hrun
  exact ⟨_, m', rfl, ⟨hm.cls id, fun a ha => (hm.hides a ha).statics id⟩, hm⟩

theorem modifyClass {id : ClassId} {change change' : Class → Class}
    (h : ∀ c c', c.Resembles c' → (∀ a, hidden a → ¬ c'.statics.Holds a) →
      (change c).Resembles (change' c') ∧ ∀ a, hidden a → ¬ (change' c').statics.Holds a) :
    Repeats hidden (VM.modifyClass id change) (VM.modifyClass id change') fun _ _ => True :=
    fun m m' _ _ hm hrun => by
  cases hrun
  obtain ⟨hchange, hhidden⟩ := h _ _ (hm.cls id) fun a ha => (hm.hides a ha).statics id
  exact ⟨_, _, rfl, trivial, hm.changeClass _ _ hchange hhidden⟩

/-- A change that leaves static fields and component classes alone. -/
theorem changeClass {id : ClassId} {change : Class → Class}
    (hchange : ∀ c statics component, change { c with statics, component } =
      { change c with statics, component }) (hstatics : ∀ c, (change c).statics = c.statics) :
    Repeats hidden (VM.modifyClass id change) (VM.modifyClass id change) fun _ _ => True :=
  modifyClass fun c c' hc hhidden =>
    ⟨hc.change change hchange hstatics, fun a ha => by rw [hstatics]; exact hhidden a ha⟩

theorem addClass {c : Class} (hblank : c.statics = .zeros 0) :
    Repeats hidden (VM.addClass c) (VM.addClass c) Eq :=
  fun m m' _ _ hm hrun => by
    cases hrun
    exact ⟨_, _, rfl, hm.nextClassId.symm, hm.withClass hblank⟩

theorem bindName (name : String) (id : ClassId) :
    Repeats hidden (VM.bindName name id) (VM.bindName name id) fun _ _ => True :=
    fun m m' _ _ hm hrun => by
  cases hrun
  exact ⟨_, _, rfl, trivial, hm.withName name id⟩

theorem mapM {f : α → VM β} (h : ∀ a, Repeats hidden (f a) (f a) Eq) :
    ∀ as : List α, Repeats hidden (as.mapM f) (as.mapM f) Eq
  | [] => pure rfl
  | a :: as => by
    rw [List.mapM_cons]
    exact bind (h a) fun b b' hb => bind (mapM h as) fun bs bs' hbs => pure (by rw [hb, hbs])

theorem forM {f : α → VM PUnit} (h : ∀ a, Repeats hidden (f a) (f a) fun _ _ => True) :
    ∀ as : List α, Repeats hidden (as.forM f) (as.forM f) fun _ _ => True
  | [] => pure trivial
  | a :: as => by
    rw [List.forM]
    exact bind (h a) fun _ _ _ => forM h as

end Repeats

end VM

namespace Loader

open VM (Repeats)

variable {hidden : Address → Prop} {load : Load}

/-! ### Single steps -/

theorem setStatic_repeats (id : ClassId) (slot : Nat) {value value' : Value}
    (hsize : value'.size = value.size) (hvalue : ∀ a, hidden a → .ref (some a) ∉ value'.slots) :
    Repeats hidden (setStatic id slot value) (setStatic id slot value') fun _ _ => True := by
  refine .bind (.cls id) fun c c' ⟨hc, hhidden⟩ => ?_
  intro m m' _ m₁ hm hrun
  rcases hset : c.statics.setValue? slot value with _ | statics <;> rw [hset] at hrun
  · cases hrun
  · have hlength : value'.slots.length = value.slots.length := by
      rw [Value.length_slots, Value.length_slots, hsize]
    obtain ⟨statics', hset', hsize', hholds⟩ := SlotTable.exists_setAll?_of_size hlength hc.size hset
    have hset' : c'.statics.setValue? slot value' = some statics' := hset'
    rw [hset']
    refine Repeats.modifyClass (fun c c' hc _ => ⟨⟨?_, hsize'⟩, fun a ha hstatics => ?_⟩) hm hrun
    · rw [hc.same]
    · rcases hholds a hstatics with hold | hnew
      · exact hhidden a ha hold
      · exact hvalue a ha hnew

/-- A string is made if the class of strings has the slot for its characters. -/
theorem outcome_newString {m : Machine} {stringClass charsClass : ClassId}
    {units : Text.Units} {slot : Nat} {fields : SlotTable}
    (hset : (SlotTable.zeros (m.cls stringClass).instanceSlots).set? slot
      (.ref (some ⟨m.heap.size⟩)) = some fields) :
    outcome (do
      let chars ← VM.allocate ⟨charsClass, .chars units.toArray⟩
      let string ← VM.newObject stringClass
      VM.setField string slot (.ref (some chars))
      return string) m = (.ok ⟨m.heap.size + 1⟩,
        (m.withObject ⟨charsClass, .chars units.toArray⟩).withObject ⟨stringClass,
          .fields fields⟩) := by
  let m₁ := m.withObject ⟨charsClass, .chars units.toArray⟩
  have hwrites : outcome (VM.setField ⟨m₁.heap.size⟩ slot (.ref (some ⟨m.heap.size⟩)))
      (m₁.withObject ⟨stringClass, .fields (.zeros (m₁.cls stringClass).instanceSlots)⟩) =
        (.ok ⟨⟩, m₁.withObject ⟨stringClass, .fields fields⟩) := by
    have hset₁ : (SlotTable.zeros (m₁.cls stringClass).instanceSlots).set? slot
        (.ref (some ⟨m.heap.size⟩)) = some fields :=
      hset
    rw [VM.outcome_setField (Machine.object_withObject_new _), hset₁]
    dsimp only
    rw [Machine.withData_withObject]
  rw [outcome_bind_of_ok (VM.outcome_allocate _), outcome_bind_of_ok (VM.outcome_newObject _),
    outcome_bind_of_ok hwrites, outcome_pure, Machine.heap_size_withObject]

/-! ### Strings -/

section

variable (hload : ∀ name, Repeats hidden (load name) (load name) Eq)

include hload

theorem stringOfUnits_repeats (units : Text.Units) :
    Repeats hidden (stringOfUnits load units) (stringOfUnits load units) fun _ string =>
      ¬ hidden string := by
  refine .bind (hload _) fun stringClass _ heq => heq ▸ .bind (hload _) fun charsClass _ heq => heq ▸ ?_
  intro m m' string m₁ hm hrun
  rw [outcome_bind_of_ok (outcome_get m), VM.outcome_ofSearch_bind] at hrun
  rw [outcome_bind_of_ok (outcome_get m'), VM.outcome_ofSearch_bind, hm.fieldSearch]
  split at hrun
  case h_2 | h_3 => cases hrun
  case h_1 field _ =>
    obtain ⟨fields, hset, -, rfl⟩ := VM.string_made hrun trivial
    obtain ⟨fields', hset', -, hholds⟩ :=
      SlotTable.exists_set?_of_size (u := .zeros (m'.cls stringClass).instanceSlots)
      (.ref (some ⟨m'.heap.size⟩)) (by rw [(hm.cls stringClass).instanceSlots]) hset
    rw [← hm.fieldAt] at hset'
    refine ⟨_, _, outcome_newString hset', fun hstring => ?_, ?_⟩
    · have hlt : m'.heap.size + 1 < m'.heap.size := (hm.hides _ hstring).there
      omega
    · refine (hm.withObject _ fun a _ slots hslots => by cases hslots).withObject _
        fun a ha slots hslots => ?_
      cases hslots
      intro hslot
      rcases hholds a hslot with hzero | hchars
      · exact SlotTable.not_holds_zeros _ a hzero
      · cases hchars
        exact Nat.lt_irrefl _ (hm.hides _ ha).there

theorem intern_repeats (units : Text.Units) :
    Repeats hidden (intern load units) (intern load units) fun _ string => ¬ hidden string := by
  refine .bind .get fun m m' hm => ?_
  have hknown := hm.exists_literal units
  rcases hfound : m.literals.lookup units with _ | string <;>
    rcases hfound' : m'.literals.lookup units with _ | string' <;> rw [hfound, hfound'] at hknown
  · dsimp only
    refine .bind (stringOfUnits_repeats hload units) fun string string' hstring => ?_
    refine .bind (r := fun _ _ => True) ?_ fun _ _ _ => .pure hstring
    intro m m' _ _ hm hrun
    cases hrun
    exact ⟨_, _, rfl, trivial, hm.withLiteral units string hstring⟩
  · cases hknown
  · cases hknown
  · refine .pure fun hhidden => ?_
    obtain ⟨before, after, hliterals, -⟩ := List.lookup_eq_some_iff.mp hfound'
    exact (hm.hides _ hhidden).literals (units, string') (by rw [hliterals]; simp) rfl

/-! ### Linking -/

theorem initializeField_repeats (id : ClassId) (field : Field) (index : UInt16) :
    Repeats hidden (initializeField load id field index) (initializeField load id field index)
      fun _ _ => True := by
  refine .bind (.cls id) fun c c' ⟨hc, _⟩ => ?_
  rw [hc.keeps (Class.constantAt · index) fun _ _ _ => rfl]
  refine .ofFormat _ fun constant => ?_
  split
  · exact setStatic_repeats id _ rfl fun a _ h => by simp [Value.slots] at h
  · exact setStatic_repeats id _ rfl fun a _ h => by simp [Value.slots] at h
  · exact setStatic_repeats id _ rfl fun a _ h => by simp [Value.slots] at h
  · exact setStatic_repeats id _ rfl fun a _ h => by simp [Value.slots] at h
  · refine .bind (intern_repeats hload _) fun string string' hstring => ?_
    refine setStatic_repeats id _ rfl fun a ha h => hstring ?_
    cases List.mem_singleton.mp h
    exact ha
  · exact .throw _

theorem prepare_repeats (id : ClassId) :
    Repeats hidden (prepare load id) (prepare load id) fun _ _ => True := by
  have hinherited : Repeats hidden (inheritedSlots id) (inheritedSlots id) Eq := by
    refine .bind (.cls id) fun c c' ⟨hc, _⟩ => ?_
    rw [hc.superClass]
    split
    · exact .bind (.cls _) fun c c' ⟨hc, _⟩ => .pure hc.instanceSlots.symm
    · exact .pure rfl
  refine .bind hinherited fun inherited _ heq => heq ▸ .bind (r := fun _ _ => True) ?_ fun _ _ _ => ?_
  · exact .modifyClass fun c c' hc _ => ⟨hc.layOut inherited, fun a _ => SlotTable.not_holds_zeros _ a⟩
  · refine .bind (.cls id) fun c c' ⟨hc, _⟩ => ?_
    rw [hc.keeps Class.constantFields fun _ _ _ => rfl]
    exact .forM (fun ⟨field, index⟩ => initializeField_repeats hload id field index) _

/-! ### Definition -/

theorem loadLinked_repeats (className name : String) :
    Repeats hidden (loadLinked load className name) (loadLinked load className name) Eq := by
  refine .bind (hload name) fun id _ heq => heq ▸ .bind (.cls id) fun c c' ⟨hc, _⟩ => ?_
  rw [hc.linked]
  split
  · exact .pure rfl
  · exact .raise _ _

theorem attachSuper_repeats (id : ClassId) :
    Repeats hidden (attachSuper load id) (attachSuper load id) fun _ _ => True := by
  refine .bind (.cls id) fun c c' ⟨hc, _⟩ => ?_
  rw [hc.keeps Class.superName fun _ _ _ => rfl, hc.name]
  split
  · exact .pure trivial
  · refine .bind (loadLinked_repeats hload _ _) fun superClass _ heq =>
      heq ▸ .bind (.cls superClass) fun c c' ⟨hc, _⟩ => ?_
    dsimp only
    rw [hc.isInterface]
    split
    · exact .raise_bind _ _
    · exact .changeClass (fun _ _ _ => rfl) fun _ => rfl

theorem attachInterfaces_repeats (id : ClassId) :
    Repeats hidden (attachInterfaces load id) (attachInterfaces load id) fun _ _ => True := by
  have hinterface : ∀ className name,
      Repeats hidden (loadInterface load className name) (loadInterface load className name) Eq :=
      fun className name => by
    refine .bind (loadLinked_repeats hload _ _) fun interface _ heq => heq ▸ .bind (.cls interface)
      fun c c' ⟨hc, _⟩ => ?_
    rw [hc.isInterface]
    split
    · exact .pure rfl
    · exact .raise _ _
  refine .bind (.cls id) fun c c' ⟨hc, _⟩ => ?_
  rw [hc.keeps Class.interfaceNames fun _ _ _ => rfl, hc.name]
  exact .bind (.mapM (hinterface c.name) _) fun interfaces _ heq => heq ▸ .changeClass
    (fun _ _ _ => rfl) fun _ => rfl

theorem attach_repeats (id : ClassId) :
    Repeats hidden (attach load id) (attach load id) fun _ _ => True :=
  .bind (attachSuper_repeats hload id) fun _ _ _ =>
      .bind (attachInterfaces_repeats hload id) fun _ _ _ =>
    prepare_repeats hload id

theorem define_repeats (file : ClassFile) :
    Repeats hidden (define load file) (define load file) Eq := by
  intro m m' id m₁ hm hrun
  rcases define_runs load file m with ⟨fault, hrefused⟩ | ⟨c, hread, hfree, hdefined⟩
  · rw [hrefused] at hrun
    cases hrun
  · rw [hdefined] at hrun
    have hbegun : (m.begun c).Resembles hidden (m'.begun c) := by
      rw [Machine.begun, Machine.begun, hm.nextClassId]
      exact (hm.withClass (ofClassFile_defines hread).statics).withName c.name _
    rcases hattach : outcome (attach load m.nextClassId) (m.begun c) with
      ⟨(_ | _ | _ | _) | _, m₂⟩ <;> rw [hattach] at hrun <;>
      cases hrun
    obtain ⟨_, m₂', hattach', -, hm₂⟩ := attach_repeats hload m.nextClassId hbegun hattach
    rw [← hm.nextClassId] at hread hattach' ⊢
    let mark : Class → Class := ({ · with linked := true })
    have hmarked : (m₂.changeClass m'.nextClassId mark).Resembles hidden
        (m₂'.changeClass m'.nextClassId mark) :=
      hm₂.changeClass mark mark ((hm₂.cls _).change mark (fun _ _ _ => rfl) fun _ => rfl)
        fun a ha => (hm₂.hides a ha).statics _
    exact ⟨_, _, by rw [outcome_define hread (by rw [hm.lookup?, hfree]), hattach'], rfl, hmarked⟩

/-! ### The loader -/

theorem defineArray_repeats (name : String) :
    Repeats hidden (defineArray load name) (defineArray load name) Eq := by
  rw [defineArray_eq]
  split
  · exact .raise _ _
  · have hparents : Repeats hidden (arrayParents load) (arrayParents load) Eq :=
      .bind (hload _) fun superClass _ hsuper => .bind (.mapM hload _) fun interfaces _ hinterfaces =>
        .pure (by rw [hsuper, hinterfaces])
    refine .bind hparents fun parents _ heq => heq ▸ .bind (r := Eq) ?_ fun id _ heq => heq ▸
      .bind (.bindName name id) fun _ _ _ => .pure rfl
    refine .bind (.addClass rfl) fun id _ heq => heq ▸ .bind (r := fun _ _ => True) ?_ fun _ _ _ =>
      .pure rfl
    rw [link_eq]
    exact .bind (prepare_repeats hload id) fun _ _ _ => .changeClass (fun _ _ _ => rfl) fun _ => rfl

end

theorem loadWithin_repeats : ∀ nesting name,
    Repeats hidden (loadWithin nesting name) (loadWithin nesting name) Eq
  | 0, _ => .throw _
  | nesting + 1, name => by
    have hload := loadWithin_repeats nesting
    refine .bind .get fun m m' hm => ?_
    rw [hm.lookup?, hm.classFile?]
    split
    · exact .pure rfl
    split
    · exact defineArray_repeats hload name
    split
    · exact .ofFormat _ fun file => define_repeats hload file
    split
    · exact define_repeats hload _
    · exact .raise _ _

end Loader

namespace VM

variable {hidden : Address → Prop} {m m' m₁ : Machine} {id : ClassId} {name : String}

/-- Where a load gives a class, it gives the same class on every machine that only differs in
objects, static fields and component classes. -/
theorem load_repeats (name : String) : Repeats hidden (load name) (load name) Eq := by
  refine .bind .get fun m m' hm => ?_
  rw [Machine.nesting, Machine.nesting, hm.directories]
  exact Loader.loadWithin_repeats _ name

/-- After a load that gives a class, nothing but elements of arrays refers to an object to which
nothing else referred before. -/
theorem load_hides {a : Address} (h : m.Hides a) (hload : outcome (load name) m = (.ok id, m₁)) :
    m₁.Hides a := by
  have hrepeats : Repeats (· = a) (load name) (load name) Eq := load_repeats name
  obtain ⟨_, m₁', hload', -, hm₁⟩ := hrepeats (.refl fun _ heq => heq ▸ h) hload
  cases hload.symm.trans hload'
  exact hm₁.hides a rfl

end VM

end JavaMachine
