import JavaMachine.Proofs.ArrayFilling
import JavaMachine.Proofs.FieldStorage
import JavaMachine.Proofs.HeapShape
import JavaMachine.Proofs.Undoing

/-!
What copying between arrays does.

A copy that is refused leaves the machine as it is. One that goes through fills a range of the
destination with the elements that the source had before, and changes nothing else that is there
(`ArrayCopy.Copies`); this is so if the ranges overlap, too. References are admitted one by one, and
a copy that comes to one that is not has copied those before it (`ArrayCopy.elements_copied`).
-/

namespace JavaMachine

/-! ### Arrays -/

/-- An array with elements as its class has them. Only arrays of references have a component class. -/
structure Machine.ProperArray (m : Machine) (a : Address) : Prop where
  there : a.index < m.heap.size
  elements : (m.object a).data.OfArray (m.className a)
  primitive : (m.object a).data.elementKind? ≠ some .reference →
    (m.cls (m.classOf a)).componentName? = none

namespace ObjectData

variable {data data' : ObjectData} {className : String}

theorem elementKind?_newArray? {length length' : Nat} (h : newArray? className length = some data)
    (h' : newArray? className length' = some data') : data'.elementKind? = data.elementKind? := by
  unfold newArray? at h h'
  split at h <;> cases h
  all_goals
    rename_i heq
    rw [heq] at h'
    cases h'
    rfl

theorem OfArray.elementKind?_eq (h : data.OfArray className) (h' : data'.OfArray className) :
    data'.elementKind? = data.elementKind? := by
  obtain ⟨fresh, hnew, hkind⟩ := h
  obtain ⟨fresh', hnew', hkind'⟩ := h'
  rw [← hkind, ← hkind', elementKind?_newArray? hnew hnew']

theorem OfArray.isArray (h : data.OfArray className) : ArrayName.isArray className = true := by
  obtain ⟨fresh, hnew, -⟩ := h
  exact (VM.Steady.isArray_of_newArray? hnew).1

/-- The arrays of primitives are those that do not have references for elements. -/
theorem OfArray.primitive_iff (h : data.OfArray className) :
    ArrayCopy.isPrimitiveArray className = true ↔ data.elementKind? ≠ some .reference := by
  obtain ⟨fresh, hnew, hkind⟩ := h
  rw [← hkind]
  unfold newArray? at hnew
  unfold ArrayCopy.isPrimitiveArray
  split at hnew <;> rename_i heq <;> cases hnew <;> rw [heq] <;> simp [elementKind?]

/-- Elements of one kind are copied. -/
theorem exists_copied? (r : ArrayCopy.Range) {kind : ElementKind} (h : data.elementKind? = some kind)
    (h' : data'.elementKind? = some kind) : ∃ after, ArrayCopy.copied? r data data' = some after := by
  cases data <;> cases h <;> cases data' <;> cases h' <;> exact ⟨_, rfl⟩

end ObjectData

namespace Machine.ProperArray

variable {m : Machine} {a b : Address}

theorem isArray (h : m.ProperArray a) : (m.cls (m.classOf a)).isArray = true := h.elements.isArray

theorem exists_kind (h : m.ProperArray a) : ∃ kind, (m.object a).data.elementKind? = some kind := by
  obtain ⟨fresh, hnew, hkind⟩ := h.elements
  unfold ObjectData.newArray? at hnew
  split at hnew <;> cases hnew <;> exact ⟨_, hkind.symm⟩

/-- No component class is loaded for an array of primitives. -/
theorem outcome_component? (h : m.ProperArray a)
    (hkind : (m.object a).data.elementKind? ≠ some .reference) :
    outcome (VM.component? (m.classOf a)) m = (.ok none, m) := by
  rw [VM.component?_eq, outcome_bind_of_ok (VM.outcome_cls _), h.primitive hkind]
  rfl

end Machine.ProperArray

namespace ArrayCopy

variable {α : Type}

/-! ### Elements -/

theorem getElem?_overwrite {array elements : Array α} {start : Nat}
    (h : start + elements.size ≤ array.size) (j : Nat) :
    (overwrite array start elements)[j]? =
      if start ≤ j ∧ j < start + elements.size then elements[j - start]? else array[j]? := by
  have hbefore : (array.extract 0 start).size = start := by rw [Array.size_extract]; omega
  have hfront : (array.extract 0 start ++ elements).size = start + elements.size := by
    rw [Array.size_append, hbefore]
  unfold overwrite
  rcases Nat.lt_or_ge j (start + elements.size) with hj | hj
  · rw [Array.getElem?_append_left (by rw [hfront]; exact hj)]
    rcases Nat.lt_or_ge j start with hlow | hlow
    · rw [if_neg (by omega), Array.getElem?_append_left (by rw [hbefore]; exact hlow),
        Array.getElem?_extract, if_pos (by omega), Nat.zero_add]
    · rw [if_pos ⟨hlow, hj⟩, Array.getElem?_append_right (by rw [hbefore]; exact hlow), hbefore]
  · rw [if_neg (by omega), Array.getElem?_append_right (by rw [hfront]; exact hj), hfront,
      Array.getElem?_extract]
    split
    · congr 1
      omega
    · exact (Array.getElem?_eq_none (by omega)).symm

/-- What is taken are the elements of the range. -/
theorem taken_getElem? {r : Range} {elements : Array α}
    (h : r.source.toInt.toNat + r.length.toInt.toNat ≤ elements.size) :
    (taken r elements).size = r.length.toInt.toNat ∧
      ∀ k < r.length.toInt.toNat, (taken r elements)[k]? = elements[r.source.toInt.toNat + k]? := by
  unfold taken
  refine ⟨by rw [Array.size_extract]; omega, fun k hk => ?_⟩
  rw [Array.getElem?_extract, if_pos (by omega)]

/-- The first `count` elements of a range are now in the destination, which is as it was otherwise. -/
structure Filled (r : Range) (count : Nat) (source before after : ObjectData) : Prop where
  kind : after.elementKind? = before.elementKind?
  length : after.length? = before.length?
  copied : ∀ k < count, after.element? (r.destination.toInt.toNat + k) = source.element?
    (r.source.toInt.toNat + k)
  kept : ∀ j, j < r.destination.toInt.toNat ∨ r.destination.toInt.toNat + count ≤ j →
    after.element? j = before.element? j

/-- Elements of one type are written over others. -/
theorem Filled.of_overwrite {data : Array α → ObjectData} {value : α → Value}
    (helement : ∀ e j, (data e).element? j = e[j]?.map value)
    (hlength : ∀ e, (data e).length? = some e.size)
    (hkind : ∀ e e', (data e).elementKind? = (data e').elementKind?) {r : Range}
    {s d elements : Array α} (hroom : r.destination.toInt.toNat + elements.size ≤ d.size)
    (htaken : ∀ k < elements.size, elements[k]? = s[r.source.toInt.toNat + k]?) :
    Filled r elements.size (data s) (data d)
      (data (overwrite d r.destination.toInt.toNat elements)) where
  kind := hkind _ _
  length := by rw [hlength, hlength, VM.Tame.size_overwrite hroom]
  copied k hk := by
    rw [helement, helement, getElem?_overwrite hroom, if_pos (by omega),
      Nat.add_sub_cancel_left, htaken k hk]
  kept j hj := by rw [helement, helement, getElem?_overwrite hroom, if_neg (by omega)]

/-- A whole range is copied. -/
theorem filled_of_copied? {r : Range} {source before after : ObjectData}
    (h : copied? r source before = some after)
    (hfits : r.fits (source.length?.getD 0) (before.length?.getD 0) = true) :
    Filled r r.length.toInt.toNat source before after := by
  have hfilled : ∀ {α : Type} {data : Array α → ObjectData} {value : α → Value} (s d : Array α),
      (∀ e j, (data e).element? j = e[j]?.map value) → (∀ e, (data e).length? = some e.size) →
      (∀ e e', (data e).elementKind? = (data e').elementKind?) → r.fits s.size d.size = true →
        Filled r r.length.toInt.toNat (data s) (data d)
          (data (overwrite d r.destination.toInt.toNat (taken r s))) := by
    intro α data value s d helement hlength hkind hfits
    obtain ⟨hsource, hdestination⟩ := VM.Tame.bounds_of_fits hfits
    obtain ⟨hsize, htaken⟩ := taken_getElem? hsource
    have hfilled : Filled r (taken r s).size (data s) (data d)
        (data (overwrite d r.destination.toInt.toNat (taken r s))) :=
      .of_overwrite helement hlength hkind (by rw [hsize]; exact hdestination)
        (by rw [hsize]; exact htaken)
    rwa [hsize] at hfilled
  unfold copied? at h
  dsimp only at h
  split at h <;> cases h
  all_goals exact hfilled _ _ (fun _ _ => rfl) (fun _ => rfl) (fun _ _ => rfl) hfits

/-! ### What a copy does to a machine -/

/-- The first `count` elements of a range are copied. Nothing else that is there changes. -/
structure Copies (r : Range) (count : Nat) (source destination : Address) (m m' : Machine) : Prop where
  filled : Filled r count (m.object source).data (m.object destination).data
    (m'.object destination).data
  cls : m'.classOf destination = m.classOf destination
  others : ∀ a, a.index < m.heap.size → a ≠ destination → m'.object a = m.object a

theorem Copies.of_setData {r : Range} {count : Nat} {source destination : Address} {m m₁ : Machine}
    {after : ObjectData} (hretains : m.Retains m₁) (hthere : destination.index < m.heap.size)
    (hfilled : Filled r count (m.object source).data (m.object destination).data after) :
    Copies r count source destination m (m₁.withData destination after) where
  filled := by rwa [Machine.object_withData_self (Nat.lt_of_lt_of_le hthere hretains.heap)]
  cls := by rw [Machine.Evolves.classOf_withData, Machine.classOf, Machine.classOf,
    hretains.object _ hthere]
  others a ha hne := by rw [Machine.object_withData_ne hne, hretains.object a ha]

end ArrayCopy

/-! ### Checking elements -/

namespace VM.Retains

variable {α : Type}

theorem get : Retains (get : VM Machine) := of_same fun _ => rfl

theorem attempt {x : VM α} (hx : Retains x) : Retains (attempt x) := by
  intro m r m' hm hrun hr
  obtain ⟨fault, hfirst, rfl⟩ | ⟨a, hfirst, rfl⟩ := outcome_vm_attempt_completes hrun hr
  · exact hx m _ _ hm hfirst trivial
  · exact hx m _ _ hm hfirst trivial

theorem component? (id : ClassId) : Retains (component? id) := by
  rw [component?_eq]
  refine .bind (of_same fun _ => rfl) fun c => ?_
  split
  · exact .pure _
  · split
    · exact .pure _
    · exact .bind (.load _) fun _ =>
        .bind (.modifyClass (fun _ => ⟨rfl, rfl, rfl, rfl⟩) (fun _ => rfl) fun _ => rfl) fun _ =>
          .pure _

theorem isAssignableWithin : ∀ steps target source, Retains (isAssignableWithin steps target source)
  | 0, _, _ => of_same fun _ => rfl
  | steps + 1, target, source => by
    refine .bind .get fun m => ?_
    split
    · exact .pure _
    split
    · exact .bind (.ofSearch _) fun _ => .pure _
    split
    · exact .pure _
    refine .bind (.attempt (.component? target)) fun targetComponent =>
      .bind (.attempt (.component? source)) fun sourceComponent => ?_
    split
    · exact isAssignableWithin steps _ _
    · exact .pure _
    · exact .pure _

theorem isInstance (a : Address) (id : ClassId) : Retains (isInstance a id) :=
  .bind .get fun _ => .bind .get fun _ => isAssignableWithin _ _ _

end VM.Retains

namespace ArrayCopy

/-- All elements are null or found to be instances of the component class, one after the other. If
there is none, they are not checked. -/
inductive Admits : Option ClassId → Machine → List (Option Address) → Machine → Prop where
  | unchecked (m : Machine) (elements : List (Option Address)) : Admits none m elements m
  | done (component : ClassId) (m : Machine) : Admits (some component) m [] m
  | null {component : ClassId} {m m' : Machine} {elements : List (Option Address)}
      (rest : Admits (some component) m elements m') : Admits (some component) m (none :: elements) m'
  | found {component : ClassId} {m m₁ m' : Machine} {a : Address} {elements : List (Option Address)}
      (answer : outcome (VM.isInstance a component) m = (.ok true, m₁))
      (rest : Admits (some component) m₁ elements m') :
      Admits (some component) m (some a :: elements) m'

variable {component : Option ClassId} {m m₁ m' : Machine} {elements rest others : List (Option Address)}
  {misfit : Option Address}

theorem Admits.retains (h : Admits component m elements m') (hm : m.Sound) : m.Retains m' := by
  induction h with
  | unchecked m => exact .refl hm
  | done component m => exact .refl hm
  | null _ ih => exact ih hm
  | found answer _ ih =>
    have hfirst := VM.Retains.isInstance _ _ _ _ _ hm answer trivial
    exact hfirst.trans (ih hfirst.sound)

/-- The elements that are admitted come before what is found among the others. -/
theorem Admits.outcome_storable {component : ClassId} (h : Admits (some component) m elements m₁)
    (hrest : outcome (storable component rest) m₁ = (.ok (others, misfit), m')) :
    outcome (storable component (elements ++ rest)) m = (.ok (elements ++ others, misfit), m') := by
  generalize hsome : some component = checked at h
  induction h with
  | unchecked => cases hsome
  | done => exact hrest
  | null _ ih =>
    cases hsome
    rw [List.cons_append, storable, pure_bind]
    dsimp only
    rw [if_pos rfl, outcome_bind_of_ok (ih hrest rfl)]
    rfl
  | found answer _ ih =>
    cases hsome
    rw [List.cons_append, storable, outcome_bind_of_ok answer]
    dsimp only
    rw [if_pos rfl, outcome_bind_of_ok (ih hrest rfl)]
    rfl

/-- Nothing is admitted from an element on that is no instance. -/
theorem outcome_storable_misfit {component : ClassId} {a : Address}
    (h : outcome (VM.isInstance a component) m = (.ok false, m')) :
    outcome (storable component (some a :: elements)) m = (.ok ([], some a), m') := by
  rw [storable, outcome_bind_of_ok h]
  rfl

/-! ### Copies -/

/-- Both ranges lie inside of arrays with the given lengths. -/
structure Range.Fits (r : Range) (sourceLength destinationLength : Nat) : Prop where
  source : 0 ≤ r.source.toInt
  destination : 0 ≤ r.destination.toInt
  length : 0 ≤ r.length.toInt
  sourceEnd : r.source.toInt + r.length.toInt ≤ sourceLength
  destinationEnd : r.destination.toInt + r.length.toInt ≤ destinationLength

theorem Range.fits_iff {r : Range} {sourceLength destinationLength : Nat} :
    r.fits sourceLength destinationLength = true ↔ r.Fits sourceLength destinationLength := by
  unfold Range.fits
  simp only [Bool.and_eq_true, decide_eq_true_eq, Int32.le_iff_toInt_le]
  exact ⟨fun ⟨⟨⟨⟨hs, hd⟩, hlength⟩, hsource⟩, hdestination⟩ => ⟨hs, hd, hlength, hsource, hdestination⟩,
    fun h => ⟨⟨⟨⟨h.source, h.destination⟩, h.length⟩, h.sourceEnd⟩, h.destinationEnd⟩⟩

/-- An array of primitives and one of another class. -/
def Mismatched (m : Machine) (source destination : Address) : Prop :=
  (isPrimitiveArray (m.className source) = true ∨ isPrimitiveArray (m.className destination) = true) ∧
    m.className source ≠ m.className destination

/-- The arguments of a copy. -/
def arguments (source destination : Option Address) (r : Range) : SlotTable :=
  ⟨#[.ref source, .num r.source, .ref destination, .num r.destination, .num r.length]⟩

/-- The native that copies, called for some method. -/
def copying (method : Method) (source destination : Option Address) (r : Range) : VM (Option Value) :=
  Natives.arrayCopy ⟨method, arguments source destination r⟩

/-- A step that only raises an exception. -/
def Refuses (className : String) (x : VM α) (m : Machine) : Prop :=
  ∃ message, outcome x m = (.error (.fault (.exception className message)), m)

variable {r : Range} {source destination : Address} {method : Method}

theorem refuses_null {source destination : Option Address} (h : source = none ∨ destination = none) :
    Refuses ExceptionName.nullPointer (copying method source destination r) m := by
  rcases source with _ | source
  · exact ⟨_, rfl⟩
  · rcases destination with _ | destination
    · exact ⟨_, rfl⟩
    · rcases h with h | h <;> cases h

/-- The arguments are there, and what is left is the copy between them. -/
theorem copying_eq :
    copying method (some source) (some destination) r = do
      copy r source destination
      return none := by
  let call : NativeCall := ⟨method, arguments (some source) (some destination) r⟩
  have hobject : ∀ index a, call.arguments.reference? index = some (some a) →
      Natives.object call index = pure a :=
    fun index a h => by rw [Natives.object, h, VM.inRange, pure_bind]
  have hnumber : ∀ index v, call.arguments.int? index = some v →
      VM.inRange (call.arguments.int? index) = pure v :=
    fun index v h => by rw [h, VM.inRange]
  change Natives.arrayCopy call = _
  rw [Natives.arrayCopy, hobject 0 source rfl, pure_bind, hobject 2 destination rfl, pure_bind,
    hnumber 1 r.source rfl, pure_bind, hnumber 3 r.destination rfl, pure_bind,
    hnumber 4 r.length rfl, pure_bind]

theorem outcome_copying : outcome (copying method (some source) (some destination) r) m =
    match outcome (copy r source destination) m with
      | (.ok _, m') => (.ok none, m')
      | (.error e, m') => (.error e, m') := by
  rw [copying_eq, outcome_bind]
  rcases outcome (copy r source destination) m with ⟨_ | _, _⟩ <;> rfl

theorem Refuses.copying {className : String} (h : Refuses className (copy r source destination) m) :
    Refuses className (copying method (some source) (some destination) r) m := by
  obtain ⟨message, h⟩ := h
  exact ⟨message, by rw [outcome_copying, h]⟩

theorem outcome_checkArray {a : Address} (h : (m.cls (m.classOf a)).isArray = true) :
    outcome (checkArray a) m = (.ok ⟨⟩, m) := by
  unfold checkArray
  rw [outcome_bind_of_ok (outcome_get m), h]
  rfl

theorem refuses_checkArray {a : Address} {f : Unit → VM α} (h : (m.cls (m.classOf a)).isArray = false) :
    Refuses ExceptionName.arrayStore (checkArray a >>= f) m := by
  refine ⟨s!"arraycopy: {m.className a} is not an array", ?_⟩
  unfold checkArray
  rw [bind_assoc, outcome_bind_of_ok (outcome_get m), h]
  rfl

theorem refuses_noArray (h : (m.cls (m.classOf source)).isArray = false ∨
    (m.cls (m.classOf destination)).isArray = false) :
    Refuses ExceptionName.arrayStore (copying method (some source) (some destination) r) m := by
  refine Refuses.copying ?_
  rcases hsource : (m.cls (m.classOf source)).isArray with _ | _
  · exact refuses_checkArray hsource
  · unfold copy Refuses
    rw [outcome_bind_of_ok (outcome_checkArray hsource)]
    exact refuses_checkArray (h.resolve_left (by simp [hsource]))

/-- What a copy between arrays does next. -/
theorem outcome_copy (hs : (m.cls (m.classOf source)).isArray = true)
    (hd : (m.cls (m.classOf destination)).isArray = true) :
    (Mismatched m source destination → Refuses ExceptionName.arrayStore (copy r source destination) m) ∧
    (¬ Mismatched m source destination →
      (¬ r.Fits (lengthOf (m.object source)) (lengthOf (m.object destination)) →
        Refuses ExceptionName.arrayIndexOutOfBounds (copy r source destination) m) ∧
      (r.Fits (lengthOf (m.object source)) (lengthOf (m.object destination)) →
        outcome (copy r source destination) m = outcome (copyRange r source destination) m)) := by
  unfold copy Refuses
  rw [outcome_bind_of_ok (outcome_checkArray hs), outcome_bind_of_ok (outcome_checkArray hd),
    outcome_bind_of_ok (outcome_get m)]
  dsimp only
  refine ⟨fun hmismatched => ?_, fun hmatched => ⟨fun hfits => ?_, fun hfits => ?_⟩⟩
  · rw [if_pos (by simpa [Mismatched] using hmismatched)]
    exact ⟨_, rfl⟩
  · rw [if_neg (by simpa [Mismatched] using hmatched), if_neg (by rwa [Range.fits_iff])]
    exact ⟨_, rfl⟩
  · rw [if_neg (by simpa [Mismatched] using hmatched), if_pos (Range.fits_iff.mpr hfits)]

/-- The copy goes through. -/
def Goes (r : Range) (source destination : Address) (x : VM α) (m : Machine) (result : α) : Prop :=
  ∃ m', outcome x m = (.ok result, m') ∧ Copies r r.length.toInt.toNat source destination m m'

theorem goes_within {a : Address} (hm : m.Sound) (ha : m.ProperArray a)
    (hfits : r.Fits (lengthOf (m.object a)) (lengthOf (m.object a))) :
    Goes r a a (copyRange r a a) m ⟨⟩ := by
  obtain ⟨kind, hkind⟩ := ha.exists_kind
  obtain ⟨after, hafter⟩ := ObjectData.exists_copied? r hkind hkind
  refine ⟨m.withData a after, ?_, .of_setData (.refl hm) ha.there
    (filled_of_copied? hafter (Range.fits_iff.mpr hfits))⟩
  unfold copyRange
  rw [outcome_bind_of_ok (outcome_get m)]
  dsimp only
  rw [if_pos rfl, hafter]
  exact VM.outcome_setData a after

theorem goes_primitives (hm : m.Sound) (hne : source ≠ destination) (hs : m.ProperArray source)
    (hd : m.ProperArray destination) (hprimitive : isPrimitiveArray (m.className destination) = true)
    (hname : m.className source = m.className destination)
    (hfits : r.Fits (lengthOf (m.object source)) (lengthOf (m.object destination))) :
    Goes r source destination (copyRange r source destination) m ⟨⟩ := by
  have hreference := hd.elements.primitive_iff.mp hprimitive
  obtain ⟨kind, hkind⟩ := hd.exists_kind
  have hsource : (m.object source).data.elementKind? = some kind := by
    rw [← hkind]
    exact hd.elements.elementKind?_eq (hname ▸ hs.elements)
  obtain ⟨after, hafter⟩ := ObjectData.exists_copied? r hsource hkind
  refine ⟨m.withData destination after, ?_,
    .of_setData (.refl hm) hd.there (filled_of_copied? hafter (Range.fits_iff.mpr hfits))⟩
  unfold copyRange
  rw [outcome_bind_of_ok (outcome_get m)]
  dsimp only
  rw [if_neg hne, outcome_bind_of_ok (hd.outcome_component? hreference)]
  split
  · rename_i hdata
    rw [hdata] at hreference
    exact absurd rfl hreference
  · rw [hafter]
    exact VM.outcome_setData destination after

/-- References are copied one by one once the component class of the destination is there. -/
theorem outcome_copyRange_references {s d : Array (Option Address)} (hne : source ≠ destination)
    (hs : (m.object source).data = .references s) (hd : (m.object destination).data = .references d)
    (hcomponent : outcome (VM.component? (m.classOf destination)) m = (.ok component, m₁)) :
    outcome (copyRange r source destination) m =
      outcome (copyReferences r destination component s d) m₁ := by
  unfold copyRange
  rw [outcome_bind_of_ok (outcome_get m)]
  dsimp only
  rw [if_neg hne, outcome_bind_of_ok hcomponent, hs, hd]

/-- The elements that come first are those of the range. -/
theorem filled_front {s d : Array (Option Address)} {front : List (Option Address)}
    (hfits : r.Fits s.size d.size) (hfront : front <+: (taken r s).toList) :
    Filled r front.length (.references s) (.references d)
      (.references (overwrite d r.destination.toInt.toNat front.toArray)) := by
  obtain ⟨hsource, hdestination⟩ := VM.Tame.bounds_of_fits (Range.fits_iff.mpr hfits)
  obtain ⟨hsize, htaken⟩ := taken_getElem? hsource
  have hlength : front.length ≤ r.length.toInt.toNat := by
    rw [← hsize, ← Array.length_toList]
    exact hfront.length_le
  have hroom : r.destination.toInt.toNat + front.toArray.size ≤ d.size :=
    Nat.le_trans (Nat.add_le_add_left hlength _) hdestination
  refine Filled.of_overwrite (fun _ _ => rfl) (fun _ => rfl) (fun _ _ => rfl) hroom fun k hk => ?_
  rw [← htaken k (Nat.lt_of_lt_of_le hk hlength), List.getElem?_toArray, ← Array.getElem?_toList]
  obtain ⟨rest, hrest⟩ := hfront
  rw [← hrest, List.getElem?_append_left hk]

/-- If all elements are admitted, all are copied. -/
theorem Admits.outcome_fitting {s : Array (Option Address)}
    (h : Admits component m₁ (taken r s).toList m') :
    outcome (VM.Tame.fitting r component s) m₁ = (.ok ((taken r s).toList, none), m') := by
  cases component with
  | none =>
    cases h
    rfl
  | some component =>
    have hdone : outcome (storable component []) m' = (.ok ([], none), m') := rfl
    have hrun := h.outcome_storable hdone
    rwa [List.append_nil] at hrun

theorem goes_references {s d : Array (Option Address)} (hm : m.Sound) (hne : source ≠ destination)
    (hd : m.ProperArray destination) (hsource : (m.object source).data = .references s)
    (hdestination : (m.object destination).data = .references d) (hfits : r.Fits s.size d.size)
    (hcomponent : outcome (VM.component? (m.classOf destination)) m = (.ok component, m₁))
    (hadmits : Admits component m₁ (taken r s).toList m') :
    Goes r source destination (copyRange r source destination) m ⟨⟩ := by
  have hretains := VM.Retains.component? _ m _ m₁ hm hcomponent trivial
  have hfilled := filled_front (d := d) hfits (List.prefix_refl (taken r s).toList)
  rw [← hsource, ← hdestination, Array.length_toList,
    (taken_getElem? (VM.Tame.bounds_of_fits (Range.fits_iff.mpr hfits)).1).1] at hfilled
  refine ⟨_, ?_, .of_setData (hretains.trans (hadmits.retains hretains.sound)) hd.there hfilled⟩
  rw [outcome_copyRange_references hne hsource hdestination hcomponent, VM.Tame.copyReferences_eq,
    outcome_bind_of_ok hadmits.outcome_fitting, outcome_bind_of_ok (VM.outcome_setData destination _)]
  rfl

/-- A copy that comes to an element that is no instance has copied those before it. -/
theorem stops_at_misfit {s d : Array (Option Address)} {id : ClassId} {a : Address}
    {m₂ m₃ : Machine} (hm : m.Sound)
    (hne : source ≠ destination) (hd : m.ProperArray destination)
    (hsource : (m.object source).data = .references s)
    (hdestination : (m.object destination).data = .references d) (hfits : r.Fits s.size d.size)
    (hcomponent : outcome (VM.component? (m.classOf destination)) m = (.ok (some id), m₁))
    (htaken : (taken r s).toList = elements ++ some a :: rest)
    (hadmits : Admits (some id) m₁ elements m₂)
    (hmisfit : outcome (VM.isInstance a id) m₂ = (.ok false, m₃)) :
    ∃ message m', outcome (copyRange r source destination) m =
        (.error (.fault (.exception ExceptionName.arrayStore message)), m') ∧
      Copies r elements.length source destination m m' := by
  have hfirst := VM.Retains.component? _ m _ m₁ hm hcomponent trivial
  have hsecond := hadmits.retains hfirst.sound
  have hthird := VM.Retains.isInstance _ _ _ _ _ hsecond.sound hmisfit trivial
  have hfitting : outcome (VM.Tame.fitting r (some id) s) m₁ = (.ok (elements, some a), m₃) := by
    have hmisfit : outcome (storable id (some a :: rest)) m₂ = (.ok ([], some a), m₃) :=
      outcome_storable_misfit hmisfit
    have hrun := hadmits.outcome_storable hmisfit
    rwa [List.append_nil, ← htaken] at hrun
  have hfilled := filled_front (d := d) hfits (htaken ▸ List.prefix_append elements (some a :: rest))
  rw [← hsource, ← hdestination] at hfilled
  let after := m₃.withData destination
    (.references (overwrite d r.destination.toInt.toNat elements.toArray))
  let names := after.className a ++ " stored into " ++ after.className destination
  refine ⟨"arraycopy: element type mismatch: " ++ names, after, ?_,
    .of_setData ((hfirst.trans hsecond).trans hthird) hd.there hfilled⟩
  rw [outcome_copyRange_references hne hsource hdestination hcomponent, VM.Tame.copyReferences_eq,
    outcome_bind_of_ok hfitting, outcome_bind_of_ok (VM.outcome_setData destination _)]
  rfl

theorem Goes.copying (h : Goes r source destination (copyRange r source destination) m ⟨⟩)
    (hcopy : outcome (copy r source destination) m = outcome (copyRange r source destination) m) :
    Goes r source destination (copying method (some source) (some destination) r) m none := by
  obtain ⟨m', hrun, hcopies⟩ := h
  exact ⟨m', by rw [outcome_copying, hcopy, hrun], hcopies⟩

/-- What a copy does. It is refused, and nothing changes, if an array is null, an object is no
array, one array is of primitives and the other of another class, or a range does not fit. Otherwise
it goes through within one array and between arrays of primitives, and between arrays of references
if the component class of the destination is found and all elements are admitted. It stops with
`ArrayStoreException` at the first element that is no instance of that class, having copied those
before it. -/
theorem elements_copied (hm : m.Reachable) (method : Method) (r : Range) :
    (∀ source destination, source = none ∨ destination = none →
      Refuses ExceptionName.nullPointer (copying method source destination r) m) ∧
    ∀ source destination,
      ((m.cls (m.classOf source)).isArray = false ∨ (m.cls (m.classOf destination)).isArray = false →
        Refuses ExceptionName.arrayStore (copying method (some source) (some destination) r) m) ∧
      (m.ProperArray source → m.ProperArray destination →
        (Mismatched m source destination →
          Refuses ExceptionName.arrayStore (copying method (some source) (some destination) r) m) ∧
        (¬ Mismatched m source destination →
          (¬ r.Fits (lengthOf (m.object source)) (lengthOf (m.object destination)) →
            Refuses ExceptionName.arrayIndexOutOfBounds
              (copying method (some source) (some destination) r) m) ∧
          (r.Fits (lengthOf (m.object source)) (lengthOf (m.object destination)) →
            (source = destination ∨ isPrimitiveArray (m.className destination) = true →
              Goes r source destination (copying method (some source) (some destination) r) m none) ∧
            (source ≠ destination → ∀ s component m₁, (m.object source).data = .references s →
              outcome (VM.component? (m.classOf destination)) m = (.ok component, m₁) →
                (∀ m₂, Admits component m₁ (taken r s).toList m₂ →
                  Goes r source destination (copying method (some source) (some destination) r)
                    m none) ∧
                ∀ id front a rest m₂ m₃, component = some id →
                  (taken r s).toList = front ++ some a :: rest →
                  Admits component m₁ front m₂ → outcome (VM.isInstance a id) m₂ = (.ok false, m₃) →
                    ∃ message m', outcome (copying method (some source) (some destination) r) m =
                        (.error (.fault (.exception ExceptionName.arrayStore message)), m') ∧
                      Copies r front.length source destination m m')))) := by
  have hsound := hm.settled.sound
  refine ⟨fun source destination => refuses_null,
    fun source destination => ⟨refuses_noArray, fun hs hd => ?_⟩⟩
  obtain ⟨hmismatched, hmatched⟩ := outcome_copy (m := m) (r := r) hs.isArray hd.isArray
  refine ⟨fun h => (hmismatched h).copying, fun h => ?_⟩
  obtain ⟨hrefused, hcopy⟩ := hmatched h
  refine ⟨fun hfits => (hrefused hfits).copying, fun hfits => ?_⟩
  have hcopy := hcopy hfits
  refine ⟨fun hplain => ?_, fun hne s component m₁ hsource hcomponent => ?_⟩
  · by_cases hsame : source = destination
    · subst hsame
      exact (goes_within hsound hs hfits).copying hcopy
    · have hprimitive := hplain.resolve_left hsame
      have hname : m.className source = m.className destination :=
        Decidable.byContradiction fun hname => h ⟨.inr hprimitive, hname⟩
      exact (goes_primitives hsound hsame hs hd hprimitive hname hfits).copying hcopy
  · -- An array of references only goes with another one.
    have hplain : ¬ isPrimitiveArray (m.className source) = true := fun hprimitive =>
      hs.elements.primitive_iff.mp hprimitive (by rw [hsource]; rfl)
    have hreference : (m.object destination).data.elementKind? = some .reference :=
      Decidable.byContradiction fun hkind =>
        have hprimitive := hd.elements.primitive_iff.mpr hkind
        h ⟨.inr hprimitive, fun hname => hplain (hname ▸ hprimitive)⟩
    obtain ⟨d, hdestination⟩ := ObjectData.references_of_kind hreference
    have hfits : r.Fits s.size d.size := by
      rw [lengthOf, lengthOf, hsource, hdestination] at hfits
      exact hfits
    refine ⟨fun m₂ hadmits => ?_, fun id front a rest m₂ m₃ hid htaken hadmits hmisfit => ?_⟩
    · exact (goes_references hsound hne hd hsource hdestination hfits hcomponent hadmits).copying hcopy
    · subst hid
      obtain ⟨message, m', hrun, hcopies⟩ :=
        stops_at_misfit hsound hne hd hsource hdestination hfits hcomponent htaken hadmits hmisfit
      exact ⟨message, m', by rw [outcome_copying, hcopy, hrun], hcopies⟩

/-- The class files that arrays need, and an array of four numbers. -/
def defineNumbers : VM Unit := do
  let _ ← VM.define (.build ClassName.object none (pure ()))
  let _ ← VM.define (Library.markerInterface ClassName.cloneable)
  let _ ← VM.define (Library.markerInterface ClassName.serializable)
  let array ← VM.newArray (← VM.load "[I") 4
  VM.setData array (.ints #[1, 2, 3, 4])

def numbers : Machine := (outcome defineNumbers (.start [])).2

theorem reachable_numbers : numbers.Reachable :=
  have hprogram : VM.Program .none defineNumbers :=
    .bind (.define _) fun _ => .bind (.define _) fun _ => .bind (.define _) fun _ =>
        .bind (.load _) fun _ =>
      .bind (VM.Program.newArray _ _) fun _ => .setData _ _
  .program (.start []) Natives.Lawful.none hprogram (Prod.eta _).symm (by decide +kernel)

/-- Numbers are moved by one place, over each other. -/
theorem elements_copied_within :
    ∃ m', outcome (copying default (some ⟨0⟩) (some ⟨0⟩) ⟨0, 1, 3⟩) numbers = (.ok none, m') ∧
    (m'.object ⟨0⟩).data.element? 0 = some (.int 1) ∧
      ∀ k < 3, (m'.object ⟨0⟩).data.element? (1 + k) = (ObjectData.ints #[1, 2, 3, 4]).element? k := by
  have hdata : (numbers.object ⟨0⟩).data = .ints #[1, 2, 3, 4] := by decide +kernel
  have hname : numbers.className ⟨0⟩ = "[I" := by decide +kernel
  have harray : numbers.ProperArray ⟨0⟩ :=
    ⟨by decide +kernel, by rw [hdata, hname]; exact ⟨_, rfl, rfl⟩, fun _ => by decide +kernel⟩
  have hmatched : ¬ Mismatched numbers ⟨0⟩ ⟨0⟩ := fun h => h.2 rfl
  have hfits : Range.Fits ⟨0, 1, 3⟩ (lengthOf (numbers.object ⟨0⟩))
      (lengthOf (numbers.object ⟨0⟩)) := by
    rw [lengthOf, hdata]
    constructor <;> decide
  obtain ⟨m', hrun, hcopies⟩ :=
    ((((elements_copied reachable_numbers default ⟨0, 1, 3⟩).2 ⟨0⟩ ⟨0⟩).2 harray harray).2
    hmatched).2 hfits |>.1 (.inl rfl)
  have hfilled := hcopies.filled
  rw [hdata] at hfilled
  refine ⟨m', hrun, hfilled.kept 0 (.inl (by decide)), fun k hk => ?_⟩
  have hcopied := hfilled.copied k hk
  rwa [show (0 : Int32).toInt.toNat + k = k from Nat.zero_add k] at hcopied

end ArrayCopy

end JavaMachine
