import Mathlib.Data.List.Basic
import Mathlib.Data.List.Induction
import JavaMachine.Proofs.Discreet
import JavaMachine.Proofs.LoadIndependence

/-!
Trees of new arrays.

An array whose elements are arrays, and so on, is a tree (`Machine.Tree`). While trees are made what
was there before stays as it is, and every new array is an element of one other new array, or the
first of a tree (`Machine.Adds`). So no two ways down from the first array of a tree lead to the
same array, and nothing but its place in the tree refers to an array (`Machine.NewTree`).
-/

namespace JavaMachine

/-- The value that a new field or element has. -/
def Value.IsZero (value : Value) : Prop :=
  value ∈ [.int 0, .long 0, .float 0, .double 0, .reference none]

namespace ObjectData

variable {data : ObjectData} {name : String} {length index : Nat}

/-- Only arrays of references have elements that are references. -/
theorem element?_eq_reference {r : Option Address} :
    data.element? index = some (.reference r) ↔ ∃ elements, data = .references elements ∧
      elements[index]? = some r := by
  cases data <;> simp [element?]

/-- The elements of a new array are zero. -/
theorem newArray?_zero (h : newArray? name length = some data) :
    data.length? = some length ∧ ∀ index < length, ∃ value, data.element? index = some value ∧
      value.IsZero := by
  unfold newArray? at h
  split at h <;> cases h <;> refine ⟨congrArg some Array.size_replicate, fun index hindex => ?_⟩ <;>
    simp [element?, hindex, Value.IsZero]

theorem newArray?_no_reference (h : newArray? name length = some data) (a : Address) :
    data.element? index ≠ some (.reference (some a)) := fun helement => by
  obtain ⟨elements, hdata, hget⟩ := element?_eq_reference.mp helement
  exact (VM.Discreet.newArray?_blank h).2 elements a hdata (Array.mem_of_getElem? hget)

end ObjectData

namespace FieldType

/-- How many dimensions an array type has. -/
def dimensions : FieldType → Nat
  | array component => component.dimensions + 1
  | _ => 0

end FieldType

namespace Machine

variable {m m₁ m' : Machine} {a b : Address} {index : Nat}

/-! ### References -/

/-- Where a machine keeps references. -/
inductive Place where
  | element (array : Address) (index : Nat)
  | field (object : Address) (slot : Nat)
  | static (cls : ClassId) (slot : Nat)
  | literal (index : Nat)

/-- The object that is referred to at a place. -/
def referenceAt? (m : Machine) : Place → Option Address
  | .element array index => ((m.object array).data.element? index).bind Value.reference?
  | .field object slot => (((m.object object).data.fields?).bind (·.slot? slot)).bind Slot.reference
  | .static cls slot => ((m.cls cls).statics.slot? slot).bind Slot.reference
  | .literal index => m.literals[index]?.map Prod.snd

theorem referenceAt?_element : m.referenceAt? (.element b index) = some a ↔
    ∃ elements, (m.object b).data = .references elements ∧ elements[index]? = some (some a) := by
  rw [← ObjectData.element?_eq_reference, referenceAt?]
  rcases (m.object b).data.element? index with _ | (_ | _ | _ | _ | r) <;> simp [Value.reference?]

theorem lt_of_referenceAt? (h : m.referenceAt? (.element b index) = some a) :
    b.index < m.heap.size := by
  obtain ⟨elements, hdata, -⟩ := referenceAt?_element.mp h
  exact lt_of_elements hdata

/-- Where nothing but elements of arrays may refer to an object, any place that does is an element. -/
theorem Hides.element (h : m.Hides a) {place : Place} (hplace : m.referenceAt? place = some a) :
    ∃ b index, place = .element b index := by
  have hslot : ∀ {table : SlotTable} {slot : Nat}, (table.slot? slot).bind Slot.reference = some a →
      table.Holds a := by
    intro table slot hread
    obtain ⟨found, hfound, hreference⟩ := Option.bind_eq_some_iff.mp hread
    cases found with
    | num => cases hreference
    | ref r =>
      cases hreference
      exact Array.mem_of_getElem? hfound
  cases place with
  | element b index => exact ⟨b, index, rfl⟩
  | field object slot =>
    rw [referenceAt?, Option.bind_assoc] at hplace
    obtain ⟨fields, hfields, hread⟩ := Option.bind_eq_some_iff.mp hplace
    have hdata : (m.object object).data = .fields fields := by
      unfold ObjectData.fields? at hfields
      split at hfields
      · cases hfields
        assumption
      · cases hfields
    exact absurd (hslot hread) (h.fields object fields hdata)
  | static cls slot => exact absurd (hslot hplace) (h.statics cls)
  | literal index =>
    obtain ⟨entry, hentry, rfl⟩ := Option.map_eq_some_iff.mp hplace
    exact absurd rfl (h.literals entry (List.mem_of_getElem? hentry))

/-- Nothing refers to an object that is put on the heap of a machine without dangling references. -/
theorem Grounded.hides_new {object : Object} (hm : m.Grounded) (h : object.data.fields? = none) :
    (m.withObject object).Hides ⟨m.heap.size⟩ := by
  have hslots : ∀ {table : SlotTable}, extent table ≤ m.heap.size → ¬ table.Holds ⟨m.heap.size⟩ :=
      fun htable hholds =>
    Nat.not_succ_le_self _ (SlotTable.extent_le.mp htable _ hholds)
  refine ⟨by simp, fun id => hslots (hm.statics id), fun entry hentry heq => ?_,
    fun b slots hdata => ?_⟩
  · have hlt := hm.literal hentry
    rw [heq] at hlt
    exact Nat.lt_irrefl _ hlt
  · by_cases hb : b = ⟨m.heap.size⟩
    · rw [hb, object_withObject_new] at hdata
      rw [hdata] at h
      cases h
    · rw [object_withObject_ne hb] at hdata
      have hextent := hm.data b
      rw [hdata] at hextent
      exact hslots hextent

/-- Filling an array with references leaves hidden what was. -/
theorem Hides.withReferences {elements : Array (Option Address)} (h : m.Hides b)
    (ha : a.index < m.heap.size) :
    (m.withData a (.references elements)).Hides b := by
  refine ⟨by rw [heap_size_withData]; exact h.there, h.statics, h.literals, fun c slots hdata => ?_⟩
  by_cases heq : c = a
  · rw [heq, object_withData_self ha] at hdata
    cases hdata
  · rw [object_withData_ne heq] at hdata
    exact h.fields c slots hdata

/-- An element refers to one of the objects that its array was filled with, or it is of another
array. -/
theorem referenceAt?_withReferences {children : List Address} {x : Address} (ha : a.index < m.heap.size)
    (h : (m.withData a (.references (children.map some).toArray)).referenceAt? (.element b index) =
      some x) :
    (b = a ∧ children[index]? = some x) ∨ (b ≠ a ∧ m.referenceAt? (.element b index) = some x) := by
  by_cases heq : b = a
  · subst heq
    obtain ⟨elements, hdata, hget⟩ := referenceAt?_element.mp h
    rw [object_withData_self ha] at hdata
    cases hdata
    exact .inl ⟨rfl, by simpa using hget⟩
  · rw [referenceAt?, object_withData_ne heq] at h
    exact .inr ⟨heq, h⟩

/-! ### What is added -/

/-- The object was put on the heap between the machines. -/
def Made (m m' : Machine) (a : Address) : Prop := m.heap.size ≤ a.index ∧ a.index < m'.heap.size

/-- Arrays were made between the machines. Those in `tops` are elements of no array, and each of the
others is an element of one new array. If there was no dangling reference, nothing else refers to
them. -/
structure Adds (m : Machine) (tops : List Address) (m' : Machine) : Prop extends m.Evolves m' where
  old : ∀ b, b.index < m.heap.size → m'.object b = m.object b
  top : ∀ a ∈ tops, m.Made m' a
  distinct : tops.Nodup
  held : ∀ b index a, m.heap.size ≤ b.index → m'.referenceAt? (.element b index) = some a →
    m.Made m' a ∧ a ∉ tops
  once : ∀ a b index b' index', m.heap.size ≤ b.index → m.heap.size ≤ b'.index →
    m'.referenceAt? (.element b index) = some a → m'.referenceAt? (.element b' index') = some a →
    b = b' ∧ index = index'
  grounded : m.Grounded → m'.Grounded
  hides : ∀ a, m.Hides a → m'.Hides a
  hidden : m.Grounded → ∀ a, (a ∈ tops ∨ ∃ b index, m.heap.size ≤ b.index ∧
    m'.referenceAt? (.element b index) = some a) → m'.Hides a

namespace Adds

variable {tops tops' : List Address}

theorem element_old (h : m.Adds tops m') (hb : b.index < m.heap.size) :
    m'.referenceAt? (.element b index) = m.referenceAt? (.element b index) := by
  rw [referenceAt?, referenceAt?, h.old b hb]

/-- A step that leaves the objects that were there as they are, and makes no array that refers to
anything. -/
theorem plain (hevolves : m.Evolves m') (hold : ∀ b, b.index < m.heap.size → m'.object b = m.object b)
    (hplain : ∀ b index a, m'.referenceAt? (.element b index) = some a → b.index < m.heap.size)
    (hgrounded : m.Grounded → m'.Grounded) (hhides : ∀ a, m.Hides a → m'.Hides a)
    (htop : ∀ a ∈ tops, m.Made m' a)
    (hdistinct : tops.Nodup) (hhidden : m.Grounded → ∀ a ∈ tops, m'.Hides a) : m.Adds tops m' := by
  have hno : ∀ {p : Prop} {b a : Address} {index : Nat}, m.heap.size ≤ b.index →
      m'.referenceAt? (.element b index) = some a → p := fun hb hread =>
    absurd (hplain _ _ _ hread) (Nat.not_lt_of_le hb)
  refine ⟨hevolves, hold, htop, hdistinct, fun b index a hb hread => hno hb hread,
    fun a b index _ _ hb _ hread _ => hno hb hread, hgrounded, hhides, fun hm a ha => ?_⟩
  rcases ha with ha | ⟨b, index, hb, hread⟩
  · exact hhidden hm a ha
  · exact hno hb hread

/-- Nothing happens. -/
theorem refl (m : Machine) : m.Adds [] m :=
  .plain (.refl m) (fun _ _ => rfl) (fun _ _ _ hread => lt_of_referenceAt? hread) id (fun _ ha => ha)
    (fun _ h => (by cases h)) .nil fun _ _ h => (by cases h)

/-- A new array, whose elements are zero. -/
theorem newArray {id : ClassId} {name : String} {length : Nat} {data : ObjectData}
    (h : ObjectData.newArray? name length = some data) :
    m.Adds [⟨m.heap.size⟩] (m.withObject ⟨id, data⟩) := by
  have hfields : data.fields? = none := (VM.Steady.isArray_of_newArray? h).2
  refine .plain (.withObject _) (fun b hb => object_withObject_of_lt hb)
    (fun b index a hread => ?_) (fun hm => ?_)
    (fun a ha => ?_) (fun a ha => ?_) (List.pairwise_singleton _ _) fun hm a ha => ?_
  · by_cases hb : b = ⟨m.heap.size⟩
    · rw [hb] at hread
      obtain ⟨elements, hdata, hget⟩ := referenceAt?_element.mp hread
      rw [object_withObject_new] at hdata
      exact absurd (ObjectData.element?_eq_reference.mpr ⟨elements, hdata, hget⟩)
        (ObjectData.newArray?_no_reference h a)
    · rw [referenceAt?, object_withObject_ne hb] at hread
      exact lt_of_referenceAt? hread
  · exact hm.withObject (extent_le_of_zero (VM.Discreet.newArray?_blank h).1)
  · refine ha.withObject fun slots hslots => ?_
    rw [show data = .fields slots from hslots] at hfields
    cases hfields
  · cases List.mem_singleton.mp ha
    exact ⟨Nat.le_refl _, by simp⟩
  · cases List.mem_singleton.mp ha
    exact hm.hides_new hfields

theorem trans (h : m.Adds tops m₁) (h' : m₁.Adds tops' m') : m.Adds (tops ++ tops') m' := by
  have hle : m.heap.size ≤ m₁.heap.size := h.heap
  have hle' : m₁.heap.size ≤ m'.heap.size := h'.heap
  have hfirst : ∀ {a}, m.Made m₁ a → m.Made m' a := fun ha => ⟨ha.1, Nat.lt_of_lt_of_le ha.2 hle'⟩
  have hsecond : ∀ {a}, m₁.Made m' a → m.Made m' a := fun ha => ⟨Nat.le_trans hle ha.1, ha.2⟩
  have hapart : ∀ {p : Prop} {a}, m.Made m₁ a → m₁.Made m' a → p := fun ha ha' =>
    absurd ha.2 (Nat.not_lt_of_le ha'.1)
  -- Whatever refers to a new array is there after the first step, or it is made by the second one.
  have hheld : ∀ {b index a}, m.heap.size ≤ b.index → m'.referenceAt? (.element b index) = some a →
      (m₁.referenceAt? (.element b index) = some a ∧ m.Made m₁ a ∧ a ∉ tops) ∨
        (m₁.heap.size ≤ b.index ∧ m₁.Made m' a ∧ a ∉ tops') := fun {b index a} hb hread => by
    by_cases hlt : b.index < m₁.heap.size
    · rw [h'.element_old hlt] at hread
      exact .inl ⟨hread, h.held b index a hb hread⟩
    · exact .inr ⟨Nat.le_of_not_lt hlt, h'.held b index a (Nat.le_of_not_lt hlt) hread⟩
  refine ⟨h.toEvolves.trans h'.toEvolves, fun b hb => ?_, fun a ha => ?_, ?_,
    fun b index a hb hread => ?_,
    fun a b index b' index' hb hb' hread hread' => ?_, fun hm => h'.grounded (h.grounded hm),
    fun a ha => h'.hides a (h.hides a ha), fun hm a ha => ?_⟩
  · rw [h'.old b (Nat.lt_of_lt_of_le hb hle), h.old b hb]
  · rcases List.mem_append.mp ha with ha | ha
    · exact hfirst (h.top a ha)
    · exact hsecond (h'.top a ha)
  · refine List.nodup_append.mpr ⟨h.distinct, h'.distinct, fun a ha b hb heq => ?_⟩
    exact hapart (h.top a ha) (heq ▸ h'.top b hb)
  · rcases hheld hb hread with ⟨-, hmade, hnot⟩ | ⟨-, hmade, hnot⟩
    · exact ⟨hfirst hmade, fun ha => (List.mem_append.mp ha).elim hnot fun ha' =>
        hapart hmade (h'.top a ha')⟩
    · exact ⟨hsecond hmade, fun ha => (List.mem_append.mp ha).elim
        (fun ha => hapart (h.top a ha) hmade) hnot⟩
  · rcases hheld hb hread with ⟨hfound, hmade, -⟩ | ⟨hnew, hmade, -⟩ <;>
      rcases hheld hb' hread' with ⟨hfound', hmade', -⟩ | ⟨hnew', hmade', -⟩
    · exact h.once a b index b' index' hb hb' hfound hfound'
    · exact hapart hmade hmade'
    · exact hapart hmade' hmade
    · exact h'.once a b index b' index' hnew hnew' hread hread'
  · rcases ha with ha | ⟨b, index, hb, hread⟩
    · rcases List.mem_append.mp ha with ha | ha
      · exact h'.hides a (h.hidden hm a (.inl ha))
      · exact h'.hidden (h.grounded hm) a (.inl ha)
    · rcases hheld hb hread with ⟨hfound, -⟩ | ⟨hnew, -⟩
      · exact h'.hides a (h.hidden hm a (.inr ⟨b, index, hb, hfound⟩))
      · exact h'.hidden (h.grounded hm) a (.inr ⟨b, index, hnew, hread⟩)

/-- The first of the new arrays gets the others as its elements. -/
theorem fill {children : List Address} (h : m.Adds (a :: children) m')
    (haccepts : m'.Accepts a (.references (children.map some).toArray)) :
    m.Adds [a] (m'.withData a (.references (children.map some).toArray)) := by
  let m₂ := m'.withData a (.references (children.map some).toArray)
  have hmade : ∀ {b}, m.Made m' b → m.Made m₂ b :=
    fun hb => ⟨hb.1, by rw [heap_size_withData]; exact hb.2⟩
  obtain ⟨ha, hchildren⟩ := List.forall_mem_cons.mp h.top
  obtain ⟨hnot, hdistinct⟩ := List.nodup_cons.mp h.distinct
  -- What is referred to is one of the children, or was referred to before.
  have hheld : ∀ {b index x}, m.heap.size ≤ b.index → m₂.referenceAt? (.element b index) = some x →
      (b = a ∧ children[index]? = some x) ∨
        (m'.referenceAt? (.element b index) = some x ∧ m.Made m' x ∧ x ∉ a :: children) :=
        fun {b index x} hb hread =>
    (referenceAt?_withReferences haccepts.there hread).imp_right fun ⟨_, hbefore⟩ =>
      ⟨hbefore, h.held b index x hb hbefore⟩
  have hhides : ∀ b, m'.Hides b → m₂.Hides b := fun _ hb => hb.withReferences haccepts.there
  refine ⟨h.toEvolves.trans (.withData fun _ => haccepts.shape), fun b hb => ?_, fun b hb => ?_,
    List.pairwise_singleton _ _,
    fun b index x hb hread => ?_, fun x b index b' index' hb hb' hread hread' => ?_, fun hm => ?_,
    fun b hb => hhides b (h.hides b hb), fun hm b hb => hhides b (h.hidden hm b ?_)⟩
  · have hne : b ≠ a := fun heq => by
      rw [heq] at hb
      exact Nat.not_lt_of_le ha.1 hb
    rw [object_withData_ne hne, h.old b hb]
  · cases List.mem_singleton.mp hb
    exact hmade ha
  · rcases hheld hb hread with ⟨-, hchild⟩ | ⟨-, hx, hno⟩
    · have hmem := List.mem_of_getElem? hchild
      exact ⟨hmade (hchildren x hmem), fun heq => hnot (List.mem_singleton.mp heq ▸ hmem)⟩
    · exact ⟨hmade hx, fun heq => hno (List.mem_singleton.mp heq ▸ List.mem_cons_self)⟩
  · rcases hheld hb hread with ⟨rfl, hchild⟩ | ⟨hbefore, -, hno⟩ <;>
      rcases hheld hb' hread' with ⟨rfl, hchild'⟩ | ⟨hbefore', -, hno'⟩
    · have hlt := (List.getElem?_eq_some_iff.mp hchild).1
      exact ⟨rfl, (List.getElem?_inj hlt hdistinct).mp (hchild.trans hchild'.symm)⟩
    · exact absurd (List.mem_cons_of_mem _ (List.mem_of_getElem? hchild)) hno'
    · exact absurd (List.mem_cons_of_mem _ (List.mem_of_getElem? hchild')) hno
    · exact h.once x b index b' index' hb hb' hbefore hbefore'
  · refine (h.grounded hm).withData (extent_array.mpr fun r hr => ?_)
    obtain ⟨child, hchild, rfl⟩ := List.mem_map.mp (List.mem_toArray.mp hr)
    exact (hchildren child hchild).2
  · rcases hb with hb | ⟨c, index, hc, hread⟩
    · exact .inl (List.mem_singleton.mp hb ▸ List.mem_cons_self)
    · rcases hheld hc hread with ⟨-, hchild⟩ | ⟨hbefore, -⟩
      · exact .inl (List.mem_cons_of_mem _ (List.mem_of_getElem? hchild))
      · exact .inr ⟨c, index, hc, hbefore⟩

/-- What was there before refers to nothing new. -/
theorem lt_of_old (h : m.Adds tops m') (hm : m.Grounded) (hb : b.index < m.heap.size)
    (hread : m'.referenceAt? (.element b index) = some a) : a.index < m.heap.size := by
  rw [h.element_old hb] at hread
  obtain ⟨elements, hdata, hget⟩ := referenceAt?_element.mp hread
  have hextent := hm.data b
  rw [hdata] at hextent
  exact extent_array.mp hextent (some a) (Array.mem_of_getElem? hget)

end Adds

/-! ### Trees -/

/-- What is found by way of an element of each of the arrays from a value on. -/
def follow (m : Machine) : Value → List Nat → Option Value
  | value, [] => some value
  | value, index :: path =>
    value.reference?.bind fun a => ((m.object a).data.element? index).bind (m.follow · path)

/-- The path takes an element of each array, if the arrays have so many elements. -/
def Within : (counts path : List Nat) → Prop
  | _, [] => True
  | count :: counts, index :: path => index < count ∧ Within counts path
  | [], _ :: _ => False

theorem follow_append (value : Value) (path rest : List Nat) :
    m.follow value (path ++ rest) = (m.follow value path).bind (m.follow · rest) := by
  induction path generalizing value with
  | nil => rfl
  | cons index path ih =>
    simp only [List.cons_append, follow, Option.bind_assoc, ih]

/-- Only from a reference one comes to an array. -/
theorem reference_of_follow {value : Value} {path : List Nat}
    (h : m.follow value path = some (.reference (some a))) :
    ∃ b, value = .reference (some b) := by
  cases path with
  | nil => exact ⟨a, Option.some.inj h⟩
  | cons index path =>
    obtain ⟨b, hb, -⟩ := Option.bind_eq_some_iff.mp h
    cases value with
    | reference => exact ⟨b, congrArg Value.reference hb⟩
    | _ => cases hb

/-- The first step from an array takes one of its elements. -/
theorem follow_cons {path : List Nat} : m.follow (.reference (some b)) (index :: path) =
      some (.reference (some a)) ↔
    ∃ c, m.referenceAt? (.element b index) = some c ∧
      m.follow (.reference (some c)) path = some (.reference (some a)) := by
  change ((m.object b).data.element? index).bind (m.follow · path) = _ ↔ _
  rw [Option.bind_eq_some_iff]
  constructor
  · rintro ⟨value, helement, hrest⟩
    obtain ⟨c, rfl⟩ := reference_of_follow hrest
    exact ⟨c, referenceAt?_element.mpr (ObjectData.element?_eq_reference.mp helement), hrest⟩
  · rintro ⟨c, hread, hrest⟩
    exact ⟨_, ObjectData.element?_eq_reference.mpr (referenceAt?_element.mp hread), hrest⟩

/-- The last step to an array takes an element of another one. -/
theorem follow_concat {value : Value} {path : List Nat} :
    m.follow value (path ++ [index]) = some (.reference (some a)) ↔
      ∃ b, m.follow value path = some (.reference (some b)) ∧
        m.referenceAt? (.element b index) = some a := by
  rw [follow_append, Option.bind_eq_some_iff]
  constructor
  · rintro ⟨between, hbetween, hlast⟩
    obtain ⟨b, rfl⟩ := reference_of_follow hlast
    obtain ⟨c, hread, hend⟩ := follow_cons.mp hlast
    cases hend
    exact ⟨b, hbetween, hread⟩
  · rintro ⟨b, hbetween, hread⟩
    exact ⟨_, hbetween, follow_cons.mpr ⟨a, hread, rfl⟩⟩

/-- An array of a type that has so many elements in each dimension. None of its arrays is lower on
the heap than `lowest`, and those of the last dimension are zeroed. -/
inductive Tree (m : Machine) (lowest : Nat) : FieldType → List Nat → Address → Prop
  | last {type : FieldType} {count : Nat} {a : Address} (placed : lowest ≤ a.index)
      (named : m.className a = type.array.text)
      (zeroed : ObjectData.newArray? type.array.text count = some (m.object a).data) :
      Tree m lowest type.array [count] a
  | nest {type : FieldType} {next : Nat} {counts : List Nat} {a : Address} {children : List Address}
      (placed : lowest ≤ a.index) (named : m.className a = type.array.text)
      (filled : (m.object a).data = .references (children.map some).toArray)
      (loaded : ∀ child ∈ children, m.lookup? type.text = some (m.classOf child))
      (below : ∀ child ∈ children, Tree m lowest type (next :: counts) child) :
      Tree m lowest type.array (children.length :: next :: counts) a

namespace Tree

variable {lowest lowest' : Nat} {type : FieldType} {counts : List Nat}

theorem placed (h : m.Tree lowest type counts a) : lowest ≤ a.index := by
  cases h <;> assumption

theorem named (h : m.Tree lowest type counts a) : m.className a = type.text := by
  cases h <;> assumption

theorem zeroed {count : Nat} (h : m.Tree lowest type.array [count] a) :
    ObjectData.newArray? type.array.text count = some (m.object a).data := by
  cases h
  assumption

theorem there (h : m.Tree lowest type counts a) : a.index < m.heap.size := by
  cases h with
  | last _ _ zeroed =>
    refine Nat.lt_of_not_le fun hle => ?_
    have hfields := (VM.Steady.isArray_of_newArray? zeroed).2
    rw [show m.object a = default by simp [object, Array.getD, Nat.not_lt_of_le hle]] at hfields
    cases hfields
  | nest _ _ filled => exact lt_of_elements filled

/-- A tree stays the same as long as its arrays do. -/
theorem keep (h : m.Tree lowest type counts a) (hm : m.Coherent) (hevolves : m.Evolves m')
    (hsame : ∀ b, lowest ≤ b.index → b.index < m.heap.size → m'.object b = m.object b)
    (hle : lowest' ≤ lowest) :
    m'.Tree lowest' type counts a := by
  have hname : ∀ {b}, b.index < m.heap.size → m'.className b = m.className b := fun {b} hb => by
    rw [className, hevolves.classOf b hb, (hevolves.later _ (hm.there b hb)).name, className]
  induction h with
  | @last type count a placed named zeroed =>
    have ha := there (.last placed named zeroed)
    exact .last (Nat.le_trans hle placed) ((hname ha).trans named)
      (by rw [hsame a placed ha]; exact zeroed)
  | @nest type next counts a children placed named filled loaded below ih =>
    have ha := lt_of_elements filled
    refine .nest (Nat.le_trans hle placed) ((hname ha).trans named)
      (by rw [hsame a placed ha]; exact filled)
      (fun child hchild => ?_) ih
    rw [hevolves.classOf child (below child hchild).there]
    exact hevolves.bound _ _ (loaded child hchild)

/-- A path within the tree leads to one of its arrays, or to zero. -/
theorem follow_within (h : m.Tree lowest type counts a) : ∀ {path}, Within counts path →
    (path.length < counts.length → ∃ b,
      m.follow (.reference (some a)) path = some (.reference (some b)) ∧
      (m.className b).toList = type.chars.drop path.length ∧ (m.object b).data.length? =
    counts[path.length]? ∧ (path ≠ [] → m.lookup? (m.className b) = some (m.classOf b))) ∧
    (path.length = counts.length → ∃ value, m.follow (.reference (some a)) path = some value ∧
      value.IsZero) := by
  induction h with
  | @last type count a placed named zeroed =>
    obtain ⟨hlength, hzero⟩ := ObjectData.newArray?_zero zeroed
    intro path hpath
    match path, hpath with
    | [], _ =>
      refine ⟨fun _ => ⟨a, rfl, ?_, by rw [hlength]; rfl, fun hnil => absurd rfl hnil⟩,
        fun heq => by cases heq⟩
      rw [named]
      exact String.toList_ofList
    | [index], ⟨hindex, _⟩ =>
      obtain ⟨value, helement, hvalue⟩ := hzero index hindex
      refine ⟨fun hlt => absurd hlt (Nat.lt_irrefl _), fun _ => ⟨value, ?_, hvalue⟩⟩
      simp [follow, Value.reference?, helement]
  | @nest type next counts a children placed named filled loaded below ih =>
    intro path hpath
    match path, hpath with
    | [], _ =>
      refine ⟨fun _ => ⟨a, rfl, ?_,
        by rw [filled]; simp [ObjectData.length?], fun hnil => absurd rfl hnil⟩,
        fun heq => by cases heq⟩
      rw [named]
      exact String.toList_ofList
    | index :: path, ⟨hindex, hrest⟩ =>
      have hmem := List.getElem_mem hindex
      have hstep : m.follow (.reference (some a)) (index :: path) =
          m.follow (.reference (some children[index])) path := by
        simp [follow, Value.reference?, filled, ObjectData.element?, hindex]
      obtain ⟨harray, hzero⟩ := ih children[index] hmem hrest
      rw [hstep]
      refine ⟨fun hlt => ?_, fun heq => hzero (Nat.succ.inj heq)⟩
      obtain ⟨b, hfollow, hname, hlength, hloaded⟩ := harray (Nat.lt_of_succ_lt_succ hlt)
      refine ⟨b, hfollow, hname, hlength, fun _ => ?_⟩
      cases path with
      | nil =>
        cases hfollow
        rw [(below _ hmem).named]
        exact loaded _ hmem
      | cons => exact hloaded (List.cons_ne_nil _ _)

/-- All arrays that are found in a tree are on the heap, and none is too low. -/
theorem follow_there (h : m.Tree lowest type counts a) : ∀ {path b},
    m.follow (.reference (some a)) path = some (.reference (some b)) → lowest ≤ b.index ∧
      b.index < m.heap.size := by
  induction h with
  | @last type count a placed named zeroed =>
    intro path b hfollow
    cases path with
    | nil =>
      cases hfollow
      exact ⟨placed, there (.last placed named zeroed)⟩
    | cons index path =>
      obtain ⟨c, hread, -⟩ := follow_cons.mp hfollow
      exact absurd (ObjectData.element?_eq_reference.mpr (referenceAt?_element.mp hread))
        (ObjectData.newArray?_no_reference zeroed c)
  | @nest type next counts a children placed named filled loaded below ih =>
    intro path b hfollow
    cases path with
    | nil =>
      cases hfollow
      exact ⟨placed, lt_of_elements filled⟩
    | cons index path =>
      obtain ⟨child, hread, hrest⟩ := follow_cons.mp hfollow
      obtain ⟨elements, hdata, hget⟩ := referenceAt?_element.mp hread
      rw [filled] at hdata
      cases hdata
      have hmem : child ∈ children := by simpa using Array.mem_of_getElem? hget
      exact ih child hmem hrest

end Tree

/-- A tree of arrays that were made between the machines. No two ways lead to the same array. If
there was no dangling reference, nothing but its element in the tree refers to an array, and nothing
at all to the first one. -/
structure NewTree (m m' : Machine) (id : ClassId) (counts : List Nat) (root : Address) : Prop where
  classOf : m'.classOf root = id
  /-- Every way down leads to an array, whose class is called like that of the first one without as
  many brackets. -/
  array : ∀ path, Within counts path → path.length < counts.length → ∃ a,
    m'.follow (.reference (some root)) path = some (.reference (some a)) ∧ m.Made m' a ∧
      (m'.className a).toList = (m.cls id).name.toList.drop path.length ∧
        (m'.object a).data.length? = counts[path.length]? ∧
        (path ≠ [] → m'.lookup? (m'.className a) = some (m'.classOf a))
  zero : ∀ path, Within counts path → path.length = counts.length → ∃ value,
    m'.follow (.reference (some root)) path = some value ∧ value.IsZero
  distinct : ∀ path path' a, m'.follow (.reference (some root)) path = some (.reference (some a)) →
    m'.follow (.reference (some root)) path' = some (.reference (some a)) → path = path'
  once : m.Grounded → ∀ path a, path ≠ [] → m'.follow (.reference (some root)) path =
    some (.reference (some a)) → ∃! place, m'.referenceAt? place = some a
  alone : m.Grounded → ∀ place, m'.referenceAt? place ≠ some root
  old : ∀ a, a.index < m.heap.size → m'.object a = m.object a

namespace Adds

variable {type : FieldType} {id : ClassId} {counts : List Nat} {root : Address}

/-- No two ways down from the top lead to the same new array. -/
theorem distinct_of_once (h : m.Adds [root] m')
    (hmade : ∀ {path a}, m'.follow (.reference (some root)) path = some (.reference (some a)) →
      m.Made m' a) :
    ∀ {path path' a}, m'.follow (.reference (some root)) path = some (.reference (some a)) →
      m'.follow (.reference (some root)) path' = some (.reference (some a)) → path = path' := by
  have htop : ∀ {path index},
      m'.follow (.reference (some root)) (path ++ [index]) ≠ some (.reference (some root)) :=
    fun hfollow => by
      obtain ⟨b, hb, hread⟩ := follow_concat.mp hfollow
      exact (h.held b _ root (hmade hb).1 hread).2 (List.mem_singleton_self root)
  intro path
  induction path using List.reverseRecOn with
  | nil =>
    intro path' a hfollow hfollow'
    cases hfollow
    rcases List.eq_nil_or_concat' path' with rfl | ⟨init, index, rfl⟩
    · rfl
    · exact absurd hfollow' htop
  | append_singleton init index ih =>
    intro path' a hfollow hfollow'
    rcases List.eq_nil_or_concat' path' with rfl | ⟨init', index', rfl⟩
    · cases hfollow'
      exact absurd hfollow htop
    · obtain ⟨b, hb, hread⟩ := follow_concat.mp hfollow
      obtain ⟨b', hb', hread'⟩ := follow_concat.mp hfollow'
      obtain ⟨rfl, rfl⟩ := h.once a b index b' index' (hmade hb).1 (hmade hb').1 hread hread'
      rw [ih hb hb']

/-- If nothing dangled, only new arrays refer to what is new and hidden. -/
theorem element_of_hides (h : m.Adds [root] m') (hm : m.Grounded) (ha : m'.Hides a)
    (hnew : m.heap.size ≤ a.index) {place : Place} (hplace : m'.referenceAt? place = some a) :
    ∃ b index, place = .element b index ∧ m.heap.size ≤ b.index := by
  obtain ⟨b, index, rfl⟩ := ha.element hplace
  exact ⟨b, index, rfl, Nat.le_of_not_lt fun hlt => Nat.not_lt_of_le hnew (h.lt_of_old hm hlt hplace)⟩

theorem newTree (h : m.Adds [root] m') (htree : m'.Tree m.heap.size type counts root)
    (hroot : m'.classOf root = id)
    (hname : (m.cls id).name = type.text) : m.NewTree m' id counts root := by
  have hmade : ∀ {path a}, m'.follow (.reference (some root)) path = some (.reference (some a)) →
      m.Made m' a :=
    htree.follow_there
  refine ⟨hroot, fun path hpath hlt => ?_, fun path hpath heq => (htree.follow_within hpath).2 heq,
    fun path path' a => h.distinct_of_once hmade, fun hm path a hpath hfollow => ?_,
    fun hm place hplace => ?_, h.old⟩
  · obtain ⟨a, hfollow, hcalled, hlength, hloaded⟩ := (htree.follow_within hpath).1 hlt
    refine ⟨a, hfollow, hmade hfollow, ?_, hlength, hloaded⟩
    rw [hcalled, hname, FieldType.text, String.toList_ofList]
  · obtain ⟨init, index, rfl⟩ := (List.eq_nil_or_concat' path).resolve_left hpath
    obtain ⟨b, hb, hread⟩ := follow_concat.mp hfollow
    have hhides := h.hidden hm a (.inr ⟨b, index, (hmade hb).1, hread⟩)
    refine ⟨.element b index, hread, fun place hplace => ?_⟩
    obtain ⟨b', index', rfl, hb'⟩ := h.element_of_hides hm hhides (hmade hfollow).1 hplace
    obtain ⟨rfl, rfl⟩ := h.once a b index b' index' (hmade hb).1 hb' hread hplace
    rfl
  · have hmade := h.top root (List.mem_singleton_self root)
    have hhides := h.hidden hm root (.inl (List.mem_singleton_self root))
    obtain ⟨b, index, rfl, hb⟩ := h.element_of_hides hm hhides hmade.1 hplace
    exact (h.held b index root hb hplace).2 (List.mem_singleton_self root)

end Adds

end Machine

end JavaMachine
