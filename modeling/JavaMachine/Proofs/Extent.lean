import JavaMachine.Code.Instruction
import JavaMachine.Native
import JavaMachine.Proofs.Growth
import JavaMachine.Proofs.OperandStack

/-!
How much of the heap data refers to.

The extent of a piece of data is the least size of a heap that has all the objects that the data
refers to. A machine and its threads are grounded, with no dangling reference in them, if their
extent is at most the size of the heap. As a heap only grows, what was on it once stays on it.
-/

namespace JavaMachine

/-- Data that may refer to objects. -/
class References (α : Type) where
  /-- The least size of a heap with all the objects that are referred to. -/
  extent : α → Nat

export References (extent)

/-! ### What refers to objects -/

section

variable {α β : Type} [References α] [References β] {n : Nat}

/-- Data without references. -/
abbrev References.nothing : References α := ⟨fun _ => 0⟩

instance : References Unit := .nothing
instance : References Bool := .nothing
instance : References Nat := .nothing
instance : References Int32 := .nothing
instance : References Int64 := .nothing
instance : References UInt8 := .nothing
instance : References UInt16 := .nothing
instance : References UInt32 := .nothing
instance : References UInt64 := .nothing
instance : References String := .nothing
instance : References ClassId := .nothing
instance : References FieldId := .nothing
instance : References Method := .nothing
instance : References Handler := .nothing
instance : References Constant := .nothing
instance : References Instruction := .nothing

instance : References Address := ⟨fun a => a.index + 1⟩

instance : References (Option α) where
  extent
    | some a => extent a
    | none => 0

instance : References (List α) := ⟨fun as => as.foldr (fun a n => max (extent a) n) 0⟩

instance : References (Array α) := ⟨fun as => extent as.toList⟩

instance : References (α × β) := ⟨fun (a, b) => max (extent a) (extent b)⟩

instance : References (Except β α) where
  extent
    | .ok a => extent a
    | .error b => extent b

theorem extent_le_of_zero {a : α} (h : extent a = 0) : extent a ≤ n :=
  Nat.le_trans (Nat.le_of_eq h) (Nat.zero_le n)

theorem extent_list {as : List α} : extent as ≤ n ↔ ∀ a ∈ as, extent a ≤ n := by
  induction as with
  | nil => simp [extent]
  | cons a as ih =>
    rw [List.forall_mem_cons, ← ih]
    exact Nat.max_le

theorem extent_array {as : Array α} : extent as ≤ n ↔ ∀ a ∈ as, extent a ≤ n :=
  extent_list.trans (by simp)

theorem extent_set {as : Array α} {index : Nat} {a : α} (hindex : index < as.size) (has : extent as ≤ n)
    (ha : extent a ≤ n) : extent (as.set index a hindex) ≤ n := by
  refine extent_array.mpr fun b hb => ?_
  rcases Array.mem_or_eq_of_mem_set hb with hold | rfl
  · exact extent_array.mp has b hold
  · exact ha

theorem extent_pair {a : α} {b : β} : extent (a, b) ≤ n ↔ extent a ≤ n ∧ extent b ≤ n := Nat.max_le

end

instance : References Slot where
  extent
    | .num _ => 0
    | .ref r => extent r

instance : References Value where
  extent
    | .reference r => extent r
    | _ => 0

instance : References SlotTable := ⟨fun table => extent table.slots⟩

instance : References OperandStack := ⟨fun stack => extent stack.slots⟩

instance : References Frame := ⟨fun frame => extent (frame.locals, frame.stack)⟩

instance : References Thread := ⟨fun thread => extent (thread.frames, thread.returnValue)⟩

instance : References NativeCall := ⟨fun call => extent call.arguments⟩

instance : References ObjectData where
  extent
    | .fields slots => extent slots
    | .references elements => extent elements
    | _ => 0

instance : References Object := ⟨fun object => extent object.data⟩

instance : References Class := ⟨fun c => extent c.statics⟩

instance : References Machine :=
  ⟨fun m => max (extent m.classes) (max (extent (m.literals.map Prod.snd)) (extent m.heap))⟩

instance : References Fault where
  extent
    | .thrown a => extent a
    | _ => 0

instance : References Failure where
  extent
    | .fault fault => extent fault
    | _ => 0

variable {n : Nat}

/-! ### Slots -/

@[simp]
theorem extent_num (v : Int32) : extent (Slot.num v) = 0 := rfl

@[simp]
theorem extent_int (v : Int32) : extent (Value.int v) = 0 := rfl

@[simp]
theorem extent_long (v : Int64) : extent (Value.long v) = 0 := rfl

@[simp]
theorem extent_float (bits : UInt32) : extent (Value.float bits) = 0 := rfl

@[simp]
theorem extent_double (bits : UInt64) : extent (Value.double bits) = 0 := rfl

theorem extent_slots {value : Value} (h : extent value ≤ n) : extent value.slots ≤ n := by
  refine extent_list.mpr fun slot hslot => ?_
  cases value with
  | reference r =>
    rw [List.mem_singleton.mp hslot]
    exact h
  | int | float =>
    rw [List.mem_singleton.mp hslot]
    exact Nat.zero_le _
  | long | double =>
    obtain ⟨v, rfl⟩ : ∃ v, slot = .num v := by
      rcases List.mem_cons.mp hslot with rfl | hslot
      · exact ⟨_, rfl⟩
      · exact ⟨_, List.mem_singleton.mp hslot⟩
    exact Nat.zero_le _

theorem extent_reference (slot : Slot) : extent slot.reference ≤ extent slot := by
  cases slot <;> simp [extent, Slot.reference]

namespace SlotTable

variable {t u : SlotTable} {index : Nat}

theorem extent_le : extent t ≤ n ↔ ∀ slot ∈ t.slots, extent slot ≤ n := extent_array

theorem extent_zeros (size : Nat) : extent (zeros size) = 0 :=
  Nat.le_zero.mp (extent_le.mpr fun slot h => by
    obtain ⟨-, rfl⟩ := Array.mem_replicate.mp h
    exact Nat.le_refl _)

theorem extent_slot? {slot : Slot} (ht : extent t ≤ n) (h : t.slot? index = some slot) :
    extent slot ≤ n :=
  extent_le.mp ht slot (Array.mem_of_getElem? h)

theorem extent_set? {slot : Slot} (ht : extent t ≤ n) (hslot : extent slot ≤ n)
    (h : t.set? index slot = some u) :
    extent u ≤ n := by
  unfold set? at h
  split at h
  · cases h
    exact extent_set ‹_› ht hslot
  · cases h

theorem extent_setAll? : ∀ {slots : List Slot} {t : SlotTable} {index : Nat}, extent t ≤ n →
      extent slots ≤ n → t.setAll? index slots = some u → extent u ≤ n
  | [], _, _, ht, _, h => by cases h; exact ht
  | slot :: slots, t, index, ht, hslots, h => by
    obtain ⟨hslot, hslots⟩ := List.forall_mem_cons.mp (extent_list.mp hslots)
    obtain ⟨v, hset, hrest⟩ := Option.bind_eq_some_iff.mp h
    exact extent_setAll? (extent_set? ht hslot hset) (extent_list.mpr hslots) hrest

end SlotTable

/-! ### Operand stacks -/

/-- What comes back was taken. -/
theorem Shuffle.mem_arrange {α : Type} {shuffle : Shuffle} {taken : List α} {a : α}
    (h : a ∈ shuffle.arrange taken) :
    a ∈ taken := by
  unfold arrange at h
  split at h <;> grind

namespace OperandStack

variable {α : Type} [References α] {s t : OperandStack}

theorem extent_le : extent s ≤ n ↔ ∀ slot ∈ s.slots, extent slot ≤ n := extent_array

/-- A step that refers to nothing that the stack did not refer to. -/
def KeepsExtent (step : OperandStack → Option (α × OperandStack)) : Prop :=
  ∀ ⦃n s a t⦄, extent s ≤ n → step s = some (a, t) → extent a ≤ n ∧ extent t ≤ n

theorem extent_empty (capacity : Nat) : extent (empty capacity) = 0 :=
  Nat.le_zero.mp (extent_le.mpr fun slot h => by
    obtain ⟨-, rfl⟩ := Array.mem_replicate.mp h
    exact Nat.le_refl _)

theorem extent_clear (hs : extent s ≤ n) : extent s.clear ≤ n := by
  refine extent_le.mpr fun slot hslot => ?_
  obtain ⟨i, hi, rfl⟩ := Array.mem_mapIdx.mp hslot
  split
  · exact Nat.zero_le _
  · exact extent_le.mp hs _ (Array.getElem_mem hi)

theorem extent_push? {slot : Slot} (hs : extent s ≤ n) (hslot : extent slot ≤ n)
    (h : s.push? slot = some t) :
    extent t ≤ n := by
  unfold push? at h
  split at h
  · cases h
    exact extent_set ‹_› hs hslot
  · cases h

theorem extent_pushAll? : ∀ {slots : List Slot} {s : OperandStack}, extent s ≤ n → extent slots ≤ n →
    s.pushAll? slots = some t → extent t ≤ n
  | [], _, hs, _, h => by cases h; exact hs
  | slot :: slots, s, hs, hslots, h => by
    obtain ⟨hslot, hslots⟩ := List.forall_mem_cons.mp (extent_list.mp hslots)
    obtain ⟨u, hpush, hrest⟩ := Option.bind_eq_some_iff.mp h
    exact extent_pushAll? (extent_push? hs hslot hpush) (extent_list.mpr hslots) hrest

theorem extent_pushValue? {value : Value} (hs : extent s ≤ n) (hvalue : extent value ≤ n)
    (h : s.pushValue? value = some t) : extent t ≤ n := extent_pushAll? hs (extent_slots hvalue) h

theorem keepsExtent_pop? : KeepsExtent pop? := by
  intro n s a t hs h
  unfold pop? at h
  split at h
  · cases h
    exact ⟨extent_le.mp hs _ (Array.getElem_mem _), extent_set (by omega) hs (Nat.zero_le _)⟩
  · cases h

theorem keepsExtent_popReference? : KeepsExtent popReference? := by
  intro n s a t hs h
  obtain ⟨⟨slot, u⟩, hpop, hrest⟩ := Option.bind_eq_some_iff.mp h
  cases hrest
  obtain ⟨hslot, ht⟩ := keepsExtent_pop? hs hpop
  exact ⟨Nat.le_trans (extent_reference slot) hslot, ht⟩

theorem keepsExtent_popInt? : KeepsExtent popInt? := by
  intro n s a t hs h
  obtain ⟨⟨slot, u⟩, hpop, hrest⟩ := Option.bind_eq_some_iff.mp h
  cases hrest
  exact ⟨Nat.zero_le _, (keepsExtent_pop? hs hpop).2⟩

theorem keepsExtent_popFloat? : KeepsExtent popFloat? := by
  intro n s a t hs h
  obtain ⟨⟨slot, u⟩, hpop, hrest⟩ := Option.bind_eq_some_iff.mp h
  cases hrest
  exact ⟨Nat.zero_le _, (keepsExtent_popInt? hs hpop).2⟩

theorem keepsExtent_popLong? : KeepsExtent popLong? := by
  intro n s a t hs h
  obtain ⟨⟨high, u⟩, hhigh, hrest⟩ := Option.bind_eq_some_iff.mp h
  obtain ⟨⟨low, v⟩, hlow, hrest⟩ := Option.bind_eq_some_iff.mp hrest
  cases hrest
  exact ⟨Nat.zero_le _, (keepsExtent_popInt? (keepsExtent_popInt? hs hhigh).2 hlow).2⟩

theorem keepsExtent_popDouble? : KeepsExtent popDouble? := by
  intro n s a t hs h
  obtain ⟨⟨v, u⟩, hpop, hrest⟩ := Option.bind_eq_some_iff.mp h
  cases hrest
  exact ⟨Nat.zero_le _, (keepsExtent_popLong? hs hpop).2⟩

theorem keepsExtent_popMany? : ∀ count, KeepsExtent (popMany? · count)
  | 0, _, _, _, _, hs, h => by cases h; exact ⟨Nat.zero_le _, hs⟩
  | count + 1, _, _, _, _, hs, h => by
    obtain ⟨⟨slot, u⟩, hpop, hrest⟩ := Option.bind_eq_some_iff.mp h
    obtain ⟨⟨below, v⟩, hmany, hrest⟩ := Option.bind_eq_some_iff.mp hrest
    cases hrest
    obtain ⟨hslot, hu⟩ := keepsExtent_pop? hs hpop
    obtain ⟨hbelow, hv⟩ := keepsExtent_popMany? count hu hmany
    refine ⟨extent_list.mpr fun other hother => ?_, hv⟩
    rcases List.mem_append.mp hother with hother | hother
    · exact extent_list.mp hbelow other hother
    · rwa [List.mem_singleton.mp hother]

theorem extent_topReference? {depth : Nat} {r : Option Address} (hs : extent s ≤ n)
    (h : s.topReference? depth = some r) : extent r ≤ n := by
  obtain ⟨slot, hpeek, rfl⟩ := Option.map_eq_some_iff.mp h
  unfold peek? at hpeek
  split at hpeek
  · exact Nat.le_trans (extent_reference slot) (extent_le.mp hs slot (Array.mem_of_getElem? hpeek))
  · cases hpeek

theorem extent_shuffle? {shuffle : Shuffle} (hs : extent s ≤ n) (h : s.shuffle? shuffle = some t) :
    extent t ≤ n := by
  obtain ⟨⟨slots, u⟩, hpop, hpush⟩ := Option.bind_eq_some_iff.mp h
  obtain ⟨hslots, hu⟩ := keepsExtent_popMany? _ hs hpop
  exact extent_pushAll? hu (extent_list.mpr fun slot h => extent_list.mp hslots slot
    (Shuffle.mem_arrange h)) hpush

end OperandStack

/-! ### Frames and threads -/

namespace Frame

variable {frame : Frame}

theorem extent_le : extent frame ≤ n ↔ extent frame.locals ≤ n ∧ extent frame.stack ≤ n := extent_pair

theorem extent_start (method : Method) : extent (start method) = 0 :=
  Nat.le_zero.mp (extent_le.mpr ⟨Nat.le_of_eq (SlotTable.extent_zeros _),
    Nat.le_of_eq (OperandStack.extent_empty _)⟩)

theorem extent_enter? {method : Method} {arguments : List Slot} (harguments : extent arguments ≤ n)
    (h : enter? method arguments = some frame) : extent frame ≤ n := by
  obtain ⟨locals, hlocals, rfl⟩ := Option.map_eq_some_iff.mp h
  refine extent_le.mpr ⟨SlotTable.extent_setAll? ?_ harguments hlocals, ?_⟩
  · exact Nat.le_trans (extent_le.mp (Nat.le_of_eq (extent_start method))).1 (Nat.zero_le _)
  · exact Nat.le_trans (extent_le.mp (Nat.le_of_eq (extent_start method))).2 (Nat.zero_le _)

end Frame

theorem Thread.extent_le {t : Thread} :
    extent t ≤ n ↔ (∀ frame ∈ t.frames, extent frame ≤ n) ∧ extent t.returnValue ≤ n :=
  extent_pair.trans (and_congr_left' extent_list)

/-! ### Machines -/

namespace Machine

variable {m m' : Machine} {id : ClassId} {a : Address}

theorem extent_le : extent m ≤ n ↔
    (∀ id, extent (m.cls id) ≤ n) ∧ (∀ entry ∈ m.literals, extent entry.2 ≤ n) ∧
    ∀ a, extent (m.object a) ≤ n := by
  refine Nat.max_le.trans (and_congr ?_ (Nat.max_le.trans (and_congr ?_ ?_)))
  · refine extent_array.trans ⟨fun h id => ?_, fun h c hc => ?_⟩
    · by_cases hid : id.index < m.classes.size
      · simpa [cls, Array.getD, hid] using h _ (Array.getElem_mem hid)
      · rw [cls_of_size_le (Nat.le_of_not_lt hid)]
        exact Nat.zero_le _
    · obtain ⟨i, hi, rfl⟩ := Array.mem_iff_getElem.mp hc
      simpa [cls, Array.getD, hi] using h ⟨i⟩
  · exact extent_list.trans List.forall_mem_map
  · refine extent_array.trans ⟨fun h a => ?_, fun h o ho => ?_⟩
    · by_cases ha : a.index < m.heap.size
      · simpa [object, Array.getD, ha] using h _ (Array.getElem_mem ha)
      · rw [show m.object a = default by simp [object, Array.getD, ha]]
        exact Nat.zero_le _
    · obtain ⟨i, hi, rfl⟩ := Array.mem_iff_getElem.mp ho
      simpa [object, Array.getD, hi] using h ⟨i⟩

/-- No reference in the machine dangles. -/
def Grounded (m : Machine) : Prop := extent m ≤ m.heap.size

namespace Grounded

theorem of_parts (hstatics : ∀ id, extent (m.cls id) ≤ m.heap.size)
    (hliterals : ∀ entry ∈ m.literals, extent entry.2 ≤ m.heap.size)
    (hdata : ∀ a, extent (m.object a) ≤ m.heap.size) :
    m.Grounded := extent_le.mpr ⟨hstatics, hliterals, hdata⟩

theorem statics (hm : m.Grounded) (id : ClassId) : extent (m.cls id).statics ≤ m.heap.size :=
  (extent_le.mp hm).1 id

theorem literal (hm : m.Grounded) {entry : Text.Units × Address} (h : entry ∈ m.literals) :
    entry.2.index < m.heap.size :=
  (extent_le.mp hm).2.1 entry h

theorem data (hm : m.Grounded) (a : Address) : extent (m.object a).data ≤ m.heap.size :=
  (extent_le.mp hm).2.2 a

theorem of_eq (hm : m.Grounded) (hclasses : m'.classes = m.classes)
    (hliterals : m'.literals = m.literals) (hheap : m'.heap = m.heap) : m'.Grounded := by
  unfold Grounded at *
  simpa only [extent, hclasses, hliterals, hheap] using hm

theorem changeClass {change : Class → Class} (hm : m.Grounded)
    (h : extent (change (m.cls id)).statics ≤ m.heap.size) :
    (m.changeClass id change).Grounded := by
  refine .of_parts (fun other => ?_) (fun _ => hm.literal) hm.data
  rcases cls_changeClass m id change other with heq | ⟨rfl, heq⟩ <;> rw [heq]
  · exact hm.statics other
  · exact h

theorem withClass {c : Class} (hm : m.Grounded) (h : extent c.statics = 0) :
    (m.withClass c).Grounded := by
  refine .of_parts (fun other => ?_) (fun _ => hm.literal) hm.data
  by_cases hnew : other = m.nextClassId
  · subst hnew
    rw [cls_withClass_new]
    exact extent_le_of_zero h
  · rw [cls_withClass_ne hnew]
    exact hm.statics other

theorem withLiterals {literals : List (Text.Units × Address)} (hm : m.Grounded)
    (h : ∀ entry ∈ literals, entry.2.index < m.heap.size) : Grounded { m with literals } :=
  .of_parts hm.statics h hm.data

theorem withObject {object : Object} (hm : m.Grounded) (h : extent object.data ≤ m.heap.size) :
    (m.withObject object).Grounded := by
  have hle : m.heap.size ≤ (m.withObject object).heap.size := by simp
  refine .of_parts (fun id => Nat.le_trans (hm.statics id) hle) (fun entry hentry =>
    Nat.le_trans (hm.literal hentry) hle) fun a => Nat.le_trans ?_ hle
  by_cases hold : a.index < m.heap.size
  · rw [object_withObject_of_lt hold]
    exact hm.data a
  · by_cases hnew : a.index = m.heap.size
    · obtain rfl : a = ⟨m.heap.size⟩ := by cases a; cases hnew; rfl
      rw [object_withObject_new]
      exact h
    · rw [show (m.withObject object).object a = default by
        simp [Machine.withObject, Machine.object, Array.getD]; omega]
      exact Nat.zero_le _

theorem withData {data : ObjectData} (hm : m.Grounded) (h : extent data ≤ m.heap.size) :
    (m.withData a data).Grounded := by
  have hle : m.heap.size ≤ (m.withData a data).heap.size := by simp
  refine .of_parts (fun id => Nat.le_trans (hm.statics id) hle) (fun entry hentry =>
    Nat.le_trans (hm.literal hentry) hle) fun other => Nat.le_trans ?_ hle
  by_cases hother : other = a
  · subst hother
    by_cases hthere : other.index < m.heap.size
    · rw [object_withData_self hthere]
      exact h
    · rw [show (m.withData other data).object other = m.object other by
        simp [Machine.withData, Machine.object, Array.getD, hthere]]
      exact hm.data other
  · rw [object_withData_ne hother]
    exact hm.data other

end Grounded

end Machine

end JavaMachine
