import JavaMachine.Proofs.FieldStorage

/-!
Static fields that start with a constant.

The slots of a field follow from its descriptor, the slots that a constant takes from its kind, and
linking compares the two nowhere. If no constant is wider than its field (`Class.ConstantsFit`),
every constant is stored in the slots of its own field, and the slots of all other static fields
stay zero (`Class.Tidy`).
-/

namespace JavaMachine

/-- Slots that the value of a constant takes. -/
def Constant.width : Constant → Nat
  | long _ | double _ => 2
  | _ => 1

namespace Class

variable {c c₀ : Class} {entry : Field × UInt16} {inherited : Nat}

/-- Slots that the constant at an index takes. -/
def constantWidth (c : Class) (index : UInt16) : Nat :=
  match c.constantAt index with
  | .ok constant => constant.width
  | .error _ => 0

/-- No field starts with a constant that is wider than itself. -/
def ConstantsFit (c : Class) : Prop :=
  ∀ entry ∈ c.constantFields, c.constantWidth entry.2 ≤ entry.1.width

instance (c : Class) : Decidable c.ConstantsFit := inferInstanceAs (Decidable (∀ entry ∈ _, _))

/-- Every static slot is zero, but for those of the fields that start with a constant. -/
def Tidy (c : Class) : Prop :=
  ∀ i < c.statics.size, (∀ entry ∈ c.constantFields, i < entry.1.slot ∨
    entry.1.slot + entry.1.width ≤ i) → c.statics.slot? i = some .zero

instance (c : Class) : Decidable c.Tidy := inferInstanceAs (Decidable (∀ i < _, _ → _))

/-- The field of this entry starts with this string. -/
def StartsWith (c : Class) (entry : Field × UInt16) (string : Address) : Prop :=
  c.statics.slot? entry.1.slot = some (.ref (some string))

/-! ### Placed fields -/

theorem of_mem_constantFields (h : entry ∈ c.constantFields) :
    entry.1 ∈ c.fields.toList ∧ entry.1.flags.isStatic = true := by
  obtain ⟨f, hf, hentry⟩ := List.mem_filterMap.mp h
  split at hentry
  · rename_i hkind
    obtain ⟨index, -, rfl⟩ := Option.map_eq_some_iff.mp hentry
    exact ⟨hf, (Bool.and_eq_true_iff.mp hkind).1⟩
  · cases hentry

/-- The static fields of the class are placed one after the other. -/
def StaticsPlaced (c : Class) : Prop := Layout.Follow true c.fields.toList 0 c.staticSlots

theorem staticsPlaced_layOut (c : Class) (inherited : Nat) : (c.layOut inherited).StaticsPlaced := by
  have hfollow := (Layout.follow_placeAll c.fields.toList ⟨inherited, 0⟩).1
  simpa [StaticsPlaced, layOut] using hfollow

/-- The fields that start with a constant are inside of the static slots. -/
theorem StaticsPlaced.inside (h : c.StaticsPlaced) (hentry : entry ∈ c.constantFields) :
    entry.1.slot + entry.1.width ≤ c.staticSlots :=
  (h.within (of_mem_constantFields hentry).1 (of_mem_constantFields hentry).2).2

/-- Each of them ends before the next one. -/
theorem StaticsPlaced.ordered (h : c.StaticsPlaced) :
    c.constantFields.Pairwise fun before after => before.1.slot + before.1.width ≤ after.1.slot := by
  refine List.pairwise_filterMap.mpr (h.pairwise.imp fun {f g} hfg => ?_)
  intro before hbefore after hafter
  split at hbefore
  · split at hafter
    · rename_i hf hg
      obtain ⟨_, -, rfl⟩ := Option.map_eq_some_iff.mp hbefore
      obtain ⟨_, -, rfl⟩ := Option.map_eq_some_iff.mp hafter
      exact hfg (Bool.and_eq_true_iff.mp hf).1 (Bool.and_eq_true_iff.mp hg).1
    · cases hafter
  · cases hbefore

/-! ### Storing constants -/

/-- The class `c₀`, some of whose fields have got their constants. -/
structure StartedFrom (c₀ c : Class) : Prop where
  same : ∃ statics, c = { c₀ with statics }
  size : c.statics.size = c₀.staticSlots
  tidy : c₀.ConstantsFit → c.Tidy

theorem startedFrom_layOut (c : Class) (inherited : Nat) :
    (c.layOut inherited).StartedFrom (c.layOut inherited) := by
  have hsize : (c.layOut inherited).statics.size = (c.layOut inherited).staticSlots :=
    SlotTable.size_zeros _
  refine ⟨⟨_, rfl⟩, hsize, fun _ i hi _ => ?_⟩
  rw [hsize] at hi
  simpa [layOut, SlotTable.slot?, SlotTable.zeros, Array.getElem?_replicate] using hi

namespace StartedFrom

variable {value : Value} {statics : SlotTable}

/-- A constant that is no wider than its field has room in the field. -/
theorem stores (h : c₀.StartedFrom c) (hinside : entry.1.slot + entry.1.width ≤ c₀.staticSlots)
    (hvalue : value.size ≤ entry.1.width) : ∃ statics,
      c.statics.setValue? entry.1.slot value = some statics := by
  rw [← value.length_slots] at hvalue
  exact SlotTable.exists_setAll? (by rw [h.size]; omega)

/-- The field of an entry gets its constant. -/
theorem store (h : c₀.StartedFrom c) (hentry : entry ∈ c₀.constantFields)
    (hvalue : c₀.ConstantsFit → value.size ≤ entry.1.width)
    (hset : c.statics.setValue? entry.1.slot value = some statics) :
    c₀.StartedFrom { c with statics } := by
  have hsize := SlotTable.size_setAll? hset
  obtain ⟨before, rfl⟩ := h.same
  refine ⟨⟨_, rfl⟩, hsize.trans h.size, fun hfit i hi houtside => ?_⟩
  have hwidth := hvalue hfit
  rw [← value.length_slots] at hwidth
  have hi : i < before.size := Nat.lt_of_lt_of_eq hi hsize
  have hother := houtside entry hentry
  exact (SlotTable.slot?_setAll? hset (by omega)).trans (h.tidy hfit i hi houtside)

end StartedFrom

end Class

end JavaMachine
