import JavaMachine.Data.OperandStack
import JavaMachine.Data.SlotTable
import JavaMachine.Execution.Shuffle

/-!
What is done to operand stacks and slot tables leaves their room as it is.

An operand stack is tidy if it has no more slots in use than it has room for, and holds zeros above
them. Pushing and popping keep it so (`OperandStack.Leads`).
-/

namespace JavaMachine

namespace OperandStack

variable {α : Type} {s t u : OperandStack}

/-- The slots in use fit, and the other ones hold zero. -/
structure Tidy (s : OperandStack) : Prop where
  size_le : s.size ≤ s.capacity
  zero : ∀ i, s.size ≤ i → i < s.capacity → s.slots[i]? = some .zero

/-- A stack leads to another one with the same room, which is tidy if the first one is. -/
structure Leads (s t : OperandStack) : Prop where
  capacity : t.capacity = s.capacity
  tidy : s.Tidy → t.Tidy

theorem tidy_empty (capacity : Nat) : (empty capacity).Tidy where
  size_le := Nat.zero_le _
  zero i _ hi := by
    have hlt : i < (Array.replicate capacity Slot.zero).size := hi
    rw [empty, Array.getElem?_eq_getElem hlt, Array.getElem_replicate]

theorem Leads.refl (s : OperandStack) : s.Leads s := ⟨rfl, id⟩

theorem Leads.trans (h : s.Leads t) (h' : t.Leads u) : s.Leads u :=
  ⟨h'.capacity.trans h.capacity, h'.tidy ∘ h.tidy⟩

/-- A step that leads to another stack whenever there is a result. -/
def Keeps (step : OperandStack → Option (α × OperandStack)) : Prop :=
  ∀ ⦃s a t⦄, step s = some (a, t) → s.Leads t

theorem leads_push? {slot : Slot} (h : s.push? slot = some t) : s.Leads t := by
  unfold push? at h
  split at h
  · rename_i hroom
    cases h
    refine ⟨by simp [capacity],
      fun hs => ⟨by simp only [capacity, Array.size_set]; omega, fun i hle hlt => ?_⟩⟩
    have hlt : i < s.capacity := by simpa [capacity] using hlt
    rw [Array.getElem?_set_ne hroom (by dsimp only at hle; omega)]
    exact hs.zero i (Nat.le_of_succ_le hle) hlt
  · cases h

theorem leads_pushAll? : ∀ {slots : List Slot} {s t : OperandStack}, s.pushAll? slots = some t →
      s.Leads t
  | [], s, _, h => by cases h; exact .refl s
  | slot :: slots, s, t, h => by
    obtain ⟨u, hpush, hrest⟩ := Option.bind_eq_some_iff.mp h
    exact (leads_push? hpush).trans (leads_pushAll? hrest)

theorem keeps_pop? : Keeps pop? := by
  intro s a t h
  unfold pop? at h
  split at h
  · rename_i hused
    cases h
    have hroom : s.size - 1 < s.slots.size := by omega
    refine ⟨by simp [capacity],
      fun hs => ⟨by simp only [capacity, Array.size_set]; omega, fun i hle hlt => ?_⟩⟩
    have hlt : i < s.capacity := by simpa [capacity] using hlt
    by_cases heq : s.size - 1 = i
    · rw [← heq, Array.getElem?_set_self hroom]
    · rw [Array.getElem?_set_ne hroom heq]
      exact hs.zero i (by dsimp only at hle; omega) hlt
  · cases h

theorem keeps_popInt? : Keeps popInt? := by
  intro s a t h
  obtain ⟨⟨slot, u⟩, hpop, hrest⟩ := Option.bind_eq_some_iff.mp h
  cases hrest
  exact keeps_pop? hpop

theorem keeps_popReference? : Keeps popReference? := by
  intro s a t h
  obtain ⟨⟨slot, u⟩, hpop, hrest⟩ := Option.bind_eq_some_iff.mp h
  cases hrest
  exact keeps_pop? hpop

theorem keeps_popFloat? : Keeps popFloat? := by
  intro s a t h
  obtain ⟨⟨n, u⟩, hpop, hrest⟩ := Option.bind_eq_some_iff.mp h
  cases hrest
  exact keeps_popInt? hpop

theorem keeps_popLong? : Keeps popLong? := by
  intro s a t h
  obtain ⟨⟨high, u⟩, hhigh, hrest⟩ := Option.bind_eq_some_iff.mp h
  obtain ⟨⟨low, v⟩, hlow, hrest⟩ := Option.bind_eq_some_iff.mp hrest
  cases hrest
  exact (keeps_popInt? hhigh).trans (keeps_popInt? hlow)

theorem keeps_popDouble? : Keeps popDouble? := by
  intro s a t h
  obtain ⟨⟨v, u⟩, hpop, hrest⟩ := Option.bind_eq_some_iff.mp h
  cases hrest
  exact keeps_popLong? hpop

theorem keeps_popMany? : ∀ count, Keeps (popMany? · count)
  | 0, s, a, t, h => by cases h; exact .refl s
  | count + 1, s, a, t, h => by
    obtain ⟨⟨slot, u⟩, hpop, hrest⟩ := Option.bind_eq_some_iff.mp h
    obtain ⟨⟨below, v⟩, hmany, hrest⟩ := Option.bind_eq_some_iff.mp hrest
    cases hrest
    exact (keeps_pop? hpop).trans (keeps_popMany? count hmany)

theorem leads_shuffle? {shuffle : Shuffle} (h : s.shuffle? shuffle = some t) : s.Leads t := by
  obtain ⟨⟨slots, u⟩, hpop, hpush⟩ := Option.bind_eq_some_iff.mp h
  exact (keeps_popMany? _ hpop).trans (leads_pushAll? hpush)

theorem length_popMany? : ∀ {count : Nat} {s t : OperandStack} {slots : List Slot},
    s.popMany? count = some (slots, t) → slots.length = count
  | 0, _, _, _, h => by cases h; rfl
  | count + 1, s, t, slots, h => by
    obtain ⟨⟨slot, u⟩, -, hrest⟩ := Option.bind_eq_some_iff.mp h
    obtain ⟨⟨below, v⟩, hmany, hrest⟩ := Option.bind_eq_some_iff.mp hrest
    cases hrest
    rw [List.length_append, length_popMany? hmany, List.length_singleton]

@[simp]
theorem capacity_clear (s : OperandStack) : s.clear.capacity = s.capacity := Array.size_mapIdx

/-- Of the slots of a cleared stack, those that were in use are zeros, and the other ones stay what
they were. -/
theorem leads_clear (s : OperandStack) : s.Leads s.clear := by
  refine ⟨s.capacity_clear, fun hs => ⟨Nat.zero_le _, fun i _ hi => ?_⟩⟩
  rw [capacity_clear] at hi
  rw [clear, Array.getElem?_mapIdx]
  by_cases hused : i < s.size
  · rw [Array.getElem?_eq_getElem hi, Option.map_some, if_pos hused]
  · rw [hs.zero i (Nat.le_of_not_lt hused) hi, Option.map_some, if_neg hused]

/-- A cleared stack with room for a slot takes one. -/
theorem push?_clear {s : OperandStack} (slot : Slot) (h : 0 < s.capacity) :
    ∃ t, s.clear.push? slot = some t ∧ t.toList = [slot] ∧ t.capacity = s.capacity := by
  have hroom : s.clear.size < s.clear.capacity := by rwa [capacity_clear]
  have hpush : s.clear.push? slot = some ⟨s.clear.slots.set s.clear.size slot, s.clear.size + 1⟩ :=
    dif_pos hroom
  refine ⟨_, hpush, ?_, (leads_push? hpush).capacity.trans s.capacity_clear⟩
  obtain ⟨first, rest, hlist⟩ := List.exists_cons_of_length_pos (l := s.clear.slots.toList) hroom
  have hsize : s.clear.size = 0 := rfl
  simp only [toList, Array.toList_set, hsize, hlist]
  rfl

theorem push?_clear_none {s : OperandStack} {slot : Slot} (h : s.capacity = 0) :
    s.clear.push? slot = none := by
  have hfull : ¬ s.clear.size < s.clear.capacity := by
    rw [capacity_clear, h]
    exact Nat.not_lt_zero _
  exact dif_neg hfull

end OperandStack

namespace SlotTable

theorem size_set? {t u : SlotTable} {index : Nat} {slot : Slot} (h : t.set? index slot = some u) :
    u.size = t.size := by
  unfold set? at h
  split at h
  · cases h
    simp [size]
  · cases h

theorem size_setAll? : ∀ {slots : List Slot} {t u : SlotTable} {index : Nat},
    t.setAll? index slots = some u → u.size = t.size
  | [], _, _, _, h => by cases h; rfl
  | slot :: slots, t, u, index, h => by
    obtain ⟨v, hset, hrest⟩ := Option.bind_eq_some_iff.mp h
    rw [size_setAll? hrest, size_set? hset]

@[simp]
theorem size_zeros (n : Nat) : (zeros n).size = n := by simp [zeros, size]

end SlotTable

end JavaMachine
