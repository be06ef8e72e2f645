import JavaMachine.Proofs.OperandStack

/-!
Operand stacks as lists of slots.

A tidy stack is determined by the slots in use and its room (`OperandStack.Tidy.ext`). What is
pushed is on top, and what is popped was (`OperandStack.HasOnTop`): popping what was pushed leads
back to the stack from before.
-/

namespace JavaMachine

namespace OperandStack

variable {s t : OperandStack} {slot : Slot} {slots : List Slot} {n : Nat}

/-! ### The slots in use -/

theorem Tidy.length_toList (hs : s.Tidy) : s.toList.length = s.size :=
  List.length_take_of_le hs.size_le

/-- A tidy stack is determined by the slots in use and its room. -/
theorem Tidy.ext (hs : s.Tidy) (ht : t.Tidy) (hlist : s.toList = t.toList)
    (hcapacity : s.capacity = t.capacity) :
    s = t := by
  have hsize : s.size = t.size := by rw [← hs.length_toList, ← ht.length_toList, hlist]
  obtain ⟨slots, size⟩ := s
  obtain ⟨slots', size'⟩ := t
  obtain rfl : size = size' := hsize
  have hslots : slots = slots' := by
    refine Array.ext_getElem? fun i => ?_
    by_cases hused : i < size
    · have hget : (slots.toList.take size)[i]? = (slots'.toList.take size)[i]? := congrArg (·[i]?) hlist
      simpa [List.getElem?_take, hused] using hget
    · by_cases hroom : i < slots.size
      · have hzero : slots[i]? = some .zero := hs.zero i (Nat.le_of_not_lt hused) hroom
        have hzero' : slots'[i]? = some .zero := ht.zero i (Nat.le_of_not_lt hused) (hcapacity ▸ hroom)
        rw [hzero, hzero']
      · have hsame : slots.size = slots'.size := hcapacity
        rw [Array.getElem?_eq_none (by omega), Array.getElem?_eq_none (by omega)]
  rw [hslots]

/-- Slots are counted from the top. -/
theorem Tidy.peek?_eq (hs : s.Tidy) (depth : Nat) : s.peek? depth = s.toList.reverse[depth]? := by
  unfold peek?
  by_cases hdepth : depth < s.size
  · have hlength := hs.length_toList
    rw [if_pos hdepth, List.getElem?_reverse (by omega), hlength, toList,
      List.getElem?_take_of_lt (by omega), Array.getElem?_toList]
  · rw [if_neg hdepth, List.getElem?_eq_none]
    rw [List.length_reverse, hs.length_toList]
    omega

/-! ### Pushing and popping -/

theorem size_push? (h : s.push? slot = some t) : t.size = s.size + 1 := by
  unfold push? at h
  split at h <;> cases h
  rfl

theorem toList_push? (h : s.push? slot = some t) : t.toList = s.toList ++ [slot] := by
  unfold push? at h
  split at h
  · rename_i hroom
    cases h
    have hlt : s.size < s.slots.toList.length := by rwa [Array.length_toList]
    rw [toList, toList, Array.toList_set, List.take_add_one, List.take_set_of_le (Nat.le_refl _),
      List.getElem?_set_self hlt]
    rfl
  · cases h

theorem toList_pop? (h : s.pop? = some (slot, t)) : s.toList = t.toList ++ [slot] := by
  unfold pop? at h
  split at h
  · rename_i hused
    cases h
    obtain ⟨n, hn⟩ := Nat.exists_eq_succ_of_ne_zero (Nat.pos_iff_ne_zero.mp hused.1)
    have hlt : n < s.slots.toList.length := by rw [Array.length_toList]; omega
    simp only [toList, Array.toList_set, hn, Nat.add_sub_cancel, Nat.succ_eq_add_one]
    rw [List.take_add_one, List.take_set_of_le (Nat.le_refl _), List.getElem?_eq_getElem hlt]
    rfl
  · cases h

theorem toList_pushAll? : ∀ {slots : List Slot} {s t : OperandStack}, s.pushAll? slots = some t →
    t.toList = s.toList ++ slots
  | [], s, t, h => by
    cases h
    rw [List.append_nil]
  | slot :: slots, s, t, h => by
    obtain ⟨u, hpush, hrest⟩ := Option.bind_eq_some_iff.mp h
    rw [toList_pushAll? hrest, toList_push? hpush, List.append_assoc, List.singleton_append]

theorem toList_popMany? : ∀ {count : Nat} {s t : OperandStack} {slots : List Slot},
    s.popMany? count = some (slots, t) → s.toList = t.toList ++ slots
  | 0, s, t, slots, h => by
    cases h
    rw [List.append_nil]
  | count + 1, s, t, slots, h => by
    obtain ⟨⟨slot, u⟩, hpop, hrest⟩ := Option.bind_eq_some_iff.mp h
    obtain ⟨⟨below, v⟩, hmany, hrest⟩ := Option.bind_eq_some_iff.mp hrest
    cases hrest
    rw [toList_pop? hpop, toList_popMany? hmany, List.append_assoc]

theorem pushAll?_append (s : OperandStack) : ∀ slots others : List Slot,
    s.pushAll? (slots ++ others) = (s.pushAll? slots).bind (·.pushAll? others)
  | [], _ => rfl
  | slot :: slots, others => by
    rw [List.cons_append, pushAll?, pushAll?]
    cases hpush : s.push? slot with
    | none => rfl
    | some u => exact pushAll?_append u slots others

theorem exists_pushAll? : ∀ {slots : List Slot} {s : OperandStack}, s.size + slots.length ≤ s.capacity →
    ∃ t, s.pushAll? slots = some t
  | [], s, _ => ⟨s, rfl⟩
  | slot :: slots, s, hroom => by
    rw [List.length_cons] at hroom
    have hlt : s.size < s.slots.size := by unfold capacity at hroom; omega
    obtain ⟨u, hpush⟩ : ∃ u, s.push? slot = some u := ⟨_, dif_pos hlt⟩
    have hleft : u.size + slots.length ≤ u.capacity := by
      rw [(leads_push? hpush).capacity, size_push? hpush]
      omega
    obtain ⟨t, hrest⟩ := exists_pushAll? hleft
    exact ⟨t, by rw [pushAll?, hpush]; exact hrest⟩

theorem exists_popMany? : ∀ {count : Nat} {s : OperandStack}, s.Tidy → count ≤ s.size →
    ∃ slots t, s.popMany? count = some (slots, t)
  | 0, s, _, _ => ⟨[], s, rfl⟩
  | count + 1, s, hs, hcount => by
    have hused : 0 < s.size ∧ s.size ≤ s.slots.size := ⟨by omega, hs.size_le⟩
    obtain ⟨slot, u, hpop⟩ : ∃ slot u, s.pop? = some (slot, u) := ⟨_, _, dif_pos hused⟩
    have hu := (keeps_pop? hpop).tidy hs
    have hlength : s.size = u.size + 1 := by
      rw [← hs.length_toList, toList_pop? hpop, List.length_append, hu.length_toList,
        List.length_singleton]
    obtain ⟨below, t, hmany⟩ := exists_popMany? hu (show count ≤ u.size by omega)
    exact ⟨below ++ [slot], t, by rw [popMany?, hpop]; simp [hmany]⟩

/-! ### What is on top -/

/-- The slots on top of a stack, bottom first, and the stack without them. -/
structure HasOnTop (s : OperandStack) (slots : List Slot) (below : OperandStack) : Prop where
  popped : s.popMany? slots.length = some (slots, below)
  /-- The last slot is on top. -/
  slot : ∀ i < slots.length, slots[i]? = s.peek? (slots.length - 1 - i)
  rest : s.toList = below.toList ++ slots
  capacity : below.capacity = s.capacity
  tidy : below.Tidy

theorem Tidy.hasOnTop (hs : s.Tidy) (h : s.popMany? n = some (slots, t)) : s.HasOnTop slots t := by
  have hlength := length_popMany? h
  have hlist := toList_popMany? h
  have hleads := keeps_popMany? n h
  refine ⟨by rw [hlength]; exact h, fun i hi => ?_, hlist, hleads.capacity, hleads.tidy hs⟩
  rw [hs.peek?_eq, hlist, List.reverse_append, List.getElem?_append_left
    (by rw [List.length_reverse]; omega), List.getElem?_reverse (by omega)]
  congr 1
  omega

/-- So many slots are on top of a stack with as many in use. -/
theorem Tidy.exists_hasOnTop (hs : s.Tidy) (hsize : n ≤ s.size) :
    ∃ slots below, slots.length = n ∧ s.HasOnTop slots below := by
  obtain ⟨slots, below, hpop⟩ := exists_popMany? hs hsize
  exact ⟨slots, below, length_popMany? hpop, hs.hasOnTop hpop⟩

/-- Slots that are pushed are on top, and below them the stack is as before. -/
theorem Tidy.hasOnTop_of_pushAll? (hs : s.Tidy) (h : s.pushAll? slots = some t) :
    t.HasOnTop slots s := by
  have hleads := leads_pushAll? h
  have ht := hleads.tidy hs
  have hlist := toList_pushAll? h
  obtain ⟨slots', below, hlength, htop⟩ := ht.exists_hasOnTop (n := slots.length)
    (by rw [← ht.length_toList, hlist, List.length_append]; omega)
  have hsplit := hlist.symm.trans htop.rest
  obtain ⟨hbelow, rfl⟩ := List.append_inj' hsplit hlength.symm
  rwa [hs.ext htop.tidy hbelow (by rw [htop.capacity, hleads.capacity])]

end OperandStack

end JavaMachine
