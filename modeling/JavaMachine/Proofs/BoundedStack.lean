import JavaMachine.Proofs.Integers

/-!
An operand stack is a bounded list of slots.

The operations are specified on lists, the top first, that have no more slots than the capacity
(`Operation.onList`). A stack represents a list if it has its slots in use and zeros above them.
Each operation on a stack fails exactly if it does on the list, and otherwise gives the same answer
and represents the list after it (`Represents.perform`), so all operations that are done one after
the other do (`Represents.run`).
-/

namespace JavaMachine

namespace OperandStack

/-! ### Operations -/

/-- What is done to an operand stack. -/
inductive Operation where
  | pushSlot (slot : Slot)
  | push (value : Value)
  | popSlot
  | popInt
  | popLong
  | popFloat
  | popDouble
  | popReference
  | peek (depth : Nat)
  | topReference (depth : Nat)
  | clear
  deriving DecidableEq, Repr

/-- What an operation gives. -/
inductive Answer where
  | none
  | slot (slot : Slot)
  | value (value : Value)
  deriving DecidableEq, Repr

def perform (s : OperandStack) : Operation → Option (Answer × OperandStack)
  | .pushSlot slot => (s.push? slot).map (.none, ·)
  | .push value => (s.pushValue? value).map (.none, ·)
  | .popSlot => s.pop?.map fun (slot, s) => (.slot slot, s)
  | .popInt => s.popInt?.map fun (v, s) => (.value (.int v), s)
  | .popLong => s.popLong?.map fun (v, s) => (.value (.long v), s)
  | .popFloat => s.popFloat?.map fun (bits, s) => (.value (.float bits), s)
  | .popDouble => s.popDouble?.map fun (bits, s) => (.value (.double bits), s)
  | .popReference => s.popReference?.map fun (r, s) => (.value (.reference r), s)
  | .peek depth => (s.peek? depth).map fun slot => (.slot slot, s)
  | .topReference depth => (s.topReference? depth).map fun r => (.value (.reference r), s)
  | .clear => some (.none, s.clear)

namespace Operation

/-- What is done to a list of no more than `capacity` slots, the top first. A wide value has its
high half on top. -/
def onList (capacity : Nat) (slots : List Slot) : Operation → Option (Answer × List Slot)
  | pushSlot slot => if slots.length + 1 ≤ capacity then some (.none, slot :: slots) else none
  | push value => if slots.length + value.size ≤ capacity then some
      (.none, value.slots.reverse ++ slots) else none
  | popSlot =>
    match slots with
    | slot :: below => some (.slot slot, below)
    | [] => none
  | popInt =>
    match slots with
    | slot :: below => some (.value (.int slot.number), below)
    | [] => none
  | popLong =>
    match slots with
    | high :: low :: below => some (.value (.long (joinLong low.number high.number)), below)
    | _ => none
  | popFloat =>
    match slots with
    | slot :: below => some (.value (.float slot.number.toUInt32), below)
    | [] => none
  | popDouble =>
    match slots with
    | high :: low :: below => some (.value (.double (joinLong low.number high.number).toUInt64), below)
    | _ => none
  | popReference =>
    match slots with
    | slot :: below => some (.value (.reference slot.reference), below)
    | [] => none
  | peek depth => slots[depth]?.map fun slot => (.slot slot, slots)
  | topReference depth => slots[depth]?.map fun slot => (.value (.reference slot.reference), slots)
  | clear => some (.none, [])

/-- How many slots from the top on the operation reads. -/
def reach : Operation → Nat
  | popSlot | popInt | popFloat | popReference => 1
  | popLong | popDouble => 2
  | peek depth | topReference depth => depth + 1
  | pushSlot _ | push _ | clear => 0

/-- How many slots the operation adds. -/
def adds : Operation → Nat
  | pushSlot _ => 1
  | push value => value.size
  | _ => 0

/-- The pop that matches the push of a value. -/
def popOf : Value → Operation
  | .int _ => popInt
  | .long _ => popLong
  | .float _ => popFloat
  | .double _ => popDouble
  | .reference _ => popReference

/-- Does operations one after the other, as long as they succeed. -/
def runAll {σ : Type} (step : σ → Operation → Option (Answer × σ)) : σ → List Operation →
      Option (List Answer × σ)
  | s, [] => some ([], s)
  | s, op :: ops => do
    let (answer, s) ← step s op
    let (answers, s) ← runAll step s ops
    return (answer :: answers, s)

end Operation

/-- Does operations one after the other. -/
def run (s : OperandStack) (ops : List Operation) : Option (List Answer × OperandStack) :=
  Operation.runAll perform s ops

/-- The slots in use, the top first. -/
def fromTop (s : OperandStack) : List Slot := s.toList.reverse

variable {s t u : OperandStack} {slot : Slot} {slots : List Slot} {capacity : Nat}
  {v : Value} {op : Operation} {ops : List Operation}

/-! ### Pops read what is on top -/

theorem popInt?_eq (s : OperandStack) : s.popInt? = s.pop?.map fun (slot, s) => (slot.number, s) := by
  rw [popInt?]
  cases s.pop? <;> rfl

theorem popFloat?_eq (s : OperandStack) :
    s.popFloat? = s.popInt?.map fun (v, s) => (v.toUInt32, s) := by
  rw [popFloat?]
  cases s.popInt? <;> rfl

theorem popReference?_eq (s : OperandStack) :
    s.popReference? = s.pop?.map fun (slot, s) => (slot.reference, s) := by
  rw [popReference?]
  cases s.pop? <;> rfl

theorem popDouble?_eq (s : OperandStack) :
    s.popDouble? = s.popLong?.map fun (v, s) => (v.toUInt64, s) := by
  rw [popDouble?]
  cases s.popLong? <;> rfl

/-! ### What a stack represents -/

/-- The stack has this capacity, the slots in use are those of the list, and all others are zero. -/
structure Represents (s : OperandStack) (capacity : Nat) (slots : List Slot) : Prop where
  tidy : s.Tidy
  capacity : s.capacity = capacity
  slots : s.fromTop = slots

theorem represents_empty (capacity : Nat) : (empty capacity).Represents capacity [] where
  tidy := tidy_empty capacity
  capacity := Array.size_replicate
  slots := by simp [fromTop, toList, empty]

/-- There is an answer from the stack exactly if there is one from the list, the two are equal, and
so are what is left. -/
def Agree {α : Type} (capacity : Nat) : Option (α × List Slot) → Option (α × OperandStack) → Prop :=
  Option.Rel fun x y => x.1 = y.1 ∧ y.2.Represents capacity x.2

theorem Agree.bind {α β : Type} {x : Option (α × List Slot)} {y : Option (α × OperandStack)}
    {f : α × List Slot → Option (β × List Slot)} {g : α × OperandStack → Option (β × OperandStack)}
    (h : Agree capacity x y)
    (hnext : ∀ a slots s, s.Represents capacity slots → Agree capacity (f (a, slots)) (g (a, s))) :
    Agree capacity (x.bind f) (y.bind g) := by
  cases h with
  | none => exact .none
  | @some before after h =>
    obtain ⟨a, slots⟩ := before
    obtain ⟨b, s⟩ := after
    obtain ⟨rfl, hs⟩ : a = b ∧ s.Represents capacity slots := h
    exact hnext a slots s hs

theorem Agree.map_eq {α : Type} {x : Option (α × List Slot)} {y : Option (α × OperandStack)}
    (h : Agree capacity x y) :
    y.map (fun r => (r.1, r.2.fromTop)) = x := by
  cases h with
  | none => rfl
  | some h => exact congrArg some (Prod.ext h.1.symm h.2.slots)

namespace Represents

theorem size_eq (h : s.Represents capacity slots) : s.size = slots.length := by
  rw [← h.slots, fromTop, List.length_reverse, h.tidy.length_toList]

theorem size_le (h : s.Represents capacity slots) : s.size ≤ capacity := by
  rw [← h.capacity]
  exact h.tidy.size_le

theorem leads (h : s.Represents capacity slots) (hst : s.Leads t) : t.Represents capacity t.fromTop :=
  ⟨hst.tidy h.tidy, hst.capacity.trans h.capacity, rfl⟩

/-! ### Single operations -/

/-- What is pushed last is in front, unless there is no room. -/
theorem pushAll? (h : s.Represents capacity slots) (pushed : List Slot) :
    Agree capacity (if slots.length + pushed.length ≤ capacity then some (Answer.none,
      pushed.reverse ++ slots) else none)
      ((s.pushAll? pushed).map (Answer.none, ·)) := by
  split
  · rename_i hroom
    obtain ⟨t, hpush⟩ : ∃ t, s.pushAll? pushed = some t :=
      exists_pushAll? (by rw [h.size_eq, h.capacity]; exact hroom)
    have hslots : t.fromTop = pushed.reverse ++ slots := by
      rw [fromTop, toList_pushAll? hpush, List.reverse_append, ← h.slots, fromTop]
    rw [hpush]
    exact .some ⟨rfl, hslots ▸ h.leads (leads_pushAll? hpush)⟩
  · rename_i hfull
    have hnone : s.pushAll? pushed = none := by
      refine Option.eq_none_iff_forall_ne_some.mpr fun t hpush => hfull ?_
      have hle := (h.leads (leads_pushAll? hpush)).tidy.size_le
      rw [(leads_pushAll? hpush).capacity, h.capacity,
        ← ((leads_pushAll? hpush).tidy h.tidy).length_toList,
        toList_pushAll? hpush, List.length_append, h.tidy.length_toList, h.size_eq] at hle
      exact hle
    rw [hnone]
    exact .none

theorem pop?_nil (h : s.Represents capacity []) : s.pop? = none := by
  have hsize : s.size = 0 := h.size_eq
  exact dif_neg (by omega)

theorem pop?_cons (h : s.Represents capacity (slot :: slots)) :
    ∃ t, s.pop? = some (slot, t) ∧ t.Represents capacity slots := by
  have hsize := h.size_eq
  have hused : 0 < s.size ∧ s.size ≤ s.slots.size :=
    ⟨by rw [hsize]; exact Nat.succ_pos _, h.tidy.size_le⟩
  obtain ⟨top, t, hpop⟩ : ∃ top t, s.pop? = some (top, t) := ⟨_, _, dif_pos hused⟩
  have hslots := h.slots
  rw [fromTop, toList_pop? hpop, List.reverse_append, List.reverse_singleton,
    List.singleton_append] at hslots
  cases hslots
  exact ⟨t, hpop, h.leads (keeps_pop? hpop)⟩

/-- What is popped first was in front, whatever the slot is read as. -/
theorem pop? (h : s.Represents capacity slots) (read : Slot → Answer) :
    Agree capacity
      (match slots with
      | slot :: below => some (read slot, below)
      | [] => none)
      (s.pop?.map fun (slot, s) => (read slot, s)) := by
  cases slots with
  | nil =>
    rw [h.pop?_nil]
    exact .none
  | cons slot below =>
    obtain ⟨t, hpop, ht⟩ := h.pop?_cons
    rw [hpop]
    exact .some ⟨rfl, ht⟩

/-- The high half of a wide value is in front of its low half. -/
theorem popLong? (h : s.Represents capacity slots) (read : Int64 → Answer) :
    Agree capacity
      (match slots with
      | high :: low :: below => some (read (joinLong low.number high.number), below)
      | _ => none)
      (s.popLong?.map fun (v, s) => (read v, s)) := by
  match slots with
  | [] =>
    have hnone : s.popLong? = none := by simp [OperandStack.popLong?, popInt?, h.pop?_nil]
    rw [hnone]
    exact .none
  | [high] =>
    obtain ⟨t, hhigh, ht⟩ := h.pop?_cons
    have hnone : s.popLong? = none := by simp [OperandStack.popLong?, popInt?, hhigh, ht.pop?_nil]
    rw [hnone]
    exact .none
  | high :: low :: below =>
    obtain ⟨t, hhigh, ht⟩ := h.pop?_cons
    obtain ⟨u, hlow, hu⟩ := ht.pop?_cons
    have hpop : s.popLong? = some (joinLong low.number high.number, u) := by
      simp [OperandStack.popLong?, popInt?, hhigh, hlow]
    rw [hpop]
    exact .some ⟨rfl, hu⟩

/-- A slot that is only looked at stays where it is. -/
theorem peek? (h : s.Represents capacity slots) (depth : Nat) (read : Slot → Answer) :
    Agree capacity (slots[depth]?.map fun slot => (read slot, slots))
      ((s.peek? depth).map fun slot => (read slot, s)) := by
  have hpeek : s.peek? depth = slots[depth]? := by rw [h.tidy.peek?_eq, ← h.slots, fromTop]
  rw [hpeek]
  cases slots[depth]? with
  | none => exact .none
  | some slot => exact .some ⟨rfl, h⟩

/-- An operation on a stack agrees with the one on the list that the stack represents. -/
theorem perform (h : s.Represents capacity slots) (op : Operation) :
    Agree capacity (op.onList capacity slots) (s.perform op) := by
  cases op with
  | pushSlot slot =>
    have hone : s.pushAll? [slot] = s.push? slot := by simp [OperandStack.pushAll?]
    rw [OperandStack.perform, ← hone]
    exact h.pushAll? [slot]
  | push value =>
    rw [OperandStack.perform, pushValue?, Operation.onList, ← value.length_slots]
    exact h.pushAll? value.slots
  | popSlot => exact h.pop? .slot
  | popInt =>
    rw [OperandStack.perform, popInt?_eq, Option.map_map]
    exact h.pop? fun slot => .value (.int slot.number)
  | popFloat =>
    rw [OperandStack.perform, popFloat?_eq, popInt?_eq, Option.map_map, Option.map_map]
    exact h.pop? fun slot => .value (.float slot.number.toUInt32)
  | popReference =>
    rw [OperandStack.perform, popReference?_eq, Option.map_map]
    exact h.pop? fun slot => .value (.reference slot.reference)
  | popLong => exact h.popLong? fun v => .value (.long v)
  | popDouble =>
    rw [OperandStack.perform, popDouble?_eq, Option.map_map]
    exact h.popLong? fun v => .value (.double v.toUInt64)
  | peek depth => exact h.peek? depth .slot
  | topReference depth =>
    rw [OperandStack.perform, topReference?, Option.map_map]
    exact h.peek? depth fun slot => .value (.reference slot.reference)
  | clear => exact .some ⟨rfl, h.leads (leads_clear s)⟩

/-! ### All operations -/

/-- Operations that are done one after the other agree with those on the list. The induction is on
the operations. -/
theorem run (h : s.Represents capacity slots) (ops : List Operation) :
    Agree capacity (Operation.runAll (Operation.onList capacity) slots ops) (s.run ops) := by
  induction ops generalizing s slots with
  | nil => exact .some ⟨rfl, h⟩
  | cons op ops ih =>
    exact (h.perform op).bind fun answer slots s hs => (ih hs).bind fun answers slots t ht =>
      .some ⟨rfl, ht⟩

/-- What is represented after operations that were done. -/
theorem of_run (h : s.Represents capacity slots) {answers : List Answer}
    (hrun : s.run ops = some (answers, t)) :
    t.Represents capacity t.fromTop := by
  have hagree := h.run ops
  rw [hrun] at hagree
  generalize Operation.runAll (Operation.onList capacity) slots ops = x at hagree
  cases hagree with
  | some ht => exact ⟨ht.2.tidy, ht.2.capacity, rfl⟩

end Represents

/-! ### When operations fail -/

/-- An operation on a list fails if it reads below the bottom or adds more than there is room for. -/
theorem Operation.onList_eq_none_iff (op : Operation) (hle : slots.length ≤ capacity) :
    op.onList capacity slots = none ↔ slots.length < op.reach ∨ capacity < slots.length + op.adds := by
  cases op with
  | pushSlot | push => simp [onList, reach, adds]
  | popSlot | popInt | popFloat | popReference => cases slots <;> simp_all [onList, reach, adds]
  | popLong | popDouble =>
    match slots with
    | [] | [_] => simp [onList, reach]
    | high :: low :: below => simp_all [onList, reach, adds]
  | peek depth | topReference depth =>
    simp only [onList, Option.map_eq_none_iff, List.getElem?_eq_none_iff, reach, adds]
    omega
  | clear => simp_all [onList, reach, adds]

theorem Represents.perform_eq_none_iff (h : s.Represents capacity slots) (op : Operation) :
    s.perform op = none ↔ s.size < op.reach ∨ capacity < s.size + op.adds := by
  have hle := h.size_le
  rw [h.size_eq] at hle ⊢
  rw [← op.onList_eq_none_iff hle, ← (h.perform op).map_eq, Option.map_eq_none_iff]

/-! ### Pushing values and popping them -/

theorem Operation.runAll_append {σ : Type} {step : σ → Operation → Option (Answer × σ)} {a b c : σ}
    {more : List Operation} {answers others : List Answer} (h : runAll step a ops = some (answers, b))
    (h' : runAll step b more = some (others, c)) : runAll step a (ops ++ more) =
      some (answers ++ others, c) := by
  induction ops generalizing a answers with
  | nil =>
    cases h
    exact h'
  | cons op ops ih =>
    obtain ⟨⟨answer, d⟩, hop, hrest⟩ := Option.bind_eq_some_iff.mp h
    obtain ⟨⟨rest, e⟩, hops, hnone⟩ := Option.bind_eq_some_iff.mp hrest
    cases hnone
    exact Option.bind_eq_some_iff.mpr ⟨_, hop, Option.bind_eq_some_iff.mpr ⟨_, ih hops, rfl⟩⟩

theorem perform_popOf (v : Value) (s : OperandStack) :
    s.perform (.popOf v) = (s.popLike? v).map fun (v, s) => (.value v, s) := by
  cases v <;> rw [popLike?, Option.map_map] <;> rfl

/-- Values that are pushed are popped in reverse order as they are, which leaves the stack as it was. -/
theorem Tidy.run_push_pop (hs : s.Tidy) : ∀ {values : List Value},
      s.size + (values.map Value.size).sum ≤ s.capacity →
    s.run (values.map .push ++ values.reverse.map .popOf) =
      some (values.map (fun _ => .none) ++ values.reverse.map .value, s) := by
  intro values
  induction values generalizing s with
  | nil => exact fun _ => rfl
  | cons v values ih =>
    intro hroom
    rw [List.map_cons, List.sum_cons] at hroom
    obtain ⟨t, hpush⟩ : ∃ t, s.pushAll? v.slots = some t :=
      exists_pushAll? (by rw [v.length_slots]; omega)
    have hleads := leads_pushAll? hpush
    have ht := hleads.tidy hs
    have hsize : t.size = s.size + v.size := by
      rw [← ht.length_toList, toList_pushAll? hpush, List.length_append,
        hs.length_toList, v.length_slots]
    have hfirst : Operation.runAll perform s [.push v] = some ([.none], t) := by
      simp [Operation.runAll, perform, pushValue?, hpush]
    have hlast : Operation.runAll perform t [.popOf v] = some ([.value v], s) := by
      simp [Operation.runAll, perform_popOf, (hs.hasOnTop_of_pushAll? hpush).popLike?]
    have hbetween := ih ht (by rw [hleads.capacity, hsize]; omega)
    have hall := Operation.runAll_append (Operation.runAll_append hfirst hbetween) hlast
    simpa [run] using hall

/-! ### The halves of wide values -/

theorem slots_long (v : Int64) : ∃ low high : Int32, (Value.long v).slots = [.num low, .num high] ∧
    v.toInt = high.toInt * 2 ^ 32 + low.toUInt32.toNat := ⟨_, _, rfl, toInt_splitLong v⟩

theorem slots_double (bits : UInt64) : ∃ low high : Int32,
      (Value.double bits).slots = [.num low, .num high] ∧
    bits.toNat = high.toUInt32.toNat * 2 ^ 32 + low.toUInt32.toNat := by
  refine ⟨(splitLong bits.toInt64).1, (splitLong bits.toInt64).2, rfl, ?_⟩
  have hsplit := toInt_splitLong bits.toInt64
  have hbits : bits.toInt64.toInt % 2 ^ 64 = bits.toNat := toInt_emod bits.toBitVec
  have hhigh : (splitLong bits.toInt64).2.toInt % 2 ^ 32 =
      (splitLong bits.toInt64).2.toUInt32.toNat := toInt_emod _
  have hlow := (splitLong bits.toInt64).1.toUInt32.toNat_lt
  omega

/-- Whatever the capacity and whatever is done to a stack that is empty at first, the stack is a
bounded list: the answers and the slots in use, the top first, are those of the list, and there are
none if the list has none. Wherever this leads, there are zeros above the slots in use. An operation
fails exactly if it reads below the bottom or adds more than there is room for, and values that are
pushed are popped in reverse order as they are, which leaves the stack as it was. A wide value is
divided into its low half, and above this its high half. -/
theorem behaves_as_bounded_list (capacity : Nat) (ops : List Operation) :
    ((empty capacity).run ops).map (fun r => (r.1, r.2.fromTop)) =
      Operation.runAll (Operation.onList capacity) [] ops ∧
    (∀ answers s, (empty capacity).run ops = some (answers, s) →
      s.capacity = capacity ∧ s.size = s.fromTop.length ∧ s.size ≤ capacity ∧
      (∀ i, s.size ≤ i → i < capacity → s.slots[i]? = some (.num 0)) ∧
      (∀ op, s.perform op = none ↔ s.size < op.reach ∨ capacity < s.size + op.adds) ∧
      ∀ values : List Value, s.size + (values.map Value.size).sum ≤ capacity →
        s.run (values.map .push ++ values.reverse.map .popOf) =
          some (values.map (fun _ => .none) ++ values.reverse.map .value, s)) ∧
    (∀ v : Int64, ∃ low high : Int32, (Value.long v).slots = [.num low, .num high] ∧
      v.toInt = high.toInt * 2 ^ 32 + low.toUInt32.toNat) ∧
    ∀ bits : UInt64, ∃ low high : Int32, (Value.double bits).slots = [.num low, .num high] ∧
      bits.toNat = high.toUInt32.toNat * 2 ^ 32 + low.toUInt32.toNat := by
  have hempty := represents_empty capacity
  refine ⟨(hempty.run ops).map_eq, fun answers s hrun => ?_, slots_long, slots_double⟩
  have hs := hempty.of_run hrun
  refine ⟨hs.capacity, hs.size_eq, hs.size_le, fun i hle hlt => hs.tidy.zero i hle
    (by rwa [hs.capacity]),
    hs.perform_eq_none_iff, fun values hroom => hs.tidy.run_push_pop (by rwa [hs.capacity])⟩

/-- The halves of a long, of which the high one is popped first. -/
example : (empty 2).run [.push (.long (-2)), .popSlot, .popInt] =
    some ([.none, .slot (.num (-1)), .value (.int (-2))], empty 2) := by decide

end OperandStack

end JavaMachine
