import Mathlib.Algebra.GroupWithZero.Nat
import JavaMachine.Execution.Dispatch
import JavaMachine.Proofs.Running
import JavaMachine.Proofs.StackContents

/-!
Shuffles move whole values.

A shuffle moves slots, but it is specified on values, of which some take two slots: there is one
form for every way to divide the slots that it takes among values (`Shuffle.Form`). Whatever the
values are, moving their slots gives the slots of the values that the form gives
(`Shuffle.Form.arrange_spread`). A stack that holds whole values therefore holds whole values
afterwards, whatever is below those that are moved (`Exec.shuffle_moves_values`).
-/

namespace JavaMachine

/-- The halves of a long make the long again. -/
theorem joinLong_splitLong (v : Int64) : joinLong (splitLong v).1 (splitLong v).2 = v := by
  refine Int64.toBitVec_inj.mp (BitVec.eq_of_getElem_eq fun i hi => ?_)
  by_cases hlow : i < 32
  · simp [joinLong, splitLong, hlow, hi, BitVec.getElem_signExtend]
  · have hhigh : 32 + (i - 32) = i := by omega
    have hlt : i - 32 < 32 := by omega
    have hlt' : ¬ 64 ≤ i - 32 := by omega
    simp [joinLong, splitLong, hlow, BitVec.getLsbD_signExtend, BitVec.getElem_signExtend,
      BitVec.getElem_sshiftRight, hhigh, hlt, hlt', hi]

namespace Value

/-- The value takes one slot: it is a number of 32 bits or a reference. -/
def Narrow (v : Value) : Prop := v.size = 1

/-- The value takes two slots: it is a number of 64 bits. -/
def Wide (v : Value) : Prop := v.size = 2

/-- The slots of values, one value after the other. -/
def spread (values : List Value) : List Slot := values.flatMap Value.slots

@[simp]
theorem spread_nil : spread [] = [] := rfl

@[simp]
theorem spread_cons (v : Value) (values : List Value) :
    spread (v :: values) = v.slots ++ spread values :=
  List.flatMap_cons

theorem spread_append (values others : List Value) :
    spread (values ++ others) = spread values ++ spread others :=
  List.flatMap_append

theorem length_spread (values : List Value) : (spread values).length = (values.map size).sum := by
  induction values with
  | nil => rfl
  | cons v values ih => rw [spread_cons, List.length_append, length_slots, ih,
      List.map_cons, List.sum_cons]

theorem Narrow.slots {v : Value} (h : v.Narrow) : ∃ a, v.slots = [a] :=
  List.length_eq_one_iff.mp (v.length_slots.trans h)

theorem Wide.slots {v : Value} (h : v.Wide) : ∃ low high, v.slots = [low, high] :=
  match v, h with
  | long _, _ | double _, _ => ⟨_, _, rfl⟩

end Value

namespace Shuffle

/-! ### Forms -/

/-- What a shuffle is specified to do to the values on top, bottom first. -/
inductive Form : Shuffle → List Value → List Value → Prop where
  | pop {a} (ha : a.Narrow) : Form .pop [a] []
  | pop2 {b a} (ha : a.Narrow) (hb : b.Narrow) : Form .pop2 [b, a] []
  | pop2Wide {a} (ha : a.Wide) : Form .pop2 [a] []
  | dup {a} (ha : a.Narrow) : Form .dup [a] [a, a]
  | dupX1 {b a} (ha : a.Narrow) (hb : b.Narrow) : Form .dupX1 [b, a] [a, b, a]
  | dupX2 {c b a} (ha : a.Narrow) (hb : b.Narrow) (hc : c.Narrow) : Form .dupX2 [c, b, a] [a, c, b, a]
  | dupX2UnderWide {b a} (ha : a.Narrow) (hb : b.Wide) : Form .dupX2 [b, a] [a, b, a]
  | dup2 {b a} (ha : a.Narrow) (hb : b.Narrow) : Form .dup2 [b, a] [b, a, b, a]
  | dup2Wide {a} (ha : a.Wide) : Form .dup2 [a] [a, a]
  | dup2X1 {c b a} (ha : a.Narrow) (hb : b.Narrow) (hc : c.Narrow) :
      Form .dup2X1 [c, b, a] [b, a, c, b, a]
  | dup2X1Wide {b a} (ha : a.Wide) (hb : b.Narrow) : Form .dup2X1 [b, a] [a, b, a]
  | dup2X2 {d c b a} (ha : a.Narrow) (hb : b.Narrow) (hc : c.Narrow) (hd : d.Narrow) :
      Form .dup2X2 [d, c, b, a] [b, a, d, c, b, a]
  | dup2X2Wide {c b a} (ha : a.Wide) (hb : b.Narrow) (hc : c.Narrow) :
      Form .dup2X2 [c, b, a] [a, c, b, a]
  | dup2X2UnderWide {c b a} (ha : a.Narrow) (hb : b.Narrow) (hc : c.Wide) :
      Form .dup2X2 [c, b, a] [b, a, c, b, a]
  | dup2X2WideUnderWide {b a} (ha : a.Wide) (hb : b.Wide) : Form .dup2X2 [b, a] [a, b, a]
  | swap {b a} (ha : a.Narrow) (hb : b.Narrow) : Form .swap [b, a] [a, b]

variable {shuffle : Shuffle} {before after : List Value}

/-- The values that a form takes have as many slots as the shuffle takes. -/
theorem Form.length_spread (h : shuffle.Form before after) :
    (Value.spread before).length = shuffle.size := by
  rw [Value.length_spread]
  cases h <;> simp_all [Value.Narrow, Value.Wide, size]

/-- Moving the slots of the values gives the slots of the values that the form gives. -/
theorem Form.arrange_spread (h : shuffle.Form before after) :
    shuffle.arrange (Value.spread before) = Value.spread after := by
  cases h with
  | pop | pop2 | pop2Wide => rfl
  | dup ha =>
    obtain ⟨a, ha⟩ := ha.slots
    simp [arrange, ha]
  | dupX1 ha hb =>
    obtain ⟨a, ha⟩ := ha.slots
    obtain ⟨b, hb⟩ := hb.slots
    simp [arrange, ha, hb]
  | dupX2 ha hb hc =>
    obtain ⟨a, ha⟩ := ha.slots
    obtain ⟨b, hb⟩ := hb.slots
    obtain ⟨c, hc⟩ := hc.slots
    simp [arrange, ha, hb, hc]
  | dupX2UnderWide ha hb =>
    obtain ⟨a, ha⟩ := ha.slots
    obtain ⟨b, b', hb⟩ := hb.slots
    simp [arrange, ha, hb]
  | dup2 ha hb =>
    obtain ⟨a, ha⟩ := ha.slots
    obtain ⟨b, hb⟩ := hb.slots
    simp [arrange, ha, hb]
  | dup2Wide ha =>
    obtain ⟨a, a', ha⟩ := ha.slots
    simp [arrange, ha]
  | dup2X1 ha hb hc =>
    obtain ⟨a, ha⟩ := ha.slots
    obtain ⟨b, hb⟩ := hb.slots
    obtain ⟨c, hc⟩ := hc.slots
    simp [arrange, ha, hb, hc]
  | dup2X1Wide ha hb =>
    obtain ⟨a, a', ha⟩ := ha.slots
    obtain ⟨b, hb⟩ := hb.slots
    simp [arrange, ha, hb]
  | dup2X2 ha hb hc hd =>
    obtain ⟨a, ha⟩ := ha.slots
    obtain ⟨b, hb⟩ := hb.slots
    obtain ⟨c, hc⟩ := hc.slots
    obtain ⟨d, hd⟩ := hd.slots
    simp [arrange, ha, hb, hc, hd]
  | dup2X2Wide ha hb hc =>
    obtain ⟨a, a', ha⟩ := ha.slots
    obtain ⟨b, hb⟩ := hb.slots
    obtain ⟨c, hc⟩ := hc.slots
    simp [arrange, ha, hb, hc]
  | dup2X2UnderWide ha hb hc =>
    obtain ⟨a, ha⟩ := ha.slots
    obtain ⟨b, hb⟩ := hb.slots
    obtain ⟨c, c', hc⟩ := hc.slots
    simp [arrange, ha, hb, hc]
  | dup2X2WideUnderWide ha hb =>
    obtain ⟨a, a', ha⟩ := ha.slots
    obtain ⟨b, b', hb⟩ := hb.slots
    simp [arrange, ha, hb]
  | swap ha hb =>
    obtain ⟨a, ha⟩ := ha.slots
    obtain ⟨b, hb⟩ := hb.slots
    simp [arrange, ha, hb]

/-- The instruction that does the shuffle. -/
def opcode : Shuffle → Opcode
  | pop => .pop
  | pop2 => .pop2
  | dup => .dup
  | dupX1 => .dupX1
  | dupX2 => .dupX2
  | dup2 => .dup2
  | dup2X1 => .dup2X1
  | dup2X2 => .dup2X2
  | swap => .swap

theorem execute_opcode (shuffle : Shuffle) (natives : Natives) (operands : Operands) :
    Exec.execute natives ⟨shuffle.opcode, operands⟩ = Exec.shuffle shuffle := by cases shuffle <;> rfl

end Shuffle

/-! ### Stacks of values -/

namespace OperandStack

variable {capacity : Nat} {values : List Value} {s t : OperandStack}

/-- The operand stack that holds values, bottom first, if there is room for them. -/
def encode? (capacity : Nat) (values : List Value) : Option OperandStack :=
  (empty capacity).pushAll? (Value.spread values)

/-- Stacks of values are the tidy ones whose slots in use are those of the values. -/
theorem encode?_eq_some_iff :
    encode? capacity values = some s ↔ s.Tidy ∧ s.capacity = capacity ∧
      s.toList = Value.spread values := by
  have hempty : (empty capacity).capacity = capacity := by simp [empty, OperandStack.capacity]
  have hnone : (empty capacity).toList = [] := by simp [empty, toList]
  constructor
  · intro h
    have hleads := leads_pushAll? h
    refine ⟨hleads.tidy (tidy_empty capacity), hleads.capacity.trans hempty, ?_⟩
    rw [toList_pushAll? h, hnone, List.nil_append]
  · rintro ⟨htidy, hcapacity, hlist⟩
    have hsize : s.size = (Value.spread values).length := by rw [← hlist, htidy.length_toList]
    have hroom : (empty capacity).size + (Value.spread values).length ≤ (empty capacity).capacity := by
      have hle := htidy.size_le
      rw [hempty, ← hcapacity, ← hsize, empty, Nat.zero_add]
      exact hle
    obtain ⟨t, hpush⟩ := exists_pushAll? hroom
    have hleads := leads_pushAll? hpush
    have hsame : t = s := (hleads.tidy (tidy_empty capacity)).ext htidy
      (by rw [toList_pushAll? hpush, hnone, List.nil_append, hlist])
      (by rw [hleads.capacity, hempty, hcapacity])
    rw [encode?, hpush, hsame]

theorem encode?_append (values others : List Value) :
    encode? capacity (values ++ others) =
      (encode? capacity values).bind (·.pushAll? (Value.spread others)) := by
  rw [encode?, Value.spread_append, pushAll?_append, encode?]

/-- Pops a value of the same kind as another one. -/
def popLike? (s : OperandStack) : Value → Option (Value × OperandStack)
  | .int _ => s.popInt?.map fun (v, s) => (.int v, s)
  | .long _ => s.popLong?.map fun (v, s) => (.long v, s)
  | .float _ => s.popFloat?.map fun (bits, s) => (.float bits, s)
  | .double _ => s.popDouble?.map fun (bits, s) => (.double bits, s)
  | .reference _ => s.popReference?.map fun (r, s) => (.reference r, s)

theorem HasOnTop.pop? {slot : Slot} (h : s.HasOnTop [slot] t) : s.pop? = some (slot, t) := by
  obtain ⟨⟨top, u⟩, hpop, hrest⟩ := Option.bind_eq_some_iff.mp h.popped
  cases hrest
  exact hpop

theorem HasOnTop.popLong? {low high : Int32} (h : s.HasOnTop [.num low, .num high] t) :
    s.popLong? = some (joinLong low high, t) := by
  obtain ⟨⟨top, u⟩, htop, hrest⟩ := Option.bind_eq_some_iff.mp h.popped
  obtain ⟨⟨below, w⟩, hmany, hrest⟩ := Option.bind_eq_some_iff.mp hrest
  obtain ⟨⟨next, x⟩, hnext, hnone⟩ := Option.bind_eq_some_iff.mp hmany
  cases hnone
  cases hrest
  have hhigh : s.popInt? = some (high, u) := by rw [popInt?, htop]; rfl
  have hlow : u.popInt? = some (low, t) := by rw [popInt?, hnext]; rfl
  rw [OperandStack.popLong?, hhigh]
  exact Option.bind_eq_some_iff.mpr ⟨_, rfl, Option.bind_eq_some_iff.mpr ⟨_, hlow, rfl⟩⟩

/-- A value is popped from its slots as it is. -/
theorem HasOnTop.popLike? {v : Value} (h : s.HasOnTop v.slots t) : s.popLike? v = some (v, t) := by
  cases v with
  | int v => rw [OperandStack.popLike?, popInt?, h.pop?]; rfl
  | float bits => rw [OperandStack.popLike?, popFloat?, popInt?, h.pop?]; rfl
  | reference r => rw [OperandStack.popLike?, popReference?, h.pop?]; rfl
  | long v =>
    rw [OperandStack.popLike?, h.popLong?]
    exact congrArg (fun v => some (Value.long v, t)) (joinLong_splitLong v)
  | double bits =>
    rw [OperandStack.popLike?, popDouble?, h.popLong?]
    exact congrArg (fun v : Int64 => some (Value.double v.toUInt64, t))
      (joinLong_splitLong bits.toInt64)

/-- The value on top is popped as it is, and the others are left. -/
theorem popLike?_encode? {v : Value} (hs : encode? capacity (values ++ [v]) = some s) :
    ∃ t, encode? capacity values = some t ∧ s.popLike? v = some (v, t) := by
  rw [encode?_append] at hs
  obtain ⟨t, ht, hpush⟩ := Option.bind_eq_some_iff.mp hs
  rw [Value.spread_cons, Value.spread_nil, List.append_nil] at hpush
  exact ⟨t, ht, ((encode?_eq_some_iff.mp ht).1.hasOnTop_of_pushAll? hpush).popLike?⟩

/-- Popping as many values as given, of the same kinds, gives these and leaves the stack empty. The
top is first. -/
def Reads (s : OperandStack) : List Value → Prop
  | [] => s.isEmpty
  | v :: values => ∃ t, s.popLike? v = some (v, t) ∧ t.Reads values

theorem reads_of_encode? : ∀ {values : List Value} {s : OperandStack},
      encode? capacity values.reverse = some s → s.Reads values
  | [], s, h => by
    cases h
    rfl
  | v :: values, s, h => by
    rw [List.reverse_cons] at h
    obtain ⟨t, ht, hpop⟩ := popLike?_encode? h
    exact ⟨t, hpop, reads_of_encode? ht⟩

/-- A shuffle on a stack of values gives the stack of the values that the form gives, if there is
room for them. -/
theorem shuffle?_encode? {shuffle : Shuffle} {before after : List Value}
    (hform : shuffle.Form before after)
    (below : List Value) (hs : encode? capacity (below ++ before) = some s)
    (hroom : ((below ++ after).map Value.size).sum ≤ capacity) :
    ∃ t, encode? capacity (below ++ after) = some t ∧ s.shuffle? shuffle = some t := by
  obtain ⟨htidy, hcapacity, hlist⟩ := encode?_eq_some_iff.mp hs
  rw [← Value.length_spread, Value.spread_append, List.length_append] at hroom
  rw [Value.spread_append] at hlist
  -- What is popped is what the form takes.
  obtain ⟨slots, u, hpop⟩ : ∃ slots u, s.popMany? shuffle.size = some (slots, u) := by
    refine exists_popMany? htidy ?_
    rw [← htidy.length_toList, hlist, List.length_append, hform.length_spread]
    exact Nat.le_add_left ..
  have hpopped := (toList_popMany? hpop).symm.trans hlist
  have hlength : slots.length = (Value.spread before).length := by
    rw [length_popMany? hpop, hform.length_spread]
  obtain ⟨hbelow, rfl⟩ := List.append_inj' hpopped hlength
  have hleads := keeps_popMany? _ hpop
  have hu := hleads.tidy htidy
  obtain ⟨t, hpush⟩ : ∃ t, u.pushAll? (Value.spread after) = some t := by
    refine exists_pushAll? ?_
    rw [← hu.length_toList, hbelow, hleads.capacity, hcapacity]
    exact hroom
  have hleads' := leads_pushAll? hpush
  refine ⟨t, encode?_eq_some_iff.mpr ⟨hleads'.tidy hu, ?_, ?_⟩, ?_⟩
  · rw [hleads'.capacity, hleads.capacity, hcapacity]
  · rw [toList_pushAll? hpush, hbelow, Value.spread_append]
  · rw [shuffle?, hpop, ← hpush, ← hform.arrange_spread]
    rfl

end OperandStack

namespace Exec

/-- Whatever values a form of a shuffle takes, and whatever is below them, the shuffle of their
slots gives the stack of the values that the form gives, as long as there is room for these. The
instruction ends with that stack and changes nothing else, and the values can be popped from it one
after the other as they are. -/
theorem shuffle_moves_values {shuffle : Shuffle} {before after : List Value}
    (hform : shuffle.Form before after) (below : List Value) {capacity : Nat} {s : OperandStack}
    (hs : OperandStack.encode? capacity (below ++ before) = some s)
    (hroom : ((below ++ after).map Value.size).sum ≤ capacity) :
    ∃ t, OperandStack.encode? capacity (below ++ after) = some t ∧ s.shuffle? shuffle = some t ∧
      (∀ natives operands r top callers, r.thread.frames = top :: callers → top.stack = s →
        outcome (execute natives ⟨shuffle.opcode, operands⟩) r =
          (.ok ⟨⟩, ⟨r.machine, { r.thread with frames := { top with stack := t } :: callers }⟩)) ∧
      t.Reads (below ++ after).reverse := by
  obtain ⟨t, ht, hshuffle⟩ := OperandStack.shuffle?_encode? hform below hs hroom
  refine ⟨t, ht, hshuffle, fun natives operands r top callers hframes hstack => ?_, ?_⟩
  · rw [shuffle.execute_opcode, Exec.shuffle, changeStack]
    refine outcome_onStack hframes ?_
    rw [hstack, hshuffle]
    rfl
  · exact OperandStack.reads_of_encode? (by rwa [List.reverse_reverse])

/-- A long is put under the int below it. -/
theorem shuffle_moves_values_dup2X1 :
    ∃ t, OperandStack.encode? 5 [.long (-5000000000), .int 7, .long (-5000000000)] = some t ∧
      OperandStack.shuffle? ⟨#[.num 7, .num (-705032704), .num (-2), .zero, .zero], 3⟩ .dup2X1 =
        some t := by
  have hform : Shuffle.Form .dup2X1 [.int 7, .long (-5000000000)] _ := .dup2X1Wide rfl rfl
  have hs : OperandStack.encode? 5 ([] ++ [.int 7, .long (-5000000000)]) =
      some ⟨#[.num 7, .num (-705032704), .num (-2), .zero, .zero], 3⟩ := by decide
  obtain ⟨t, ht, hshuffle, -, -⟩ := shuffle_moves_values hform [] hs (by decide)
  exact ⟨t, ht, hshuffle⟩

end Exec

end JavaMachine
