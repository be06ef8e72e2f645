import JavaMachine.Proofs.InstructionForms
import JavaMachine.Proofs.Integers

/-!
Integer arithmetic through slots.

An int is held by a slot, a long by two. For every instruction on integers there is the exact result
of the integers that its operands hold (`IntegerOperation.exact`), and what the instruction leaves
on the stack holds that result reduced to the size of the result (`Computes`). The steps that the
instructions are made of are related to integers one by one, whatever is computed on the words
(`computes_onInts` and so on), so each instruction needs only an equation on words.
-/

namespace JavaMachine

namespace Exec

/-- The sizes of integers. -/
inductive IntegerSize where
  | int | long
  deriving DecidableEq, Repr

namespace IntegerSize

def bits : IntegerSize → Nat
  | int => 32
  | long => 64

/-- An integer in two's complement. -/
def reduce (size : IntegerSize) (n : Int) : Int := n.bmod (2 ^ size.bits)

/-- The slots hold the integer. The low half of a long is below the high half, which has the sign. -/
inductive Holds : IntegerSize → List Slot → Int → Prop where
  | int (a : Int32) : Holds .int [.num a] a.toInt
  | long (low high : Int32) : Holds .long [.num low, .num high]
      (high.toInt * 2 ^ 32 + low.toUInt32.toNat)

def negation : IntegerSize → Opcode
  | int => .ineg
  | long => .lneg

end IntegerSize

/-- What there are instructions for in both sizes. -/
inductive ArithmeticKind where
  | add | sub | mul | div | rem | shl | shr | ushr | and | or | xor
  deriving DecidableEq, Repr

namespace ArithmeticKind

def opcode : ArithmeticKind → IntegerSize → Opcode
  | add, .int => .iadd
  | add, .long => .ladd
  | sub, .int => .isub
  | sub, .long => .lsub
  | mul, .int => .imul
  | mul, .long => .lmul
  | div, .int => .idiv
  | div, .long => .ldiv
  | rem, .int => .irem
  | rem, .long => .lrem
  | shl, .int => .ishl
  | shl, .long => .lshl
  | shr, .int => .ishr
  | shr, .long => .lshr
  | ushr, .int => .iushr
  | ushr, .long => .lushr
  | and, .int => .iand
  | and, .long => .land
  | or, .int => .ior
  | or, .long => .lor
  | xor, .int => .ixor
  | xor, .long => .lxor

/-- The size of the right operand: distances are ints. -/
def right : ArithmeticKind → IntegerSize → IntegerSize
  | shl, _ | shr, _ | ushr, _ => .int
  | _, size => size

/-- The exact result, if there is one. A quotient is cut off toward zero; a distance counts modulo
the width. -/
def exact (size : IntegerSize) : ArithmeticKind → Int → Int → Option Int
  | add, a, b => some (a + b)
  | sub, a, b => some (a - b)
  | mul, a, b => some (a * b)
  | div, a, b => if b = 0 then none else some (a.tdiv b)
  | rem, a, b => if b = 0 then none else some (a.tmod b)
  | shl, a, b => some (a * 2 ^ (b % size.bits).toNat)
  | shr, a, b => some (a / 2 ^ (b % size.bits).toNat)
  | ushr, a, b => some (a % 2 ^ size.bits / 2 ^ (b % size.bits).toNat)
  | and, a, b => some (Int.land a b)
  | or, a, b => some (Int.lor a b)
  | xor, a, b => some (Int.xor a b)

end ArithmeticKind

/-- The instructions on two integers. -/
inductive IntegerOperation where
  | arithmetic (kind : ArithmeticKind) (size : IntegerSize)
  | compareLongs
  deriving DecidableEq, Repr

namespace IntegerOperation

def opcode : IntegerOperation → Opcode
  | arithmetic kind size => kind.opcode size
  | compareLongs => .lcmp

/-- The size of the operand below. -/
def left : IntegerOperation → IntegerSize
  | arithmetic _ size => size
  | compareLongs => .long

/-- The size of the operand on top. -/
def right : IntegerOperation → IntegerSize
  | arithmetic kind size => kind.right size
  | compareLongs => .long

def result : IntegerOperation → IntegerSize
  | arithmetic _ size => size
  | compareLongs => .int

/-- The exact result, if there is one. -/
def exact : IntegerOperation → Int → Int → Option Int
  | arithmetic kind size, a, b => kind.exact size a b
  | compareLongs, a, b => some (a - b).sign

/-- The right operand is a divisor. -/
def Divides : IntegerOperation → Prop
  | arithmetic .div _ | arithmetic .rem _ => True
  | _ => False

end IntegerOperation

variable {α β : Type} {x : Exec α} {y : Exec β} {a : α} {b : β} {f : α → β → Exec Unit}
  {s t u : OperandStack}
  {left right pushed slots : List Slot} {size : IntegerSize} {v : Value} {n : Int}

/-! ### Steps on the stack -/

/-- On a frame with the stack `s` the step ends with the result and the stack `t`, and nothing else
is changed. -/
def Transforms (step : Exec α) (s : OperandStack) (result : Except Failure α)
    (t : OperandStack) : Prop :=
  ∀ r top callers, r.thread.frames = top :: callers → top.stack = s →
    outcome step r = (result,
      ⟨r.machine, { r.thread with frames := { top with stack := t } :: callers }⟩)

/-- Whatever is below the operands, the step takes these and leaves slots that hold the answer,
reduced to the size, or raises the exception for a zero divisor if there is none. -/
def Computes (step : Exec Unit) (operands : List Slot) (size : IntegerSize)
    (answer : Option Int) : Prop :=
  ∀ below s, below.Tidy → below.pushAll? operands = some s →
    match answer with
    | some n =>
      ∃ slots t, size.Holds slots (size.reduce n) ∧ below.pushAll? slots = some t ∧
        Transforms step s (.ok ⟨⟩) t
    | none => Transforms step s (.error (.fault (.exception ExceptionName.arithmetic "/ by zero")))
        below

/-- The step takes the slots on top as what they stand for. -/
def Pops (step : Exec α) (slots : List Slot) (a : α) : Prop :=
  ∀ s t, s.Tidy → s.pushAll? slots = some t → Transforms step t (.ok a) s

theorem Transforms.bind {next : α → Exec β} {result : Except Failure β} (hx : Transforms x s (.ok a) t)
    (hnext : Transforms (next a) t result u) : Transforms (x >>= next) s result u := by
  intro r top callers hframes hstack
  rw [outcome_bind_of_ok (hx r top callers hframes hstack)]
  exact hnext _ { top with stack := t } callers rfl rfl

theorem transforms_onStack {step : OperandStack → Option (α × OperandStack)}
    (h : step s = some (a, t)) :
    Transforms (onStack step) s (.ok a) t := by
  rintro r top callers hframes rfl
  exact outcome_onStack hframes h

theorem pops_int (a : Int32) : Pops popInt (Value.int a).slots a := by
  intro s t hs hpush
  refine transforms_onStack ?_
  rw [OperandStack.popInt?, (hs.hasOnTop_of_pushAll? hpush).pop?]
  rfl

theorem pops_long (a : Int64) : Pops popLong (Value.long a).slots a := by
  intro s t hs hpush
  refine transforms_onStack ?_
  rw [(hs.hasOnTop_of_pushAll? hpush).popLong?]
  exact congrArg (fun a => some (a, s)) (joinLong_splitLong a)

theorem transforms_push (h : s.pushAll? v.slots = some t) : Transforms (push v) s (.ok ⟨⟩) t := by
  rintro r top callers hframes rfl
  rw [outcome_push hframes, OperandStack.pushValue?, h]

theorem transforms_divisionByZero (s : OperandStack) :
    Transforms (α := α) divisionByZero s
      (.error (.fault (.exception ExceptionName.arithmetic "/ by zero"))) s := by
  rintro ⟨machine, pc, maxDepth, frames, returnValue⟩ top callers hframes rfl
  cases hframes
  rfl

/-- Where slots were pushed there is room for no more than these. -/
theorem exists_pushAll?_of_le (hs : s.Tidy) (h : s.pushAll? pushed = some t)
    (hle : slots.length ≤ pushed.length) :
    ∃ u, s.pushAll? slots = some u := by
  have hleads := OperandStack.leads_pushAll? h
  have ht := hleads.tidy hs
  have hroom := ht.size_le
  rw [← ht.length_toList, OperandStack.toList_pushAll? h, List.length_append, hs.length_toList,
    hleads.capacity] at hroom
  exact OperandStack.exists_pushAll? (by omega)

/-- The stack from which both operands of a step are taken, the right one first. -/
theorem transforms_of_pops {result : Except Failure Unit} (ha : Pops x left a)
    (hb : Pops y right b) (hs : s.Tidy)
    (hpush : s.pushAll? (left ++ right) = some t) (hf : Transforms (f a b) s result u) :
    Transforms (y >>= fun b => x >>= fun a => f a b) t result u := by
  rw [OperandStack.pushAll?_append] at hpush
  obtain ⟨middle, hleft, hright⟩ := Option.bind_eq_some_iff.mp hpush
  have hmiddle := (OperandStack.leads_pushAll? hleft).tidy hs
  exact (hb middle t hmiddle hright).bind ((ha s middle hs hleft).bind hf)

theorem computes_push {g : α → β → Value} (ha : Pops x left a) (hb : Pops y right b)
    (hv : size.Holds (g a b).slots (size.reduce n))
    (hroom : (g a b).slots.length ≤ (left ++ right).length) :
    Computes (y >>= fun b => x >>= fun a => push (g a b)) (left ++ right) size (some n) := by
  intro below s hbelow hpush
  obtain ⟨t, ht⟩ := exists_pushAll?_of_le hbelow hpush hroom
  exact ⟨(g a b).slots, t, hv, ht, transforms_of_pops ha hb hbelow hpush (transforms_push ht)⟩

/-- A division: the divisor is zero, or there is a quotient to push. -/
theorem computes_division [DecidableEq β] {z : β} {m : Int} {g : α → β → Value} (ha : Pops x left a)
    (hb : Pops y right b) (hzero : m = 0 ↔ b = z) (hv : size.Holds (g a b).slots (size.reduce n))
    (hroom : (g a b).slots.length ≤ (left ++ right).length) :
    Computes (y >>= fun b => x >>= fun a => if b = z then divisionByZero else push (g a b))
      (left ++ right) size
      (if m = 0 then none else some n) := by
  intro below s hbelow hpush
  by_cases hz : b = z
  · rw [if_pos (hzero.mpr hz)]
    refine transforms_of_pops ha hb hbelow hpush ?_
    rw [if_pos hz]
    exact transforms_divisionByZero below
  · rw [if_neg (mt hzero.mp hz)]
    obtain ⟨t, ht⟩ := exists_pushAll?_of_le hbelow hpush hroom
    refine ⟨(g a b).slots, t, hv, ht, transforms_of_pops ha hb hbelow hpush ?_⟩
    rw [if_neg hz]
    exact transforms_push ht

theorem computes_map {g : α → Value} (ha : Pops x slots a) (hv : size.Holds (g a).slots (size.reduce n))
    (hroom : (g a).slots.length ≤ slots.length) :
    Computes (x >>= fun a => push (g a)) slots size (some n) := by
  intro below s hbelow hpush
  obtain ⟨t, ht⟩ := exists_pushAll?_of_le hbelow hpush hroom
  exact ⟨(g a).slots, t, hv, ht, (ha below s hbelow hpush).bind (transforms_push ht)⟩

/-! ### Integers in slots -/

theorem holds_int (v : Int32) : IntegerSize.Holds .int (Value.int v).slots v.toInt := .int v

theorem holds_long (v : Int64) : IntegerSize.Holds .long (Value.long v).slots v.toInt := by
  rw [toInt_splitLong]
  exact .long ..

/-- What a long holds is held by the two halves of a word. -/
theorem IntegerSize.Holds.exists_long (h : IntegerSize.Holds .long slots n) :
    ∃ v : Int64, slots = (Value.long v).slots ∧ n = v.toInt := by
  cases h with
  | long low high =>
    refine ⟨joinLong low high, ?_, (toInt_joinLong low high).symm⟩
    rw [Value.slots, splitLong_joinLong]

theorem IntegerSize.Holds.exists_int (h : IntegerSize.Holds .int slots n) :
    ∃ v : Int32, slots = (Value.int v).slots ∧ n = v.toInt := by
  cases h with
  | int v => exact ⟨v, rfl, rfl⟩

/-- Integers are held in one way. -/
theorem IntegerSize.Holds.unique (h : size.Holds left n) (h' : size.Holds right n) : left = right := by
  cases size with
  | int =>
    obtain ⟨a, rfl, ha⟩ := h.exists_int
    obtain ⟨b, rfl, hb⟩ := h'.exists_int
    rw [Int32.toInt_inj.mp (ha.symm.trans hb)]
  | long =>
    obtain ⟨a, rfl, ha⟩ := h.exists_long
    obtain ⟨b, rfl, hb⟩ := h'.exists_long
    rw [Int64.toInt_inj.mp (ha.symm.trans hb)]

/-- What a word stands for is reduced already. -/
theorem toInt_eq_bmod_int {v : Int32} (h : v.toInt = n) : v.toInt = n.bmod (2 ^ 32) := by
  rw [← h]
  exact (BitVec.toInt_bmod_cancel v.toBitVec).symm

theorem toInt_eq_bmod_long {v : Int64} (h : v.toInt = n) : v.toInt = n.bmod (2 ^ 64) := by
  rw [← h]
  exact (BitVec.toInt_bmod_cancel v.toBitVec).symm

/-- An equation on words gives what is held. -/
theorem holds_int_of_eq {v : Int32} (h : v.toInt = n.bmod (2 ^ 32)) :
    IntegerSize.Holds .int (Value.int v).slots (IntegerSize.reduce .int n) := by
  have hreduce : IntegerSize.reduce .int n = v.toInt := h.symm
  rw [hreduce]
  exact holds_int v

theorem holds_long_of_eq {v : Int64} (h : v.toInt = n.bmod (2 ^ 64)) :
    IntegerSize.Holds .long (Value.long v).slots (IntegerSize.reduce .long n) := by
  have hreduce : IntegerSize.reduce .long n = v.toInt := h.symm
  rw [hreduce]
  exact holds_long v

/-! ### What instructions are made of -/

section

variable {a b : Int32} {c d : Int64}

theorem computes_onInts {f : Int32 → Int32 → Int32} (h : (f a b).toInt = n.bmod (2 ^ 32)) :
    Computes (onInts f) ((Value.int a).slots ++ (Value.int b).slots) .int (some n) :=
  computes_push (g := fun a b => .int (f a b)) (pops_int a) (pops_int b) (holds_int_of_eq h)
    (by simp [Value.slots])

theorem computes_onLongs {f : Int64 → Int64 → Int64} (h : (f c d).toInt = n.bmod (2 ^ 64)) :
    Computes (onLongs f) ((Value.long c).slots ++ (Value.long d).slots) .long (some n) :=
  computes_push (g := fun c d => .long (f c d)) (pops_long c) (pops_long d) (holds_long_of_eq h)
    (by simp [Value.slots])

theorem computes_onDividedInts {f : Int32 → Int32 → Int32} (h : (f a b).toInt = n.bmod (2 ^ 32)) :
    Computes (onDividedInts f) ((Value.int a).slots ++ (Value.int b).slots) .int (if b.toInt =
      0 then none else some n) :=
  computes_division (g := fun a b => .int (f a b)) (pops_int a) (pops_int b)
    (Int32.toInt_inj (y := 0)) (holds_int_of_eq h)
    (by simp [Value.slots])

theorem computes_onDividedLongs {f : Int64 → Int64 → Int64} (h : (f c d).toInt = n.bmod (2 ^ 64)) :
    Computes (onDividedLongs f) ((Value.long c).slots ++ (Value.long d).slots) .long
      (if d.toInt = 0 then none else some n) :=
  computes_division (g := fun c d => .long (f c d)) (pops_long c) (pops_long d)
    (Int64.toInt_inj (y := 0))
    (holds_long_of_eq h) (by simp [Value.slots])

theorem computes_shiftLong {f : Int64 → UInt64 → Int64}
    (h : (f c (b.toUInt32 &&& 63).toUInt64).toInt = n.bmod (2 ^ 64)) :
    Computes (shiftLong f) ((Value.long c).slots ++ (Value.int b).slots) .long (some n) := by
  unfold shiftLong pushLong
  exact computes_push (pops_long c) (pops_int b) (holds_long_of_eq h) (by simp [Value.slots])

/-- The sign of a comparison is that of the difference. -/
theorem toInt_signOf_compare (c d : Int64) :
    (signOf (compare c d)).toInt = (c.toInt - d.toInt).sign := by
  have hcompare : compare c d = if c < d then .lt else if c = d then .eq else .gt := rfl
  rcases Int.lt_trichotomy c.toInt d.toInt with hlt | heq | hgt
  · rw [hcompare, if_pos (Int64.lt_iff_toInt_lt.mpr hlt), Int.sign_eq_neg_one_of_neg (by omega)]
    rfl
  · rw [hcompare, Int64.toInt_inj.mp heq, if_neg (Int64.lt_irrefl), if_pos rfl, Int.sub_self]
    rfl
  · have hne : c ≠ d := fun heq => by rw [heq] at hgt; exact Int.lt_irrefl _ hgt
    rw [hcompare, if_neg (mt Int64.lt_iff_toInt_lt.mp (by omega)), if_neg hne,
      Int.sign_eq_one_of_pos (by omega)]
    rfl

theorem computes_compareLongs (c d : Int64) :
    Computes compareLongs ((Value.long c).slots ++ (Value.long d).slots) .int
      (some (c.toInt - d.toInt).sign) :=
  computes_push (g := fun c d => .int (signOf (compare c d))) (pops_long c) (pops_long d)
    (holds_int_of_eq (toInt_eq_bmod_int (toInt_signOf_compare c d))) (by simp [Value.slots])

end

variable (natives : Natives) (operands : Operands)

namespace ArithmeticKind

theorem computes_int (kind : ArithmeticKind) (a b : Int32) :
    Computes (execute natives ⟨kind.opcode .int, operands⟩)
      ((Value.int a).slots ++ (Value.int b).slots) .int
      (kind.exact .int a.toInt b.toInt) := by
  cases kind with
  | add => exact computes_onInts (Int32.toInt_add a b)
  | sub => exact computes_onInts (Int32.toInt_sub a b)
  | mul => exact computes_onInts (Int32.toInt_mul a b)
  | div => exact computes_onDividedInts (Int32.toInt_div a b)
  | rem => exact computes_onDividedInts (toInt_eq_bmod_int (Int32.toInt_mod a b))
  | shl => exact computes_onInts (toInt_shl32 a b)
  | shr => exact computes_onInts (toInt_eq_bmod_int (toInt_shr32 a b))
  | ushr => exact computes_onInts (toInt_ushr32 a b)
  | and => exact computes_onInts (toInt_eq_bmod_int (toInt_and a.toBitVec b.toBitVec))
  | or => exact computes_onInts (toInt_eq_bmod_int (toInt_or a.toBitVec b.toBitVec))
  | xor => exact computes_onInts (toInt_eq_bmod_int (toInt_xor a.toBitVec b.toBitVec))

/-- The instructions on two longs. -/
theorem computes_long (kind : ArithmeticKind) (hright : kind.right .long = .long) (a b : Int64) :
    Computes (execute natives ⟨kind.opcode .long, operands⟩)
      ((Value.long a).slots ++ (Value.long b).slots) .long
      (kind.exact .long a.toInt b.toInt) := by
  cases kind with
  | add => exact computes_onLongs (Int64.toInt_add a b)
  | sub => exact computes_onLongs (Int64.toInt_sub a b)
  | mul => exact computes_onLongs (Int64.toInt_mul a b)
  | div => exact computes_onDividedLongs (Int64.toInt_div a b)
  | rem => exact computes_onDividedLongs (toInt_eq_bmod_long (Int64.toInt_mod a b))
  | and => exact computes_onLongs (toInt_eq_bmod_long (toInt_and a.toBitVec b.toBitVec))
  | or => exact computes_onLongs (toInt_eq_bmod_long (toInt_or a.toBitVec b.toBitVec))
  | xor => exact computes_onLongs (toInt_eq_bmod_long (toInt_xor a.toBitVec b.toBitVec))
  | shl | shr | ushr => cases hright

/-- The instructions on a long and an int. -/
theorem computes_longShift (kind : ArithmeticKind) (hright : kind.right .long = .int)
    (a : Int64) (b : Int32) :
    Computes (execute natives ⟨kind.opcode .long, operands⟩)
      ((Value.long a).slots ++ (Value.int b).slots) .long
      (kind.exact .long a.toInt b.toInt) := by
  cases kind with
  | shl => exact computes_shiftLong (f := fun a distance => a <<< distance.toInt64) (toInt_shl64 a b)
  | shr =>
    exact computes_shiftLong (f := fun a distance => a >>> distance.toInt64)
      (toInt_eq_bmod_long (toInt_shr64 a b))
  | ushr => exact computes_shiftLong (toInt_ushr64 a b)
  | add | sub | mul | div | rem | and | or | xor => cases hright

end ArithmeticKind

/-- The instruction on any two operands. -/
theorem IntegerOperation.computes (op : IntegerOperation) {a b : Int} (ha : op.left.Holds left a)
    (hb : op.right.Holds right b) :
    Computes (execute natives ⟨op.opcode, operands⟩) (left ++ right) op.result (op.exact a b) := by
  cases op with
  | compareLongs =>
    obtain ⟨c, rfl, rfl⟩ := ha.exists_long
    obtain ⟨d, rfl, rfl⟩ := hb.exists_long
    exact computes_compareLongs c d
  | arithmetic kind size =>
    cases size with
    | int =>
      have hright : kind.right .int = .int := by cases kind <;> rfl
      rw [IntegerOperation.right, hright] at hb
      obtain ⟨c, rfl, rfl⟩ := ha.exists_int
      obtain ⟨d, rfl, rfl⟩ := hb.exists_int
      exact kind.computes_int natives operands c d
    | long =>
      obtain ⟨c, rfl, rfl⟩ := ha.exists_long
      rcases hright : kind.right .long with _ | _ <;> rw [IntegerOperation.right, hright] at hb
      · obtain ⟨d, rfl, rfl⟩ := hb.exists_int
        exact kind.computes_longShift natives operands hright c d
      · obtain ⟨d, rfl, rfl⟩ := hb.exists_long
        exact kind.computes_long natives operands hright c d

theorem IntegerOperation.exact_eq_none_iff (op : IntegerOperation) (a b : Int) :
    op.exact a b = none ↔ op.Divides ∧ b = 0 := by
  rcases op with ⟨_ | _ | _ | _ | _ | _ | _ | _ | _ | _ | _, size⟩ | _ <;>
    simp [exact, ArithmeticKind.exact, Divides]

theorem computes_negation (size : IntegerSize) (ha : size.Holds slots n) :
    Computes (execute natives ⟨size.negation, operands⟩) slots size (some (-n)) := by
  cases size with
  | int =>
    obtain ⟨a, rfl, rfl⟩ := ha.exists_int
    exact computes_map (g := fun a => .int (-a)) (pops_int a) (holds_int_of_eq (Int32.toInt_neg a))
      (by simp [Value.slots])
  | long =>
    obtain ⟨a, rfl, rfl⟩ := ha.exists_long
    exact computes_map (g := fun a => .long (-a)) (pops_long a) (holds_long_of_eq (Int64.toInt_neg a))
      (by simp [Value.slots])

/-! ### Adding to a local variable -/

theorem outcome_increment {r : Running} {top : Frame} {callers : List Frame} {index : Nat}
    {a : Int32} (constant : Int32)
    (hframes : r.thread.frames = top :: callers) (hlocal : top.locals.slot? index = some (.num a)) :
    ∃ locals, top.locals.set? index (.num (a + constant)) = some locals ∧
      outcome (increment index constant) r =
      (.ok ⟨⟩, ⟨r.machine, { r.thread with frames := { top with locals } :: callers }⟩) := by
  obtain ⟨hlt, -⟩ := Array.getElem?_eq_some_iff.mp hlocal
  refine ⟨_, dif_pos hlt, ?_⟩
  have hget : outcome (getLocal index) r = (.ok (.num a), r) := by
    obtain ⟨machine, pc, maxDepth, frames, returnValue⟩ := r
    cases hframes
    rw [getLocal, outcome_onFrame]
    dsimp only
    rw [hlocal]
    rfl
  rw [increment, outcome_bind_of_ok hget, setLocal, outcome_onFrame, hframes]
  dsimp only
  rw [SlotTable.set?, dif_pos hlt]
  rfl

/-! ### Quotients and remainders -/

theorem IntegerSize.Holds.reduce_eq (h : size.Holds slots n) : size.reduce n = n := by
  cases size with
  | int =>
    obtain ⟨a, -, rfl⟩ := h.exists_int
    exact (toInt_eq_bmod_int rfl).symm
  | long =>
    obtain ⟨a, -, rfl⟩ := h.exists_long
    exact (toInt_eq_bmod_long rfl).symm

/-- A remainder needs no reduction. -/
theorem IntegerSize.Holds.reduce_tmod {m : Int} (hm : size.Holds left m) (hn : size.Holds right n) :
    size.reduce (m.tmod n) = m.tmod n := by
  cases size with
  | int =>
    obtain ⟨a, -, rfl⟩ := hm.exists_int
    obtain ⟨b, -, rfl⟩ := hn.exists_int
    exact (Int32.toInt_mod a b) ▸ (toInt_eq_bmod_int rfl).symm
  | long =>
    obtain ⟨a, -, rfl⟩ := hm.exists_long
    obtain ⟨b, -, rfl⟩ := hn.exists_long
    exact (Int64.toInt_mod a b) ▸ (toInt_eq_bmod_long rfl).symm

/-- How the quotient and the remainder that are left on the stack are related to the operands. -/
theorem IntegerSize.Holds.division {m : Int} (hm : size.Holds left m)
    (hn : size.Holds right n) (hzero : n ≠ 0) :
    size.reduce (size.reduce (m.tdiv n) * n + size.reduce (m.tmod n)) = m ∧
      (size.reduce (m.tmod n)).natAbs < n.natAbs ∧
      (size.reduce (m.tmod n) = 0 ∨ (size.reduce (m.tmod n)).sign = m.sign) := by
  rw [hm.reduce_tmod hn]
  refine ⟨?_, ?_, ?_⟩
  · have hexact : size.reduce (size.reduce (m.tdiv n) * n + m.tmod n) = size.reduce
        (m.tdiv n * n + m.tmod n) := by
      rw [reduce, reduce, ← Int.bmod_add_bmod, Int.bmod_mul_bmod, Int.bmod_add_bmod, reduce]
    rw [hexact, Int.mul_comm, Int.mul_tdiv_add_tmod, hm.reduce_eq]
  · rw [Int.natAbs_tmod]
    exact Nat.mod_lt _ (Int.natAbs_pos.mpr hzero)
  · by_cases hdvd : n ∣ m
    · exact .inl (Int.tmod_eq_zero_of_dvd hdvd)
    · rw [Int.sign_tmod, if_neg hdvd]
      exact .inr rfl

/-- The least integer of a size is its own quotient by -1. -/
theorem IntegerSize.least_div_neg_one (size : IntegerSize) :
    size.reduce ((-2 ^ (size.bits - 1)).tdiv (-1)) = -2 ^ (size.bits - 1) ∧
      size.reduce ((-2 ^ (size.bits - 1)).tmod (-1)) = 0 := by
  cases size <;> decide

/-- Whatever integers the operands hold, the instructions compute with these integers. An
instruction on two of them leaves their exact result, reduced to its size, and raises an exception
where there is none, which is for a zero divisor. A negation does so too, and an increment, be it
wide or not, puts the reduced sum in the local variable. The reduced quotient and the remainder make
the dividend again, and the remainder is smaller than the divisor and has the sign of the dividend.
-/
theorem integers_are_exact (natives : Natives) (operands : Operands) :
    (∀ (op : IntegerOperation) (left right : List Slot) (a b : Int), op.left.Holds left a →
      op.right.Holds right b →
      Computes (execute natives ⟨op.opcode, operands⟩) (left ++ right) op.result (op.exact a b) ∧
      (op.exact a b = none ↔ op.Divides ∧ b = 0)) ∧
    (∀ (size : IntegerSize) (slots : List Slot) (a : Int), size.Holds slots a →
      Computes (execute natives ⟨size.negation, operands⟩) slots size (some (-a))) ∧
    (∀ (index : UInt16) (constant : Int16) (i : Instruction),
      i = ⟨.iinc, .increment index constant⟩ ∨ i = ⟨.wide, .wide .iinc index (some constant)⟩ →
      ∀ (r : Running) (top : Frame) (callers : List Frame) (slot : Slot) (a : Int),
        r.thread.frames = top :: callers →
        top.locals.slot? index.toNat = some slot → IntegerSize.Holds .int [slot] a →
        ∃ sum locals, IntegerSize.Holds .int [sum] (IntegerSize.reduce .int (a + constant.toInt)) ∧
          top.locals.set? index.toNat sum = some locals ∧ outcome (execute natives i) r =
            (.ok ⟨⟩, ⟨r.machine, { r.thread with frames := { top with locals } :: callers }⟩)) ∧
    (∀ (size : IntegerSize) (left right : List Slot) (a b : Int), size.Holds left a →
      size.Holds right b → b ≠ 0 →
      size.reduce (size.reduce (a.tdiv b) * b + size.reduce (a.tmod b)) = a ∧
      (size.reduce (a.tmod b)).natAbs < b.natAbs ∧
      (size.reduce (a.tmod b) = 0 ∨ (size.reduce (a.tmod b)).sign = a.sign)) ∧
    ∀ size : IntegerSize, size.reduce ((-2 ^ (size.bits - 1)).tdiv (-1)) = -2 ^ (size.bits - 1) ∧
      size.reduce ((-2 ^ (size.bits - 1)).tmod (-1)) = 0 := by
  refine ⟨fun op left right a b ha hb => ⟨op.computes natives operands ha hb, op.exact_eq_none_iff a b⟩,
    fun size slots a ha => computes_negation natives operands size ha, ?_,
    fun size left right a b ha hb hzero => ha.division hb hzero, IntegerSize.least_div_neg_one⟩
  intro index constant i hi r top callers slot a hframes hlocal ha
  cases ha with
  | int a =>
    obtain ⟨locals, hset, hincrement⟩ := outcome_increment constant.toInt32 hframes hlocal
    refine ⟨.num (a + constant.toInt32), locals, ?_, hset, ?_⟩
    · rw [← Int16.toInt_toInt32]
      exact holds_int_of_eq (Int32.toInt_add a constant.toInt32)
    · have hform : execute natives i = increment index.toNat constant.toInt32 := by
        rcases hi with rfl | rfl <;> exact incrementNamed_eq .iinc index constant
      rw [hform, hincrement]

/-- The least long is divided by -1 and by zero. -/
theorem integers_are_exact_ldiv :
    Transforms (execute .standard ⟨.ldiv, .none⟩)
      ⟨#[.num 0, .num (-2147483648), .num (-1), .num (-1)], 4⟩
      (.ok ⟨⟩) ⟨#[.num 0, .num (-2147483648), .zero, .zero], 2⟩ ∧
    Transforms (execute .standard ⟨.ldiv, .none⟩) ⟨#[.num 0, .num (-2147483648), .num 0, .num 0], 4⟩
      (.error (.fault (.exception ExceptionName.arithmetic "/ by zero"))) (.empty 4) := by
  have hbelow := OperandStack.tidy_empty 4
  have hleast : IntegerSize.Holds .long [.num 0, .num (-2147483648)] (-2 ^ 63) := .long 0 (-2147483648)
  have hone : IntegerSize.Holds .long [.num (-1), .num (-1)] (-1) := .long (-1) (-1)
  have hzero : IntegerSize.Holds .long [.num 0, .num 0] 0 := .long 0 0
  have hall := (integers_are_exact .standard .none).1 (.arithmetic .div .long)
  refine ⟨?_, (hall _ _ _ _ hleast hzero).1 (.empty 4) _ hbelow rfl⟩
  obtain ⟨slots, t, hheld, hpush, hstack⟩ := (hall _ _ _ _ hleast hone).1 (.empty 4) _ hbelow rfl
  obtain rfl : slots = [.num 0, .num (-2147483648)] := hheld.unique hleast
  cases hpush
  exact hstack

end Exec

end JavaMachine
