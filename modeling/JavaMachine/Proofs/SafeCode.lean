import JavaMachine.Proofs.Careful
import JavaMachine.Proofs.Steadiness

/-!
Code keeps machines safe.

Every instruction is careful with the thread that it runs on (`careful_execute`): what it takes from
the operand stack and the local variables is there, and so is what it puts on them. Throwing and
calling are careful in the same way. So a thread that starts without references never gets a
dangling one, and what its instructions store in arrays fits.
-/

namespace JavaMachine

variable {α β : Type} [References α] [References β] {n n' : Nat} {natives : Natives}

/-- A safe machine, and a thread whose references are there. -/
structure Running.Safe (s : Running) : Prop where
  machine : s.machine.Safe
  thread : extent s.thread ≤ s.machine.heap.size

namespace Exec

variable {s t : Running}

/-- What is left of a safe state, and given, by a step of execution that ends. -/
structure Secured (s : Running) (gives : Running → α → Prop) (r : Except Failure α)
    (t : Running) : Prop where
  safe : t.Safe
  remembers : s.machine.Remembers t.machine
  there : extent r ≤ t.machine.heap.size
  given : ∀ a, r = .ok a → gives t a

/-- A step of execution on `s` that keeps it safe, with what its result is said to be. -/
def SecureTo (s : Running) (x : Exec α) (gives : Running → α → Prop) : Prop :=
  s.Safe → ∀ r t, outcome x s = (r, t) → Completes r → Secured s gives r t

/-- A step of execution on `s` that keeps it safe. -/
abbrev SecureOn (s : Running) (x : Exec α) : Prop := SecureTo s x fun _ _ => True

namespace SecureTo

variable {x : Exec α} {gives gives' : Running → α → Prop} {then' : Running → β → Prop}

theorem pure {a : α} (hthere : extent a ≤ s.machine.heap.size) (h : s.Safe → gives s a) :
    SecureTo s (pure a) gives :=
  fun hs r t hrun _ => by
    cases hrun
    exact ⟨hs, .refl _, hthere, fun b hb => by cases hb; exact h hs⟩

theorem throw {e : Failure} (h : extent e ≤ s.machine.heap.size) : SecureTo s (throw e) gives :=
    fun hs r t hrun _ => by
  cases hrun
  exact ⟨hs, .refl _, h, fun b hb => by cases hb⟩

theorem bind {f : α → Exec β} (first : SecureTo s x gives)
    (second : ∀ a t, t.Safe → s.machine.Remembers t.machine →
      extent a ≤ t.machine.heap.size → gives t a →
      SecureTo t (f a) then') : SecureTo s (x >>= f) then' := by
  intro hs r t hrun hr
  obtain ⟨fault, hx, rfl⟩ | ⟨a, u, hx, hrun⟩ := outcome_bind_completes hrun hr
  · have hfirst := first hs _ _ hx trivial
    exact ⟨hfirst.safe, hfirst.remembers, hfirst.there, fun b hb => by cases hb⟩
  · have hfirst := first hs _ _ hx trivial
    have hsecond := second a u hfirst.safe hfirst.remembers hfirst.there (hfirst.given a rfl)
      hfirst.safe r t hrun hr
    exact ⟨hsecond.safe, hfirst.remembers.trans hsecond.remembers, hsecond.there, hsecond.given⟩

omit [References α] in
/-- What a step reads of the state is not asked for again. -/
theorem reads {f : α → Exec β} {a : α} (hread : outcome x s = (.ok a, s))
    (second : SecureTo s (f a) then') :
    SecureTo s (x >>= f) then' := by
  intro hs r t hrun hr
  rw [outcome_bind_of_ok hread] at hrun
  exact second hs r t hrun hr

theorem weaken (h : SecureTo s x gives) (hgives : ∀ t a, gives t a → gives' t a) :
    SecureTo s x gives' :=
  fun hs r t hrun hr =>
    have hsecured := h hs r t hrun hr
    ⟨hsecured.safe, hsecured.remembers, hsecured.there, fun a ha => hgives t a (hsecured.given a ha)⟩

/-- The state is safe at first. -/
theorem assuming (h : s.Safe → SecureTo s x gives) : SecureTo s x gives := fun hs => h hs hs

/-- A step on the machine leaves the thread alone. -/
theorem lift {x : VM α} {gives : Machine → α → Prop} (h : VM.SecureTo s.machine x gives) :
    SecureTo s (liftM x : Exec α) fun t a => gives t.machine a := fun hs r t hrun hr => by
  rw [outcome_lift] at hrun
  cases hrun
  have hsecured := h hs.machine _ _ rfl hr
  exact ⟨⟨hsecured.safe, Nat.le_trans hs.thread hsecured.remembers.heap⟩,
    hsecured.remembers, hsecured.there, hsecured.given⟩

theorem attempt (h : SecureTo s x gives) :
    SecureTo s (attempt x) fun t result => ∀ a, result = .ok a → gives t a := by
  intro hs r t hrun hr
  obtain ⟨fault, hx, rfl⟩ | ⟨a, hx, rfl⟩ := outcome_attempt_completes hrun hr
  · have hsecured := h hs _ _ hx trivial
    exact ⟨hsecured.safe, hsecured.remembers, hsecured.there, fun _ hb _ ha => by cases hb; cases ha⟩
  · have hsecured := h hs _ _ hx trivial
    exact ⟨hsecured.safe, hsecured.remembers, hsecured.there, fun _ hb _ ha => by
      cases hb
      cases ha
      exact hsecured.given _ rfl⟩

/-- A change of the thread that takes no dangling reference. -/
theorem modifyThread {change : Thread → Thread} (h : extent s.thread ≤ s.machine.heap.size →
    extent (change s.thread) ≤ s.machine.heap.size) : SecureOn s (modifyThread change) :=
    fun hs r t hrun _ => by
  cases hrun
  exact ⟨⟨hs.machine, h hs.thread⟩, .refl _, Nat.zero_le _, fun _ _ => trivial⟩

/-- A change of the top frame that takes no dangling reference. -/
theorem onFrame {step : Frame → Option (α × Frame)} (h : ∀ f a f', extent f ≤ s.machine.heap.size →
    step f = some (a, f') → extent a ≤ s.machine.heap.size ∧ extent f' ≤ s.machine.heap.size) :
    SecureOn s (onFrame step) := fun hs r t hrun hr => by
  rw [outcome_onFrame] at hrun
  rcases hframes : s.thread.frames with _ | ⟨top, callers⟩ <;> rw [hframes] at hrun
  · cases hrun
    exact ⟨hs, .refl _, Nat.zero_le _, fun _ _ => trivial⟩
  · obtain ⟨hall, hvalue⟩ := Thread.extent_le.mp hs.thread
    rw [hframes] at hall
    obtain ⟨htop, hcallers⟩ := List.forall_mem_cons.mp hall
    dsimp only at hrun
    rcases hstep : step top with _ | ⟨a, top'⟩ <;> rw [hstep] at hrun <;> cases hrun
    · exact hr.elim
    · obtain ⟨ha, htop'⟩ := h top a top' htop hstep
      exact ⟨⟨hs.machine, Thread.extent_le.mpr ⟨List.forall_mem_cons.mpr ⟨htop', hcallers⟩,
        hvalue⟩⟩, .refl _, ha, fun _ _ => trivial⟩

theorem pushFrame {frame : Frame} (h : extent frame ≤ s.machine.heap.size) :
    SecureOn s (pushFrame frame) :=
  fun hs r t hrun _ => by
    rw [outcome_pushFrame] at hrun
    split at hrun <;> cases hrun
    · exact ⟨hs, .refl _, Nat.zero_le _, fun _ _ => trivial⟩
    · obtain ⟨hall, hvalue⟩ := Thread.extent_le.mp hs.thread
      exact ⟨⟨hs.machine, Thread.extent_le.mpr ⟨List.forall_mem_cons.mpr ⟨h, hall⟩, hvalue⟩⟩,
        .refl _, Nat.zero_le _, fun _ _ => trivial⟩

end SecureTo

omit [References α] in
/-- A step on the machine fails as it does there. -/
theorem failsOnly_lift {p : Failure → Prop} {x : VM α} (h : FailsOnly p x) :
    FailsOnly p (liftM x : Exec α) :=
  fun s e t hrun => by
    rw [outcome_lift] at hrun
    rcases hx : outcome x s.machine with ⟨e' | a, m⟩ <;> rw [hx] at hrun <;> cases hrun
    exact h _ _ _ hx

/-- A careful step of execution, on a machine that has the first `n` objects. -/
structure Careful (natives : Natives) (n : Nat) (x : Exec α) : Prop where
  accounts : FailsOnly natives.Accounts x
  secure : natives.Guarded → ∀ s, n ≤ s.machine.heap.size → SecureOn s x

namespace Careful

variable {x : Exec α}

theorem pure {a : α} (h : extent a ≤ n) : Careful natives n (pure a : Exec α) :=
  ⟨.pure a, fun _ _ hn => .pure (Nat.le_trans h hn) fun _ => trivial⟩

theorem throw {e : Failure} (haccounts : natives.Accounts e) (h : extent e ≤ n) :
    Careful natives n (throw e : Exec α) :=
  ⟨.throw haccounts, fun _ _ hn => .throw (Nat.le_trans h hn)⟩

theorem bind {f : α → Exec β} (hx : Careful natives n x)
    (hf : ∀ n' a, n ≤ n' → extent a ≤ n' → Careful natives n' (f a)) : Careful natives n (x >>= f) where
  accounts := .bind hx.accounts fun a =>
    (hf (max n (extent a)) a (Nat.le_max_left _ _) (Nat.le_max_right _ _)).accounts
  secure hnatives s hn := .bind (hx.secure hnatives s hn) fun a t _ hremembers ha _ =>
    (hf t.machine.heap.size a (Nat.le_trans hn hremembers.heap) ha).secure hnatives t (Nat.le_refl _)

/-- One step after the other, if it does not matter what the first one gives. -/
theorem andThen {f : α → Exec β} (hx : Careful natives n x) (hf : ∀ n' a, Careful natives n' (f a)) :
    Careful natives n (x >>= f) := hx.bind fun n' a _ _ => hf n' a

theorem lift {x : VM α} (h : VM.Careful natives n x) : Careful natives n (liftM x : Exec α) where
  accounts := failsOnly_lift h.accounts
  secure hnatives s hn := (SecureTo.lift (h.secure hnatives s.machine hn)).weaken fun _ _ _ => trivial

/-- What leaves arrays alone is careful. -/
theorem discreet {x : VM α} (htame : VM.Tame .none x) (h : VM.Discreet n x) :
    Careful natives n (liftM x : Exec α) :=
  lift (.of_discreet htame h)

theorem thread : Careful natives n thread :=
  ⟨.of_ok fun s => ⟨_, _, outcome_thread⟩, fun _ s _ hs r t hrun _ => by
    cases hrun
    exact ⟨hs, .refl _, hs.thread, fun _ _ => trivial⟩⟩

theorem machine : Careful natives n machine := lift .get

theorem onFrame {step : Frame → Option (α × Frame)}
    (h : ∀ k f a f', n ≤ k → extent f ≤ k → step f = some (a, f') →
    extent a ≤ k ∧ extent f' ≤ k) : Careful natives n (onFrame step) where
  accounts s e t hrun := by
    rw [outcome_onFrame] at hrun
    split at hrun
    · cases hrun
      exact trivial
    · split at hrun <;> cases hrun
      exact trivial
  secure _ s hn := .onFrame fun f a f' => h s.machine.heap.size f a f' hn

theorem pushFrame {frame : Frame} (h : extent frame ≤ n) : Careful natives n (pushFrame frame) where
  accounts s e t hrun := by
    rw [outcome_pushFrame] at hrun
    split at hrun <;> cases hrun
    exact trivial
  secure _ s hn := .pushFrame (Nat.le_trans h hn)

theorem fail {fault : Fault} (h : fault.Ordinary) : Careful natives n (fail fault : Exec α) :=
  throw (Natives.accounts_of_ordinary h) (Failure.Ordinary.extent_le h)

@[simp]
theorem unsupported (feature : String) :
    Careful natives n (Exec.fail (.unsupported feature) : Exec α) := fail trivial

theorem raise (className message : String) : Careful natives n (raise className message : Exec α) :=
  fail trivial

omit [References α] in
/-- Nothing comes after an exception. -/
theorem raised {className message : String} {f : α → Exec β} :
    Careful natives n (Exec.raise className message >>= f) :=
  throw (e := .fault (.exception className message)) trivial (Nat.zero_le _)

theorem check {c : Prop} [Decidable c] {x y : Exec β} (hx : Careful natives n x)
    (hy : Careful natives n y) :
    Careful natives n (if c then x else y) := by
  split
  · exact hx
  · exact hy

/-! ### Frames and operands -/

theorem frame : Careful natives n frame := onFrame fun _ _ _ _ _ hf h => by cases h; exact ⟨hf, hf⟩

theorem modifyFrame {change : Frame → Frame} (h : ∀ k f, extent f ≤ k → extent (change f) ≤ k) :
    Careful natives n (modifyFrame change) := onFrame fun k f _ _ _ hf heq => by
  cases heq
  exact ⟨Nat.zero_le _, h k f hf⟩

theorem goOn (position : UInt64) :
    Careful natives n (Exec.modifyFrame ({ · with nextPc := position })) :=
  modifyFrame fun _ _ h => h

theorem branch (offset : Int32) : Careful natives n (branch offset) :=
  .andThen thread fun _ _ => modifyFrame fun _ _ h => h

theorem onStack {step : OperandStack → Option (α × OperandStack)} (h : ∀ k s a t, n ≤ k → extent s ≤ k →
    step s = some (a, t) → extent a ≤ k ∧ extent t ≤ k) : Careful natives n (onStack step) :=
  onFrame fun k f a f' hn hf hstep => by
    obtain ⟨⟨_, stack⟩, hstack, heq⟩ := Option.map_eq_some_iff.mp hstep
    cases heq
    obtain ⟨hlocals, hs⟩ := Frame.extent_le.mp hf
    obtain ⟨ha, ht⟩ := h k f.stack a stack hn hs hstack
    exact ⟨ha, Frame.extent_le.mpr ⟨hlocals, ht⟩⟩

theorem pops {step : OperandStack → Option (α × OperandStack)} (h : OperandStack.KeepsExtent step) :
    Careful natives n (Exec.onStack step) := onStack fun _ _ _ _ _ hs hstep => h hs hstep

theorem changeStack {change : OperandStack → Option OperandStack} (h : ∀ k s t, n ≤ k → extent s ≤ k →
    change s = some t → extent t ≤ k) : Careful natives n (changeStack change) :=
    onStack fun k s _ t hn hs hstep => by
  obtain ⟨u, hchange, heq⟩ := Option.map_eq_some_iff.mp hstep
  cases heq
  exact ⟨Nat.zero_le _, h k s _ hn hs hchange⟩

theorem popSlot : Careful natives n popSlot := pops OperandStack.keepsExtent_pop?
theorem popInt : Careful natives n popInt := pops OperandStack.keepsExtent_popInt?
theorem popLong : Careful natives n popLong := pops OperandStack.keepsExtent_popLong?
theorem popFloat : Careful natives n popFloat := pops OperandStack.keepsExtent_popFloat?
theorem popDouble : Careful natives n popDouble := pops OperandStack.keepsExtent_popDouble?
theorem popReference : Careful natives n popReference := pops OperandStack.keepsExtent_popReference?
theorem popMany (count : Nat) : Careful natives n (popMany count) :=
  pops (OperandStack.keepsExtent_popMany? count)

theorem pushSlot {slot : Slot} (h : extent slot ≤ n) : Careful natives n (pushSlot slot) :=
  changeStack fun _ _ _ hn hs => OperandStack.extent_push? hs (Nat.le_trans h hn)

theorem pushSlots {slots : List Slot} (h : extent slots ≤ n) : Careful natives n (pushSlots slots) :=
  changeStack fun _ _ _ hn hs => OperandStack.extent_pushAll? hs (Nat.le_trans h hn)

theorem push {value : Value} (h : extent value ≤ n) : Careful natives n (push value) :=
  changeStack fun _ _ _ hn hs => OperandStack.extent_pushValue? hs (Nat.le_trans h hn)

@[simp]
theorem pushInt (v : Int32) : Careful natives n (pushInt v) := push (Nat.zero_le _)

@[simp]
theorem pushLong (v : Int64) : Careful natives n (pushLong v) := push (Nat.zero_le _)

@[simp]
theorem pushFloat (bits : UInt32) : Careful natives n (pushFloat bits) := push (Nat.zero_le _)

@[simp]
theorem pushDouble (bits : UInt64) : Careful natives n (pushDouble bits) := push (Nat.zero_le _)

theorem pushReference {r : Option Address} (h : extent r ≤ n) :
    Careful natives n (pushReference r) := push h

@[simp]
theorem pushNull : Careful natives n (Exec.pushReference none) := pushReference (Nat.zero_le _)

theorem topReference (depth : Nat) : Careful natives n (topReference depth) :=
    onStack fun _ _ _ _ _ hs h => by
  obtain ⟨_, htop, heq⟩ := Option.map_eq_some_iff.mp h
  cases heq
  exact ⟨OperandStack.extent_topReference? hs htop, hs⟩

theorem popObject (problem : String) : Careful natives n (popObject problem) :=
  bind popReference fun _ r _ hr => by
    split
    · exact pure hr
    · exact raise _ _

theorem popCount : Careful natives n popCount :=
  andThen popInt fun _ count => by
    dsimp only
    split
    · exact raised
    · exact pure (Nat.zero_le _)

theorem getLocal (index : Nat) : Careful natives n (getLocal index) := onFrame fun _ _ _ _ _ hf h => by
  obtain ⟨slot, hslot, heq⟩ := Option.map_eq_some_iff.mp h
  cases heq
  exact ⟨SlotTable.extent_slot? (Frame.extent_le.mp hf).1 hslot, hf⟩

theorem setLocal (index : Nat) {slot : Slot} (h : extent slot ≤ n) :
    Careful natives n (setLocal index slot) :=
  onFrame fun k f _ _ hn hf hset => by
    obtain ⟨locals, hlocals, heq⟩ := Option.map_eq_some_iff.mp hset
    cases heq
    obtain ⟨hbefore, hstack⟩ := Frame.extent_le.mp hf
    exact ⟨Nat.zero_le _,
      Frame.extent_le.mpr ⟨SlotTable.extent_set? hbefore (Nat.le_trans h hn) hlocals, hstack⟩⟩

@[simp]
theorem badOperands (i : Instruction) : Careful natives n (badOperands i : Exec α) :=
  throw trivial (Nat.zero_le _)

@[simp]
theorem wrongGroup (i : Instruction) : Careful natives n (wrongGroup i : Exec α) :=
  throw trivial (Nat.zero_le _)

theorem operand (i : Instruction) {a? : Option α} (h : ∀ a, a? = some a → extent a ≤ n) :
    Careful natives n (operand i a?) := by
  cases a? with
  | none => exact badOperands i
  | some a => exact pure (h a rfl)

theorem poolIndex (i : Instruction) : Careful natives n (poolIndex i) :=
  operand i fun _ _ => Nat.zero_le _
theorem localIndex (i : Instruction) : Careful natives n (localIndex i) :=
  operand i fun _ _ => Nat.zero_le _
theorem offset (i : Instruction) : Careful natives n (offset i) := operand i fun _ _ => Nat.zero_le _
theorem owner : Careful natives n owner := andThen frame fun _ _ => pure (Nat.zero_le _)

/-! ### Constants, local variables and the operand stack -/

@[simp]
theorem pushImmediate (i : Instruction) : Careful natives n (pushImmediate i) :=
  andThen frame fun _ _ => by
    split
    · exact push (Nat.zero_le _)
    · exact push (Nat.zero_le _)
    · exact badOperands i

theorem loadConstant (i : Instruction) {value? : Constant → Option (VM Value)}
    (h : ∀ k constant value, value? constant = some value → VM.Careful natives k value) :
    Careful natives n (loadConstant i value?) :=
  andThen owner fun _ owner => andThen (poolIndex i) fun _ index =>
    andThen (discreet (.constantAt owner index) (.constantAt owner index)) fun _ constant => by
      split
      · exact .bind (lift (h _ _ _ ‹_›)) fun _ value _ hvalue => push hvalue
      · exact fail trivial

@[simp]
theorem loadNarrow (i : Instruction) : Careful natives n (Exec.loadConstant i Exec.narrowConstant?) :=
  loadConstant i fun k constant value h => by
    unfold Exec.narrowConstant? at h
    split at h <;> cases h
    · exact .pure (Nat.zero_le _)
    · exact .pure (Nat.zero_le _)
    · exact .bind (.of_discreet (.intern _) (.intern _)) fun _ _ _ hstring => .pure hstring

@[simp]
theorem loadWide (i : Instruction) : Careful natives n (Exec.loadConstant i Exec.wideConstant?) :=
  loadConstant i fun k constant value h => by
    unfold Exec.wideConstant? at h
    split at h <;> cases h
    · exact .pure (Nat.zero_le _)
    · exact .pure (Nat.zero_le _)

@[simp]
theorem loadOne (index : Nat) : Careful natives n (loadOne index) :=
  bind (getLocal index) fun _ _ _ h => pushSlot h

@[simp]
theorem loadTwo (index : Nat) : Careful natives n (loadTwo index) :=
  andThen (loadOne _) fun _ _ => loadOne _

@[simp]
theorem storeOne (index : Nat) : Careful natives n (storeOne index) :=
  bind popSlot fun _ _ _ h => setLocal _ h

@[simp]
theorem storeTwo (index : Nat) : Careful natives n (storeTwo index) :=
  andThen (storeOne _) fun _ _ => storeOne _

@[simp]
theorem loadNamed (i : Instruction) {load : Nat → Exec Unit}
    (h : ∀ k index, Careful natives k (load index)) :
    Careful natives n (loadNamed i load) :=
  andThen frame fun _ _ => andThen (localIndex i) fun k index => h k index

@[simp]
theorem incrementNamed (i : Instruction) : Careful natives n (incrementNamed i) :=
  andThen frame fun _ _ => by
    split
    · exact andThen (getLocal _) fun _ _ => setLocal _ (Nat.zero_le _)
    · exact badOperands i

@[simp]
theorem shuffle (s : Shuffle) : Careful natives n (shuffle s) :=
  changeStack fun _ _ _ _ => OperandStack.extent_shuffle?

/-! ### Arithmetic -/

@[simp]
theorem onInts (f : Int32 → Int32 → Int32) : Careful natives n (onInts f) :=
  andThen popInt fun _ _ => andThen popInt fun _ _ => pushInt _

@[simp]
theorem onLongs (f : Int64 → Int64 → Int64) : Careful natives n (onLongs f) :=
  andThen popLong fun _ _ => andThen popLong fun _ _ => pushLong _

@[simp]
theorem onFloats (f : UInt32 → UInt32 → UInt32) : Careful natives n (onFloats f) :=
  andThen popFloat fun _ _ => andThen popFloat fun _ _ => pushFloat _

@[simp]
theorem onDoubles (f : UInt64 → UInt64 → UInt64) : Careful natives n (onDoubles f) :=
  andThen popDouble fun _ _ => andThen popDouble fun _ _ => pushDouble _

@[simp]
theorem onDividedInts (f : Int32 → Int32 → Int32) : Careful natives n (onDividedInts f) :=
  andThen popInt fun _ _ => andThen popInt fun _ _ => check (raise _ _) (pushInt _)

@[simp]
theorem onDividedLongs (f : Int64 → Int64 → Int64) : Careful natives n (onDividedLongs f) :=
  andThen popLong fun _ _ => andThen popLong fun _ _ => check (raise _ _) (pushLong _)

@[simp]
theorem shiftInt (f : Int32 → UInt32 → Int32) : Careful natives n (shiftInt f) := onInts _

@[simp]
theorem shiftLong (f : Int64 → UInt64 → Int64) : Careful natives n (shiftLong f) :=
  andThen popInt fun _ _ => andThen popLong fun _ _ => pushLong _

@[simp]
theorem compareLongs : Careful natives n compareLongs :=
  andThen popLong fun _ _ => andThen popLong fun _ _ => pushInt _

@[simp]
theorem compareFloats (unordered : Int32) : Careful natives n (compareFloats unordered) :=
  andThen popFloat fun _ _ => andThen popFloat fun _ _ => pushInt _

@[simp]
theorem compareDoubles (unordered : Int32) : Careful natives n (compareDoubles unordered) :=
  andThen popDouble fun _ _ => andThen popDouble fun _ _ => pushInt _

@[simp]
theorem mapInt {f : Int32 → Value} (h : ∀ v, extent (f v) = 0) : Careful natives n (mapInt f) :=
  andThen popInt fun _ _ => push (extent_le_of_zero (h _))

@[simp]
theorem mapLong {f : Int64 → Value} (h : ∀ v, extent (f v) = 0) : Careful natives n (mapLong f) :=
  andThen popLong fun _ _ => push (extent_le_of_zero (h _))

@[simp]
theorem mapFloat {f : UInt32 → Value} (h : ∀ bits, extent (f bits) = 0) :
    Careful natives n (mapFloat f) :=
  andThen popFloat fun _ _ => push (extent_le_of_zero (h _))

@[simp]
theorem mapDouble {f : UInt64 → Value} (h : ∀ bits, extent (f bits) = 0) :
    Careful natives n (mapDouble f) :=
  andThen popDouble fun _ _ => push (extent_le_of_zero (h _))

/-! ### Branches -/

theorem branchIf (i : Instruction) (condition : Bool) : Careful natives n (branchIf i condition) :=
  check (andThen (offset i) fun _ _ => branch _) (pure (Nat.zero_le _))

@[simp]
theorem branchIfInt (i : Instruction) (test : Int32 → Bool) : Careful natives n (branchIfInt i test) :=
  andThen popInt fun _ _ => branchIf i _

@[simp]
theorem branchIfInts (i : Instruction) (test : Int32 → Int32 → Bool) :
    Careful natives n (branchIfInts i test) :=
  andThen popInt fun _ _ => andThen popInt fun _ _ => branchIf i _

@[simp]
theorem branchIfSame (i : Instruction) (same : Bool) : Careful natives n (branchIfSame i same) :=
  andThen popReference fun _ _ => andThen popReference fun _ _ => branchIf i _

@[simp]
theorem branchIfNull (i : Instruction) (null : Bool) : Careful natives n (branchIfNull i null) :=
  andThen popReference fun _ _ => branchIf i _

@[simp]
theorem jump (i : Instruction) : Careful natives n (jump i) :=
  andThen frame fun _ _ => andThen (offset i) fun _ _ => branch _

@[simp]
theorem jumpToSubroutine (i : Instruction) : Careful natives n (jumpToSubroutine i) :=
  andThen (offset i) fun _ _ => andThen frame fun _ _ => andThen (pushSlot (Nat.zero_le _))
    fun _ _ => branch _

@[simp]
theorem returnFromSubroutine (i : Instruction) : Careful natives n (returnFromSubroutine i) :=
  andThen frame fun _ _ => andThen (localIndex i) fun _ _ => andThen (getLocal _) fun _ _ => goOn _

@[simp]
theorem tableSwitch (i : Instruction) : Careful natives n (tableSwitch i) :=
  andThen frame fun _ _ => by
    split
    · exact andThen popInt fun _ _ => andThen (lift (.inRange fun _ _ => Nat.zero_le _))
        fun _ _ => branch _
    · exact badOperands i

@[simp]
theorem lookupSwitch (i : Instruction) : Careful natives n (lookupSwitch i) :=
  andThen frame fun _ _ => by
    split
    · exact andThen popInt fun _ _ => branch _
    · exact badOperands i

/-! ### Arrays -/

theorem popElement (kind : ElementKind) : Careful natives n (popElement kind) := by
  cases kind with
  | long => exact andThen popLong fun _ _ => pure (Nat.zero_le _)
  | float => exact andThen popFloat fun _ _ => pure (Nat.zero_le _)
  | double => exact andThen popDouble fun _ _ => pure (Nat.zero_le _)
  | reference => exact bind popReference fun _ _ _ h => pure h
  | int | byte | char | short => exact andThen popInt fun _ _ => pure (Nat.zero_le _)

theorem checkIndex (index : Int32) (length : Nat) : Careful natives n (checkIndex index length) :=
  check (pure (Nat.zero_le _)) (raise _ _)

theorem wrongArray (i : Instruction) (array : Address) :
    Careful natives n (wrongArray i array : Exec α) :=
  andThen machine fun _ _ => fail trivial

theorem elementIndex (array : Address) (index : Int32) : Careful natives n (elementIndex array index) :=
  andThen machine fun _ _ => checkIndex _ _

/-- An element of an array that is there is there. -/
theorem extent_element {data : ObjectData} {index : Nat} {value : Value} (hdata : extent data ≤ n)
    (h : data.element? index = some value) : extent value ≤ n := by
  cases data with
  | fields => cases h
  | references elements =>
    obtain ⟨r, hr, rfl⟩ := Option.map_eq_some_iff.mp h
    exact extent_array.mp hdata r (Array.mem_of_getElem? hr)
  | bytes | chars | shorts | ints | longs | floats | doubles =>
    obtain ⟨v, -, rfl⟩ := Option.map_eq_some_iff.mp h
    exact Nat.zero_le _

@[simp]
theorem loadElement (i : Instruction) (kind : ElementKind) : Careful natives n (loadElement i kind) :=
  andThen popInt fun _ _ => andThen (popObject _) fun _ array =>
      andThen (elementIndex array _) fun _ _ =>
    bind machine fun _ m _ hm => by
      have hdata := (Machine.extent_le.mp hm).2.2 array
      exact check (bind (lift (.inRange fun _ h => extent_element hdata h))
        fun _ _ _ hvalue => push hvalue)
        (wrongArray i array)

/-- What is checked to be storable in an array may be an element of it. -/
theorem checkStorable_secure {array : Address} {value : Value}
    (harray : array.index < s.machine.heap.size)
    (hvalue : extent value ≤ s.machine.heap.size) :
    SecureTo s (Exec.checkStorable array value) fun t _ =>
      ∀ b, value = .reference (some b) → t.machine.Fits array b := by
  refine .reads outcome_machine
    (.bind (.lift (VM.component?_secure _)) fun component t ht hfirst _ hcomponent => ?_)
  have harray' := Nat.lt_of_lt_of_le harray hfirst.heap
  rw [← hfirst.classOf array harray] at hcomponent
  have hplain : value.reference? = none ∨ component = none → ∀ b, value = .reference (some b) →
      t.machine.Fits array b := by
    rintro hnot b rfl
    obtain rfl := hnot.resolve_left fun h => by cases h
    exact Machine.fits_of_plain hcomponent (Nat.lt_of_lt_of_le hvalue hfirst.heap)
  rcases hreference : value.reference? with _ | b
  · exact .pure (Nat.zero_le _) fun _ => hplain (.inl hreference)
  · cases component with
    | none => exact .pure (Nat.zero_le _) fun _ => hplain (.inr rfl)
    | some component =>
      obtain rfl : value = .reference (some b) := by cases value <;> cases hreference; rfl
      have hb := Nat.lt_of_lt_of_le hvalue hfirst.heap
      refine .bind (.lift (VM.isInstance_secure hcomponent harray' hb)) fun answer u _ _ _ hanswer => ?_
      cases answer with
      | false => exact .reads outcome_machine (.throw (Nat.zero_le _))
      | true => exact .pure (Nat.zero_le _) fun _ b hb => by cases hb; exact hanswer rfl

theorem checkStorable_accounts (array : Address) (value : Value) :
    FailsOnly natives.Accounts (Exec.checkStorable array value) := by
  refine (andThen (n := 0) machine fun _ m => andThen (lift (.component? _))
    fun _ component => ?_).accounts
  split
  · exact andThen (lift (.isInstance _ _)) fun _ _ =>
      check (andThen machine fun _ _ => raise _ _) (pure (Nat.zero_le _))
  · exact pure (Nat.zero_le _)

/-- A store into an array of references was checked. -/
theorem storeChecked {i : Instruction} {kind : ElementKind} {array : Address}
    {index : Int32} {value : Value}
    (hnatives : natives.Guarded) (harray : array.index < s.machine.heap.size)
    (h : kind = .reference → ∀ b, value = .reference (some b) → s.machine.Fits array b) :
    SecureOn s (do
      let index ← Exec.elementIndex array index
      let isBoolean := (← Exec.machine).className array = "[Z"
      if ((← Exec.machine).object array).data.elementKind? = some kind then
        VM.modifyData array (·.store isBoolean index value)
      else Exec.wrongArray i array) := by
  refine .assuming fun hs => ?_
  have hcareful : Careful natives 0 (Exec.elementIndex array index) := elementIndex array index
  refine .bind (hcareful.secure hnatives s (Nat.zero_le _)) fun index t ht hfirst _ _ => ?_
  refine .reads outcome_machine (.reads outcome_machine ?_)
  split
  · rename_i hkind
    refine .lift (VM.storeElement_secure fun elements b helements hb => ?_)
    rw [helements] at hkind
    exact (h (Option.some.inj hkind).symm b hb).evolves hs.machine.regular hfirst harray
  · have hcareful : Careful natives 0 (Exec.wrongArray i array : Exec Unit) := wrongArray i array
    exact hcareful.secure hnatives t (Nat.zero_le _)

@[simp]
theorem storeElement (i : Instruction) (kind : ElementKind) :
    Careful natives n (storeElement i kind) := by
  refine bind (popElement kind) fun n₁ value _ hvalue => bind popInt fun n₂ index hn₂ _ =>
    bind (popObject _) fun n₃ array hn₃ harray => ?_
  have hvalue : extent value ≤ n₃ := Nat.le_trans hvalue (Nat.le_trans hn₂ hn₃)
  have hrest : ∀ array, FailsOnly natives.Accounts (do
      let index ← Exec.elementIndex array index
      let isBoolean := (← Exec.machine).className array = "[Z"
      if ((← Exec.machine).object array).data.elementKind? = some kind then
        VM.modifyData array (·.store isBoolean index value)
      else Exec.wrongArray i array) := fun array =>
    .bind (elementIndex (n := 0) array index).accounts fun _ =>
        .bind (machine (n := 0)).accounts fun m =>
      .bind (machine (n := 0)).accounts fun m' => by
        split
        · exact .of_ok fun s => ⟨_, _, outcome_lift (VM.modifyData array (·.store _ _ value))⟩
        · exact (wrongArray (n := 0) i array).accounts
  constructor
  · split
    · exact .bind (checkStorable_accounts array value) fun _ => hrest array
    · exact hrest array
  · intro hnatives s hs
    have harray := Nat.lt_of_lt_of_le harray hs
    split
    · refine .bind (checkStorable_secure harray (Nat.le_trans hvalue hs))
        fun _ t _ hremembers _ hfits => ?_
      exact storeChecked hnatives (Nat.lt_of_lt_of_le harray hremembers.heap) fun _ => hfits
    · exact storeChecked hnatives harray fun h => absurd h ‹_›

@[simp]
theorem arrayLength : Careful natives n arrayLength :=
  andThen (popObject _) fun _ _ => andThen machine fun _ _ => by
    split
    · exact pushInt _
    · exact fail trivial

/-- A new array is pushed. -/
theorem pushNewArray (id : ClassId) (count : Nat) :
    Careful natives n (do Exec.pushReference (some (← VM.newArray id count))) :=
  bind (lift (.newArray id count)) fun _ _ _ h => push h

@[simp]
theorem newPrimitiveArray (i : Instruction) : Careful natives n (newPrimitiveArray i) :=
  andThen frame fun _ _ => by
    split
    · split
      · exact fail trivial
      · exact andThen popCount fun _ count => andThen (lift (.load _)) fun _ id => pushNewArray id count
    · exact badOperands i

theorem resolveClass (owner : ClassId) (index : UInt16) :
    Careful natives n (liftM (VM.resolveClass owner index) : Exec ClassId) :=
  discreet (.resolveClass owner index) (.resolveClass owner index)

@[simp]
theorem newReferenceArray (i : Instruction) : Careful natives n (newReferenceArray i) :=
  andThen owner fun _ owner => andThen (poolIndex i) fun _ index =>
      andThen (resolveClass owner index) fun _ _ =>
    andThen popCount fun _ count => andThen machine fun _ _ => andThen (lift (.load _)) fun _ id =>
      pushNewArray id count

theorem popCounts : ∀ {n : Nat} (dimensions : Nat), Careful natives n (popCounts dimensions)
  | _, 0 => pure (Nat.zero_le _)
  | _, dimensions + 1 => andThen popCount fun _ _ => andThen (popCounts dimensions) fun _ _ =>
      pure (extent_list.mpr fun _ _ => Nat.zero_le _)

@[simp]
theorem newMultiArray (i : Instruction) : Careful natives n (newMultiArray i) := by
  unfold Exec.newMultiArray
  split
  · refine check ?_ (andThen owner fun _ owner => andThen (resolveClass owner _) fun _ id =>
      andThen (popCounts _) fun _ counts => ?_)
    · exact throw (e := .fault (.internal .zeroDimensions)) trivial (Nat.zero_le _)
    · split
      · exact fail trivial
      · exact bind (lift (.multiArray id _ _)) fun _ _ _ h => push h
  · exact badOperands i

/-! ### Fields and objects -/

theorem resolveField (i : Instruction) (isStatic : Bool) :
    Careful natives n (resolveField i isStatic) :=
  andThen owner fun _ owner => andThen (poolIndex i) fun _ index =>
    andThen (discreet (.resolveField owner index) (.resolveField owner index)) fun _ _ =>
      andThen machine fun _ _ => check raised (pure (Nat.zero_le _))

theorem fieldSlots {table : SlotTable} (field : Field) (h : extent table ≤ n) :
    Careful natives n (liftM (Exec.fieldSlots table field) : Exec (List Slot)) :=
  discreet (.fieldSlots table field) (.fieldSlots field h)

theorem readStatic (id : FieldId) : Careful natives n (readStatic id) :=
  bind machine fun _ _ _ hm => bind (fieldSlots _ ((Machine.extent_le.mp hm).1 id.owner))
    fun _ _ _ h => pushSlots h

theorem writeStatic (id : FieldId) : Careful natives n (writeStatic id) :=
  andThen machine fun _ _ => bind (popMany _) fun _ _ _ h =>
    discreet (.storeStatics _ _ _) (.storeStatics _ _ h)

theorem instanceFields (a : Address) : Careful natives n (instanceFields a) := by
  rw [← liftM_instanceFields]
  refine discreet (.bind .get fun m => ?_) (.instanceFields a)
  split
  · exact .pure _
  · exact .raise _ _

@[simp]
theorem getField (i : Instruction) : Careful natives n (getField i) :=
  andThen (resolveField i false) fun _ _ => andThen machine fun _ _ => andThen (popObject _) fun _ a =>
    bind (instanceFields a) fun _ _ _ h => bind (fieldSlots _ h) fun _ _ _ h => pushSlots h

@[simp]
theorem putField (i : Instruction) : Careful natives n (putField i) := by
  rw [putField_eq]
  exact andThen (resolveField i false) fun _ _ => andThen machine fun _ _ =>
      bind (popMany _) fun _ slots _ h =>
    bind (popObject _) fun _ a hn _ => discreet (.storeFields a _ _)
      (.storeFields a _ (Nat.le_trans h hn))

theorem instantiable (i : Instruction) : Careful natives n (instantiable i) :=
  andThen owner fun _ owner => andThen (poolIndex i) fun _ index =>
      andThen (resolveClass owner index) fun _ _ =>
    andThen machine fun _ _ => check raised (pure (Nat.zero_le _))

@[simp]
theorem checkCast (i : Instruction) : Careful natives n (checkCast i) :=
  andThen (topReference 0) fun _ a => by
    split
    · exact andThen owner fun _ owner => andThen (poolIndex i) fun _ index =>
          andThen (resolveClass owner index) fun _ _ =>
        andThen (lift (.isInstance _ _)) fun _ _ => check (andThen machine fun _ _ => raise _ _)
          (pure (Nat.zero_le _))
    · exact pure (Nat.zero_le _)

@[simp]
theorem instanceOf (i : Instruction) : Careful natives n (instanceOf i) :=
  andThen popReference fun _ a => by
    split
    · exact pushInt _
    · exact andThen owner fun _ owner => andThen (poolIndex i) fun _ index =>
          andThen (resolveClass owner index) fun _ _ =>
        andThen (lift (.isInstance _ _)) fun _ _ => pushInt _

@[simp]
theorem throwTop : Careful natives n throwTop := bind (popObject _) fun _ _ _ h => throw trivial h

@[simp]
theorem checkMonitor : Careful natives n checkMonitor :=
  andThen (popObject _) fun _ _ => pure (Nat.zero_le _)

/-! ### Calls -/

theorem abstractMethod (method : Method) : Careful natives n (abstractMethod method : Exec α) :=
  andThen machine fun _ _ => raise _ _

theorem callNative (method : Method) : Careful natives n (callNative natives method) := by
  refine andThen frame fun _ _ => andThen machine fun _ m => ?_
  rcases natives.find_cases (m.cls method.owner).name method.name method.descriptor with
    ⟨key, native, hregistered, hfind⟩ | ⟨message, hfind⟩
  · rw [hfind, liftM_pure, pure_bind]
    refine bind (popMany _) fun _ arguments _ harguments => ?_
    refine bind (lift (.native hregistered (extent_list.mpr (extent_list.mp harguments))))
      fun _ result _ hresult => ?_
    split
    · exact push hresult
    · exact pure (Nat.zero_le _)
  · rw [hfind]
    exact raised

theorem enter (method : Method) {arguments : List Slot} (h : extent arguments ≤ n) :
      Careful natives n (do
    Exec.pushFrame (← VM.inRange (Frame.enter? method arguments))) :=
  bind (lift (.inRange fun _ hframe => Frame.extent_enter? h hframe)) fun _ _ _ hframe =>
    pushFrame hframe

theorem call (method : Method) : Careful natives n (call natives method) :=
  check (callNative method)
    (check (abstractMethod method) (bind (popMany _) fun _ _ _ h => enter method h))

theorem ofSearch {search : Search α} (h : ∀ a, search = .found a → extent a ≤ n) :
    Careful natives n (liftM (VM.ofSearch search) : Exec (Option α)) :=
  discreet (.ofSearch search) (.ofSearch h)

theorem callFound (search : Search Method) (method : Method) :
    Careful natives n (callFound natives search method) :=
  andThen (ofSearch fun _ _ => Nat.zero_le _) fun _ found => by
    cases found with
    | some selected => exact call selected
    | none => exact abstractMethod method

theorem resolveMethod (i : Instruction) : Careful natives n (resolveMethod i) :=
  andThen owner fun _ owner => andThen (poolIndex i) fun _ index =>
    discreet (.resolveMethod owner index) (.resolveMethod owner index)

theorem resolveInstanceMethod (i : Instruction) : Careful natives n (resolveInstanceMethod i) :=
  andThen (resolveMethod i) fun _ _ =>
    check (andThen machine fun _ _ => raised) (pure (Nat.zero_le _))

theorem receiver (method : Method) : Careful natives n (receiver method) :=
  bind (topReference _) fun _ a _ h => by
    split
    · exact pure h
    · exact andThen machine fun _ _ => raise _ _

theorem resolveStaticMethod (i : Instruction) : Careful natives n (resolveStaticMethod i) :=
  andThen (resolveMethod i) fun _ _ => check (andThen machine fun _ _ => raised) (pure (Nat.zero_le _))

@[simp]
theorem invokeSpecial (i : Instruction) : Careful natives n (invokeSpecial natives i) := by
  refine andThen owner fun _ caller => andThen (resolveInstanceMethod i) fun _ resolved =>
      andThen machine fun _ m =>
    check raised (andThen (receiver resolved.2) fun _ _ => andThen
      (ofSearch fun _ _ => Nat.zero_le _) fun _ found => ?_)
  cases found with
  | none => exact call _
  | some _ => exact callFound _ _

@[simp]
theorem invokeVirtual (i : Instruction) : Careful natives n (invokeVirtual natives i) :=
  andThen (resolveInstanceMethod i) fun _ resolved => andThen (receiver resolved.2) fun _ _ =>
    check (call _) (andThen machine fun _ _ => callFound _ _)

@[simp]
theorem invokeInterface (i : Instruction) : Careful natives n (invokeInterface natives i) :=
  andThen (resolveInstanceMethod i) fun _ _ => andThen (receiver _) fun _ _ =>
      andThen machine fun _ _ =>
    andThen (ofSearch fun _ _ => Nat.zero_le _) fun _ _ => check raised (callFound _ _)

/-! ### Groups -/

theorem performConstant (i : Instruction) : Careful natives n (performConstant i) := by
  unfold Exec.performConstant
  split
  case h_1 => exact andThen frame fun _ _ => pure (Nat.zero_le _)
  all_goals simp

theorem performLoad (i : Instruction) : Careful natives n (performLoad i) := by
  unfold Exec.performLoad
  split <;> simp

theorem performStore (i : Instruction) : Careful natives n (performStore i) := by
  unfold Exec.performStore
  split <;> simp

theorem performShuffle (i : Instruction) : Careful natives n (performShuffle i) := by
  unfold Exec.performShuffle
  split <;> simp

theorem performArithmetic (i : Instruction) : Careful natives n (performArithmetic i) := by
  unfold Exec.performArithmetic
  split <;> simp

theorem performConversion (i : Instruction) : Careful natives n (performConversion i) := by
  unfold Exec.performConversion
  split <;> simp

theorem performComparison (i : Instruction) : Careful natives n (performComparison i) := by
  unfold Exec.performComparison
  split <;> simp

theorem performControl {i : Instruction} (h : i.opcode.isReturn = false) :
    Careful natives n (performControl i) := by
  unfold Exec.performControl
  split
  all_goals first
    | simp
    | (rename_i hop; rw [hop] at h; cases h)

theorem performCall {i : Instruction} (hneed : need? natives i = none) :
    Careful natives n (performCall natives i) := by
  unfold Exec.performCall
  split
  all_goals first
    | simp
    | (rename_i hop; simp only [need?, hop, reduceCtorEq] at hneed)

theorem performReference {i : Instruction} (hneed : need? natives i = none) :
    Careful natives n (performReference i) := by
  unfold Exec.performReference
  split
  all_goals first
    | simp
    | (rename_i hop; simp only [need?, hop, reduceCtorEq] at hneed)

theorem performExtended (i : Instruction) : Careful natives n (performExtended i) := by
  unfold Exec.performExtended
  split <;> simp

/-- An instruction that needs no class and does not return is careful. -/
theorem perform {i : Instruction} (h : i.opcode.isReturn = false) (hneed : need? natives i = none) :
    Careful natives n (perform natives i) := by
  unfold Exec.perform
  split
  · exact performConstant i
  · exact performLoad i
  · exact performStore i
  · exact performShuffle i
  · exact performArithmetic i
  · exact performConversion i
  · exact performComparison i
  · exact performControl h
  · exact performCall hneed
  · exact performReference hneed
  · exact performExtended i

/-! ### Needed classes -/

theorem startInitialization (id : ClassId) : Careful natives n (startInitialization id) := by
  have hmark : VM.Careful natives n (VM.modifyClass id ({ · with initStarted := true })) :=
    ⟨.modifyGet _, fun _ _ _ => .startInitialization id⟩
  refine andThen (lift hmark) fun _ _ => andThen machine fun _ m => ?_
  split
  · exact pushFrame (extent_le_of_zero (Frame.extent_start _))
  · exact pure (Nat.zero_le _)

theorem initializeClass (id : ClassId) : Careful natives n (initializeClass id) := by
  have hall : ∀ {n : Nat} (ids : List ClassId), Careful natives n
      (ids.forM Exec.startInitialization) := by
    intro n ids
    induction ids generalizing n with
    | nil => exact pure (Nat.zero_le _)
    | cons id ids ih => exact andThen (startInitialization id) fun _ _ => ih
  exact andThen machine fun _ _ => hall _

/-- Waiting for a class begins with its initialization. -/
theorem waits (id : ClassId) (pc : UInt64) : Careful natives n (do
    Exec.modifyFrame ({ · with nextPc := pc })
    Exec.initializeClass id
    return true) :=
  andThen (goOn pc) fun _ _ => andThen (initializeClass id) fun _ _ => pure (Nat.zero_le _)

theorem awaitsInitialization (id : ClassId) : Careful natives n (awaitsInitialization id) :=
  andThen machine fun _ _ => check (pure (Nat.zero_le _)) (andThen thread fun _ t => waits id t.pc)

/-- A class that is not waited for counts as started. -/
theorem awaitsInitialization_secure (hnatives : natives.Guarded) (id : ClassId) :
    SecureTo s (Exec.awaitsInitialization id) fun t waits => waits = false →
      (t.machine.cls id).initStarted = true := by
  refine .reads outcome_machine ?_
  split
  · rename_i hstarted
    exact .pure (Nat.zero_le _) fun _ _ => hstarted
  · refine .reads outcome_thread (.bind ((goOn _).secure hnatives s (Nat.zero_le _))
      fun _ t _ _ _ _ => ?_)
    exact .bind ((initializeClass id).secure hnatives t (Nat.zero_le _)) fun _ _ _ _ _ _ =>
      .pure (Nat.zero_le _) fun _ h => by cases h

/-- An instruction that needs a class goes on once the class counts as started. -/
theorem needing {Ref : Type} [References Ref] {refer : Exec Ref} {owner : Ref → ClassId}
    {use : Ref → Exec Unit}
    (hrefer : Careful natives n refer) (haccounts : ∀ ref, FailsOnly natives.Accounts (use ref))
    (huse : ∀ s ref, natives.Guarded → extent ref ≤ s.machine.heap.size →
      (s.machine.cls (owner ref)).initStarted = true → SecureOn s (use ref)) :
    Careful natives n (Need.run ⟨Ref, refer, owner, use⟩) where
  accounts := .bind hrefer.accounts fun ref =>
      .bind (awaitsInitialization (n := 0) (owner ref)).accounts fun waits => by
    split
    · exact .pure _
    · exact haccounts ref
  secure hnatives s hs := by
    refine .bind (hrefer.secure hnatives s hs) fun ref t _ _ href _ => ?_
    refine .bind (awaitsInitialization_secure hnatives (owner ref))
      fun waits u _ hremembers _ hstarted => ?_
    cases waits with
    | true => exact .pure (Nat.zero_le _) fun _ => trivial
    | false => exact huse u ref hnatives (Nat.le_trans href hremembers.heap) (hstarted rfl)

theorem need {i : Instruction} {need : Need} (h : need? natives i = some need) :
    Careful natives n need.run := by
  unfold need? at h
  split at h <;> cases h
  · exact needing (resolveField i true) (fun ref => (readStatic (n := 0) ref).accounts)
      fun _ ref hnatives _ _ => (readStatic ref).secure hnatives _ (Nat.zero_le _)
  · exact needing (resolveField i true) (fun ref => (writeStatic (n := 0) ref).accounts)
      fun _ ref hnatives _ _ => (writeStatic ref).secure hnatives _ (Nat.zero_le _)
  · refine needing (instantiable i) (fun id => ?_) fun _ id hnatives _ hstarted => ?_
    · exact .bind (failsOnly_lift (.newObject id)) fun a =>
        (pushReference (Nat.le_refl (extent a))).accounts
    · have hsteady := VM.SteadyOn.newObject (Machine.lt_of_started hstarted)
      exact .bind (.lift (.of_discreet hsteady (.newObject (n := 0) id) (Nat.zero_le _)
        fun _ _ _ _ _ => trivial))
        fun a t _ _ ha _ => (pushReference ha).secure hnatives t (Nat.le_refl _)
  · exact needing (resolveStaticMethod i) (fun ref => (call (n := 0) ref.2).accounts)
      fun _ ref hnatives _ _ => (call ref.2).secure hnatives _ (Nat.zero_le _)

/-! ### Returns -/

theorem modifyThread {change : Thread → Thread}
    (h : ∀ k t, n ≤ k → extent t ≤ k → extent (change t) ≤ k) :
    Careful natives n (modifyThread change) :=
  ⟨.of_ok fun _ => ⟨_, _, outcome_modifyThread _⟩, fun _ _ hn => .modifyThread fun ht => h _ _ hn ht⟩

theorem popFrame : Careful natives n popFrame := by
  constructor
  · intro s e t hrun
    rw [outcome_popFrame] at hrun
    split at hrun <;> cases hrun
    exact trivial
  · intro _ s _ hs r t hrun _
    rw [outcome_popFrame] at hrun
    rcases hframes : s.thread.frames with _ | ⟨top, callers⟩ <;> rw [hframes] at hrun <;> cases hrun
    · exact ⟨hs, .refl _, Nat.zero_le _, fun _ _ => trivial⟩
    · obtain ⟨hall, hvalue⟩ := Thread.extent_le.mp hs.thread
      rw [hframes] at hall
      obtain ⟨htop, hcallers⟩ := List.forall_mem_cons.mp hall
      exact ⟨⟨hs.machine, Thread.extent_le.mpr ⟨hcallers, hvalue⟩⟩, .refl _, htop, fun _ _ => trivial⟩

theorem leaveFrame : Careful natives n leaveFrame := andThen popFrame fun _ _ => pure (Nat.zero_le _)

theorem returnValue {pop? : OperandStack → Option (α × OperandStack)} {value : α → Value}
    (hpop : OperandStack.KeepsExtent pop?) (hvalue : ∀ a, extent (value a) ≤ extent a) :
    Careful natives n (returnValue pop? value) := by
  refine bind popFrame fun _ top _ htop => bind (lift (.inRange fun ⟨a, stack⟩ h => ?_))
    fun _ popped _ hpopped => ?_
  · exact extent_pair.mpr (hpop (Frame.extent_le.mp htop).2 h)
  · have hresult := Nat.le_trans (hvalue popped.1) (extent_pair.mp hpopped).1
    refine bind thread fun _ t hn _ => check (modifyThread fun k t hk ht => ?_)
      (push (Nat.le_trans hresult hn))
    exact Thread.extent_le.mpr ⟨(Thread.extent_le.mp ht).1, Nat.le_trans hresult (Nat.le_trans hn hk)⟩

theorem returns {i : Instruction} (h : i.opcode.isReturn = true) :
    Careful natives n (Exec.perform natives i) := by
  rcases i with ⟨opcode, operands⟩
  dsimp only [Opcode.isReturn] at h
  split at h
  · exact returnValue OperandStack.keepsExtent_popInt? fun _ => Nat.zero_le _
  · exact returnValue OperandStack.keepsExtent_popLong? fun _ => Nat.zero_le _
  · exact returnValue OperandStack.keepsExtent_popFloat? fun _ => Nat.zero_le _
  · exact returnValue OperandStack.keepsExtent_popDouble? fun _ => Nat.zero_le _
  · exact returnValue OperandStack.keepsExtent_popReference? fun _ => Nat.le_refl _
  · exact leaveFrame
  · cases h

end Careful

/-- Every instruction is careful. -/
theorem careful_execute (natives : Natives) (i : Instruction) :
    Careful natives n (execute natives i) := by
  rw [execute_eq]
  rcases hreturn : (plainForm i).opcode.isReturn with _ | _
  · rcases hneed : need? natives (plainForm i) with _ | need
    · exact .perform hreturn hneed
    · rw [perform_need hneed]
      exact .need hneed
  · exact .returns hreturn

/-! ### Throwing -/

namespace SecureTo

/-- The exception that is thrown stays there, and so do the frames that are asked. -/
theorem unwind (exception : Address) : ∀ {frames : List Frame} {s : Running},
      exception.index < s.machine.heap.size →
    extent frames ≤ s.machine.heap.size → SecureOn s (unwind exception frames)
  | [], s, hexception, _ => by
    refine .bind (.modifyThread fun h => ?_) fun _ t _ hfirst _ _ => ?_
    · exact Thread.extent_le.mpr ⟨fun _ h => (by cases h), (Thread.extent_le.mp h).2⟩
    · have htext : Careful .none 0 (liftM (VM.detailMessage exception) : Exec String) :=
        .discreet (.detailMessage exception) (.detailMessage exception)
      exact .reads outcome_machine (.bind (htext.secure .none t (Nat.zero_le _)) fun _ _ _ _ _ _ =>
        .throw (Nat.zero_le _))
  | frame :: callers, s, hexception, hframes => by
    obtain ⟨hframe, hcallers⟩ := List.forall_mem_cons.mp (extent_list.mp hframes)
    have hhandler : Careful .none 0 (liftM (VM.handler? frame exception) : Exec (Option Handler)) :=
      .lift (.handler? frame exception)
    refine .bind (hhandler.secure .none s (Nat.zero_le _)) fun found t _ hfirst _ _ => ?_
    have hexception := Nat.lt_of_lt_of_le hexception hfirst.heap
    have hcallers : extent callers ≤ t.machine.heap.size :=
      extent_list.mpr fun f hf => Nat.le_trans (hcallers f hf) hfirst.heap
    cases found with
    | none => exact unwind exception hexception hcallers
    | some handler =>
      have hcaught : Careful .none t.machine.heap.size
          (liftM (VM.inRange (caught? frame exception handler)) : Exec Frame) :=
        .lift (.inRange fun after hafter => by
          obtain ⟨stack, hpush, rfl⟩ := Option.map_eq_some_iff.mp hafter
          obtain ⟨hlocals, hstack⟩ := Frame.extent_le.mp (Nat.le_trans hframe hfirst.heap)
          have hcleared := OperandStack.extent_clear hstack
          exact Frame.extent_le.mpr ⟨hlocals, OperandStack.extent_push? hcleared hexception hpush⟩)
      refine .bind (hcaught.secure .none t (Nat.le_refl _)) fun after u _ hsecond hafter _ =>
        .modifyThread fun h => ?_
      exact Thread.extent_le.mpr ⟨List.forall_mem_cons.mpr ⟨hafter, fun f hf =>
        Nat.le_trans (extent_list.mp hcallers f hf) hsecond.heap⟩, (Thread.extent_le.mp h).2⟩

theorem throwFrom (depth : Nat) {exception : Address} (h : exception.index < s.machine.heap.size) :
    SecureOn s (throwFrom depth exception) := .assuming fun hs => .reads outcome_thread <| by
  refine unwind exception h (extent_list.mpr fun frame hframe => ?_)
  exact (Thread.extent_le.mp hs.thread).1 frame (List.mem_of_mem_drop hframe)

/-- The handling of a fault keeps the state safe. -/
theorem handle (depth : Nat) {fault : Fault} (h : extent fault ≤ s.machine.heap.size) :
    SecureOn s (handle depth fault) := by
  unfold Exec.handle
  split
  · rename_i className message
    have hmade : Careful .none 0 (liftM (VM.attempt (VM.throwable className message)) : Exec
        (Except Fault Address)) :=
      .lift (.attempt (.of_discreet (.throwable _ _) (.throwable _ _)))
    refine .bind (hmade.secure .none s (Nat.zero_le _)) fun made t _ _ hthere _ => ?_
    split
    · exact throwFrom depth hthere
    · exact .throw (Nat.zero_le _)
  · exact throwFrom depth h
  · exact .throw h

/-! ### Acts -/

theorem decode (code : Array UInt8) (pc : UInt64) : SecureOn s (decode code pc) := by
  unfold Exec.decode
  split
  · exact .pure (extent_pair.mpr ⟨Nat.zero_le _, Nat.zero_le _⟩) fun _ => trivial
  · rename_i fault _ hread
    have hordinary : Failure.Ordinary (.fault fault) := Instruction.read_ordinary _ _ _ hread
    exact .throw hordinary.extent_le

/-- A step of a thread keeps the state safe. -/
theorem step (hnatives : natives.Guarded) : SecureOn s (step natives) := by
  have hcareful : ∀ {α : Type} [References α] {x : Exec α} {s : Running},
      Careful natives 0 x → SecureOn s x :=
    fun h => h.secure hnatives _ (Nat.zero_le _)
  refine .bind (hcareful .frame) fun top _ _ _ _ _ => .bind (.modifyThread fun h => h)
    fun _ _ _ _ _ _ => ?_
  refine .bind (decode _ _) fun read _ _ _ _ _ => .bind (hcareful (.modifyFrame fun _ _ h => h))
    fun _ _ _ _ _ _ => ?_
  refine .reads outcome_thread
    (.bind (hcareful (careful_execute natives read.1)).attempt fun result t _ _ hresult _ => ?_)
  split
  · exact .pure (Nat.zero_le _) fun _ => trivial
  · exact handle _ hresult

end SecureTo

end Exec

end JavaMachine
