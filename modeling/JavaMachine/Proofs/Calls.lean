import JavaMachine.Proofs.Stepping

/-!
Where invoke instructions lead.

An invoke instruction that succeeds has called a method with the arguments on top of the operand
stack, or it waits for the initialization of a class (`execute_calls`). A call enters a method with
a frame of its own, on top of the caller without the arguments, or runs a native method within the
frame of the caller.
-/

namespace JavaMachine

/-- The opcodes that call a method. -/
def Opcode.isInvoke : Opcode → Bool
  | .invokevirtual | .invokespecial | .invokestatic | .invokeinterface => true
  | _ => false

/-- A frame for the initializer of a class, before its first instruction. -/
def Frame.Initializes (frame : Frame) : Prop :=
  frame = .start frame.method ∧ frame.method.name = "<clinit>"

namespace Exec

variable {α β : Type} {natives : Natives} {s t : Running}

/-! ### Steps that leave the thread alone -/

/-- A step that leaves the thread as it is, however it ends. -/
def LeavesThread (x : Exec α) : Prop := ∀ s : Running, (outcome x s).2.thread = s.thread

namespace LeavesThread

variable {x : Exec α}

theorem pure (a : α) : LeavesThread (pure a : Exec α) := fun _ => rfl

theorem throw (e : Failure) : LeavesThread (throw e : Exec α) := fun _ => rfl

theorem lift (x : VM α) : LeavesThread (liftM x : Exec α) := fun _ => rfl

theorem bind {f : α → Exec β} (hx : LeavesThread x) (hf : ∀ a, LeavesThread (f a)) :
    LeavesThread (x >>= f) := by
  intro s
  have hfirst := hx s
  rw [outcome_bind]
  rcases hrun : outcome x s with ⟨e | a, u⟩ <;> rw [hrun] at hfirst
  · exact hfirst
  · exact (hf a u).trans hfirst

/-- Looking at the top frame. -/
theorem onFrame {step : Frame → Option (α × Frame)} (h : ∀ f a f', step f = some (a, f') → f' = f) :
    LeavesThread (onFrame step) := by
  intro s
  rw [outcome_onFrame]
  split
  · rfl
  · rename_i top callers hframes
    rcases hstep : step top with _ | ⟨a, top'⟩
    · rfl
    · cases h _ _ _ hstep
      show { s.thread with frames := top :: callers } = s.thread
      rw [← hframes]

theorem frame : LeavesThread frame := onFrame fun f _ _ h => by cases h; rfl

theorem topReference (depth : Nat) : LeavesThread (topReference depth) := onFrame fun f _ _ h => by
  obtain ⟨⟨_, stack⟩, hread, heq⟩ := Option.map_eq_some_iff.mp h
  obtain ⟨_, -, hstack⟩ := Option.map_eq_some_iff.mp hread
  cases hstack
  cases heq
  rfl

theorem bind_ok {f : α → Exec β} {b : β} (hx : LeavesThread x) (h : outcome (x >>= f) s = (.ok b, t)) :
    ∃ a u, u.thread = s.thread ∧ outcome (f a) u = (.ok b, t) := by
  obtain ⟨a, u, hfirst, hsecond⟩ := outcome_bind_ok.mp h
  have hsame := hx s
  rw [hfirst] at hsame
  exact ⟨a, u, hsame, hsecond⟩

theorem owner : LeavesThread owner := frame.bind fun _ => pure _

theorem poolIndex (i : Instruction) : LeavesThread (poolIndex i) := by
  unfold Exec.poolIndex operand
  split
  · exact pure _
  · exact throw _

theorem incompatible (problem : String) : LeavesThread (incompatible problem : Exec α) := throw _

theorem resolveMethod (i : Instruction) : LeavesThread (resolveMethod i) :=
  owner.bind fun _ => (poolIndex i).bind fun _ => lift _

theorem resolveInstanceMethod (i : Instruction) : LeavesThread (resolveInstanceMethod i) :=
  (resolveMethod i).bind fun _ => by
    dsimp only
    split
    · exact (lift _).bind fun _ => (incompatible _).bind fun _ => pure _
    · exact pure _

theorem receiver (method : Method) : LeavesThread (receiver method) :=
  (topReference _).bind fun a => by
    split
    · exact pure _
    · exact (lift _).bind fun _ => throw _

end LeavesThread

/-! ### Calling methods -/

/-- A call that has put a frame for a bytecode method on top of the caller. The arguments have moved
from the operand stack of the caller to the first local variables of the frame. -/
structure Entered (top : Frame) (callers : List Frame) (method : Method) (callee caller : Frame)
    (after : List Frame) : Prop where
  bytecode : method.flags.isNative = false
  moved : ∃ arguments stack, top.stack.popMany? method.argumentSlots = some (arguments, stack) ∧
    Frame.enter? method arguments = some callee ∧ caller = { top with stack }
  frames : after = callee :: caller :: callers

/-- A native method that succeeds changes only the operand stack of the caller. -/
theorem callNative_ok {method : Method} {top : Frame} {callers : List Frame}
    (h : s.thread.frames = top :: callers)
    (hrun : outcome (callNative natives method) s = (.ok ⟨⟩, t)) :
    ∃ stack, t.thread.frames = { top with stack } :: callers := by
  unfold callNative at hrun
  obtain ⟨_, s₁, hs₁, hrun⟩ := LeavesThread.frame.bind_ok hrun
  obtain ⟨m, s₂, hs₂, hrun⟩ := (LeavesThread.lift _).bind_ok hrun
  obtain ⟨native, s₃, hs₃, hrun⟩ := (LeavesThread.lift _).bind_ok hrun
  have hframes : s₃.thread.frames = top :: callers := by rw [hs₃, hs₂, hs₁, h]
  obtain ⟨arguments, s₄, hpop, hrun⟩ := outcome_bind_ok.mp hrun
  rw [outcome_popMany hframes] at hpop
  rcases hstack : top.stack.popMany? method.argumentSlots with _ | ⟨slots, stack⟩ <;>
    rw [hstack] at hpop <;>
    cases hpop
  obtain ⟨value, s₅, hs₅, hrun⟩ := (LeavesThread.lift _).bind_ok hrun
  have hframes : s₅.thread.frames = { top with stack } :: callers := by rw [hs₅]
  cases value with
  | none =>
    cases hrun
    exact ⟨stack, hframes⟩
  | some value =>
    dsimp only at hrun
    rw [outcome_push hframes] at hrun
    dsimp only at hrun
    rcases hpush : stack.pushValue? value with _ | stack' <;> rw [hpush] at hrun <;> cases hrun
    exact ⟨stack', rfl⟩

theorem call_ok {method : Method} {top : Frame} {callers : List Frame}
    (h : s.thread.frames = top :: callers) (hrun : outcome (call natives method) s = (.ok ⟨⟩, t)) :
    (∃ stack, t.thread.frames = { top with stack } :: callers) ∨
      ∃ callee caller, Entered top callers method callee caller t.thread.frames := by
  unfold call at hrun
  split at hrun
  · exact .inl (callNative_ok h hrun)
  · rename_i hbytecode
    split at hrun
    · obtain ⟨m, s₁, -, hrun⟩ := (LeavesThread.lift _).bind_ok hrun
      cases hrun
    · obtain ⟨arguments, s₁, hpop, hrun⟩ := outcome_bind_ok.mp hrun
      rw [outcome_popMany h] at hpop
      rcases hstack : top.stack.popMany? method.argumentSlots with _ | ⟨slots, stack⟩ <;>
        rw [hstack] at hpop <;>
        cases hpop
      rcases hcallee : Frame.enter? method arguments with _ | callee <;> rw [hcallee] at hrun
      · cases hrun
      · have hpush : outcome (pushFrame callee)
            ⟨s.machine, { s.thread with frames := { top with stack } :: callers }⟩ = (.ok ⟨⟩, t) := hrun
        rw [outcome_pushFrame] at hpush
        split at hpush
        · cases hpush
        · cases hpush
          exact .inr ⟨callee, { top with stack },
            by simpa using hbytecode, ⟨arguments, stack, hstack, hcallee, rfl⟩, rfl⟩

/-! ### Waiting for initialization -/

theorem initializer_name {c : Class} {method : Method} (h : c.initializer? = some method) :
    method.name = "<clinit>" := by
  obtain ⟨hfind, -⟩ := Option.filter_eq_some_iff.mp h
  have hfound := Array.find?_some hfind
  simp only [Bool.and_eq_true, decide_eq_true_eq] at hfound
  exact hfound.1

/-- Frames of initializers on top of those of a thread. -/
def Scheduled (before after : Thread) : Prop :=
  ∃ initializers, (∀ f ∈ initializers, Frame.Initializes f) ∧
    after.frames = initializers ++ before.frames

theorem Scheduled.of_same {before after : Thread} (h : after = before) : Scheduled before after :=
  ⟨[], fun _ hf => (by cases hf), by rw [h]; rfl⟩

theorem Scheduled.trans {before between after : Thread} (h₁ : Scheduled before between)
    (h₂ : Scheduled between after) : Scheduled before after := by
  obtain ⟨first, hfirst, hbetween⟩ := h₁
  obtain ⟨second, hsecond, hafter⟩ := h₂
  refine ⟨second ++ first, fun f hf => ?_, by rw [hafter, hbetween, List.append_assoc]⟩
  rcases List.mem_append.mp hf with hf | hf
  · exact hsecond f hf
  · exact hfirst f hf

theorem startInitialization_ok {id : ClassId}
    (hrun : outcome (startInitialization id) s = (.ok ⟨⟩, t)) :
    Scheduled s.thread t.thread := by
  unfold startInitialization at hrun
  obtain ⟨_, s₁, hs₁, hrun⟩ := (LeavesThread.lift _).bind_ok hrun
  obtain ⟨m, s₂, hs₂, hrun⟩ := (LeavesThread.lift _).bind_ok hrun
  refine (Scheduled.of_same (hs₂.trans hs₁)).trans ?_
  split at hrun
  · rename_i initializer hinitializer
    rw [outcome_pushFrame] at hrun
    split at hrun <;> cases hrun
    refine ⟨[.start initializer], fun f hf => ?_, rfl⟩
    obtain rfl := List.mem_singleton.mp hf
    exact ⟨rfl, initializer_name hinitializer⟩
  · cases hrun
    exact .of_same rfl

theorem startInitializations_ok : ∀ {ids : List ClassId} {s : Running},
    outcome (ids.forM startInitialization) s = (.ok ⟨⟩, t) → Scheduled s.thread t.thread
  | [], s, hrun => by
    cases hrun
    exact .of_same rfl
  | id :: ids, s, hrun => by
    rw [List.forM] at hrun
    obtain ⟨_, u, hfirst, hrest⟩ := outcome_bind_ok.mp hrun
    exact (startInitialization_ok hfirst).trans (startInitializations_ok hrest)

theorem initializeClass_ok {id : ClassId} (hrun : outcome (initializeClass id) s = (.ok ⟨⟩, t)) :
    Scheduled s.thread t.thread := by
  unfold initializeClass at hrun
  obtain ⟨m, s₁, hs₁, hrun⟩ := (LeavesThread.lift _).bind_ok hrun
  exact (Scheduled.of_same hs₁).trans (startInitializations_ok hrun)

/-- An instruction that waits is set back to its start, below the frames of initializers; one that
does not wait has changed nothing. -/
theorem awaitsInitialization_ok {id : ClassId} {waits : Bool} {top : Frame} {callers : List Frame}
    (h : s.thread.frames = top :: callers)
    (hrun : outcome (awaitsInitialization id) s = (.ok waits, t)) :
    (waits = false ∧ t.thread = s.thread) ∨
      waits = true ∧ ∃ initializers, (∀ f ∈ initializers, Frame.Initializes f) ∧
        t.thread.frames = initializers ++ { top with nextPc := s.thread.pc } :: callers := by
  unfold awaitsInitialization at hrun
  obtain ⟨m, s₁, hs₁, hrun⟩ := (LeavesThread.lift _).bind_ok hrun
  split at hrun
  · cases hrun
    exact .inl ⟨rfl, hs₁⟩
  · rw [outcome_bind_of_ok outcome_thread, hs₁] at hrun
    have hback : outcome (modifyFrame ({ · with nextPc := s.thread.pc })) s₁ =
        (.ok ⟨⟩, ⟨s₁.machine,
          { s₁.thread with frames := { top with nextPc := s.thread.pc } :: callers }⟩) := by
      rw [modifyFrame, outcome_onFrame, hs₁, h]
    rw [outcome_bind_of_ok hback] at hrun
    obtain ⟨_, s₂, hscheduled, hrun⟩ := outcome_bind_ok.mp hrun
    cases hrun
    exact .inr ⟨rfl, initializeClass_ok hscheduled⟩

theorem outcome_callFound (search : Search Method) (method : Method) :
    outcome (callFound natives search method) s = match search with
      | .found selected => outcome (call natives selected) s
      | .absent => outcome (abstractMethod method) s
      | .endless => (.error .endless, s) := by
  cases search <;> rfl

/-! ### Invoke instructions -/

/-- What an invoke instruction that succeeds has done to the frames: a native method has run within
the top frame, the instruction waits for an initialization, or a method has been entered. -/
inductive Invoked (pc : UInt64) (top : Frame) (callers : List Frame) : List Frame → Prop where
  | native (stack : OperandStack) : Invoked pc top callers ({ top with stack } :: callers)
  | waiting {initializers : List Frame} (fresh : ∀ f ∈ initializers, Frame.Initializes f) :
      Invoked pc top callers (initializers ++ { top with nextPc := pc } :: callers)
  | entered {method : Method} {callee caller : Frame} {after : List Frame}
      (entered : Entered top callers method callee caller after) : Invoked pc top callers after

/-- A step that calls a method, or waits for an initialization. -/
def Invokes (x : Exec Unit) : Prop :=
  ∀ {s t : Running} {top : Frame} {callers : List Frame}, s.thread.frames = top :: callers →
    outcome x s = (.ok ⟨⟩, t) → Invoked s.thread.pc top callers t.thread.frames

namespace Invokes

theorem bind {x : Exec α} {f : α → Exec Unit} (hx : LeavesThread x) (hf : ∀ a, Invokes (f a)) :
    Invokes (x >>= f) := by
  intro s t top callers h hrun
  obtain ⟨a, u, hu, hrun⟩ := hx.bind_ok hrun
  rw [← hu] at h ⊢
  exact hf a h hrun

theorem check {c : Prop} [Decidable c] {x y : Exec Unit} (hx : Invokes x) (hy : Invokes y) :
    Invokes (if c then x else y) := by
  split
  · exact hx
  · exact hy

theorem raise (className message : String) : Invokes (Exec.raise className message) :=
  fun _ hrun => by cases hrun

theorem raise_bind (className message : String) (f : α → Exec Unit) :
    Invokes (Exec.raise className message >>= f) := fun _ hrun => by cases hrun

theorem abstractMethod (method : Method) : Invokes (abstractMethod method) :=
  bind (.lift _) fun _ => raise _ _

theorem call (method : Method) : Invokes (call natives method) := by
  intro s t top callers h hrun
  rcases call_ok h hrun with ⟨stack, hstack⟩ | ⟨callee, caller, hentered⟩
  · rw [hstack]
    exact .native stack
  · exact .entered hentered

theorem callFound (search : Search Method) (method : Method) :
    Invokes (callFound natives search method) :=
  bind (.lift _) fun found => by
    split
    · exact call _
    · exact abstractMethod _

theorem awaits (id : ClassId) (method : Method) :
    Invokes (awaitsInitialization id >>= fun waits => if waits then return ()
      else Exec.call natives method) := by
  intro s t top callers h hrun
  obtain ⟨waits, u, hwaits, hrun⟩ := outcome_bind_ok.mp hrun
  rcases awaitsInitialization_ok h hwaits with ⟨rfl, hsame⟩ | ⟨rfl, initializers, hfresh, hframes⟩
  · rw [← hsame] at h ⊢
    exact call method h hrun
  · cases hrun
    rw [hframes]
    exact .waiting hfresh

theorem invokeStatic (i : Instruction) : Invokes (invokeStatic natives i) := by
  refine bind (.resolveMethod i) fun resolved => ?_
  dsimp only
  split
  · exact bind (.lift _) fun m => raise_bind _ _ _
  · exact awaits _ _

theorem invokeSpecial (i : Instruction) : Invokes (invokeSpecial natives i) := by
  refine bind .owner fun caller => bind (.resolveInstanceMethod i) fun resolved =>
    bind (.lift _) fun m => ?_
  dsimp only
  split
  · exact raise_bind _ _ _
  · refine bind (.receiver _) fun _ => bind (.lift _) fun overrides => ?_
    split
    · exact call _
    · exact callFound _ _

theorem invokeVirtual (i : Instruction) : Invokes (invokeVirtual natives i) := by
  refine bind (.resolveInstanceMethod i) fun resolved => bind (.receiver _) fun a => check (call _) ?_
  exact bind (.lift _) fun m => callFound _ _

theorem invokeInterface (i : Instruction) : Invokes (invokeInterface natives i) := by
  refine bind (.resolveInstanceMethod i) fun resolved => bind (.receiver _) fun a =>
    bind (.lift _) fun m => ?_
  dsimp only
  exact bind (.lift _) fun implements => check (raise_bind _ _ _) (callFound _ _)

end Invokes

/-- The instructions that call a method. -/
def Calls (i : Instruction) : Prop := (plainForm i).opcode.isInvoke = true

instance (i : Instruction) : Decidable (Calls i) := inferInstanceAs (Decidable (_ = true))

theorem execute_calls {i : Instruction} (h : Calls i) : Invokes (execute natives i) := by
  rw [execute_eq]
  unfold Calls at h
  generalize plainForm i = i at h
  rcases i with ⟨opcode, operands⟩
  dsimp only [Opcode.isInvoke] at h
  split at h
  · exact Invokes.invokeVirtual _
  · exact Invokes.invokeSpecial _
  · exact Invokes.invokeStatic _
  · exact Invokes.invokeInterface _
  · cases h

end Exec

end JavaMachine
