import JavaMachine.Interpreter
import JavaMachine.Proofs.Instructions
import JavaMachine.Proofs.Running

/-!
One step of a thread.

`Thread.Advances` is what plain steps do to a thread: they put frames on top, and of the frames that
were there they change at most the first, and only its values and where it goes on.
`outcome_returns` is what a return does. `outcome_step` spells a step out: the top frame is moved
past its next instruction, which is executed, and a fault of it is handled; an instruction that ends
in a fault has only put frames on top (`execute_fault`).
-/

namespace JavaMachine

variable {α β : Type} {natives : Natives}

/-! ### Frames on top -/

/-- Frames after frames have been put on top: the first one of those before may have gone on, all
below it are the same. -/
def FramesAbove : List Frame → List Frame → Prop
  | [], _ => True
  | top :: callers, after => ∃ pushed top', after = pushed ++ top' :: callers ∧ top.Continues top'

namespace FramesAbove

theorem refl : ∀ frames, FramesAbove frames frames
  | [] => trivial
  | top :: _ => ⟨[], top, rfl, .refl top⟩

theorem trans : ∀ {before between after : List Frame}, FramesAbove before between →
      FramesAbove between after → FramesAbove before after
  | [], _, _, _, _ => trivial
  | _ :: _, _, _, ⟨[], _, rfl, htop⟩, ⟨pushed, top'', hafter, htop'⟩ =>
    ⟨pushed, top'', hafter, htop.trans htop'⟩
  | _ :: _, _, _, ⟨_ :: pushed, top', rfl, htop⟩, ⟨more, frame', hafter, _⟩ =>
    ⟨more ++ frame' :: pushed, top', by rw [hafter]; simp, htop⟩

theorem push (frame : Frame) : ∀ frames, FramesAbove frames (frame :: frames)
  | [] => trivial
  | top :: _ => ⟨[frame], top, rfl, .refl top⟩

/-- Without the frames that were put on top, the one that was on top is again. -/
theorem dropped {top : Frame} {callers after : List Frame} (h : FramesAbove (top :: callers) after) :
    ∃ top', after.drop (after.length - (callers.length + 1)) = top' :: callers ∧
      top.Continues top' := by
  obtain ⟨pushed, top', rfl, htop⟩ := h
  exact ⟨top', by simp, htop⟩

end FramesAbove

/-- What plain steps do to a thread. -/
structure Thread.Advances (before after : Thread) : Prop where
  pc : after.pc = before.pc
  maxDepth : after.maxDepth = before.maxDepth
  returnValue : after.returnValue = before.returnValue
  frames : FramesAbove before.frames after.frames

namespace Thread.Advances

theorem refl (t : Thread) : t.Advances t := ⟨rfl, rfl, rfl, .refl t.frames⟩

theorem trans {t u v : Thread} (h₁ : t.Advances u) (h₂ : u.Advances v) : t.Advances v :=
  ⟨h₂.pc.trans h₁.pc, h₂.maxDepth.trans h₁.maxDepth, h₂.returnValue.trans h₁.returnValue,
    h₁.frames.trans h₂.frames⟩

end Thread.Advances

namespace Exec

variable {s : Running}

/-- Plain steps advance the thread, however they end. -/
theorem Plain.advances {x : Exec α} (h : Plain natives x) :
    ∀ s : Running, s.thread.Advances (outcome x s).2.thread := by
  induction h with
  | pure a => exact fun s => .refl _
  | throw e => exact fun s => .refl _
  | @bind _ _ x f _ _ hx hf =>
    intro s
    rw [outcome_bind]
    have hfirst := hx s
    rcases hrun : outcome x s with ⟨e | a, t⟩ <;> rw [hrun] at hfirst
    · exact hfirst
    · exact hfirst.trans (hf a t)
  | lift program => exact fun s => .refl _
  | pc => exact fun s => .refl _
  | @onFrame _ step leads =>
    intro s
    rw [outcome_onFrame]
    rcases hframes : s.thread.frames with _ | ⟨top, callers⟩
    · exact .refl _
    · dsimp only
      rcases hstep : step top with _ | ⟨a, top'⟩
      · exact .refl _
      · refine ⟨rfl, rfl, rfl, ?_⟩
        rw [hframes]
        exact ⟨[], top', rfl, (leads top a top' hstep).toContinues⟩
  | pushFrame fresh =>
    intro s
    rw [outcome_pushFrame]
    split
    · exact .refl _
    · exact ⟨rfl, rfl, rfl, .push _ _⟩

end Exec

/-! ### Steps -/

/-- The next instruction of a frame, and the position behind it. -/
def Frame.fetch (frame : Frame) : Except Fault (Instruction × UInt64) :=
  match (Instruction.read.run ⟨frame.method.code, frame.nextPc⟩).run with
  | (.ok instruction, cursor) => .ok (instruction, cursor.pc)
  | (.error fault, _) => .error fault

/-- The frame at its next instruction, and about to go on at `next`. -/
def Frame.past (frame : Frame) (next : UInt64) : Frame :=
  { frame with pc := some frame.nextPc, nextPc := next }

/-- The state in which the instruction of the top frame is executed. -/
def Running.past (s : Running) (top : Frame) (callers : List Frame) (next : UInt64) : Running :=
  ⟨s.machine, { s.thread with pc := top.nextPc, frames := top.past next :: callers }⟩

/-- The next instruction of a thread is `i`, and `u` is the state in which it is executed. -/
def Fetches (s : Running) (i : Instruction) (u : Running) : Prop :=
  ∃ top callers next, s.thread.frames = top :: callers ∧ top.fetch = .ok (i, next) ∧
    u = s.past top callers next

namespace Exec

variable {s : Running}

theorem decode_eq (frame : Frame) : decode frame.method.code frame.nextPc = match frame.fetch with
    | .ok read => pure read
    | .error fault => fail fault := by
  unfold decode Frame.fetch
  rcases (Instruction.read.run ⟨frame.method.code, frame.nextPc⟩).run with ⟨_ | _, _⟩ <;> rfl

/-- A step executes an instruction and handles its fault. -/
theorem outcome_step {i : Instruction} {u : Running} (h : Fetches s i u) :
    outcome (step natives) s = match outcome (execute natives i) u with
      | (.ok _, t) => (.ok ⟨⟩, t)
      | (.error (.fault fault), t) => outcome (handle s.thread.depth fault) t
      | (.error e, t) => (.error e, t) := by
  obtain ⟨top, callers, next, hframes, hfetch, rfl⟩ := h
  have hmoved : outcome (modifyFrame ({ · with pc := some top.nextPc, nextPc := next }))
      ⟨s.machine, { s.thread with pc := top.nextPc }⟩ = (.ok ⟨⟩, s.past top callers next) := by
    rw [modifyFrame, outcome_onFrame]
    dsimp only
    rw [hframes]
    rfl
  have hdepth : (s.past top callers next).thread.depth = s.thread.depth := by
    simp [Running.past, Thread.depth, hframes]
  unfold step
  rw [outcome_bind_of_ok (outcome_frame hframes), outcome_bind_of_ok (outcome_modifyThread _),
    decode_eq, hfetch]
  dsimp only
  rw [pure_bind, outcome_bind_of_ok hmoved, outcome_bind_of_ok outcome_thread, hdepth,
    outcome_bind, outcome_attempt]
  rcases outcome (execute natives i) (s.past top callers next) with ⟨(fault | _ | _ | _) | _, t⟩ <;> rfl

/-- A step that completes has executed its instruction, or handled the fault of that. -/
theorem outcome_step_completes {i : Instruction} {t u : Running} {r : Except Failure Unit}
    (h : Fetches s i u) (hrun : outcome (step natives) s = (r, t)) (hr : Completes r) :
    (∃ fault v, outcome (execute natives i) u = (.error (.fault fault), v) ∧
        outcome (handle s.thread.depth fault) v = (r, t)) ∨
      (outcome (execute natives i) u = (.ok ⟨⟩, t) ∧ r = .ok ⟨⟩) := by
  rw [outcome_step h] at hrun
  rcases hexecute : outcome (execute natives i) u with ⟨(fault | _ | _ | _) | _, v⟩ <;>
    rw [hexecute] at hrun
  · exact .inl ⟨fault, v, rfl, hrun⟩
  · cases hrun
    exact hr.elim
  · cases hrun
    exact hr.elim
  · cases hrun
    exact hr.elim
  · cases hrun
    exact .inr ⟨rfl, rfl⟩

/-- A step that does not come to an instruction leaves machine and frames alone. -/
theorem fetches_or_fails (natives : Natives) (s : Running) : (∃ i u, Fetches s i u) ∨ ∃ fault t,
    outcome (step natives) s = (.error (.fault fault), t) ∧ t.machine = s.machine ∧
      t.thread.frames = s.thread.frames := by
  unfold step
  rcases hframes : s.thread.frames with _ | ⟨top, callers⟩
  · right
    have hframe : outcome frame s =
        (.error (.fault (.exception ExceptionName.stackUnderflow "no current frame")), s) := by
      rw [frame, outcome_onFrame, hframes]
    exact ⟨_, s, outcome_bind_of_error hframe, rfl, hframes⟩
  · rcases hfetch : top.fetch with fault | ⟨i, next⟩
    · right
      rw [outcome_bind_of_ok (outcome_frame hframes), outcome_bind_of_ok (outcome_modifyThread _),
        decode_eq, hfetch]
      exact ⟨fault, _, rfl, rfl, hframes⟩
    · exact .inl ⟨i, _, top, callers, next, hframes, hfetch, rfl⟩

/-! ### Returns -/

/-- The slots that a return gives to the caller: none, one or two. -/
def returnedSlots (result : Option Value) : List Slot := (result.map Value.slots).getD []

theorem returnedSlots_length (result : Option Value) : (returnedSlots result).length ≤ 2 := by
  rcases result with _ | (_ | _ | _ | _ | _) <;> simp [returnedSlots, Value.slots]

section

variable {t : Running} {i : Instruction} {top : Frame} {callers : List Frame}

theorem outcome_leaveFrame (h : s.thread.frames = top :: callers) :
    outcome leaveFrame s = (.ok ⟨⟩, ⟨s.machine, { s.thread with frames := callers }⟩) := by
  unfold leaveFrame
  rw [outcome_bind_of_ok (by rw [outcome_popFrame, h])]
  rfl

/-- A return value goes to the caller, or is kept by the thread. -/
theorem outcome_returnValue {pop? : OperandStack → Option (α × OperandStack)} {value : α → Value}
    (h : s.thread.frames = top :: callers) :
    outcome (returnValue pop? value) s = match pop? top.stack, callers with
      | none, _ => (.error .outOfRange, ⟨s.machine, { s.thread with frames := callers }⟩)
      | some (a, _), [] =>
        (.ok ⟨⟩, ⟨s.machine, { s.thread with frames := [], returnValue := some (value a) }⟩)
      | some (a, _), caller :: below => match caller.stack.pushAll? (value a).slots with
        | none => (.error .outOfRange, ⟨s.machine, { s.thread with frames := caller :: below }⟩)
        | some stack =>
          (.ok ⟨⟩, ⟨s.machine, { s.thread with frames := { caller with stack } :: below }⟩) := by
  unfold returnValue
  rw [outcome_bind_of_ok (by rw [outcome_popFrame, h])]
  rcases hpop : pop? top.stack with _ | ⟨a, rest⟩
  · cases callers <;> rfl
  · rcases callers with _ | ⟨caller, below⟩
    · rfl
    · exact outcome_push (s := ⟨s.machine, { s.thread with frames := caller :: below }⟩) rfl

/-- A return takes the top frame off and gives the slots of its result to the caller. -/
theorem outcome_returns (hi : Returns i) (hframes : s.thread.frames = top :: callers) :
    outcome (execute natives i) s = match returned? (plainForm i).opcode top.stack, callers with
      | none, _ => (.error .outOfRange, ⟨s.machine, { s.thread with frames := callers }⟩)
      | some result, [] =>
        (.ok ⟨⟩, ⟨s.machine,
          { s.thread with frames := [], returnValue := result.or s.thread.returnValue }⟩)
      | some result, caller :: below => match caller.stack.pushAll? (returnedSlots result) with
        | none => (.error .outOfRange, ⟨s.machine, { s.thread with frames := caller :: below }⟩)
        | some stack =>
          (.ok ⟨⟩, ⟨s.machine, { s.thread with frames := { caller with stack } :: below }⟩) := by
  rcases execute_returns natives hi with ⟨h, hvalue⟩ | ⟨_, pop?, value, h, hvalue⟩ <;> rw [h, hvalue]
  · rw [outcome_leaveFrame hframes]
    cases callers <;> rfl
  · rw [outcome_returnValue hframes]
    rcases pop? top.stack with _ | ⟨a, rest⟩ <;> cases callers <;> rfl

theorem returns_no_fault {fault : Fault} (hi : Returns i) (hframes : s.thread.frames = top :: callers) :
    outcome (execute natives i) s ≠ (.error (.fault fault), t) := by
  intro hrun
  rw [outcome_returns hi hframes] at hrun
  split at hrun
  · cases hrun
  · cases hrun
  · split at hrun <;> cases hrun

theorem execute_above {r : Except Failure Unit} (hi : ¬ Returns i)
    (hrun : outcome (execute natives i) s = (r, t)) :
    FramesAbove s.thread.frames t.thread.frames := by
  have habove := (plain_execute natives hi).advances s
  rw [hrun] at habove
  exact habove.frames

/-- An instruction that ends in a fault returns from no frame. -/
theorem execute_fault {fault : Fault} (hframes : s.thread.frames = top :: callers)
    (hrun : outcome (execute natives i) s = (.error (.fault fault), t)) :
    FramesAbove (top :: callers) t.thread.frames := by
  rw [← hframes]
  exact execute_above (fun hi => returns_no_fault hi hframes hrun) hrun

end

end Exec

end JavaMachine
