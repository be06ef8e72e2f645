import JavaMachine.Execution.Basic
import JavaMachine.Proofs.FailingState

/-!
How steps end, and what the steps of execution do one by one.

A step completes with a result or with a fault. The other ends, a slot out of range, spent fuel and
a search that never ends, do not return to a caller: no step catches them (`outcome_attempt`).
-/

namespace JavaMachine

variable {σ α β : Type}

/-- A result or a fault, which a caller gets to see. -/
def Completes : Except Failure α → Prop
  | .ok _ => True
  | .error (.fault _) => True
  | .error .outOfRange | .error .outOfFuel | .error .endless => False

instance : DecidablePred (Completes : Except Failure α → Prop)
  | .ok _ => .isTrue trivial
  | .error (.fault _) => .isTrue trivial
  | .error .outOfRange | .error .outOfFuel | .error .endless => .isFalse id

theorem completes_error {e : Failure} (h : Completes (.error e : Except Failure α)) :
    ∃ fault, e = .fault fault := by
  cases e with
  | fault fault => exact ⟨fault, rfl⟩
  | outOfRange => exact h.elim
  | outOfFuel => exact h.elim
  | endless => exact h.elim

/-- A sequence that completes ends with the fault of its first part, or goes on with the result of
that. -/
theorem outcome_bind_completes {x : ExceptT Failure (StateM σ) α}
    {f : α → ExceptT Failure (StateM σ) β} {s t : σ}
    {r : Except Failure β} (hrun : outcome (x >>= f) s = (r, t)) (hr : Completes r) :
    (∃ fault, outcome x s = (.error (.fault fault), t) ∧ r = .error (.fault fault)) ∨
      ∃ a u, outcome x s = (.ok a, u) ∧ outcome (f a) u = (r, t) := by
  rw [outcome_bind] at hrun
  rcases hfirst : outcome x s with ⟨e | a, u⟩ <;> rw [hfirst] at hrun
  · cases hrun
    obtain ⟨fault, rfl⟩ := completes_error hr
    exact .inl ⟨fault, rfl, rfl⟩
  · exact .inr ⟨a, u, rfl, hrun⟩

/-- An error about the instruction itself: operands of another shape, or another group. -/
def Fault.IsMisuse : Fault → Prop
  | .internal (.badOperands _ _) | .internal (.wrongGroup _) => True
  | _ => False

/-- A fault that is neither an exception on its way to a handler nor one that found none, nor an
error about the instruction being executed. -/
def Fault.Ordinary : Fault → Prop
  | .thrown _ | .uncaught _ _ | .internal (.badOperands _ _) | .internal (.wrongGroup _) => False
  | _ => True

theorem Fault.Ordinary.not_isMisuse {fault : Fault} (h : fault.Ordinary) : ¬ fault.IsMisuse := by
  unfold IsMisuse
  split <;> first
    | exact fun _ => h
    | exact id

/-- What a step gives to the one that catches its faults. -/
theorem outcome_vm_attempt {x : VM α} {m : Machine} :
    outcome (VM.attempt x) m = match outcome x m with
      | (.ok a, t) => (.ok (.ok a), t)
      | (.error (.fault fault), t) => (.ok (.error fault), t)
      | (.error e, t) => (.error e, t) := by
  unfold VM.attempt
  rw [outcome_tryCatch, outcome_map]
  rcases outcome x m with ⟨(_ | _ | _ | _) | _, _⟩ <;> rfl

theorem outcome_vm_attempt_of_ok {x : VM α} {m t : Machine} {a : α} (h : outcome x m = (.ok a, t)) :
    outcome (VM.attempt x) m = (.ok (.ok a), t) := by
  rw [outcome_vm_attempt, h]

theorem outcome_vm_attempt_of_fault {x : VM α} {m t : Machine} {fault : Fault}
    (h : outcome x m = (.error (.fault fault), t)) : outcome (VM.attempt x) m =
      (.ok (.error fault), t) := by
  rw [outcome_vm_attempt, h]

/-- An attempt that completes tells how what was attempted ended. -/
theorem outcome_vm_attempt_completes {x : VM α} {m m' : Machine} {r : Except Failure (Except Fault α)}
    (hrun : outcome (VM.attempt x) m = (r, m')) (hr : Completes r) :
    (∃ fault, outcome x m = (.error (.fault fault), m') ∧ r = .ok (.error fault)) ∨
      ∃ a, outcome x m = (.ok a, m') ∧ r = .ok (.ok a) := by
  rw [outcome_vm_attempt] at hrun
  rcases hx : outcome x m with ⟨(fault | _ | _ | _) | a, m₁⟩ <;> rw [hx] at hrun <;> cases hrun
  · exact .inl ⟨fault, rfl, rfl⟩
  · exact hr.elim
  · exact hr.elim
  · exact hr.elim
  · exact .inr ⟨a, rfl, rfl⟩

namespace Exec

variable {s t : Running}

theorem outcome_attempt {x : Exec α} :
    outcome (attempt x) s = match outcome x s with
      | (.ok a, t) => (.ok (.ok a), t)
      | (.error (.fault fault), t) => (.ok (.error fault), t)
      | (.error e, t) => (.error e, t) := by
  unfold attempt
  rw [outcome_tryCatch, outcome_map]
  rcases outcome x s with ⟨(_ | _ | _ | _) | _, _⟩ <;> rfl

theorem outcome_attempt_completes {x : Exec α} {r : Except Failure (Except Fault α)}
    (hrun : outcome (attempt x) s = (r, t)) (hr : Completes r) :
    (∃ fault, outcome x s = (.error (.fault fault), t) ∧ r = .ok (.error fault)) ∨
      ∃ a, outcome x s = (.ok a, t) ∧ r = .ok (.ok a) := by
  rw [outcome_attempt] at hrun
  rcases hx : outcome x s with ⟨(fault | _ | _ | _) | a, u⟩ <;> rw [hx] at hrun <;> cases hrun
  · exact .inl ⟨fault, rfl, rfl⟩
  · exact hr.elim
  · exact hr.elim
  · exact hr.elim
  · exact .inr ⟨a, rfl, rfl⟩

@[simp]
theorem outcome_thread : outcome thread s = (.ok s.thread, s) := rfl

@[simp]
theorem outcome_modifyThread (change : Thread → Thread) :
    outcome (modifyThread change) s = (.ok ⟨⟩, ⟨s.machine, change s.thread⟩) := rfl

/-- A step on the machine leaves the thread alone. -/
@[simp]
theorem outcome_lift (x : VM α) :
    outcome (liftM x : Exec α) s = ((outcome x s.machine).1, ⟨(outcome x s.machine).2, s.thread⟩) := rfl

theorem outcome_lift_of_ok {x : VM α} {a : α} {m : Machine} (h : outcome x s.machine = (.ok a, m)) :
    outcome (liftM x : Exec α) s = (.ok a, ⟨m, s.thread⟩) := by
  rw [outcome_lift, h]

/-- What begins with a step on the machine ends with the fault of that, or goes on with its result. -/
theorem outcome_lift_bind_completes {x : VM α} {f : α → Exec β} {r : Except Failure β}
    (hrun : outcome ((liftM x : Exec α) >>= f) s = (r, t)) (hr : Completes r) :
    (∃ fault m, outcome x s.machine = (.error (.fault fault), m) ∧ r = .error (.fault fault) ∧
      t = ⟨m, s.thread⟩) ∨
      ∃ a m, outcome x s.machine = (.ok a, m) ∧ outcome (f a) ⟨m, s.thread⟩ = (r, t) := by
  obtain ⟨fault, hfirst, rfl⟩ | ⟨a, u, hfirst, hrest⟩ := outcome_bind_completes hrun hr <;>
    rw [outcome_lift] at hfirst <;> obtain ⟨hx, rfl⟩ := Prod.mk.inj hfirst
  · exact .inl ⟨fault, _, Prod.ext hx rfl, rfl, rfl⟩
  · exact .inr ⟨a, _, Prod.ext hx rfl, hrest⟩

@[simp]
theorem outcome_machine : outcome machine s = (.ok s.machine, s) := rfl

/-- A step on the top frame needs one, and changes nothing else. -/
theorem outcome_onFrame {step : Frame → Option (α × Frame)} :
    outcome (onFrame step) s = match s.thread.frames with
      | [] => (.error (.fault (.exception ExceptionName.stackUnderflow "no current frame")), s)
      | frame :: callers => match step frame with
        | none => (.error .outOfRange, s)
        | some (a, frame) => (.ok a, ⟨s.machine, { s.thread with frames := frame :: callers }⟩) := by
  unfold onFrame
  rw [outcome_bind, outcome_thread]
  dsimp only
  cases s.thread.frames with
  | nil => rfl
  | cons frame callers =>
    dsimp only
    rcases step frame with _ | ⟨a, frame⟩ <;> rfl

theorem outcome_frame {top : Frame} {callers : List Frame} (h : s.thread.frames = top :: callers) :
    outcome frame s = (.ok top, s) := by
  rw [frame, outcome_onFrame, h]
  rcases s with ⟨machine, pc, maxDepth, frames, returnValue⟩
  cases h
  rfl

/-- What is done on the operand stack of the top frame. -/
theorem outcome_onStack {step : OperandStack → Option (α × OperandStack)} {top : Frame}
    {callers : List Frame}
    {stack : OperandStack} {a : α} (h : s.thread.frames = top :: callers)
    (hstep : step top.stack = some (a, stack)) :
    outcome (onStack step) s =
      (.ok a, ⟨s.machine, { s.thread with frames := { top with stack } :: callers }⟩) := by
  rw [onStack, outcome_onFrame, h]
  dsimp only
  rw [hstep]
  rfl

theorem outcome_push {value : Value} {top : Frame} {callers : List Frame}
    (h : s.thread.frames = top :: callers) :
    outcome (push value) s = match top.stack.pushValue? value with
      | none => (.error .outOfRange, s)
      | some stack => (.ok ⟨⟩,
          ⟨s.machine, { s.thread with frames := { top with stack } :: callers }⟩) := by
  rw [push, changeStack, onStack, outcome_onFrame, h]
  dsimp only
  cases top.stack.pushValue? value <;> rfl

theorem outcome_popMany {count : Nat} {top : Frame} {callers : List Frame}
    (h : s.thread.frames = top :: callers) :
    outcome (popMany count) s = match top.stack.popMany? count with
      | none => (.error .outOfRange, s)
      | some (slots, stack) =>
        (.ok slots, ⟨s.machine, { s.thread with frames := { top with stack } :: callers }⟩) := by
  rw [popMany, onStack, outcome_onFrame, h]
  dsimp only
  rcases top.stack.popMany? count with _ | ⟨slots, stack⟩ <;> rfl

theorem outcome_pushFrame {frame : Frame} :
    outcome (pushFrame frame) s = if s.thread.maxDepth ≤ s.thread.depth then
        (.error (.fault (.exception ExceptionName.stackOverflow
          s!"frame stack exceeded {s.thread.maxDepth} frames")), s)
      else (.ok ⟨⟩, ⟨s.machine, { s.thread with frames := frame :: s.thread.frames }⟩) := by
  unfold pushFrame
  rw [outcome_bind, outcome_thread]
  dsimp only
  split <;> rfl

theorem outcome_popFrame :
    outcome popFrame s = match s.thread.frames with
      | [] => (.error (.fault (.exception ExceptionName.stackUnderflow "frame stack is empty")), s)
      | frame :: callers => (.ok frame, ⟨s.machine, { s.thread with frames := callers }⟩) := by
  unfold popFrame
  rw [outcome_bind, outcome_thread]
  dsimp only
  cases s.thread.frames <;> rfl

end Exec

end JavaMachine
