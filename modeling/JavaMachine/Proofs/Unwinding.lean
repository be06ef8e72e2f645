import JavaMachine.Interpreter
import JavaMachine.Proofs.Instructions
import JavaMachine.Proofs.Running

/-!
Which frame catches an exception.

`Dispatch` says it without the interpreter: the frames are asked from the top down, each one tries
the handlers that cover the position it is at in the order of its table, and a handler whose class
does not resolve catches nothing. Resolving a class may load classes, so every attempt goes on from
the machine that the attempt before it left. `unwind_caught` and `unwind_uncaught` say that
unwinding follows the relation, and `unwind_completes` that it completes in no other way.
-/

namespace JavaMachine

/-- The start of the range of a handler is covered, its end is not. -/
def Handler.Covers (handler : Handler) (pc : UInt64) : Prop :=
  handler.startPc.toNat ≤ pc.toNat ∧ pc.toNat < handler.endPc.toNat

instance (handler : Handler) (pc : UInt64) : Decidable (handler.Covers pc) :=
  inferInstanceAs (Decidable (_ ∧ _))

theorem Handler.covers_iff {handler : Handler} {pc : UInt64} :
    handler.covers pc = true ↔ handler.Covers pc := by
  simp [covers, Covers, UInt64.le_iff_toNat_le, UInt64.lt_iff_toNat_lt]

/-- What a handler of a method of the class `owner` answers to an exception, and the machine
afterwards. -/
inductive Tries (owner : ClassId) (exception : Address) (handler : Handler) (m : Machine) :
    Bool → Machine → Prop where
  | any (catchType : handler.catchType = none) : Tries owner exception handler m true m
  | resolved {index : UInt16} {id : ClassId} {m₁ m₂ : Machine} {answer : Bool}
      (catchType : handler.catchType = some index)
      (resolves : outcome (VM.resolveClass owner index) m = (.ok id, m₁))
      (tested : outcome (VM.isInstance exception id) m₁ = (.ok answer, m₂)) :
      Tries owner exception handler m answer m₂
  | unresolved {index : UInt16} {fault : Fault} {m₁ : Machine}
      (catchType : handler.catchType = some index)
      (fails : outcome (VM.resolveClass owner index) m = (.error (.fault fault), m₁)) :
      Tries owner exception handler m false m₁

/-- The first handler of a table that covers the position and catches the exception. -/
inductive FirstHandler (owner : ClassId) (exception : Address) (pc : UInt64) :
    List Handler → Machine → Option Handler → Machine → Prop where
  | none {m : Machine} : FirstHandler owner exception pc [] m none m
  | elsewhere {handler : Handler} {handlers : List Handler} {m m' : Machine} {found : Option Handler}
      (outside : ¬ handler.Covers pc) (rest : FirstHandler owner exception pc handlers m found m') :
      FirstHandler owner exception pc (handler :: handlers) m found m'
  | caught {handler : Handler} {handlers : List Handler} {m m' : Machine} (covers : handler.Covers pc)
      (tries : Tries owner exception handler m true m') :
      FirstHandler owner exception pc (handler :: handlers) m (some handler) m'
  | missed {handler : Handler} {handlers : List Handler} {m m₁ m' : Machine} {found : Option Handler}
      (covers : handler.Covers pc) (tries : Tries owner exception handler m false m₁)
      (rest : FirstHandler owner exception pc handlers m₁ found m') :
      FirstHandler owner exception pc (handler :: handlers) m found m'

/-- The handler with which a frame catches an exception. A frame that has run no instruction has
none. -/
def Frame.Answers (frame : Frame) (exception : Address) (m : Machine) (found : Option Handler)
    (m' : Machine) : Prop :=
  match frame.pc with
  | none => found = none ∧ m' = m
  | some pc => FirstHandler frame.owner exception pc frame.method.handlers m found m'

/-- Frames are asked from the top down. The answer is the first one that catches the exception, with its
callers and its handler. -/
inductive Dispatch (exception : Address) :
    List Frame → Machine → Option (Frame × List Frame × Handler) → Machine → Prop where
  | none {m : Machine} : Dispatch exception [] m none m
  | caught {frame : Frame} {callers : List Frame} {m m' : Machine} {handler : Handler}
      (answers : frame.Answers exception m (some handler) m') :
      Dispatch exception (frame :: callers) m (some (frame, callers, handler)) m'
  | passed {frame : Frame} {callers : List Frame} {m m₁ m' : Machine}
      {found : Option (Frame × List Frame × Handler)} (answers : frame.Answers exception m none m₁)
      (rest : Dispatch exception callers m₁ found m') : Dispatch exception (frame :: callers) m found m'

/-- The catcher is one of the frames, and everything below it stays. -/
theorem Dispatch.suffix {exception : Address} {frames : List Frame} {m m' : Machine} {frame : Frame}
    {callers : List Frame} {handler : Handler}
    (h : Dispatch exception frames m (some (frame, callers, handler)) m') :
    (frame :: callers) <:+ frames := by
  generalize hfound : some (frame, callers, handler) = found at h
  induction h with
  | none => cases hfound
  | caught => cases hfound; exact List.suffix_refl _
  | passed _ _ ih => exact (ih hfound).trans (List.suffix_cons ..)

/-- The catcher has run an instruction. -/
theorem Dispatch.ran {exception : Address} {frames : List Frame} {m m' : Machine} {frame : Frame}
    {callers : List Frame} {handler : Handler}
    (h : Dispatch exception frames m (some (frame, callers, handler)) m') : frame.pc ≠ Option.none := by
  generalize hfound : some (frame, callers, handler) = found at h
  induction h with
  | none => cases hfound
  | caught answers =>
    cases hfound
    intro hpc
    rw [Frame.Answers, hpc] at answers
    cases answers.1
  | passed _ _ ih => exact ih hfound

namespace VM

variable {α β : Type}

/-! ### Steps without faults -/

/-- A step that gives a result or does not complete. -/
def NoFault (x : VM α) : Prop := ∀ m fault m', outcome x m ≠ (.error (.fault fault), m')

namespace NoFault

theorem pure (a : α) : NoFault (pure a : VM α) := fun _ _ _ h => by cases h

theorem get : NoFault (get : VM Machine) := fun _ _ _ h => by cases h

theorem bind {x : VM α} {f : α → VM β} (hx : NoFault x) (hf : ∀ a, NoFault (f a)) :
    NoFault (x >>= f) := by
  intro m fault m' h
  rcases outcome_bind_error.mp h with h | ⟨a, m₁, -, h⟩
  · exact hx m fault m' h
  · exact hf a m₁ fault m' h

theorem attempt (x : VM α) : NoFault (attempt x) := by
  intro m fault m' h
  obtain ⟨_, -, ⟨⟩⟩ | ⟨_, -, ⟨⟩⟩ := outcome_vm_attempt_completes h trivial

theorem inRange (a : Option α) : NoFault (inRange a) := by
  intro m fault m' h
  cases a <;> cases h

theorem ofSearch (search : Search α) : NoFault (ofSearch search) := by
  intro m fault m' h
  cases search <;> cases h

theorem findM? {p : α → VM Bool} (h : ∀ a, NoFault (p a)) : ∀ as : List α, NoFault (as.findM? p)
  | [] => pure none
  | a :: as => by
    rw [List.findM?]
    refine (h a).bind fun found => ?_
    cases found with
    | false => exact findM? h as
    | true => exact pure (some a)

theorem isAssignableWithin : ∀ steps target source, NoFault (isAssignableWithin steps target source)
  | 0, _, _ => fun _ _ _ h => by cases h
  | steps + 1, target, source => by
    refine get.bind fun m => ?_
    split
    · exact pure _
    · split
      · exact (ofSearch _).bind fun _ => pure _
      · split
        · exact pure _
        · refine (attempt _).bind fun targetComponent => (attempt _).bind fun sourceComponent => ?_
          split
          · exact isAssignableWithin steps _ _
          · exact pure _
          · exact pure _

theorem isInstance (a : Address) (id : ClassId) : NoFault (isInstance a id) :=
  get.bind fun _ => get.bind fun _ => isAssignableWithin _ _ _

theorem catches (owner : ClassId) (exception : Address) (handler : Handler) :
    NoFault (catches owner exception handler) := by
  unfold VM.catches
  split
  · exact pure _
  · refine (attempt _).bind fun resolved => ?_
    split
    · exact isInstance _ _
    · exact pure _

theorem handler? (frame : Frame) (exception : Address) : NoFault (handler? frame exception) := by
  unfold VM.handler?
  split
  · exact pure _
  · exact findM? (catches _ _) _

theorem field? (a : Address) (slot : Nat) : NoFault (field? a slot) :=
  (get.bind fun _ => pure _).bind fun _ => by
    split
    · exact pure _
    · exact (inRange _).bind fun _ => pure _

theorem unitsOfString? (a : Address) : NoFault (unitsOfString? a) := by
  refine get.bind fun m => ?_
  split
  · exact pure _
  · refine (ofSearch _).bind fun found => ?_
    split
    · exact pure _
    · refine (field? a _).bind fun slot => ?_
      split
      · split <;> exact pure _
      · exact pure _

theorem detailMessage (exception : Address) : NoFault (detailMessage exception) :=
  get.bind fun m => (ofSearch _).bind fun found => by
    split
    · exact pure _
    · refine (field? exception _).bind fun slot => ?_
      split
      · exact pure _
      · exact (unitsOfString? _).bind fun _ => pure _

end NoFault

/-! ### Steps that only read -/

/-- A step that leaves the machine as it is. -/
def ReadsOnly (x : VM α) : Prop := ∀ m, (outcome x m).2 = m

namespace ReadsOnly

theorem pure (a : α) : ReadsOnly (pure a : VM α) := fun _ => rfl

theorem get : ReadsOnly (get : VM Machine) := fun _ => rfl

theorem bind {x : VM α} {f : α → VM β} (hx : ReadsOnly x) (hf : ∀ a, ReadsOnly (f a)) :
    ReadsOnly (x >>= f) := by
  intro m
  have hfirst := hx m
  rcases hrun : outcome x m with ⟨e | a, m₁⟩ <;> rw [hrun] at hfirst <;> obtain rfl := hfirst
  · rw [outcome_bind_of_error hrun]
  · rw [outcome_bind_of_ok hrun]
    exact hf a m₁

theorem inRange (a : Option α) : ReadsOnly (inRange a) := by
  intro m
  cases a <;> rfl

theorem ofSearch (search : Search α) : ReadsOnly (ofSearch search) := by
  intro m
  cases search <;> rfl

theorem field? (a : Address) (slot : Nat) : ReadsOnly (field? a slot) :=
  (get.bind fun _ => pure _).bind fun _ => by
    split
    · exact pure _
    · exact (inRange _).bind fun _ => pure _

theorem unitsOfString? (a : Address) : ReadsOnly (unitsOfString? a) := by
  refine get.bind fun m => ?_
  split
  · exact pure _
  · refine (ofSearch _).bind fun found => ?_
    split
    · exact pure _
    · refine (field? a _).bind fun slot => ?_
      split
      · split <;> exact pure _
      · exact pure _

theorem detailMessage (exception : Address) : ReadsOnly (detailMessage exception) :=
  get.bind fun m => (ofSearch _).bind fun found => by
    split
    · exact pure _
    · refine (field? exception _).bind fun slot => ?_
      split
      · exact pure _
      · exact (unitsOfString? _).bind fun _ => pure _

end ReadsOnly

/-! ### Handlers -/

theorem outcome_catches {owner : ClassId} {exception : Address} {handler : Handler} {m m' : Machine}
    {answer : Bool} :
    outcome (catches owner exception handler) m = (.ok answer, m') ↔
      Tries owner exception handler m answer m' := by
  constructor
  · intro h
    unfold catches at h
    split at h
    · rename_i hnone
      cases h
      exact .any hnone
    · rename_i index hsome
      obtain ⟨resolved, m₁, hattempt, hrest⟩ := outcome_bind_ok.mp h
      obtain ⟨_, hresolve, ⟨⟩⟩ | ⟨id, hresolve, ⟨⟩⟩ := outcome_vm_attempt_completes hattempt trivial
      · cases hrest
        exact .unresolved hsome hresolve
      · exact .resolved hsome hresolve hrest
  · intro h
    unfold catches
    cases h with
    | any hnone => rw [hnone]; rfl
    | resolved hsome hresolve htest =>
      rw [hsome]
      exact outcome_bind_ok.mpr ⟨.ok _, _, outcome_vm_attempt_of_ok hresolve, htest⟩
    | unresolved hsome hresolve =>
      rw [hsome]
      exact outcome_bind_ok.mpr ⟨.error _, _, outcome_vm_attempt_of_fault hresolve, rfl⟩

theorem outcome_firstHandler {owner : ClassId} {exception : Address} {pc : UInt64} :
    ∀ {handlers : List Handler} {m m' : Machine} {found : Option Handler},
      outcome ((handlers.filter (·.covers pc)).findM? (catches owner exception)) m = (.ok found, m') ↔
        FirstHandler owner exception pc handlers m found m'
  | [], m, m', found => by
    constructor
    · intro h
      cases h
      exact .none
    · intro h
      cases h
      rfl
  | handler :: handlers, m, m', found => by
    by_cases hcovers : handler.covers pc = true
    · rw [List.filter_cons_of_pos (by exact hcovers), List.findM?, outcome_bind_ok]
      rw [Handler.covers_iff] at hcovers
      constructor
      · rintro ⟨answer, m₁, htries, hrest⟩
        rw [outcome_catches] at htries
        cases answer with
        | true => cases hrest; exact .caught hcovers htries
        | false => exact .missed hcovers htries (outcome_firstHandler.mp hrest)
      · intro h
        cases h with
        | elsewhere houtside => exact absurd hcovers houtside
        | caught _ htries => exact ⟨true, m', outcome_catches.mpr htries, rfl⟩
        | missed _ htries hrest =>
          exact ⟨false, _, outcome_catches.mpr htries, outcome_firstHandler.mpr hrest⟩
    · rw [List.filter_cons_of_neg (by exact hcovers), outcome_firstHandler]
      rw [Handler.covers_iff] at hcovers
      constructor
      · exact .elsewhere hcovers
      · intro h
        cases h with
        | elsewhere _ hrest => exact hrest
        | caught hcovers' => exact absurd hcovers' hcovers
        | missed hcovers' => exact absurd hcovers' hcovers

/-- A frame answers with the handler that the search finds. -/
theorem outcome_handler? {frame : Frame} {exception : Address} {m m' : Machine}
    {found : Option Handler} :
    outcome (handler? frame exception) m = (.ok found, m') ↔ frame.Answers exception m found m' := by
  unfold handler? Frame.Answers
  cases frame.pc with
  | none =>
    constructor
    · intro h
      cases h
      exact ⟨rfl, rfl⟩
    · rintro ⟨rfl, rfl⟩
      rfl
  | some pc => exact outcome_firstHandler

end VM

namespace Exec

variable {s : Running} {exception : Address}

/-! ### Unwinding -/

/-- What the frames answer one after the other. -/
theorem outcome_unwind_cons {frame : Frame} {callers : List Frame} {m : Machine}
    {found : Option Handler} (h : frame.Answers exception s.machine found m) :
    outcome (unwind exception (frame :: callers)) s = match found with
      | none => outcome (unwind exception callers) ⟨m, s.thread⟩
      | some handler => outcome (do
          let frame ← VM.inRange (caught? frame exception handler)
          modifyThread ({ · with frames := frame :: callers }) : Exec Unit) ⟨m, s.thread⟩ := by
  have hlift : outcome (liftM (VM.handler? frame exception) : Exec _) s =
      (.ok found, ⟨m, s.thread⟩) := by
    rw [outcome_lift, VM.outcome_handler?.mpr h]
  rw [unwind, outcome_bind_of_ok hlift]
  cases found <;> rfl

/-- The catcher goes on at its handler with the exception alone on its operand stack. -/
theorem unwind_caught {frames callers : List Frame} {frame : Frame} {handler : Handler} {m : Machine}
    (h : Dispatch exception frames s.machine (some (frame, callers, handler)) m)
    (hroom : 0 < frame.stack.capacity) :
    ∃ stack, stack.toList = [.ref (some exception)] ∧ stack.capacity = frame.stack.capacity ∧
      outcome (unwind exception frames) s = (.ok (), ⟨m, { s.thread with
        frames := { frame with stack, nextPc := handler.handlerPc.toUInt64 } :: callers }⟩) := by
  generalize hfound : some (frame, callers, handler) = found at h
  generalize hm : s.machine = m₀ at h
  induction h generalizing s with
  | none => cases hfound
  | caught answers =>
    cases hfound
    subst hm
    obtain ⟨stack, hpush, hlist, hcapacity⟩ := OperandStack.push?_clear (.ref (some exception)) hroom
    refine ⟨stack, hlist, hcapacity, ?_⟩
    have hcaught : caught? frame exception handler =
        some { frame with stack, nextPc := handler.handlerPc.toUInt64 } := by
      rw [caught?, hpush]; rfl
    rw [outcome_unwind_cons answers]
    dsimp only
    rw [hcaught]
    rfl
  | passed answers _ ih =>
    subst hm
    obtain ⟨stack, hlist, hcapacity, hrun⟩ := ih (s := ⟨_, s.thread⟩) hfound rfl
    exact ⟨stack, hlist, hcapacity, by rw [outcome_unwind_cons answers]; exact hrun⟩

/-- An exception that no frame catches leaves the thread without frames. -/
theorem unwind_uncaught {frames : List Frame} {m : Machine} {text : String}
    (h : Dispatch exception frames s.machine none m)
    (htext : outcome (VM.detailMessage exception) m = (.ok text, m)) :
    outcome (unwind exception frames) s =
      (.error (.fault (.uncaught (m.className exception) text)),
        ⟨m, { s.thread with frames := [] }⟩) := by
  generalize hfound : none = found at h
  generalize hm : s.machine = m₀ at h
  induction h generalizing s with
  | none =>
    subst hm
    have hlift : outcome (liftM (VM.detailMessage exception) : Exec _)
        ⟨s.machine, { s.thread with frames := [] }⟩ =
        (.ok text, ⟨s.machine, { s.thread with frames := [] }⟩) := by
      rw [outcome_lift, htext]
    rw [unwind, outcome_bind_of_ok (outcome_modifyThread _), outcome_bind_of_ok outcome_machine,
      outcome_bind_of_ok hlift]
    rfl
  | caught => cases hfound
  | passed answers _ ih =>
    subst hm
    rw [outcome_unwind_cons answers]
    exact ih (s := ⟨_, s.thread⟩) htext hfound rfl

/-- Unwinding completes in these two ways only. -/
theorem unwind_completes : ∀ {frames : List Frame} {s : Running},
    Completes (outcome (unwind exception frames) s).1 →
      (∃ frame callers handler m, Dispatch exception frames s.machine
        (some (frame, callers, handler)) m ∧ 0 < frame.stack.capacity) ∨
      ∃ m text, Dispatch exception frames s.machine none m ∧
        outcome (VM.detailMessage exception) m = (.ok text, m)
  | [], s, h => by
    right
    have hreads := VM.ReadsOnly.detailMessage exception s.machine
    rw [unwind, outcome_bind_of_ok (outcome_modifyThread _), outcome_bind_of_ok outcome_machine] at h
    obtain ⟨fault, m, hrun, -⟩ | ⟨text, m, hrun, -⟩ := outcome_lift_bind_completes (Prod.eta _).symm h
    · exact absurd hrun (VM.NoFault.detailMessage exception _ _ _)
    · rw [hrun] at hreads
      obtain rfl := hreads
      exact ⟨s.machine, text, .none, hrun⟩
  | frame :: callers, s, h => by
    obtain ⟨fault, m, hrun, -⟩ | ⟨found, m, hrun, -⟩ := outcome_lift_bind_completes (Prod.eta _).symm h
    · exact absurd hrun (VM.NoFault.handler? frame exception _ _ _)
    · have answers := VM.outcome_handler?.mp hrun
      rw [outcome_unwind_cons answers] at h
      cases found with
      | none =>
        rcases unwind_completes (s := ⟨m, s.thread⟩) h with ⟨f, fs, handler, m', hrest, hroom⟩ |
          ⟨m', text, hrest, htext⟩
        · exact .inl ⟨f, fs, handler, m', .passed answers hrest, hroom⟩
        · exact .inr ⟨m', text, .passed answers hrest, htext⟩
      | some handler =>
        refine .inl ⟨frame, callers, handler, m, .caught answers, ?_⟩
        refine Nat.pos_of_ne_zero fun hfull => ?_
        have hnone : caught? frame exception handler = none := by
          rw [caught?, OperandStack.push?_clear_none hfull]; rfl
        dsimp only at h
        rw [hnone] at h
        exact h

/-! ### Throwing -/

theorem outcome_throwFrom {depth : Nat} : outcome (throwFrom depth exception) s =
    outcome (unwind exception (s.thread.frames.drop (s.thread.frames.length - depth))) s := by
  unfold throwFrom
  rw [outcome_bind_of_ok outcome_thread]

/-- An exception of the machine is thrown as an object, and is uncaught at once if none can be made. -/
theorem outcome_handle_exception {depth : Nat} {className message : String} :
    outcome (handle depth (.exception className message)) s =
      match outcome (VM.throwable className message) s.machine with
      | (.ok exception, m) => outcome (throwFrom depth exception) ⟨m, s.thread⟩
      | (.error (.fault _), m) => (.error (.fault (.uncaught className message)), ⟨m, s.thread⟩)
      | (.error e, m) => (.error e, ⟨m, s.thread⟩) := by
  unfold handle
  rw [outcome_bind, outcome_lift, outcome_vm_attempt]
  rcases outcome (VM.throwable className message) s.machine with ⟨(_ | _ | _ | _) | _, _⟩ <;> rfl

/-- An exception of the machine that is handled to the end is thrown as an object, or uncaught
without one. -/
theorem outcome_handle_exception_completes {depth : Nat} {className message : String} {t : Running}
    {r : Except Failure Unit}
    (hrun : outcome (handle depth (.exception className message)) s = (r, t)) (hr : Completes r) :
    (∃ fault m, outcome (VM.throwable className message) s.machine = (.error (.fault fault), m) ∧
        r = .error (.fault (.uncaught className message)) ∧ t = ⟨m, s.thread⟩) ∨
      ∃ exception m, outcome (VM.throwable className message) s.machine = (.ok exception, m) ∧
        outcome (throwFrom depth exception) ⟨m, s.thread⟩ = (r, t) := by
  rw [outcome_handle_exception] at hrun
  rcases hmade : outcome (VM.throwable className message) s.machine with
    ⟨(fault | _ | _ | _) | exception, m⟩ <;>
    rw [hmade] at hrun
  · cases hrun
    exact .inl ⟨fault, m, rfl, rfl, rfl⟩
  · cases hrun
    exact hr.elim
  · cases hrun
    exact hr.elim
  · cases hrun
    exact hr.elim
  · exact .inr ⟨exception, m, rfl, hrun⟩

theorem outcome_handle_thrown {depth : Nat} :
    outcome (handle depth (.thrown exception)) s = outcome (throwFrom depth exception) s := rfl

end Exec

end JavaMachine
