import JavaMachine.Proofs.ExceptionDispatch
import JavaMachine.Proofs.SafeCode

/-!
Uncaught exceptions.

An exception that reaches the bottom of a thread leaves no frames, and none of the frames that it
passed had a handler for everything at its position (`Raises.uncaught`). But a step also fails with
an uncaught exception if no object can be made for an exception of the machine, or if a native says
so. Then the frames are left as they are, whatever they would catch (`uncaught_accounted`).
-/

namespace JavaMachine

/-- A frame with a handler for all exceptions that covers its position. -/
def Frame.CatchesAll (frame : Frame) : Prop :=
  ∃ pc handler, frame.pc = some pc ∧ handler ∈ frame.method.handlers ∧ handler.Covers pc ∧
    handler.catchType = none

theorem Frame.CatchesAll.congr {frame frame' : Frame} (h : frame.CatchesAll)
    (hpc : frame'.pc = frame.pc) (hmethod : frame'.method = frame.method) : frame'.CatchesAll := by
  rwa [CatchesAll, hpc, hmethod]

variable {natives : Natives} {exception : Address} {m m' : Machine}

/-- A table that has no handler for an exception has none for all. -/
theorem FirstHandler.not_all {owner : ClassId} {pc : UInt64}
    {handlers : List Handler} {found : Option Handler}
    (h : FirstHandler owner exception pc handlers m found m') (hnone : found = Option.none) :
    ∀ handler ∈ handlers, handler.Covers pc → handler.catchType ≠ Option.none := by
  induction h with
  | none => simp
  | elsewhere outside _ ih =>
      exact List.forall_mem_cons.mpr ⟨fun hcovers => absurd hcovers outside, ih hnone⟩
  | caught => cases hnone
  | missed _ tries _ ih =>
    refine List.forall_mem_cons.mpr ⟨fun _ => ?_, ih hnone⟩
    cases tries with
    | resolved catchType => simp [catchType]
    | unresolved catchType => simp [catchType]

/-- A frame that does not catch an exception does not catch everything. -/
theorem Frame.Answers.not_catchesAll {frame : Frame} (h : frame.Answers exception m none m') :
    ¬ frame.CatchesAll := by
  rintro ⟨pc, handler, hpc, hmem, hcovers, hall⟩
  rw [Frame.Answers, hpc] at h
  exact h.not_all rfl handler hmem hcovers hall

/-- An exception that no frame catches only passes frames that do not catch everything. -/
theorem Dispatch.not_catchesAll {frames : List Frame} {found : Option (Frame × List Frame × Handler)}
    (h : Dispatch exception frames m found m') (hnone : found = Option.none) : ∀ frame ∈ frames,
      ¬ frame.CatchesAll := by
  induction h with
  | none => simp
  | caught => cases hnone
  | passed answers _ ih => exact List.forall_mem_cons.mpr ⟨answers.not_catchesAll, ih hnone⟩

namespace Exec

variable {s t u v : Running} {i : Instruction} {className message : String} {fault : Fault}

/-- An exception that is not caught leaves the thread without frames, and passed only frames that do
not catch everything. -/
theorem Raises.uncaught (h : Raises natives s exception v) (hfetch : Fetches s i u)
    (hrun : outcome (step natives) s = (.error (.fault fault), t)) :
    t.thread.frames = [] ∧ ∀ frame ∈ u.thread.frames, ¬ frame.CatchesAll := by
  obtain ⟨top, callers, next, top', pushed, hframes, htop, hpushed, hstep⟩ := h.unwinds
  rw [hrun] at hstep
  have hcompletes : Completes (outcome (unwind exception (top' :: callers)) v).1 := hstep ▸ trivial
  rcases unwind_completes hcompletes with
    ⟨frame, below, handler, m, hdispatch, hroom⟩ | ⟨m, text, hdispatch, htext⟩
  · obtain ⟨stack, -, -, hcaught⟩ := unwind_caught hdispatch hroom
    cases hstep.trans hcaught
  · cases hstep.trans (unwind_uncaught hdispatch htext)
    refine ⟨rfl, ?_⟩
    obtain ⟨top₁, callers₁, next₁, hframes₁, -, rfl⟩ := hfetch
    cases hframes.symm.trans hframes₁
    obtain ⟨hfirst, hcallers⟩ := List.forall_mem_cons.mp (hdispatch.not_catchesAll rfl)
    exact List.forall_mem_cons.mpr ⟨fun hall => hfirst (hall.congr htop.pc htop.method), hcallers⟩

/-- What cannot be decoded is no exception. -/
theorem fetch_ordinary {frame : Frame} (h : frame.fetch = .error fault) : fault.Ordinary := by
  unfold Frame.fetch at h
  split at h
  · cases h
  · rename_i hread
    cases h
    exact Instruction.read_ordinary _ _ _ hread

/-- A step that ends with an uncaught exception came to an instruction. -/
theorem fetches_of_uncaught (h : outcome (step natives) s =
      (.error (.fault (.uncaught className message)), t)) :
    ∃ i u, Fetches s i u := by
  rcases hframes : s.thread.frames with _ | ⟨top, callers⟩
  · have hframe : outcome frame s =
        (.error (.fault (.exception ExceptionName.stackUnderflow "no current frame")), s) := by
      rw [frame, outcome_onFrame, hframes]
    cases h.symm.trans (outcome_bind_of_error hframe)
  · rcases hfetch : top.fetch with fault | ⟨i, next⟩
    · unfold step at h
      rw [outcome_bind_of_ok (outcome_frame hframes), outcome_bind_of_ok (outcome_modifyThread _),
        decode_eq, hfetch] at h
      cases h
      exact (fetch_ordinary hfetch).elim
    · exact ⟨i, _, top, callers, next, hframes, hfetch, rfl⟩

/-- What an uncaught exception says. Either it reached the bottom of the thread: then no frame is
left, and none of those that were there caught everything. Or the frames are still there, because
the machine could make no object for its exception, or because a native answered so. -/
theorem uncaught_accounted (h : outcome (step natives) s =
      (.error (.fault (.uncaught className message)), t)) :
    ∃ i u, Fetches s i u ∧
      ((t.thread.frames = [] ∧ ∀ frame ∈ u.thread.frames, ¬ frame.CatchesAll) ∨
        (FramesAbove u.thread.frames t.thread.frames ∧
          ((∃ v fault, outcome (execute natives i) u =
            (.error (.fault (.exception className message)), v) ∧
              outcome (VM.throwable className message) v.machine = (.error (.fault fault), t.machine)) ∨
            natives.SaysUncaught className message))) := by
  obtain ⟨i, u, hfetch⟩ := fetches_of_uncaught h
  refine ⟨i, u, hfetch, ?_⟩
  obtain ⟨fault, v, hrun, hstep⟩ | ⟨-, ⟨⟩⟩ := outcome_step_completes hfetch h trivial
  have habove : FramesAbove u.thread.frames v.thread.frames := by
    obtain ⟨top, callers, next, -, -, rfl⟩ := hfetch
    exact execute_fault rfl hrun
  cases fault with
  | exception className' message' =>
    obtain ⟨_, m, hmade, ⟨⟩, rfl⟩ | ⟨exception, m, hmade, -⟩ :=
      outcome_handle_exception_completes hstep trivial
    · exact .inr ⟨habove, .inl ⟨v, _, hrun, hmade⟩⟩
    · have hraises : Raises natives s exception ⟨m, v.thread⟩ := .made hfetch hrun hmade rfl
      exact .inl (hraises.uncaught hfetch h)
  | thrown exception => exact .inl ((Raises.thrown hfetch hrun).uncaught hfetch h)
  | uncaught className' message' =>
    have haccounts : natives.SaysUncaught className' message' :=
      (careful_execute (n := 0) natives i).accounts u _ v hrun
    cases hstep
    exact .inr ⟨habove, .inr haccounts⟩
  | _ => cases hstep

/-- The fault that a run failed with. -/
def faultOf? : Except Failure α → Option Fault
  | .error (.fault fault) => some fault
  | _ => none

/-- The division by zero of a thread with nothing but that. -/
def raisingAlone : Running :=
  { raising (pure ()) with thread := { (raising (pure ())).thread with frames := [failing] } }

theorem uncaught_accounted_alone : ∃ t next,
    outcome (step .standard) raisingAlone =
      (.error (.fault (.uncaught ExceptionName.arithmetic "")), t) ∧
      t.thread.frames = [] ∧ ¬ (failing.past next).CatchesAll := by
  have hfault : faultOf? (outcome (step .standard) raisingAlone).1 =
      some (.uncaught ExceptionName.arithmetic "") := by
    decide +kernel
  have hframes : (outcome (step .standard) raisingAlone).2.thread.frames = [] := by decide +kernel
  rcases hrun : outcome (step .standard) raisingAlone with ⟨(fault | _ | _ | _) | _, t⟩ <;>
    rw [hrun] at hfault hframes <;>
    cases hfault
  obtain ⟨i, u, ⟨top, callers, next, halone, -, rfl⟩, haccount⟩ := uncaught_accounted hrun
  cases halone
  have hempty : t.thread.frames = [] := hframes
  rcases haccount with ⟨-, hpassed⟩ | ⟨⟨pushed, top', habove, -⟩, -⟩
  · exact ⟨t, next, rfl, hempty, hpassed _ (List.mem_singleton_self _)⟩
  · rw [hempty] at habove
    simp at habove

/-! ### Exceptions of which no object is made -/

/-- A class of strings without units, and a class of exceptions with a message. -/
def stringsWithoutUnits : VM ClassId := do
  let _ ← VM.define (.build ClassName.object none (pure ()))
  let _ ← VM.define (.build ClassName.cloneable (some ClassName.object) (pure ()))
  let _ ← VM.define (.build ClassName.serializable (some ClassName.object) (pure ()))
  let _ ← VM.define (.build ClassName.string (some ClassName.object) (pure ()))
  VM.define (.build ExceptionName.arithmetic (some ClassName.object)
    (Builder.addField ⟨0⟩ "detailMessage" "Ljava/lang/String;"))

/-- A frame that is about to divide by zero, with a handler for everything. -/
def guarded : Frame := { failing with method := { dividing with handlers := [⟨0, 1, 1, none⟩] } }

/-- It runs where no message can be made. -/
def withoutMessages : Running :=
  ⟨(outcome stringsWithoutUnits (.start [])).2, { Thread.start 8 with frames := [guarded] }⟩

/-- So an exception may be uncaught while a frame that catches everything is still there. -/
theorem not_always_unwound : ¬ ∀ (natives : Natives) (s t : Running) (className message : String),
    outcome (step natives) s = (.error (.fault (.uncaught className message)), t) →
      t.thread.frames = [] ∧ ∀ i u, Fetches s i u → ∀ frame ∈ u.thread.frames, ¬ frame.CatchesAll := by
  intro h
  have hfetch : Fetches withoutMessages ⟨.idiv, .none⟩ (withoutMessages.past guarded [] 1) :=
    ⟨_, _, _, rfl, rfl, rfl⟩
  have hfails : outcome (execute .standard ⟨.idiv, .none⟩) (withoutMessages.past guarded [] 1) =
      (.error (.fault (.exception ExceptionName.arithmetic "/ by zero")),
        ⟨withoutMessages.machine, _⟩) := rfl
  have hmade : Completes (outcome (VM.throwable ExceptionName.arithmetic "/ by zero")
      withoutMessages.machine).1 ∧
      (outcome (VM.throwable ExceptionName.arithmetic "/ by zero")
        withoutMessages.machine).1.toOption = none := by
    decide +kernel
  rcases hmakes : outcome (VM.throwable ExceptionName.arithmetic "/ by zero")
    withoutMessages.machine with
    ⟨(fault | _ | _ | _) | a, m⟩ <;> rw [hmakes] at hmade
  · have hstep : outcome (step .standard) withoutMessages = _ := outcome_step hfetch
    rw [hfails] at hstep
    dsimp only at hstep
    rw [outcome_handle_exception, hmakes] at hstep
    obtain ⟨-, hpassed⟩ := h _ _ _ _ _ hstep
    exact hpassed _ _ hfetch _ (List.mem_singleton_self _) ⟨0, ⟨0, 1, 1, none⟩, rfl,
      List.mem_singleton_self _, by decide, rfl⟩
  · exact hmade.1
  · exact hmade.1
  · exact hmade.1
  · cases hmade.2

end Exec

end JavaMachine
