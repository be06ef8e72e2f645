import JavaMachine.Proofs.Calls
import JavaMachine.Proofs.Unwinding

/-!
Frames that are not on top are out of reach.

A step puts frames on top, takes the top one off, or unwinds to a frame that catches an exception;
what is below the frames that it works on stays (`step_frames`). So the bottom frames of a thread
stay as they are for as long as there are others above them (`RunAbove.bottom`), and a caller gets
back what it had when it called.
-/

namespace JavaMachine

/-- The bottom frames of a thread. -/
def Thread.bottom (t : Thread) (depth : Nat) : List Frame := t.frames.drop (t.frames.length - depth)

theorem drop_of_suffix {α : Type} {rest all : List α} {depth : Nat} (h : rest <:+ all)
    (hrest : depth ≤ rest.length) :
    all.drop (all.length - depth) = rest.drop (rest.length - depth) := by
  obtain ⟨pushed, rfl⟩ := h
  rw [List.length_append, Nat.add_sub_assoc hrest, List.drop_append, Nat.add_sub_cancel_left,
    List.drop_eq_nil_of_le (Nat.le_add_right ..), List.nil_append]

/-- What a step does to the frames: it puts others on top, or goes down to one of them, or leaves
none. Only the frame that it starts from or goes down to changes, and not its method. -/
inductive FramesStep : List Frame → List Frame → Prop where
  | up {top top' : Frame} {callers pushed : List Frame} (same : top'.method = top.method) :
      FramesStep (top :: callers) (pushed ++ top' :: callers)
  | down {before callers : List Frame} {frame frame' : Frame} (suffix : (frame :: callers) <:+ before)
      (same : frame'.method = frame.method) : FramesStep before (frame' :: callers)
  | empty {before : List Frame} : FramesStep before []

namespace FramesStep

theorem suffix {before after : List Frame} (h : after <:+ before) : FramesStep before after := by
  cases after with
  | nil => exact .empty
  | cons => exact .down h rfl

theorem refl (frames : List Frame) : FramesStep frames frames := .suffix (List.suffix_refl _)

theorem of_above {top : Frame} {callers after : List Frame} (h : FramesAbove (top :: callers) after) :
    FramesStep (top :: callers) after := by
  obtain ⟨pushed, top', rfl, htop⟩ := h
  exact .up htop.method

/-- What the first frame is at does not matter. -/
theorem of_first {top top' : Frame} {callers after : List Frame} (hmethod : top'.method = top.method)
    (h : FramesStep (top' :: callers) after) : FramesStep (top :: callers) after := by
  cases h with
  | up same => exact .up (same.trans hmethod)
  | empty => exact .empty
  | down hsuffix same =>
    rcases List.suffix_cons_iff.mp hsuffix with heq | hbelow
    · cases heq
      exact .down (List.suffix_refl _) (same.trans hmethod)
    · exact .down (hbelow.trans (List.suffix_cons ..)) same

variable {t u : Thread} {depth : Nat}

theorem bottom (h : FramesStep t.frames u.frames) (ht : depth < t.frames.length)
    (hu : depth < u.frames.length) :
    u.bottom depth = t.bottom depth := by
  obtain ⟨rest, hbefore, hafter, hrest⟩ : ∃ rest, rest <:+ t.frames ∧ rest <:+ u.frames ∧
      depth ≤ rest.length := by
    generalize t.frames = before, u.frames = after at h ht hu
    cases h with
    | @up top top' callers pushed =>
      exact ⟨callers, List.suffix_cons .., ⟨pushed ++ [top'], by simp⟩, Nat.le_of_lt_succ ht⟩
    | @down before callers frame frame' hsuffix =>
      exact ⟨callers, (List.suffix_cons ..).trans hsuffix, List.suffix_cons .., Nat.le_of_lt_succ hu⟩
    | empty => exact absurd hu (Nat.not_lt_zero _)
  rw [Thread.bottom, Thread.bottom, drop_of_suffix hbefore hrest, drop_of_suffix hafter hrest]

/-- The frame above the bottom ones is still one of the same method. -/
theorem methods (h : FramesStep t.frames u.frames) (ht : depth < t.frames.length)
    (hu : depth < u.frames.length) :
    (u.bottom (depth + 1)).map (·.method) = (t.bottom (depth + 1)).map (·.method) := by
  obtain ⟨rest, hbefore, hafter, hrest⟩ : ∃ rest, rest <:+ t.frames.map (·.method) ∧
      rest <:+ u.frames.map (·.method) ∧ depth + 1 ≤ rest.length := by
    generalize t.frames = before, u.frames = after at h ht hu
    cases h with
    | @up top top' callers pushed same =>
      refine ⟨(top :: callers).map (·.method), List.suffix_refl _, ⟨pushed.map (·.method), ?_⟩, ?_⟩
      · rw [List.map_append, List.map_cons, List.map_cons, same]
      · rw [List.length_map]
        exact ht
    | @down before callers frame frame' hsuffix same =>
      refine ⟨(frame' :: callers).map (·.method), ?_, List.suffix_refl _, ?_⟩
      · rw [List.map_cons, same]
        exact hsuffix.map (·.method)
      · rw [List.length_map]
        exact hu
    | empty => exact absurd hu (Nat.not_lt_zero _)
  rw [Thread.bottom, Thread.bottom, List.map_drop, List.map_drop]
  have hbefore := drop_of_suffix hbefore hrest
  have hafter := drop_of_suffix hafter hrest
  rw [List.length_map] at hbefore hafter
  rw [hbefore, hafter]

end FramesStep

namespace Exec

variable {α : Type} {natives : Natives} {s t u : Running} {i : Instruction}

/-! ### Steps -/

/-- A return goes down to the caller. -/
theorem returns_frames {top : Frame} {callers : List Frame} (hi : Returns i)
    (hframes : s.thread.frames = top :: callers) (hrun : outcome (execute natives i) s = (.ok ⟨⟩, t)) :
    FramesStep (top :: callers) t.thread.frames := by
  rw [outcome_returns hi hframes] at hrun
  rcases hresult : returned? (plainForm i).opcode top.stack with _ | result <;> rw [hresult] at hrun
  · cases hrun
  · rcases callers with _ | ⟨caller, below⟩ <;> dsimp only at hrun
    · cases hrun
      exact .empty
    · rcases hpush : caller.stack.pushAll? (returnedSlots result) with _ | stack <;>
        rw [hpush] at hrun <;> cases hrun
      exact .down (List.suffix_cons top (caller :: below)) rfl

/-- Handling a fault leaves the frames, or unwinds those that were there before the instruction to
one that has run. -/
theorem handle_frames {depth : Nat} {fault : Fault} {r : Except Failure Unit}
    (hrun : outcome (handle depth fault) s = (r, t)) (hr : Completes r) :
    t.thread.frames = s.thread.frames ∨ t.thread.frames = [] ∨ ∃ frame callers frame',
      (frame :: callers) <:+ s.thread.frames.drop (s.thread.frames.length - depth) ∧ frame.pc ≠ none ∧
      frame'.method = frame.method ∧ t.thread.frames = frame' :: callers := by
  have hthrow : ∀ {exception : Address} {m : Machine},
      outcome (throwFrom depth exception) ⟨m, s.thread⟩ = (r, t) → t.thread.frames = [] ∨
      ∃ frame callers frame',
        (frame :: callers) <:+ s.thread.frames.drop (s.thread.frames.length - depth) ∧ frame.pc ≠ none ∧
        frame'.method = frame.method ∧ t.thread.frames = frame' :: callers := by
    intro exception m hrun
    rw [outcome_throwFrom] at hrun
    rcases unwind_completes (by rw [hrun]; exact hr) with
      ⟨frame, callers, handler, m', hdispatch, hroom⟩ | ⟨m', text, hdispatch, htext⟩
    · obtain ⟨stack, -, -, hunwind⟩ := unwind_caught hdispatch hroom
      rw [hunwind] at hrun
      cases hrun
      exact .inr ⟨frame, callers, { frame with stack, nextPc := _ }, hdispatch.suffix,
        hdispatch.ran, rfl, rfl⟩
    · rw [unwind_uncaught hdispatch htext] at hrun
      cases hrun
      exact .inl rfl
  cases fault with
  | exception className message =>
    obtain ⟨fault, m, -, rfl, rfl⟩ | ⟨exception, m, -, hrun⟩ :=
      outcome_handle_exception_completes hrun hr
    · exact .inl rfl
    · exact .inr (hthrow hrun)
  | thrown exception =>
    rw [outcome_handle_thrown] at hrun
    exact .inr (hthrow hrun)
  | _ =>
    cases hrun
    exact .inl rfl

/-- What is below the frames that a step works on stays. -/
theorem step_frames {r : Except Failure Unit} (hrun : outcome (step natives) s = (r, t))
    (hr : Completes r) :
    FramesStep s.thread.frames t.thread.frames := by
  rcases fetches_or_fails natives s with ⟨i, u, hfetch⟩ | ⟨fault, t', hstep, -, hsame⟩
  · have hread := hfetch
    obtain ⟨top, callers, next, hframes, -, rfl⟩ := hread
    rw [hframes]
    have hmethod : (top.past next).method = top.method := rfl
    refine FramesStep.of_first hmethod ?_
    obtain ⟨fault, t', hexecute, hrun⟩ | ⟨hexecute, -⟩ := outcome_step_completes hfetch hrun hr
    · have habove := execute_fault rfl hexecute
      obtain ⟨top', hdropped, htop⟩ := habove.dropped
      rcases handle_frames hrun hr with hsame | hnone | ⟨frame, rest, frame', hsuffix,
        -, hmethod, hcaught⟩
      · rw [hsame]
        exact .of_above habove
      · rw [hnone]
        exact .empty
      · rw [Thread.depth, hframes, List.length_cons, hdropped] at hsuffix
        rw [hcaught]
        exact .of_first htop.method (.down hsuffix hmethod)
    · by_cases hreturns : Returns i
      · exact returns_frames hreturns rfl hexecute
      · exact .of_above (execute_above hreturns hexecute)
  · rw [hstep] at hrun
    cases hrun
    rw [hsame]
    exact .refl _

/-! ### Runs -/

/-- A step of a thread that ends with a result or a fault. -/
def Steps (natives : Natives) (s t : Running) : Prop :=
  ∃ r, outcome (step natives) s = (r, t) ∧ Completes r

/-- A run by steps that has more than `depth` frames all the time. -/
inductive RunAbove (natives : Natives) (depth : Nat) (s : Running) : Running → Prop where
  | start (above : depth < s.thread.frames.length) : RunAbove natives depth s s
  | step {t u : Running} (before : RunAbove natives depth s t) (step : Steps natives t u)
      (above : depth < u.thread.frames.length) : RunAbove natives depth s u

namespace RunAbove

variable {depth : Nat}

theorem above (h : RunAbove natives depth s t) : depth < t.thread.frames.length := by
  cases h with
  | start above => exact above
  | step _ _ above => exact above

/-- The bottom frames stay as they are while there are others above them. -/
theorem bottom (h : RunAbove natives depth s t) : t.thread.bottom depth = s.thread.bottom depth := by
  induction h with
  | start => rfl
  | step before hstep above ih =>
    obtain ⟨r, hrun, hr⟩ := hstep
    exact ((step_frames hrun hr).bottom before.above above).trans ih

/-- The frame right above them is one of the same method. -/
theorem methods (h : RunAbove natives depth s t) :
    (t.thread.bottom (depth + 1)).map (·.method) = (s.thread.bottom (depth + 1)).map (·.method) := by
  induction h with
  | start => rfl
  | step before hstep above ih =>
    obtain ⟨r, hrun, hr⟩ := hstep
    exact ((step_frames hrun hr).methods before.above above).trans ih

end RunAbove

/-! ### Calls and their returns -/

/-- Nothing but the operand stack of the caller changes, and only by the slots of the result. -/
theorem returns_ok {top caller : Frame} {below : List Frame} (hi : Returns i)
    (hframes : s.thread.frames = top :: caller :: below)
    (hrun : outcome (execute natives i) s = (.ok ⟨⟩, t)) :
    ∃ result stack, returned? (plainForm i).opcode top.stack = some result ∧
      caller.stack.pushAll? (returnedSlots result) = some stack ∧
      t.thread.frames = { caller with stack } :: below := by
  rw [outcome_returns hi hframes] at hrun
  rcases hresult : returned? (plainForm i).opcode top.stack with _ | result <;> rw [hresult] at hrun
  · cases hrun
  · dsimp only at hrun
    rcases hpush : caller.stack.pushAll? (returnedSlots result) with _ | stack <;>
      rw [hpush] at hrun <;> cases hrun
    exact ⟨result, stack, rfl, hpush, rfl⟩

/-- When the frame of a call leaves by a return, the caller has what it had right after the call,
and the slots of the result. -/
theorem return_isolated {v z : Running} {j : Instruction} {top callee caller : Frame}
    {callers : List Frame}
    {method : Method} (hcall : Entered top callers method callee caller t.thread.frames)
    (hrun : RunAbove natives (callers.length + 1) t u)
    (hdepth : u.thread.frames.length = callers.length + 2)
    (hfetch : Fetches u j v) (hj : Returns j) (hstep : Steps natives u z) :
    ∃ returning result stack, u.thread.frames = returning :: caller :: callers ∧
      returning.method = method ∧ returned? (plainForm j).opcode returning.stack = some result ∧
      caller.stack.pushAll? (returnedSlots result) = some stack ∧
      z.thread.frames = { caller with stack } :: callers := by
  obtain ⟨arguments, stack, -, hcallee, -⟩ := hcall.moved
  obtain ⟨returning, rest, next, hframes, hread, rfl⟩ := hfetch
  rw [hframes, List.length_cons] at hdepth
  have hrest : rest = caller :: callers := by
    have hbottom := hrun.bottom
    rw [Thread.bottom, Thread.bottom, hframes, hcall.frames] at hbottom
    simpa [show rest.length = callers.length + 1 by omega] using hbottom
  subst hrest
  have hmethod : returning.method = method := by
    have hmethods := hrun.methods
    rw [Thread.bottom, Thread.bottom, hframes, hcall.frames] at hmethods
    simp only [List.length_cons, Nat.sub_self, List.drop_zero, List.map_cons,
      List.cons.injEq] at hmethods
    exact hmethods.1.trans (Frame.fresh_enter? hcallee).2
  obtain ⟨r, hstep, hr⟩ := hstep
  rw [outcome_step ⟨returning, _, next, hframes, hread, rfl⟩] at hstep
  rcases hexecute : outcome (execute natives j) (u.past returning (caller :: callers) next) with
    ⟨(fault | _ | _ | _) | _, z'⟩ <;> rw [hexecute] at hstep
  · exact absurd hexecute (returns_no_fault hj rfl)
  · cases hstep
    exact hr.elim
  · cases hstep
    exact hr.elim
  · cases hstep
    exact hr.elim
  · cases hstep
    obtain ⟨result, stack, hresult, hpush, hafter⟩ := returns_ok hj rfl hexecute
    exact ⟨returning, result, stack, hframes, hmethod, hresult, hpush, hafter⟩

/-- Frames are isolated. The bottom frames stay as they are while there are others above them. An
invoke instruction that succeeds runs a native method, waits for an initialization, or enters a
method; and when the frame of that method leaves by a return, the caller is as it was right after
the call, without the arguments and with the slots of the result. -/
theorem frame_isolation (natives : Natives) :
    (∀ depth s t, RunAbove natives depth s t → t.thread.bottom depth = s.thread.bottom depth) ∧
    ∀ s i u t, Fetches s i u → Calls i → outcome (execute natives i) u = (.ok ⟨⟩, t) →
      outcome (step natives) s = (.ok ⟨⟩, t) ∧ ∃ top callers, u.thread.frames = top :: callers ∧
        Invoked u.thread.pc top callers t.thread.frames ∧
        ∀ method callee caller, Entered top callers method callee caller t.thread.frames →
          ∀ v j w z, RunAbove natives (callers.length + 1) t v →
            v.thread.frames.length = callers.length + 2 →
            Fetches v j w → Returns j → Steps natives v z →
            ∃ returning result stack, v.thread.frames = returning :: caller :: callers ∧
              returning.method = method ∧ returned? (plainForm j).opcode returning.stack = some result ∧
              caller.stack.pushAll? (returnedSlots result) = some stack ∧
                (returnedSlots result).length ≤ 2 ∧
              z.thread.frames = { caller with stack } :: callers := by
  refine ⟨fun depth s t h => h.bottom, fun s i u t hfetch hi hrun => ?_⟩
  refine ⟨by rw [outcome_step hfetch, hrun], ?_⟩
  obtain ⟨top, callers, next, hframes, hread, rfl⟩ := hfetch
  refine ⟨top.past next, callers, rfl, execute_calls hi rfl hrun,
    fun method callee caller hcall v j w z habove hdepth
    hfetch hj hstep => ?_⟩
  obtain ⟨returning, result, stack, hreturning, hmethod, hresult, hpush, hafter⟩ :=
    return_isolated hcall habove hdepth hfetch hj hstep
  exact ⟨returning, result, stack, hreturning, hmethod, hresult, hpush,
    returnedSlots_length result, hafter⟩

/-- A method that returns 1. -/
def answering : Method where
  owner := ⟨0⟩
  flags := ⟨8⟩
  name := "f"
  descriptor := "()I"
  parsed := ⟨[], .value .int⟩
  maxStack := 1
  maxLocals := 0
  code := #[0x04, 0xAC]
  handlers := []
  lines := []

/-- A method that returns what the other one returns. -/
def asking : Method := { answering with name := "g", code := #[0xB8, 0, 1, 0xAC] }

/-- A thread that is about to call a method, after so many steps. -/
def calling : Nat → Running
  | 0 =>
    let pool := #[.empty, .method ⟨⟨"A", some ⟨0⟩⟩, "f", "()I", some answering⟩]
    ⟨{ Machine.start [] with classes := #[{ (default : Class) with pool, initStarted := true }] },
      { Thread.start 8 with frames := [.start asking] }⟩
  | steps + 1 => (outcome (step .none) (calling steps)).2

theorem frame_isolation_calling : ∃ caller stack,
    (calling 1).thread.frames = [.start answering, caller] ∧
    caller.stack.pushAll? [.num 1] = some stack ∧
      (calling 3).thread.frames = [{ caller with stack }] := by
  have hfetch : Fetches (calling 0) ⟨.invokestatic, .u2 1⟩ ((calling 0).past (.start asking) [] 3) :=
    ⟨_, _, _, rfl, rfl, rfl⟩
  obtain ⟨-, top, callers, hframes, -, hreturn⟩ :=
    (frame_isolation .none).2 _ _ _ (calling 1) hfetch (by decide) rfl
  cases hframes
  have hentered : Entered ((Frame.start asking).past 3) [] answering (.start answering)
      ((Frame.start asking).past 3) (calling 1).thread.frames := ⟨rfl, ⟨[], _, rfl, rfl, rfl⟩, rfl⟩
  have habove : RunAbove .none 1 (calling 1) (calling 2) :=
    .step (.start (by decide)) ⟨.ok ⟨⟩, rfl, trivial⟩ (by decide)
  obtain ⟨returning, result, stack, hreturning, -, hresult, hpush, -, hafter⟩ :=
    hreturn _ _ _ hentered (calling 2) ⟨.ireturn, .none⟩ _ (calling 3) habove rfl
      ⟨_, _, _, rfl, rfl, rfl⟩ (by decide)
      ⟨.ok ⟨⟩, rfl, trivial⟩
  cases hreturning
  cases hresult
  exact ⟨_, stack, rfl, hpush, hafter⟩

end Exec

end JavaMachine
