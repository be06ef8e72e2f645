import JavaMachine.Proofs.PendingFrames

/-!
What a call from outside gives back.

A call puts a frame on top of those that are on the thread, and runs until none is left. So the last
thing that it does is a return of the bottom frame (`finish_returns`), and that frame's value is
what the call gives (`call_gives_result`): on a thread without frames the value that the called
method returned. Frames that were on the thread are run to their end as well, once the frame of the
call has left.
-/

namespace JavaMachine.Exec

variable {natives : Natives} {fuel : Nat} {s t u x : Running}
  {v result : Option Value} {method : Method} {arguments : List Value} {above base : List Frame}

/-! ### The value that a thread keeps -/

/-- A step that handles its fault goes on in a frame, and the thread keeps the value that it kept. -/
theorem handle_ok {depth : Nat} {fault : Fault} (hrun : outcome (handle depth fault) s = (.ok ⟨⟩, t)) :
    t.thread.frames ≠ [] ∧ t.thread.returnValue = s.thread.returnValue := by
  have hthrow : ∀ {exception : Address} {m : Machine}, outcome (throwFrom depth exception)
      ⟨m, s.thread⟩ = (.ok ⟨⟩, t) →
      t.thread.frames ≠ [] ∧ t.thread.returnValue = s.thread.returnValue := by
    intro exception m hrun
    rw [outcome_throwFrom] at hrun
    rcases unwind_completes (by rw [hrun]; trivial) with
      ⟨frame, callers, handler, m', hdispatch, hroom⟩ | ⟨m', text, hdispatch, htext⟩
    · obtain ⟨stack, -, -, hunwind⟩ := unwind_caught hdispatch hroom
      rw [hunwind] at hrun
      cases hrun
      exact ⟨List.cons_ne_nil _ _, rfl⟩
    · rw [unwind_uncaught hdispatch htext] at hrun
      cases hrun
  cases fault with
  | exception className message =>
    obtain ⟨_, _, -, ⟨⟩, -⟩ | ⟨exception, m, -, hrun⟩ := outcome_handle_exception_completes hrun trivial
    exact hthrow hrun
  | thrown exception =>
    rw [outcome_handle_thrown] at hrun
    exact hthrow hrun
  | _ => cases hrun

/-- Only the return of the bottom frame takes the last frame off, and only it changes the value that
the thread keeps. -/
theorem step_ok (hrun : outcome (step natives) s = (.ok ⟨⟩, t)) :
    (t.thread.frames ≠ [] ∧ t.thread.returnValue = s.thread.returnValue) ∨ ∃ bottom result,
      s.thread.frames = [bottom] ∧ LeavesBy s result ∧ t.thread.frames = [] ∧
        t.thread.returnValue = result.or s.thread.returnValue := by
  rcases fetches_or_fails natives s with ⟨i, u, hfetch⟩ | ⟨fault, t', hstep, -, -⟩
  · have hread := hfetch
    obtain ⟨top, callers, next, hframes, -, rfl⟩ := hread
    by_cases hreturns : Returns i
    · rw [outcome_step hfetch, outcome_returns hreturns rfl] at hrun
      rcases hresult : returned? (plainForm i).opcode (top.past next).stack with _ | result <;>
        rw [hresult] at hrun
      · cases hrun
      · rcases callers with _ | ⟨caller, below⟩ <;> dsimp only at hrun
        · cases hrun
          exact .inr ⟨top, result, hframes, ⟨i, _, _, _, hfetch, hreturns, rfl, hresult⟩, rfl, rfl⟩
        · rcases hpush : caller.stack.pushAll? (returnedSlots result) with _ | stack <;>
            rw [hpush] at hrun <;> cases hrun
          exact .inl ⟨List.cons_ne_nil _ _, rfl⟩
    · have hadvances := (plain_execute natives hreturns).advances (s.past top callers next)
      obtain ⟨pushed, top', hafter, -⟩ : FramesAbove (top.past next :: callers) _ := hadvances.frames
      have hkept := hadvances.returnValue
      obtain ⟨fault, t', hexecute, hrun⟩ | ⟨hexecute, -⟩ :=
        outcome_step_completes hfetch hrun trivial <;>
        rw [hexecute] at hkept hafter
      · obtain ⟨hframes, hsame⟩ := handle_ok hrun
        exact .inl ⟨hframes, hsame.trans hkept⟩
      · exact .inl ⟨by rw [hafter]; simp, hkept⟩
  · rw [hstep] at hrun
    cases hrun

/-! ### Runs until no frame is left -/

theorem RunAbove.head {depth : Nat} (hstep : Steps natives s t) (hs : depth < s.thread.frames.length)
    (h : RunAbove natives depth t u) : RunAbove natives depth s u := by
  induction h with
  | start above => exact .step (.start hs) hstep above
  | step _ hstep above ih => exact .step ih hstep above

/-- From `u` on, the frame of a method above those of `base` leaves by a return with this result,
which leads to `x`. -/
def Returning (natives : Natives) (method : Method) (base : List Frame) (u : Running)
    (result : Option Value) (x : Running) : Prop :=
  ∃ w returning, RunAbove natives base.length u w ∧ w.thread.frames = returning :: base ∧
    returning.method = method ∧
    LeavesBy w result ∧ outcome (step natives) w = (.ok ⟨⟩, x) ∧ Hands result base x.thread.frames

/-- From `u` on, an exception from the frames above those of `base` is caught by one of these, in
the state `x`. -/
def Catching (natives : Natives) (base : List Frame) (u x : Running) : Prop :=
  ∃ w, RunAbove natives base.length u w ∧ (∃ fault, Faults natives w fault) ∧
    outcome (step natives) w = (.ok ⟨⟩, x) ∧ ∃ frame callers frame', (frame :: callers) <:+ base ∧
    frame.pc ≠ none ∧ x.thread.frames = frame' :: callers

/-- A run that ends well is without frames, or it is a step that ends well and the run that follows. -/
theorem finish_ok (hrun : outcome (finish natives fuel) s = (.ok v, t)) :
    (s.thread.frames = [] ∧ v = s.thread.returnValue ∧ t.thread.frames = []) ∨
      s.thread.frames ≠ [] ∧ ∃ fuel' u, fuel = fuel' + 1 ∧ outcome (step natives) s = (.ok ⟨⟩, u) ∧
        outcome (finish natives fuel') u = (.ok v, t) := by
  rcases fuel with _ | fuel
  · cases hrun
  · unfold finish at hrun
    rw [outcome_bind_of_ok outcome_thread] at hrun
    split at hrun
    · rename_i hempty
      cases hrun
      exact .inl ⟨List.isEmpty_iff.mp hempty, rfl, List.isEmpty_iff.mp hempty⟩
    · rename_i hframes
      obtain ⟨_, u, hstep, hrest⟩ := outcome_bind_ok.mp hrun
      exact .inr ⟨mt List.isEmpty_iff.mpr hframes, fuel, u, rfl, hstep, hrest⟩

theorem finish_frames (hrun : outcome (finish natives fuel) s = (.ok v, t)) : t.thread.frames = [] := by
  induction fuel generalizing s with
  | zero => cases hrun
  | succ fuel ih =>
    rcases finish_ok hrun with ⟨-, -, hend⟩ | ⟨-, _, u, heq, -, hrest⟩
    · exact hend
    · cases heq
      exact ih hrest

/-- A run that ends well ends with the return of the bottom frame, and gives its value. -/
theorem finish_returns {bottom : Frame} (hframes : s.thread.frames = above ++ [bottom])
    (hrun : outcome (finish natives fuel) s = (.ok v, t)) :
    ∃ result x, Returning natives bottom.method [] s result x ∧ v = result.or s.thread.returnValue := by
  induction fuel generalizing s above bottom with
  | zero => cases hrun
  | succ fuel ih =>
    rcases finish_ok hrun with ⟨hempty, -, -⟩ | ⟨hpos, _, u, heq, hstep, hrest⟩
    · simp [hempty] at hframes
    cases heq
    rcases step_ok hstep with ⟨hkept, hsame⟩ | ⟨last, result, hlast, hleaves, hleft, hvalue⟩
    · obtain ⟨above', bottom', hframes', hmethod⟩ :=
        (step_frames hstep trivial).keepsFrame hframes (List.length_pos_iff.mpr hkept)
      obtain ⟨result, x, ⟨w, returning, habove, hreturn⟩, hv⟩ := ih hframes' hrest
      have habove := habove.head ⟨_, hstep, trivial⟩ (List.length_pos_iff.mpr hpos)
      exact ⟨result, x, ⟨w, returning, habove, hmethod ▸ hreturn⟩, hsame ▸ hv⟩
    · rw [hlast] at hframes
      obtain ⟨-, hbottom⟩ := List.append_inj' (show [] ++ [last] = above ++ [bottom] from hframes) rfl
      obtain rfl : last = bottom := List.head_eq_of_cons_eq hbottom
      rcases finish_ok hrest with ⟨-, hv, -⟩ | ⟨hmore, -⟩
      · exact ⟨result, u, ⟨s, last, .start (List.length_pos_iff.mpr hpos), hlast, rfl,
          hleaves, hstep, hleft⟩, hv.trans hvalue⟩
      · exact absurd hleft hmore

/-- In a run that ends well a frame above others leaves by a return, or an exception is caught by
one of those below it. -/
theorem finish_leaves {a : Frame} (hframes : s.thread.frames = above ++ a :: base) (hbase : base ≠ [])
    (hrun : outcome (finish natives fuel) s = (.ok v, t)) :
    ∃ x, (∃ result, Returning natives a.method base s result x) ∨ Catching natives base s x := by
  induction fuel generalizing s above a with
  | zero => cases hrun
  | succ fuel ih =>
    have hlength : base.length < s.thread.frames.length := by rw [hframes]; simp; omega
    rcases finish_ok hrun with ⟨hempty, -, -⟩ | ⟨-, _, u, heq, hstep, hrest⟩
    · simp [hempty] at hframes
    cases heq
    rcases Nat.lt_or_ge base.length u.thread.frames.length with hkept | hfall
    · obtain ⟨above', a', hframes', hmethod⟩ := (step_frames hstep trivial).keepsFrame hframes hkept
      rw [← hmethod]
      obtain ⟨x, ⟨result, w, returning, habove, hreturn⟩ | ⟨w, habove, hcatch⟩⟩ := ih hframes' hrest
      · exact ⟨x, .inl ⟨result, w, returning, habove.head ⟨_, hstep, trivial⟩ hlength, hreturn⟩⟩
      · exact ⟨x, .inr ⟨w, habove.head ⟨_, hstep, trivial⟩ hlength, hcatch⟩⟩
    · have habove : above ++ [a] ≠ [] := by simp
      rcases step_falls (by simpa using hframes) habove hstep trivial hfall with
        ⟨top, result, htop, -, hleaves, hhands⟩ | ⟨hfault, hempty | hcaught⟩
      · obtain ⟨rfl, heq⟩ := List.append_inj' (show above ++ [a] = [] ++ [top] from htop) rfl
        exact ⟨u, .inl ⟨result, s, a, .start hlength, hframes, rfl, hleaves, hstep, hhands⟩⟩
      · rcases step_ok hstep with ⟨hmore, -⟩ | ⟨last, -, hlast, -⟩
        · exact absurd hempty hmore
        · rw [hlast, List.length_singleton] at hlength
          exact absurd (List.length_eq_zero_iff.mp (Nat.lt_one_iff.mp hlength)) hbase
      · exact ⟨u, .inr ⟨s, .start hlength, hfault, hstep, hcaught⟩⟩

/-! ### Calls from outside -/

theorem enter_ok (hrun : outcome (enter method arguments) s = (.ok ⟨⟩, u)) : ∃ frame,
    Frame.enter? method (arguments.flatMap Value.slots) = some frame ∧
      u = ⟨s.machine, { s.thread with frames := frame :: s.thread.frames }⟩ := by
  unfold enter at hrun
  dsimp only at hrun
  split at hrun
  · cases hrun
  · rcases hframe : Frame.enter? method (arguments.flatMap Value.slots) with _ | frame <;>
      rw [hframe] at hrun
    · cases hrun
    · have hpush : outcome (pushFrame frame) s = (.ok ⟨⟩, u) := hrun
      rw [outcome_pushFrame] at hpush
      split at hpush <;> cases hpush
      exact ⟨frame, rfl, rfl⟩

/-- A call that begins puts a frame with the arguments on top, and those of initializers on top of
this one. -/
theorem startCall_ok (hrun : outcome (startCall method arguments) s = (.ok ⟨⟩, u)) : ∃ frame above,
    Frame.enter? method (arguments.flatMap Value.slots) = some frame ∧
      u.thread.frames = above ++ frame :: s.thread.frames ∧
        u.thread.returnValue = s.thread.returnValue := by
  unfold startCall at hrun
  obtain ⟨_, u₀, henter, hbegin⟩ := outcome_bind_ok.mp hrun
  obtain ⟨frame, hframe, rfl⟩ := enter_ok henter
  rw [outcome_bind_of_ok outcome_machine] at hbegin
  split at hbegin
  · obtain ⟨r, done, pushed, -, -, hbegun, -⟩ := outcome_initializeClass method.owner
      ⟨s.machine, { s.thread with frames := frame :: s.thread.frames }⟩
    rw [hbegun] at hbegin
    cases hbegin
    exact ⟨frame, _, hframe, rfl, rfl⟩
  · cases hbegin
    exact ⟨frame, [], hframe, rfl, rfl⟩

/-- From `u` on the bottom frame, which is one of this method, leaves by a return, and `v` is the
value of that return. When there is none, `v` is none if the thread kept no value before. -/
def Answers (natives : Natives) (method : Method) (kept : Option Value) (u : Running)
    (v : Option Value) : Prop :=
  ∃ result x, Returning natives method [] u result x ∧ (∀ value, result = some value → v = some value) ∧
    (kept = none → v = result)

theorem finish_answers {bottom : Frame} (hframes : s.thread.frames = above ++ [bottom])
    (hrun : outcome (finish natives fuel) s = (.ok v, t)) :
    Answers natives bottom.method s.thread.returnValue s v := by
  obtain ⟨result, x, hreturns, hv⟩ := finish_returns hframes hrun
  refine ⟨result, x, hreturns, fun value hvalue => ?_, fun hnone => ?_⟩
  · rw [hv, hvalue, Option.some_or]
  · rw [hv, hnone, Option.or_none]

/-- A call that ends well leaves no frame on the thread and gives what the bottom frame returned: on
a thread without frames that is the frame of the called method. Frames that were on the thread stay
until this frame leaves by a return, or until one of them catches an exception from above. A native
method leaves the thread alone. -/
theorem call_gives_result (hrun : outcome (invoke natives fuel method arguments) s = (.ok v, t)) :
    (method.flags.isNative = true → t.thread = s.thread ∧
      outcome (invokeNative natives method (arguments.flatMap Value.slots)) s.machine =
        (.ok v, t.machine)) ∧
    (method.flags.isNative = false → t.thread.frames = [] ∧ ∃ frame u above,
      Frame.enter? method (arguments.flatMap Value.slots) = some frame ∧
      outcome (startCall method arguments) s = (.ok ⟨⟩, u) ∧
      u.thread.frames = above ++ frame :: s.thread.frames ∧
      (s.thread.frames = [] → Answers natives method s.thread.returnValue u v) ∧
      ∀ callers bottom, s.thread.frames = callers ++ [bottom] →
        Answers natives bottom.method s.thread.returnValue u v ∧
          ∃ x, (∃ result, Returning natives method s.thread.frames u result x) ∨
            Catching natives s.thread.frames u x) := by
  refine ⟨fun hnative => ?_, fun hcode => ?_⟩
  · rcases outcome_invoke_native hnative s with ⟨fault, hrefused⟩ | hlifted
    · rw [hrefused] at hrun
      cases hrun
    · rw [hlifted, outcome_lift] at hrun
      obtain ⟨hresult, rfl⟩ := Prod.mk.inj hrun
      exact ⟨rfl, Prod.ext hresult rfl⟩
  · rw [invoke_eq hcode] at hrun
    obtain ⟨_, u, hstart, hfinish⟩ := outcome_bind_ok.mp hrun
    obtain ⟨frame, above, hframe, hframes, hkept⟩ := startCall_ok hstart
    have hmethod := (Frame.fresh_enter? hframe).2
    refine ⟨finish_frames hfinish, frame, u, above, hframe, hstart, hframes, fun hempty => ?_,
      fun callers bottom hbottom => ⟨?_, ?_⟩⟩
    · rw [hempty] at hframes
      have hanswers := finish_answers hframes hfinish
      rwa [hmethod, hkept] at hanswers
    · have hbase : u.thread.frames = (above ++ frame :: callers) ++ [bottom] := by
        rw [hframes, hbottom]; simp
      have hanswers := finish_answers hbase hfinish
      rwa [hkept] at hanswers
    · rw [← hmethod]
      exact finish_leaves hframes (by simp [hbottom]) hfinish

/-- A method that returns 2. -/
def replying : Method := { answering with name := "reply", code := #[0x05, 0xAC] }

/-- A thread with these frames, on a machine whose only class counts as started. -/
def resting (frames : List Frame) : Running :=
  ⟨{ Machine.start [] with classes := #[{ (default : Class) with initStarted := true }] },
    { Thread.start 8 with frames }⟩

theorem call_gives_result_alone : ∃ t u,
      outcome (invoke .none 3 replying []) (resting []) = (.ok (some (.int 2)), t) ∧
    t.thread.frames = [] ∧ outcome (startCall replying []) (resting []) = (.ok ⟨⟩, u) ∧
      Answers .none replying none u (some (.int 2)) := by
  let t : Running := (outcome (invoke .none 3 replying []) (resting [])).2
  have hrun : outcome (invoke .none 3 replying []) (resting []) = (.ok (some (.int 2)), t) := rfl
  obtain ⟨hend, frame, u, above, -, hstart, -, halone, -⟩ := (call_gives_result hrun).2 rfl
  exact ⟨t, u, hrun, hend, hstart, halone rfl⟩

/-- A call on a thread with a frame does not always give the value of its own method, and does not
leave that frame. -/
theorem not_always_own_result :
    (¬ ∀ natives fuel method arguments s v t,
      outcome (invoke natives fuel method arguments) s = (.ok v, t) →
      method.flags.isNative = false → ∀ u result x, outcome (startCall method arguments) s =
        (.ok ⟨⟩, u) → Returning natives method s.thread.frames u result x → v = result) ∧
    ¬ ∀ natives fuel method arguments s v t,
      outcome (invoke natives fuel method arguments) s = (.ok v, t) →
      t.thread.frames = s.thread.frames := by
  let s := resting [.start { answering with maxStack := 2 }]
  let u : Running := (outcome (startCall replying []) s).2
  let w : Running := (outcome (step .none) u).2
  let t : Running := (outcome (invoke .none 5 replying []) s).2
  have hrun : outcome (invoke .none 5 replying []) s = (.ok (some (.int 1)), t) :=
    outcome_of_toOption (by decide +kernel)
  have hend : t.thread.frames = [] := by
    rw [invoke_eq rfl] at hrun
    obtain ⟨_, _, -, hfinish⟩ := outcome_bind_ok.mp hrun
    exact finish_frames hfinish
  refine ⟨fun h => ?_, fun h => ?_⟩
  · have habove : RunAbove .none 1 u w := .step (.start (by decide)) ⟨.ok ⟨⟩, rfl, trivial⟩ (by decide)
    have hleaves : LeavesBy w (some (.int 2)) :=
      ⟨⟨.ireturn, .none⟩, _, _, _, ⟨_, _, _, rfl, rfl, rfl⟩, by decide, rfl, rfl⟩
    have hown := h _ _ _ _ _ _ _ hrun rfl u _ _ rfl ⟨w, _, habove, rfl, rfl, hleaves, rfl, _, rfl, rfl⟩
    cases hown
  · rw [h _ _ _ _ _ _ _ hrun] at hend
    cases hend

end JavaMachine.Exec
