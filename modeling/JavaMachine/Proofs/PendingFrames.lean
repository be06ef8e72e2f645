import JavaMachine.Proofs.FrameIsolation
import JavaMachine.Proofs.Sessions

/-!
Frames that wait on a thread.

Whatever an act does, the frames below the one that it works on stay (`Act.keepsFrame`). When an act
goes down to them, it is a return, which changes at most the operand stack of the first of them, or
an exception goes down to one that has run an instruction, or past them all (`Act.falls`). So frames
that have run no instruction come on top one after the other, each when the one above it has
returned; or they are discarded together (`Session.Run.entered`).
-/

namespace JavaMachine

theorem suffix_append_cases {α : Type} {xs ys zs : List α} (h : zs <:+ xs ++ ys) :
    zs <:+ ys ∨ ∃ ws, zs = ws ++ ys ∧ ws <:+ xs := by
  obtain ⟨before, h⟩ := h
  rcases List.append_eq_append_iff.mp h with ⟨ws, rfl, rfl⟩ | ⟨ws, rfl, hys⟩
  · exact .inr ⟨ws, rfl, before, rfl⟩
  · exact .inl ⟨ws, hys.symm⟩

/-- The frame right above others is still one of the same method while the frames do not go down to
those. -/
theorem FramesStep.keepsFrame {above below before after : List Frame} {a : Frame}
    (h : FramesStep before after)
    (hbefore : before = above ++ a :: below) (hafter : below.length < after.length) :
    ∃ above' a', after = above' ++ a' :: below ∧ a'.method = a.method := by
  cases h with
  | @up top top' callers pushed same =>
    rcases above with _ | ⟨first, above⟩
    · cases hbefore
      exact ⟨pushed, top', rfl, same⟩
    · cases hbefore
      exact ⟨pushed ++ top' :: above, a, by simp, rfl⟩
  | @down before callers frame frame' hsuffix same =>
    rw [hbefore] at hsuffix
    rcases suffix_append_cases hsuffix with hbelow | ⟨ws, heq, -⟩
    · rcases List.suffix_cons_iff.mp hbelow with heq | hbelow
      · cases heq
        exact ⟨[], frame', rfl, same⟩
      · exact absurd hbelow.length_le (Nat.not_le_of_lt hafter)
    · rcases ws with _ | ⟨w, ws⟩
      · cases heq
        exact ⟨[], frame', rfl, same⟩
      · cases heq
        exact ⟨frame' :: ws, a, rfl, rfl⟩
  | empty => exact absurd hafter (Nat.not_lt_zero _)

/-- With the running frame still there the frames do not go down to those below it. -/
theorem FramesAbove.not_length_le {above below frames : List Frame} {top : Frame}
    (h : FramesAbove (top :: (above ++ below)) frames) : ¬ frames.length ≤ below.length := by
  obtain ⟨pushed, top', rfl, -⟩ := h
  simp only [List.length_append, List.length_cons]
  omega

/-- It is the running frame that moves on to the next instruction. -/
theorem Fetches.past {s u : Running} {i : Instruction} {top : Frame} {callers : List Frame}
    (h : Fetches s i u)
    (hframes : s.thread.frames = top :: callers) : ∃ next, u = s.past top callers next := by
  obtain ⟨first, rest, next, hfirst, -, rfl⟩ := h
  rw [hframes] at hfirst
  cases hfirst
  exact ⟨next, rfl⟩

namespace Exec

variable {natives : Natives} {s t : Running} {r : Except Failure Unit} {above below : List Frame}

/-- The frames that a return finds below, and those that it leaves: the first one gets the slots of
the result. -/
def Hands (result : Option Value) : List Frame → List Frame → Prop
  | [], after => after = []
  | caller :: below, after => ∃ stack, caller.stack.pushAll? (returnedSlots result) = some stack ∧
    after = { caller with stack } :: below

namespace Hands

theorem of_none : ∀ {below after : List Frame}, Hands none below after → after = below
  | [], _, h => h
  | caller :: below, _, ⟨stack, hpush, h⟩ => by
    cases hpush
    exact h

theorem length_eq {result : Option Value} : ∀ {below after : List Frame}, Hands result below after →
    after.length = below.length
  | [], _, h => congrArg List.length h
  | caller :: below, _, ⟨stack, _, h⟩ => by rw [h, List.length_cons, List.length_cons]

end Hands

/-- The next instruction is a return with this result. -/
def LeavesBy (s : Running) (result : Option Value) : Prop :=
  ∃ i u top callers, Fetches s i u ∧ Returns i ∧ u.thread.frames = top :: callers ∧
    returned? (plainForm i).opcode top.stack = some result

/-- A return goes to the frames below. -/
theorem LeavesBy.hands {result : Option Value} {top : Frame} (h : LeavesBy s result)
    (hframes : s.thread.frames = top :: below) (hrun : outcome (step natives) s = (.ok ⟨⟩, t)) :
    Hands result below t.thread.frames := by
  obtain ⟨i, u, top', callers, hfetch, hreturns, htop, hresult⟩ := h
  obtain ⟨fault, t', hexecute, -⟩ | ⟨hexecute, -⟩ := outcome_step_completes hfetch hrun trivial
  · exact absurd hexecute (returns_no_fault hreturns htop)
  · obtain ⟨next, rfl⟩ := hfetch.past hframes
    cases htop
    rw [outcome_returns hreturns rfl, hresult] at hexecute
    rcases below with _ | ⟨caller, below⟩
    · cases hexecute
      rfl
    · dsimp only at hexecute
      rcases hpush : caller.stack.pushAll? (returnedSlots result) with _ | stack <;>
        rw [hpush] at hexecute <;>
        cases hexecute
      exact ⟨stack, hpush, rfl⟩

/-- The next instruction ends in this fault. -/
def Faults (natives : Natives) (s : Running) (fault : Fault) : Prop :=
  ∃ i u t, Fetches s i u ∧ outcome (execute natives i) u = (.error (.fault fault), t)

/-- What an exception leaves of frames: those from one on that has run an instruction, or none. -/
def Drops (below after : List Frame) : Prop :=
  after = [] ∨ ∃ frame callers frame', (frame :: callers) <:+ below ∧ frame.pc ≠ none ∧
    after = frame' :: callers

/-- An exception that goes down to frames goes past those that have run no instruction. -/
theorem Drops.length_le {pending base after : List Frame} (h : Drops (pending ++ base) after)
    (hpending : ∀ frame ∈ pending, frame.pc = none) : after.length ≤ base.length := by
  rcases h with rfl | ⟨frame, callers, frame', hsuffix, hran, rfl⟩
  · exact Nat.zero_le _
  · refine Nat.le_of_not_lt fun hlength => ?_
    rcases suffix_append_cases hsuffix with hbelow | ⟨ws, heq, hws⟩
    · exact absurd hbelow.length_le (Nat.not_le_of_lt hlength)
    · rcases ws with _ | ⟨w, ws⟩
      · rw [List.length_cons, ← List.length_cons (a := frame), heq] at hlength
        exact absurd hlength (Nat.lt_irrefl _)
      · cases heq
        exact hran (hpending _ (hws.mem (List.mem_cons_self ..)))

/-- An instruction that completes goes down to frames by a return from the only frame above them. -/
theorem execute_falls {i : Instruction} {u : Running} {top : Frame}
    (hframes : s.thread.frames = top :: (above ++ below))
    (hfetch : Fetches s i u) (hexecute : outcome (execute natives i) u = (.ok ⟨⟩, t))
    (hfall : t.thread.frames.length ≤ below.length) :
    ∃ result, above = [] ∧ LeavesBy s result ∧ Hands result below t.thread.frames := by
  have hrun : outcome (step natives) s = (.ok ⟨⟩, t) := by rw [outcome_step hfetch, hexecute]
  obtain ⟨next, rfl⟩ := hfetch.past hframes
  by_cases hreturns : Returns i
  · rcases hresult : returned? (plainForm i).opcode (top.past next).stack with _ | result
    · rw [outcome_returns hreturns rfl, hresult] at hexecute
      cases hexecute
    · have hleaves : LeavesBy s result := ⟨i, _, _, _, hfetch, hreturns, rfl, hresult⟩
      have hhands := hleaves.hands hframes hrun
      have hlength := hhands.length_eq
      rw [List.length_append] at hlength
      have habove : above = [] := List.length_eq_zero_iff.mp (by omega)
      subst habove
      exact ⟨result, rfl, hleaves, hhands⟩
  · have hkept : FramesAbove (top.past next :: (above ++ below)) t.thread.frames :=
      execute_above hreturns hexecute
    exact absurd hfall hkept.not_length_le

/-- The exception that a fault becomes goes down to frames if one of them catches it, or none does. -/
theorem handle_falls {top : Frame} {fault : Fault}
    (hs : FramesAbove (top :: (above ++ below)) s.thread.frames)
    (hrun : outcome (handle (above ++ below).length.succ fault) s = (r, t)) (hr : Completes r)
    (hfall : t.thread.frames.length ≤ below.length) : Drops below t.thread.frames := by
  obtain ⟨top', hdropped, -⟩ := hs.dropped
  rcases handle_frames hrun hr with hsame | hnone | ⟨frame, rest, frame', hsuffix, hran, -, hcaught⟩
  · rw [hsame] at hfall
    exact absurd hfall hs.not_length_le
  · exact .inl hnone
  · rw [hdropped] at hsuffix
    refine .inr ⟨frame, rest, frame', ?_, hran, hcaught⟩
    rw [hcaught] at hfall
    exact List.suffix_of_suffix_length_le hsuffix ⟨top' :: above, rfl⟩ hfall

/-- A step goes down to frames by a return from the only frame above them, or by an exception. -/
theorem step_falls (hframes : s.thread.frames = above ++ below) (habove : above ≠ [])
    (hrun : outcome (step natives) s = (r, t)) (hr : Completes r)
    (hfall : t.thread.frames.length ≤ below.length) :
    (∃ top result, above = [top] ∧ r = .ok ⟨⟩ ∧ LeavesBy s result ∧
      Hands result below t.thread.frames) ∨
      (∃ fault, Faults natives s fault) ∧ Drops below t.thread.frames := by
  obtain ⟨top, above, rfl⟩ := List.exists_cons_of_ne_nil habove
  rw [List.cons_append] at hframes
  rcases fetches_or_fails natives s with ⟨i, u, hfetch⟩ | ⟨fault, t', hstep, -, hsame⟩
  · obtain ⟨fault, t', hexecute, hrun⟩ | ⟨hexecute, rfl⟩ := outcome_step_completes hfetch hrun hr
    · rw [Thread.depth, hframes] at hrun
      obtain ⟨next, rfl⟩ := hfetch.past hframes
      have hcontinues : FramesAbove (top.past next :: (above ++ below)) t'.thread.frames :=
        execute_fault rfl hexecute
      exact .inr ⟨⟨fault, i, _, t', hfetch, hexecute⟩, handle_falls hcontinues hrun hr hfall⟩
    · obtain ⟨result, rfl, hleaves, hhands⟩ := execute_falls hframes hfetch hexecute hfall
      exact .inl ⟨top, result, rfl, rfl, hleaves, hhands⟩
  · -- Without an instruction the frames stay.
    rw [hstep] at hrun
    cases hrun
    rw [hsame, hframes] at hfall
    exact absurd hfall (FramesAbove.refl (top :: (above ++ below))).not_length_le

/-- The beginning of a call from outside only puts frames on top. -/
theorem startCall_frames {method : Method} {arguments : List Value}
    (hrun : outcome (startCall method arguments) s = (r, t)) : s.thread.frames <:+ t.thread.frames := by
  unfold startCall at hrun
  rcases outcome_enter method arguments s with ⟨frame, -, -, henter⟩ | ⟨e, henter⟩
  · rw [outcome_bind_of_ok henter, outcome_bind_of_ok outcome_machine] at hrun
    split at hrun
    · obtain ⟨r', done, pushed, -, -, hbegun, -⟩ := outcome_initializeClass method.owner
        ⟨s.machine, { s.thread with frames := frame :: s.thread.frames }⟩
      rw [hbegun] at hrun
      cases hrun
      exact (List.suffix_cons ..).trans (List.suffix_append ..)
    · cases hrun
      exact List.suffix_cons ..
  · rw [outcome_bind_of_error henter] at hrun
    cases hrun
    exact List.suffix_refl _

end Exec

namespace Act

variable {natives : Natives} {act : Act} {s t : Running} {r : Except Failure Unit}
  {above below : List Frame}

/-- What an act other than a step leaves: the frames that were there, and perhaps others on top. -/
theorem frames_of_ne_step (hact : act ≠ .step) (hrun : outcome (act.run natives) s = (r, t)) :
    s.thread.frames <:+ t.thread.frames := by
  cases act with
  | step => exact absurd rfl hact
  | call method arguments => exact Exec.startCall_frames hrun
  | collect =>
    cases hrun
    exact List.suffix_refl _

/-- Frames stay while there are others above them, and the one right above them is still one of the
same method. -/
theorem keepsFrame {a : Frame} (hrun : outcome (act.run natives) s = (r, t)) (hr : Completes r)
    (hframes : s.thread.frames = above ++ a :: below) (hkept : below.length < t.thread.frames.length) :
    ∃ above' a', t.thread.frames = above' ++ a' :: below ∧ a'.method = a.method := by
  by_cases hact : act = .step
  · subst hact
    exact (Exec.step_frames hrun hr).keepsFrame hframes hkept
  · obtain ⟨pushed, hpushed⟩ := frames_of_ne_step hact hrun
    exact ⟨pushed ++ above, a, by rw [← hpushed, hframes, List.append_assoc], rfl⟩

theorem stays (hrun : outcome (act.run natives) s = (r, t)) (hr : Completes r)
    (hframes : s.thread.frames = above ++ below) (habove : below.length < s.thread.frames.length)
    (hkept : below.length < t.thread.frames.length) : ∃ above', t.thread.frames = above' ++ below := by
  rcases List.eq_nil_or_concat above with rfl | ⟨above, a, rfl⟩
  · rw [hframes] at habove
    exact absurd habove (Nat.lt_irrefl _)
  · rw [List.concat_eq_append, List.append_assoc] at hframes
    obtain ⟨above', a', hafter, -⟩ := keepsFrame hrun hr hframes hkept
    exact ⟨above' ++ [a'], by rw [hafter]; simp⟩

/-- An act goes down to frames by a return from the only frame above them, or by an exception. -/
theorem falls (hrun : outcome (act.run natives) s = (r, t)) (hr : Completes r)
    (hframes : s.thread.frames = above ++ below) (habove : above ≠ [])
    (hfall : t.thread.frames.length ≤ below.length) : act = .step ∧
      ((∃ top result, above = [top] ∧ r = .ok ⟨⟩ ∧ Exec.LeavesBy s result ∧
          Exec.Hands result below t.thread.frames) ∨
        (∃ fault, Exec.Faults natives s fault) ∧ Exec.Drops below t.thread.frames) := by
  by_cases hact : act = .step
  · subst hact
    exact ⟨rfl, Exec.step_falls hframes habove hrun hr hfall⟩
  · have hle := (frames_of_ne_step hact hrun).length_le
    have hpos := List.length_pos_iff.mpr habove
    rw [hframes, List.length_append] at hle
    omega

end Act

/-- An event that leaves the top frame by a return, with this result. -/
structure Event.Returns (e : Event) (result : Option Value) : Prop where
  step : e.act = .step
  ok : e.result = .ok ⟨⟩
  leaves : Exec.LeavesBy e.before result

theorem Event.Returns.hands {natives : Natives} {e : Event} {result : Option Value} {top : Frame}
    {below : List Frame}
    (h : e.Returns result) (hrun : outcome (e.act.run natives) e.before = (e.result, e.after))
    (hframes : e.before.thread.frames = top :: below) :
    Exec.Hands result below e.after.thread.frames := by
  rw [h.step, h.ok] at hrun
  exact h.leaves.hands hframes hrun

namespace Session

variable {natives : Natives} {S S' : Session} {es : List Event} {k : Nat} {t : Thread} {f : Frame}
  {upper lower base below : List Frame}

/-- The frames have returned one after the other, each to those below it. -/
def Returned (k : Nat) (es : List Event) (frames below : List Frame) : Prop :=
  ∀ upper g lower, frames = upper ++ g :: lower → ∃ x ∈ es, x.index = k ∧ (∃ result, x.Returns result) ∧
    ∃ a, x.before.thread.frames = a :: (lower ++ below) ∧ a.method = g.method

namespace Returned

theorem nil : Returned k es [] below := fun upper _ _ h => by cases upper <;> cases h

theorem later {e : Event} (h : Returned k es upper below) : Returned k (es ++ [e]) upper below := by
  intro upper' g lower heq
  obtain ⟨x, hx, hreturns⟩ := h upper' g lower heq
  exact ⟨x, List.mem_append_left _ hx, hreturns⟩

/-- One more frame returns. -/
theorem next {e : Event} {g a : Frame} {result : Option Value} (h : Returned k es upper (g :: below))
    (hindex : e.index = k) (hreturns : e.Returns result) (hframes : e.before.thread.frames = a :: below)
    (hmethod : a.method = g.method) : Returned k (es ++ [e]) (upper ++ [g]) below := by
  intro upper' g' lower heq
  rcases List.eq_nil_or_concat lower with rfl | ⟨lower, last, rfl⟩
  · obtain ⟨-, hlast⟩ := List.append_inj' heq rfl
    cases hlast
    exact ⟨e, by simp, hindex, ⟨result, hreturns⟩, a, hframes, hmethod⟩
  · rw [List.concat_eq_append] at heq ⊢
    rw [← List.cons_append, ← List.append_assoc] at heq
    obtain ⟨rfl, hlast⟩ := List.append_inj' heq rfl
    cases hlast
    obtain ⟨x, hx, hindex, hreturns, b, hframes, hmethod⟩ := h upper' g' lower rfl
    exact ⟨x, List.mem_append_left _ hx, hindex, hreturns, b, by simpa using hframes, hmethod⟩

end Returned

namespace Run

/-- Frames are where they were for as long as all events find others above them. -/
theorem keeps_below (h : Run natives S es S') (ht : S.threads[k]? = some t)
    (hframes : ∃ above, t.frames = above ++ below)
    (habove : ∀ x ∈ es, x.index = k → below.length < x.before.thread.frames.length) :
    ∃ t', S'.threads[k]? = some t' ∧
      (below.length < t'.frames.length → ∃ above, t'.frames = above ++ below) := by
  refine h.thread_keeps (p := fun _ t => below.length < t.frames.length → ∃ above,
    t.frames = above ++ below) ht
    (fun _ => hframes) (fun _ _ _ _ h => h) ?_
  intro before x after hes hindex hkept hlength
  have hx : x ∈ es := by rw [hes]; simp
  obtain ⟨hrun, hr⟩ := h.runs hx
  obtain ⟨above, hbefore⟩ := hkept (habove x hx hindex)
  exact Act.stays hrun hr hbefore (habove x hx hindex) hlength

/-- Frames to which a thread only goes down by a return without a result come on top as they were. -/
theorem returns_to (h : Run natives S es S') (ht : S.threads[k]? = some t)
    (hframes : ∃ above, t.frames = above ++ below)
    (habove : ∀ x ∈ es, x.index = k → below.length < x.before.thread.frames.length)
    (hreturns : ∀ x ∈ es, x.index = k → x.after.thread.frames.length ≤ below.length → x.Returns none) :
    ∃ t', S'.threads[k]? = some t' ∧ ∃ above, t'.frames = above ++ below := by
  refine h.thread_keeps (p := fun _ t => ∃ above, t.frames = above ++ below) ht hframes
    (fun _ _ _ _ h => h) ?_
  rintro before x after hes hindex ⟨above, hbefore⟩
  have hx : x ∈ es := by rw [hes]; simp
  have hlength := habove x hx hindex
  obtain ⟨hrun, hr⟩ := h.runs hx
  rcases Nat.lt_or_ge below.length x.after.thread.frames.length with hkept | hfall
  · exact Act.stays hrun hr hbefore hlength hkept
  · rcases above with _ | ⟨top, above⟩
    · rw [hbefore] at hlength
      exact absurd hlength (Nat.lt_irrefl _)
    · have hhands := (hreturns x hx hindex hfall).hands hrun hbefore
      exact ⟨above, hhands.of_none⟩

end Run

/-- Where a thread is on its way through the frames `upper` to the frame `f` below them. -/
inductive Entering (k : Nat) (upper : List Frame) (f : Frame) (lower base : List Frame)
    (es : List Event) (t : Thread) :
    Prop where
  /-- In the frame `g` of them, after those above it have returned. -/
  | within {done mid above : List Frame} {g a : Frame} (split : upper = done ++ g :: mid)
      (frames : t.frames = above ++ a :: (mid ++ f :: (lower ++ base))) (same : a.method = g.method)
      (returned : Returned k es done (g :: (mid ++ f :: (lower ++ base)))) :
      Entering k upper f lower base es t
  | entered {stack : OperandStack} (frames : t.frames = { f with stack } :: (lower ++ base))
      (returned : Returned k es upper (f :: (lower ++ base))) : Entering k upper f lower base es t
  | gone (gone : t.frames.length ≤ base.length) : Entering k upper f lower base es t

namespace Entering

theorem start (h : t.frames = upper ++ f :: (lower ++ base)) : Entering k upper f lower base [] t := by
  rcases upper with _ | ⟨g, mid⟩
  · exact .entered h .nil
  · exact .within rfl (show t.frames = [] ++ g :: (mid ++ f :: (lower ++ base)) from h) rfl .nil

theorem later {e : Event} (h : Entering k upper f lower base es t) :
    Entering k upper f lower base (es ++ [e]) t := by
  cases h with
  | within split frames same returned => exact .within split frames same returned.later
  | entered frames returned => exact .entered frames returned.later
  | gone gone => exact .gone gone

/-- An event that finds frames above `f` stays in one of them, or returns from it to the next one,
or discards them all. -/
theorem next {x : Event} (hpending : ∀ frame ∈ upper ++ f :: lower, frame.pc = none)
    (hrun : outcome (x.act.run natives) x.before = (x.result, x.after)) (hr : Completes x.result)
    (hlength : (f :: (lower ++ base)).length < x.before.thread.frames.length) (hindex : x.index = k)
    (h : Entering k upper f lower base es x.before.thread) :
    Entering k upper f lower base (es ++ [x]) x.after.thread := by
  cases h with
  | entered frames _ =>
    rw [frames] at hlength
    exact absurd hlength (Nat.lt_irrefl _)
  | gone gone =>
    simp at hlength
    omega
  | @within done mid above g a split frames same returned =>
    rcases Nat.lt_or_ge (mid ++ f :: (lower ++ base)).length x.after.thread.frames.length
      with hkept | hfall
    · obtain ⟨above', a', hafter, hsame⟩ := Act.keepsFrame hrun hr frames hkept
      exact .within split hafter (hsame.trans same) returned.later
    · have habove : above ++ [a] ≠ [] := by simp
      obtain ⟨hstep, ⟨top, result, htop, hok, hleaves, hhands⟩ | ⟨-, hdrops⟩⟩ :=
        Act.falls hrun hr (by simpa using frames) habove hfall
      · obtain ⟨rfl, heq⟩ := List.append_inj' (show above ++ [a] = [] ++ [top] from htop) rfl
        have hreturned := returned.next hindex ⟨hstep, hok, hleaves⟩ frames same
        rcases mid with _ | ⟨g', mid⟩
        · obtain ⟨stack, -, hafter⟩ := hhands
          rw [split]
          exact .entered hafter hreturned
        · obtain ⟨stack, -, hafter⟩ := hhands
          refine .within (g := g') ?_
            (show x.after.thread.frames = [] ++ _ :: (mid ++ f :: (lower ++ base)) from hafter)
            rfl hreturned
          rw [split, List.append_assoc]
          rfl
      · have hdrops : Exec.Drops ((mid ++ f :: lower) ++ base) x.after.thread.frames := by
          simpa using hdrops
        refine .gone (hdrops.length_le fun frame hframe => hpending frame ?_)
        rw [split]
        simp only [List.mem_append, List.mem_cons] at hframe ⊢
        exact hframe.imp_left fun hmid => .inr (.inr hmid)

end Entering

/-- A frame that has run no instruction, like the ones above it and some below it, comes on top when
those above it have returned; or it is discarded, together with those below it that have run none.
-/
theorem Run.entered (h : Run natives S es S') (ht : S.threads[k]? = some t)
    (hframes : t.frames = upper ++ f :: (lower ++ base))
    (hpending : ∀ frame ∈ upper ++ f :: lower, frame.pc = none)
    (habove : ∀ x ∈ es, x.index = k → (f :: (lower ++ base)).length < x.before.thread.frames.length) :
    ∃ t', S'.threads[k]? = some t' ∧ (t'.frames.length ≤ (f :: (lower ++ base)).length →
      t'.frames.length ≤ base.length ∨
        (∃ stack, t'.frames = { f with stack } :: (lower ++ base)) ∧
          Returned k es upper (f :: (lower ++ base))) := by
  obtain ⟨t', ht', hentering⟩ := h.thread_keeps (p := Entering k upper f lower base) ht (.start hframes)
    (fun _ _ _ _ h => h.later) fun before x after hes hindex hbefore => by
      have hx : x ∈ es := by rw [hes]; simp
      obtain ⟨hrun, hr⟩ := h.runs hx
      exact hbefore.next hpending hrun hr (habove x hx hindex) hindex
  refine ⟨t', ht', fun hle => ?_⟩
  cases hentering with
  | within _ frames =>
    rw [frames] at hle
    simp at hle
    omega
  | entered frames returned => exact .inr ⟨⟨_, frames⟩, returned⟩
  | gone gone => exact .inl gone

end Session

end JavaMachine
