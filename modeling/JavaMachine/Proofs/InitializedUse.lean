import JavaMachine.Proofs.InitializationProtocol

/-!
Uses of classes and their initializers.

A class counts as started as soon as its initialization is scheduled. What has become of its
initializer by then is accounted for over all events: it has returned, it has a frame on some
thread, or an event has raised a fault that took the frame off the thread or kept it from being
pushed (`Session.Run.accounted`). Nothing more holds: a class whose initializer has failed is used
like any other (`Session.used_after_failure`).
-/

namespace JavaMachine

/-- No initialization has begun of a class with an initializer. -/
theorem Machine.Quiet.initializer {m m' : Machine} {id : ClassId}
    {initializer : Method} (h : m.Quiet m')
    (hstarted : (m'.cls id).initStarted = true)
    (hinitializer : (m'.cls id).initializer? = some initializer) :
    (m.cls id).initStarted = true ∧ (m.cls id).initializer? = some initializer := by
  rcases h id hstarted with hnone | ⟨hbefore, hmethods⟩
  · rw [Class.initializer?, Class.staticMethod?, Class.method?, hnone] at hinitializer
    cases hinitializer
  · refine ⟨hbefore, ?_⟩
    rw [Class.initializer?, Class.staticMethod?, Class.method?, ← hmethods]
    exact hinitializer

namespace Event

variable {natives : Natives} {e : Event} {initializer : Method}

/-- The event is a return from a frame of the method. -/
def ReturnsFrom (e : Event) (method : Method) : Prop :=
  ∃ result top callers, e.Returns result ∧ e.before.thread.frames = top :: callers ∧ top.method = method

/-- The fault that an event raises: that of the instruction of a step, or that of a call from
outside. -/
def Raises (natives : Natives) (e : Event) (fault : Fault) : Prop :=
  match e.act with
  | .step => Exec.Faults natives e.before fault
  | .call _ _ | .collect => e.result = .error (.fault fault)

/-- An event that raises a fault, and with it takes an initializer off the thread or keeps its frame
from staying there. -/
structure Loses (natives : Natives) (e : Event) (initializer : Method) : Prop where
  raises : ∃ fault, e.Raises natives fault
  due : (∃ f ∈ e.before.thread.frames, f.method = initializer) ∨
    (e.before.machine.cls initializer.owner).initStarted = false ∧
      (e.after.machine.cls initializer.owner).initStarted = true
  gone : ∀ f ∈ e.after.thread.frames, f.method ≠ initializer

/-- What a beginning of an initialization raises. -/
theorem raises_of_begins {id : ClassId} {t : Running} {fault : Fault} {marked pushed : List ClassId}
    (h : e.act.Begins natives e.before id t (.error (.fault fault)) marked pushed)
    (hrun : outcome (e.act.run natives) e.before = (e.result, e.after)) : e.Raises natives fault := by
  have hawaited := h.awaited
  rw [Act.run_awaits hawaited, h.begun] at hrun
  rw [Raises]
  rcases hact : e.act with _ | ⟨method, arguments⟩ | _ <;> rw [hact] at hawaited hrun
  · obtain ⟨i, u, hfetch, hexecute⟩ := Exec.execute_awaits hawaited
    rw [h.begun] at hexecute
    exact ⟨i, u, _, hfetch, hexecute⟩
  · exact (Prod.mk.inj hrun).1.symm
  · cases hawaited

/-- A frame of a thread stays, or it leaves by a return or with a fault. -/
theorem frame_kept {f : Frame} (hrun : outcome (e.act.run natives) e.before = (e.result, e.after))
    (hr : Completes e.result) (hf : f ∈ e.before.thread.frames) (hmethod : f.method = initializer) :
    (∃ f' ∈ e.after.thread.frames, f'.method = initializer) ∨ e.ReturnsFrom initializer ∨
    e.Loses natives initializer := by
  by_cases hgone : ∃ f' ∈ e.after.thread.frames, f'.method = initializer
  · exact .inl hgone
  · obtain ⟨above, below, hframes⟩ := List.append_of_mem hf
    rcases Nat.lt_or_ge below.length e.after.thread.frames.length with hkept | hfall
    · obtain ⟨above', f', hafter, hsame⟩ := Act.keepsFrame hrun hr hframes hkept
      exact absurd ⟨f', by rw [hafter]; simp, hsame.trans hmethod⟩ hgone
    · have hframes' : e.before.thread.frames = (above ++ [f]) ++ below := by simpa using hframes
      obtain ⟨hstep, ⟨top, result, htop, hok, hleaves, -⟩ | ⟨⟨fault, hfault⟩, -⟩⟩ :=
        Act.falls hrun hr hframes' (by simp) hfall
      · obtain ⟨rfl, heq⟩ := List.append_inj' (show above ++ [f] = [] ++ [top] from htop) rfl
        exact .inr (.inl ⟨result, f, below, ⟨hstep, hok, hleaves⟩, hframes, hmethod⟩)
      · refine .inr (.inr ⟨⟨fault, ?_⟩, .inl ⟨f, hf, hmethod⟩, fun f' hf' heq => hgone ⟨f', hf', heq⟩⟩)
        rw [Raises, hstep]
        exact hfault

end Event

namespace Session

variable {natives : Natives} {directories : List Directory} {S : Session} {es : List Event}
  {e : Event} {id : ClassId} {initializer : Method}

/-- What has become of an initializer: it has returned, it has a frame on a thread, or an event has
lost it. -/
def Accounted (natives : Natives) (es : List Event) (threads : List Thread)
    (initializer : Method) : Prop :=
  (∃ e ∈ es, e.ReturnsFrom initializer) ∨ (∃ t ∈ threads, ∃ f ∈ t.frames, f.method = initializer) ∨
    ∃ e ∈ es, e.Loses natives initializer

namespace Accounted

variable {threads : List Thread}

theorem of_thread {k : Nat} {t : Thread} {f : Frame} (ht : k < threads.length) (hf : f ∈ t.frames)
    (hmethod : f.method = initializer) : Accounted natives es (threads.set k t) initializer :=
  .inr (.inl ⟨t, List.mem_of_getElem? (List.getElem?_set_self ht), f, hf, hmethod⟩)

/-- An event keeps the account. -/
theorem next (h : Accounted natives es threads initializer)
    (hthread : threads[e.index]? = some e.before.thread)
    (hrun : outcome (e.act.run natives) e.before = (e.result, e.after)) (hr : Completes e.result) :
    Accounted natives (es ++ [e]) (threads.set e.index e.after.thread) initializer := by
  rcases h with ⟨x, hx, hreturns⟩ | ⟨t, ht, f, hf, hmethod⟩ | ⟨x, hx, hloses⟩
  · exact .inl ⟨x, List.mem_append_left _ hx, hreturns⟩
  · obtain ⟨k, hk⟩ := List.mem_iff_getElem?.mp ht
    by_cases hindex : e.index = k
    · subst hindex
      rw [hthread] at hk
      cases hk
      rcases Event.frame_kept hrun hr hf hmethod with ⟨f', hf', hmethod'⟩ | hreturns | hloses
      · exact .of_thread (List.getElem?_eq_some_iff.mp hthread).1 hf' hmethod'
      · exact .inl ⟨e, by simp, hreturns⟩
      · exact .inr (.inr ⟨e, by simp, hloses⟩)
    · refine .inr (.inl ⟨t, List.mem_of_getElem? (i := k) ?_, f, hf, hmethod⟩)
      rw [List.getElem?_set_ne hindex]
      exact hk
  · exact .inr (.inr ⟨x, List.mem_append_left _ hx, hloses⟩)

end Accounted

/-- An initializer that an event schedules gets a frame, or the event loses it. -/
theorem accounted_of_begins {t : Running} {id' : ClassId} {r : Except Failure Unit}
    {marked pushed : List ClassId}
    {threads : List Thread} (h : e.act.Begins natives e.before id' t r marked pushed)
    (hthread : threads[e.index]? = some e.before.thread)
    (hrun : outcome (e.act.run natives) e.before = (e.result, e.after)) (hmarked : id ∈ marked)
    (hstarted : (e.after.machine.cls id).initStarted = true)
    (hinitializer : (t.machine.cls id).initializer? = some initializer) :
    Accounted natives (es ++ [e]) (threads.set e.index e.after.thread) initializer := by
  have howner : initializer.owner = id := h.steady.regular.coherent.initializer_owner hinitializer
  by_cases hgone : ∃ f ∈ e.after.thread.frames, f.method = initializer
  · obtain ⟨f, hf, hmethod⟩ := hgone
    exact .of_thread (List.getElem?_eq_some_iff.mp hthread).1 hf hmethod
  · rcases h.all with ⟨rfl, hall⟩ | ⟨fault, rfl⟩
    · refine absurd ⟨.start initializer, ?_, rfl⟩ hgone
      rw [Act.run_awaits h.awaited, h.begun] at hrun
      rw [← (Prod.mk.inj hrun).2]
      refine List.mem_append_left _
        (Machine.mem_initializerFrames.mpr ⟨id, ?_, initializer, hinitializer, rfl⟩)
      rw [hall]
      exact h.upwards.mem hmarked
    · refine .inr (.inr ⟨e,
        by simp, ⟨⟨fault, Event.raises_of_begins h hrun⟩, .inr ?_, fun f hf heq => hgone ⟨f, hf, heq⟩⟩⟩)
      rw [howner]
      refine ⟨?_, hstarted⟩
      rcases hbefore : (e.before.machine.cls id).initStarted with _ | _
      · rfl
      · have hnot := Machine.not_started_of_mem_schedule (Act.awaited_not_started h.awaited)
          (h.upwards.mem hmarked)
        rw [h.steady.evolves.started hbefore] at hnot
        cases hnot

/-- The initializer of a class that counts as started is accounted for. By induction on the run. -/
theorem Run.accounted (hnatives : natives.Orderly) (h : Run natives (.start directories) es S) :
    ∀ id initializer, (S.machine.cls id).initStarted = true →
      (S.machine.cls id).initializer? = some initializer →
      Accounted natives es S.threads initializer := by
  induction h with
  | start =>
    intro id initializer hstarted _
    cases Machine.lt_of_started hstarted
  | @host es S' α x r m before orderly runs completes ih =>
    intro id initializer hstarted hinitializer
    have htame : VM.Tame natives x := orderly.tame
    obtain ⟨-, -, hquiet⟩ := htame.steady hnatives _ _ _ (before.regular hnatives) runs completes
    obtain ⟨hstarted, hinitializer⟩ := hquiet.initializer hstarted hinitializer
    exact ih id initializer hstarted hinitializer
  | thread _ _ ih =>
    intro id initializer hstarted hinitializer
    refine (ih id initializer hstarted hinitializer).imp_right (.imp_left ?_)
    rintro ⟨t, ht, hframe⟩
    exact ⟨t, List.mem_append_left _ ht, hframe⟩
  | @act es S' e before thread machine runs completes ih =>
    intro id initializer hstarted hinitializer
    have hregular : e.before.machine.Regular := machine ▸ before.regular hnatives
    have hearlier : (e.before.machine.cls id).initStarted = true →
        (e.before.machine.cls id).initializer? = some initializer →
        Accounted natives (es ++ [e]) (S'.threads.set e.index e.after.thread) initializer := by
      intro hstarted hinitializer
      rw [machine] at hstarted hinitializer
      exact (ih id initializer hstarted hinitializer).next thread runs completes
    rcases hawaited : e.act.awaited? natives e.before with _ | ⟨id', t⟩
    · have hquiet := (Act.run_steady hnatives hawaited _ _ hregular runs completes).quiet
      obtain ⟨hbefore, hinitializer⟩ := hquiet.initializer hstarted hinitializer
      exact hearlier hbefore hinitializer
    · obtain ⟨r, marked, pushed, hbegins⟩ := Act.begins hnatives hregular hawaited
      obtain ⟨hmarked, hinitializer⟩ :=
        (hbegins.goesOn hnatives runs completes).quiet.initializer hstarted hinitializer
      rw [Machine.initializer?_startAll] at hinitializer
      rcases Machine.started_startAll.mp hmarked with hbefore | ⟨hmarked, -⟩
      · obtain ⟨hbefore, hinitializer⟩ := hbegins.steady.quiet.initializer hbefore hinitializer
        exact hearlier hbefore hinitializer
      · exact accounted_of_begins hbegins thread runs hmarked hstarted hinitializer

/-- Whenever an instruction needs a class with an initializer and does not wait for it, the
initializer has returned, or it has a frame on a thread, or an earlier event has lost it. -/
theorem use_accounted {t : Thread} {v : Running} (hnatives : natives.Orderly)
    (h : Run natives (.start directories) es S)
    (hneeded : Exec.needed? natives ⟨S.machine, t⟩ = some (id, v))
    (hgoes : Exec.awaited? natives ⟨S.machine, t⟩ = none)
    (hinitializer : (v.machine.cls id).initializer? = some initializer) :
    (∃ e ∈ es, e.ReturnsFrom initializer) ∨ (∃ t ∈ S.threads, ∃ f ∈ t.frames, f.method = initializer) ∨
      ∃ e ∈ es, e.Loses natives initializer := by
  have hstarted : (v.machine.cls id).initStarted = true := by
    rw [Exec.awaited?, hneeded] at hgoes
    rcases hstarted : (v.machine.cls id).initStarted with _ | _
    · simp [hstarted] at hgoes
    · rfl
  obtain ⟨i, u, need, ref, ⟨top, callers, next, -, -, rfl⟩, hneed, hrefer, -⟩ :=
    Exec.needed?_eq_some.mp hneeded
  have hsteady := Exec.SteadyOn.refer hnatives hneed _ _ (h.regular hnatives) hrefer trivial
  obtain ⟨hstarted, hinitializer⟩ := hsteady.quiet.initializer hstarted hinitializer
  exact h.accounted hnatives id initializer hstarted hinitializer

/-! ### An initializer that fails -/

/-- A class whose initializer throws, and one that calls it again when it has caught the exception. -/
def defineFailing : VM ClassId := do
  let _ ← VM.define (.build ClassName.object none (pure ()))
  let _ ← VM.define (.build ExceptionName.nullPointer (some ClassName.object) (pure ()))
  let _ ← VM.define <| .build "Init" (some ClassName.object) do
    Builder.addMethod ⟨AccessFlags.staticBit⟩ "<clinit>" "()V" 1 0 [0x01, 0xBF] []
    Builder.addMethod ⟨AccessFlags.staticBit⟩ "f" "()V" 0 0 [0xB1] []
  VM.define <| .build "Main" (some ClassName.object) do
    let index ← Builder.methodRef "Init" "f" "()V"
    let call : List UInt8 := [0xB8, 0, index.toUInt8, 0xB1]
    Builder.addMethod ⟨AccessFlags.staticBit⟩ "main" "()V" 1 0 (call ++ call) [⟨0, 3, 4, 0⟩]

def failingMachine : Machine := (outcome defineFailing (.start [])).2

/-- The last class is called. It waits for the other one, whose initializer throws an exception, and
catches that. -/
def failingPlay : List Event × Running :=
  play .standard 0 [.call ((failingMachine.cls ⟨3⟩).methods.getD 0 default) [], .step, .step, .step]
    ⟨failingMachine, .start 8⟩

/-- The initializer. -/
def failingInitializer : Method := (failingMachine.cls ⟨2⟩).methods.getD 0 default

/-- The session after that. -/
def afterFailure : Session := ⟨failingPlay.2.machine, [failingPlay.2.thread]⟩

theorem run_failing : Run .standard (.start []) failingPlay.1 afterFailure := by
  have horderly : VM.Orderly defineFailing :=
    .bind (.define _) fun _ => .bind (.define _) fun _ => .bind (.define _) fun _ => .define _
  have hdefined : Run .standard (.start []) [] { Session.start [] with machine := failingMachine } :=
    .host .start horderly rfl (by decide +kernel)
  have hcompletes : ∀ e ∈ failingPlay.1, Completes e.result := by decide +kernel
  exact Run.of_play (s := ⟨failingMachine, .start 8⟩) (hdefined.thread 8) rfl rfl hcompletes

/-- The next instruction needs the class, which counts as started. -/
theorem needed_after_failure : ∃ v, Exec.needed? .standard failingPlay.2 = some (⟨2⟩, v) ∧
    Exec.awaited? .standard failingPlay.2 = none ∧
      (v.machine.cls ⟨2⟩).initializer? = some failingInitializer := by
  have hcomputed : (Exec.needed? .standard failingPlay.2).map (fun (id, v) =>
      (id, (v.machine.cls id).initStarted, (v.machine.cls id).initializer?)) =
        some (⟨2⟩, true, some failingInitializer) := by
    decide +kernel
  rcases hneeded : Exec.needed? .standard failingPlay.2 with _ | ⟨id, v⟩ <;> rw [hneeded] at hcomputed
  · cases hcomputed
  · obtain ⟨rfl, hstarted, hinitializer⟩ : id = ⟨2⟩ ∧ (v.machine.cls id).initStarted = true ∧
        (v.machine.cls id).initializer? = some failingInitializer := by
      simpa using hcomputed
    exact ⟨v, rfl, by rw [Exec.awaited?, hneeded]; simp [hstarted], hinitializer⟩

theorem not_returned_after_failure : ¬ ∃ e ∈ failingPlay.1, e.ReturnsFrom failingInitializer := by
  have hcomputed : ∀ e ∈ failingPlay.1, ∀ next ∈ e.before.next?, ¬ Exec.Returns next.1 := by
    decide +kernel
  rintro ⟨e, he, result, top, callers, ⟨-, -, i, u, _, _, hfetch, hreturns, -⟩, -⟩
  exact hcomputed e he (i, u) (fetches_iff.mp hfetch) hreturns

theorem no_frame_after_failure :
    ¬ ∃ t ∈ afterFailure.threads, ∃ f ∈ t.frames, f.method = failingInitializer := by
  decide +kernel

/-- The exception has lost the initializer. -/
theorem use_accounted_after_failure : ∃ e ∈ failingPlay.1, e.Loses .standard failingInitializer := by
  obtain ⟨v, hneeded, hgoes, hinitializer⟩ := needed_after_failure
  have haccounted :=
    use_accounted Natives.standard_orderly run_failing (t := failingPlay.2.thread)
      hneeded hgoes hinitializer
  exact (haccounted.resolve_left not_returned_after_failure).resolve_left no_frame_after_failure

/-- So a class may be used although its initializer has neither returned nor is running. -/
theorem used_after_failure : ¬ ∀ (directories : List Directory) (es : List Event) (S : Session)
      (t : Thread) (id : ClassId)
    (v : Running) (initializer : Method), Run .standard (.start directories) es S → t ∈ S.threads →
      Exec.needed? .standard ⟨S.machine, t⟩ = some (id, v) →
        Exec.awaited? .standard ⟨S.machine, t⟩ = none →
      (v.machine.cls id).initializer? = some initializer →
        (∃ e ∈ es, e.ReturnsFrom initializer) ∨ ∃ f ∈ t.frames, f.method = initializer := by
  intro h
  obtain ⟨v, hneeded, hgoes, hinitializer⟩ := needed_after_failure
  rcases h _ _ _ _ _ _ _ run_failing (List.mem_singleton_self _) hneeded hgoes hinitializer with
    hreturned | hframe
  · exact not_returned_after_failure hreturned
  · exact no_frame_after_failure ⟨_, List.mem_singleton_self _, hframe⟩

end Session

end JavaMachine
