import JavaMachine.Proofs.FrameShape

/-!
Threads that are as deep as they may be.

An instruction is compared with itself on a thread that may be deeper: the two do the same until the
second one puts a frame on the thread, where the first one ends in a stack overflow
(`Exec.Plain.limited`). So an instruction that would leave the thread deeper if it may be leaves no
frame, and the overflow is thrown in its own frame (`Exec.step_overflows`).
-/

namespace JavaMachine

variable {α β : Type} {natives : Natives}

/-- The state with another bound for the frames of the thread. -/
def Running.bounded (s : Running) (maxDepth : Nat) : Running := ⟨s.machine, { s.thread with maxDepth }⟩

theorem Running.bounded_self {s : Running} {n : Nat} (h : s.thread.maxDepth = n) : s.bounded n = s := by
  subst h
  rfl

/-- The fault of a thread that may not be deeper. -/
def Thread.overflow (t : Thread) : Fault :=
  .exception ExceptionName.stackOverflow s!"frame stack exceeded {t.maxDepth} frames"

/-- There is no room for a frame. -/
def Thread.Full (t : Thread) : Prop := t.maxDepth ≤ t.depth

instance (t : Thread) : Decidable t.Full := inferInstanceAs (Decidable (_ ≤ _))

theorem Thread.Advances.depth_le {t u : Thread} (h : t.Advances u) : t.depth ≤ u.depth := by
  rcases hframes : t.frames with _ | ⟨top, callers⟩
  · rw [depth, hframes]
    exact Nat.zero_le _
  · have habove := h.frames
    rw [hframes] at habove
    obtain ⟨pushed, top', hafter, -⟩ := habove
    rw [depth, depth, hframes, hafter, List.length_append]
    exact Nat.le_add_left _ _

/-- Frames that are no more than before are those of before, but for what the first one holds. -/
theorem FramesAbove.of_length {top : Frame} {callers after : List Frame}
    (h : FramesAbove (top :: callers) after)
    (hlength : after.length = callers.length + 1) : ∃ top', after = top' :: callers ∧
      top.Continues top' := by
  obtain ⟨pushed, top', rfl, htop⟩ := h
  have hpushed : pushed.length = 0 := by simpa using hlength
  obtain rfl := List.eq_nil_of_length_eq_zero hpushed
  exact ⟨top', rfl, htop⟩

namespace Exec

variable {s t u : Running} {n : Nat}

/-- A step on a full thread, beside what it does if the thread may be deeper: the same if it does
not get deeper then, and else it ends in a stack overflow. -/
def Limited (x : Exec α) : Prop := ∀ (s : Running) (n : Nat), s.thread.Full → s.thread.depth < n →
  ∀ r t, outcome x (s.bounded n) = (r, t) →
    (t.thread.depth = s.thread.depth ∧ outcome x s = (r, t.bounded s.thread.maxDepth)) ∨
    (s.thread.depth < t.thread.depth ∧
      ∃ u, outcome x s = (.error (.fault s.thread.overflow), u) ∧ u.thread.depth = s.thread.depth)

theorem limited_bind {x : Exec α} {f : α → Exec β} (hx : Limited x) (hf : ∀ a, Limited (f a))
    (hadvances : ∀ s : Running, s.thread.Advances (outcome x s).2.thread)
    (hrest : ∀ a, ∀ s : Running, s.thread.Advances (outcome (f a) s).2.thread) : Limited (x >>= f) := by
  intro s n hfull hn r t hrun
  have hbound := (hadvances (s.bounded n)).maxDepth
  rw [outcome_bind] at hrun ⊢
  rcases hfirst : outcome x (s.bounded n) with ⟨e | a, v⟩ <;> rw [hfirst] at hrun hbound
  · cases hrun
    rcases hx s n hfull hn _ _ hfirst with ⟨hdepth, hsame⟩ | ⟨hdeeper, u, hoverflow, hdepth⟩
    · exact .inl ⟨hdepth, by rw [hsame]⟩
    · exact .inr ⟨hdeeper, u, by rw [hoverflow], hdepth⟩
  · dsimp only at hrun
    rcases hx s n hfull hn _ _ hfirst with ⟨hdepth, hsame⟩ | ⟨hdeeper, u, hoverflow, hdepth⟩
    · -- the rest finds a full thread again, and one that may be deeper
      have hagain : (v.bounded s.thread.maxDepth).bounded n = v := Running.bounded_self (s := v) hbound
      rw [hsame]
      have hlimited := hf a (v.bounded s.thread.maxDepth) n (hfull.trans hdepth.ge)
        (by rwa [← hdepth] at hn) r t
        (by rwa [hagain])
      rwa [show (v.bounded s.thread.maxDepth).thread.depth = s.thread.depth from hdepth] at hlimited
    · have hmore := (hrest a v).depth_le
      rw [hrun] at hmore
      exact .inr ⟨Nat.lt_of_lt_of_le hdeeper hmore, u, by rw [hoverflow], hdepth⟩

/-- Plain steps put their frames on threads that may be deeper, and end in a stack overflow on full
ones. -/
theorem Plain.limited {x : Exec α} (h : Plain natives x) : Limited x := by
  induction h with
  | pure a => exact fun s n _ _ r t hrun => by cases hrun; exact .inl ⟨rfl, rfl⟩
  | throw e => exact fun s n _ _ r t hrun => by cases hrun; exact .inl ⟨rfl, rfl⟩
  | bind first second hx hf => exact limited_bind hx hf first.advances fun a => (second a).advances
  | lift program => exact fun s n _ _ r t hrun => by cases hrun; exact .inl ⟨rfl, rfl⟩
  | pc => exact fun s n _ _ r t hrun => by cases hrun; exact .inl ⟨rfl, rfl⟩
  | @onFrame _ step leads =>
    intro s n _ _ r t hrun
    rw [outcome_onFrame] at hrun ⊢
    rw [show (s.bounded n).thread.frames = s.thread.frames from rfl] at hrun
    rcases hframes : s.thread.frames with _ | ⟨top, callers⟩ <;> rw [hframes] at hrun
    · cases hrun
      exact .inl ⟨rfl, rfl⟩
    · dsimp only at hrun ⊢
      rcases hstep : step top with _ | ⟨a, top'⟩ <;> rw [hstep] at hrun <;> cases hrun
      · exact .inl ⟨rfl, rfl⟩
      · exact .inl ⟨by simp [Thread.depth, hframes], rfl⟩
  | pushFrame fresh =>
    intro s n hfull hn r t hrun
    have hroom : ¬ (s.bounded n).thread.maxDepth ≤ (s.bounded n).thread.depth := Nat.not_le.mpr hn
    rw [outcome_pushFrame, if_neg hroom] at hrun
    cases hrun
    exact .inr ⟨Nat.lt_succ_self _, s, by rw [outcome_pushFrame]; exact if_pos hfull, rfl⟩

/-- The instruction leaves the thread deeper, if that may be. -/
def Deepens (natives : Natives) (i : Instruction) (s : Running) : Prop :=
  ∃ n, s.thread.depth < n ∧ s.thread.depth < (outcome (execute natives i) (s.bounded n)).2.thread.depth

/-- No return leaves a thread deeper. -/
theorem Deepens.not_returns {i : Instruction} {top : Frame} {callers : List Frame}
    (h : Deepens natives i s) (hframes : s.thread.frames = top :: callers) : ¬ Returns i := by
  obtain ⟨n, -, hdeeper⟩ := h
  intro hreturns
  have hdepth : s.thread.depth = callers.length + 1 := by rw [Thread.depth, hframes, List.length_cons]
  rw [outcome_returns hreturns (s := s.bounded n) hframes, hdepth] at hdeeper
  split at hdeeper
  · exact absurd hdeeper (by simp [Thread.depth])
  · exact absurd hdeeper (by simp [Thread.depth])
  · split at hdeeper <;> exact absurd hdeeper (by simp [Thread.depth])

/-- The instruction at `u`, the next one of `s`, ends in a stack overflow. It leaves no frame, and
the overflow is thrown in the frame that executes it. -/
structure Overflows (natives : Natives) (i : Instruction) (s u t : Running) : Prop where
  fails : outcome (execute natives i) u = (.error (.fault u.thread.overflow), t)
  frames : ∃ top callers top', u.thread.frames = top :: callers ∧
    t.thread.frames = top' :: callers ∧ top.Continues top'
  thrown : outcome (step natives) s = outcome (handle t.thread.depth u.thread.overflow) t

/-- An instruction that would leave a full thread deeper overflows. -/
theorem step_overflows {i : Instruction} (hfetch : Fetches s i u) (hfull : s.thread.Full)
    (hdeepens : Deepens natives i u) : ∃ t, Overflows natives i s u t := by
  have hstep : outcome (step natives) s = _ := outcome_step hfetch
  obtain ⟨top, callers, next, hframes, -, rfl⟩ := hfetch
  have hdepth : (s.past top callers next).thread.depth = s.thread.depth := by
    simp [Running.past, Thread.depth, hframes]
  have hplain := plain_execute natives (hdeepens.not_returns rfl)
  obtain ⟨n, hn, hdeeper⟩ := hdeepens
  rcases hplain.limited (s.past top callers next) n (hfull.trans hdepth.ge) hn _ _ rfl with
    ⟨hsame, -⟩ | ⟨-, t, hfails, hsame⟩
  · exact absurd hsame hdeeper.ne'
  · have habove := hplain.advances (s.past top callers next)
    rw [hfails] at habove hstep
    obtain ⟨top', hafter, htop⟩ := FramesAbove.of_length habove.frames
      (by simpa [Thread.depth, Running.past] using hsame)
    exact ⟨t, hfails, ⟨_, callers, top', rfl, hafter, htop⟩, by rw [hstep, hsame, hdepth]⟩

end Exec

namespace Session

open Exec

variable {S S' : Session} {es : List Event} {directories : List Directory}

/-- Threads are in shape on every run. -/
theorem Run.shaped (hnatives : natives.Orderly) (hmachine : S.machine.Spacious)
    (hthreads : ∀ t ∈ S.threads, t.Shaped)
    (h : Run natives S es S') : ∀ t ∈ S'.threads, t.Shaped := by
  have hp : VM.KeptByPrograms natives Machine.Spacious :=
    Machine.Spacious.keptByPrograms hnatives.lawful
  induction h with
  | start => exact hthreads
  | host _ _ _ _ ih => exact ih
  | thread _ maxDepth ih =>
    intro t ht
    rcases List.mem_append.mp ht with ht | ht
    · exact ih t ht
    · obtain rfl := List.mem_singleton.mp ht
      exact Thread.shaped_start maxDepth
  | @act es S₁ e before thread machine runs completes ih =>
    have hbefore : e.before.Shaped := by
      refine ⟨?_, ih _ (List.mem_of_getElem? thread)⟩
      rw [machine]
      exact before.keeps hp hmachine
    intro t ht
    rcases List.mem_or_eq_of_mem_set ht with ht | rfl
    · exact ih t ht
    · exact (Act.shapes hp e.act hbefore _ _ runs completes).thread

/-- On every run threads are no deeper than they may be, and their frames have the room that their
methods ask for. An instruction that has to put a frame on a full thread puts none there: it raises
a stack overflow in its own frame. -/
theorem frames_shaped (hnatives : natives.Orderly) (h : Run natives (.start directories) es S) :
    ∀ t ∈ S.threads, t.Shaped ∧ (t.Full → ∀ i u, Fetches ⟨S.machine, t⟩ i u → Deepens natives i u →
      ∃ v, Overflows natives i ⟨S.machine, t⟩ u v) := by
  intro t ht
  refine ⟨h.shaped hnatives (Machine.Spacious.start directories) (fun _ h => by cases h) t ht,
    fun hfull i u hfetch => ?_⟩
  exact step_overflows hfetch hfull

/-- A class with an initializer, and one with a method that calls itself and a method that calls the
other class. -/
def defineDeep : VM ClassId := do
  let _ ← VM.define (.build ClassName.object none (pure ()))
  let _ ← VM.define <| .build "Init" (some ClassName.object) do
    Builder.addMethod ⟨AccessFlags.staticBit⟩ "<clinit>" "()V" 0 0 [0xB1] []
    Builder.addMethod ⟨AccessFlags.staticBit⟩ "f" "()V" 0 0 [0xB1] []
  VM.define <| .build "Main" (some ClassName.object) do
    let again ← Builder.methodRef "Main" "again" "(J)V"
    Builder.addMethod ⟨AccessFlags.staticBit⟩ "again" "(J)V" 3 2 [0x1E, 0xB8, 0, again.toUInt8, 0xB1] []
    let other ← Builder.methodRef "Init" "f" "()V"
    Builder.addMethod ⟨AccessFlags.staticBit⟩ "other" "()V" 0 0 [0xB8, 0, other.toUInt8, 0xB1] []

def deepMachine : Machine := (outcome defineDeep (.start [])).2

/-- The first method is called, and comes to the call of itself. -/
def againPlay : List Event × Running :=
  play .standard 0 [.call ((deepMachine.cls ⟨2⟩).methods.getD 0 default) [.long 7], .step]
    ⟨deepMachine, .start 1⟩

/-- The second one is called. -/
def otherPlay : List Event × Running :=
  play .standard 1 [.call ((deepMachine.cls ⟨2⟩).methods.getD 1 default) []]
    ⟨againPlay.2.machine, .start 1⟩

/-- Two threads, each with room for one frame. -/
def deepSession : Session := ⟨otherPlay.2.machine, [againPlay.2.thread, otherPlay.2.thread]⟩

theorem run_deep : Run .standard (.start []) (againPlay.1 ++ otherPlay.1) deepSession := by
  have horderly : VM.Orderly defineDeep := .bind (.define _) fun _ =>
    .bind (.define _) fun _ => .define _
  have hdefined : Run .standard (.start []) [] { Session.start [] with machine := deepMachine } :=
    .host .start horderly rfl (by decide +kernel)
  have hagain : ∀ e ∈ againPlay.1, Completes e.result := by decide +kernel
  have hother : ∀ e ∈ otherPlay.1, Completes e.result := by decide +kernel
  have hfirst := Run.of_play (s := ⟨deepMachine, .start 1⟩) ((hdefined.thread 1).thread 1)
    (k := 0) rfl rfl hagain
  exact Run.of_play (s := ⟨againPlay.2.machine, .start 1⟩) hfirst (k := 1) rfl rfl hother

/-- A call and the beginning of an initialization overflow on them. -/
theorem frames_shaped_deep : deepSession.threads.length = 2 ∧ ∀ t ∈ deepSession.threads,
      t.Full ∧ t.Shaped ∧
    ∃ i u v, Overflows .standard i ⟨deepSession.machine, t⟩ u v := by
  have hfull : ∀ t ∈ deepSession.threads, t.Full := by decide +kernel
  have hnext : ∀ t ∈ deepSession.threads, ∃ next ∈ Running.next? ⟨deepSession.machine, t⟩,
      1 < (outcome (execute .standard next.1) (next.2.bounded 2)).2.thread.depth ∧
      next.2.thread.depth = 1 := by
    decide +kernel
  refine ⟨by decide +kernel, fun t ht => ?_⟩
  obtain ⟨hshaped, hoverflows⟩ := frames_shaped Natives.standard_orderly run_deep t ht
  obtain ⟨⟨i, u⟩, hfetch, hdeeper, hdepth⟩ := hnext t ht
  have hroom : u.thread.depth < 2 := Nat.lt_of_le_of_lt (Nat.le_of_eq hdepth) (by decide)
  obtain ⟨v, hv⟩ := hoverflows (hfull t ht) i u (fetches_iff.mpr hfetch)
    ⟨2, hroom, hdepth.symm ▸ hdeeper⟩
  exact ⟨hfull t ht, hshaped, i, u, v, hv⟩

end Session

end JavaMachine
