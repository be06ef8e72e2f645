import JavaMachine.Proofs.Natives
import JavaMachine.Proofs.Stepping

/-!
What instructions do to the machine.

On a regular machine with orderly natives all that instructions do lets the machine evolve, and
nothing but waiting for a class begins an initialization: what an instruction does before it asks
for the class is steady, and so is what it does with a class that counts as started.
-/

namespace JavaMachine

variable {α β : Type} {natives : Natives}

namespace Machine

variable {m m₁ m' : Machine}

/-- A regular machine after code has run. -/
structure Advances (m m' : Machine) : Prop where
  regular : m'.Regular
  evolves : m.Evolves m'

theorem Advances.refl (hm : m.Regular) : m.Advances m := ⟨hm, .refl m⟩

theorem Advances.trans (h : m.Advances m₁) (h' : m₁.Advances m') : m.Advances m' :=
  ⟨h'.regular, h.evolves.trans h'.evolves⟩

/-- A regular machine after code has run that began no initialization. -/
structure Steady (m m' : Machine) : Prop extends m.Advances m' where
  quiet : m.Quiet m'

/-- Only what there is counts as started. -/
theorem lt_of_started {id : ClassId} (h : (m.cls id).initStarted = true) :
    id.index < m.classes.size := by
  refine Nat.lt_of_not_le fun hle => ?_
  rw [cls_of_size_le hle] at h
  cases h

/-- What counts as started does so for ever. -/
theorem Evolves.started {id : ClassId} (h : m.Evolves m') (hstarted : (m.cls id).initStarted = true) :
    (m'.cls id).initStarted = true :=
  (h.later id (lt_of_started hstarted)).started hstarted

theorem Steady.refl (hm : m.Regular) : m.Steady m := ⟨.refl hm, .refl m⟩

theorem Steady.trans (h : m.Steady m₁) (h' : m₁.Steady m') : m.Steady m' :=
  ⟨h.toAdvances.trans h'.toAdvances, h.quiet.trans h'.quiet⟩

end Machine

namespace Exec

variable {s t : Running} {x : Exec α}

/-- A step of execution that begins no initialization. -/
def SteadyOn (s : Running) (x : Exec α) : Prop :=
  ∀ r t, s.machine.Regular → outcome x s = (r, t) → Completes r → s.machine.Steady t.machine

namespace SteadyOn

theorem of_same (h : (outcome x s).2.machine = s.machine) : SteadyOn s x := fun r t hs hrun _ => by
  rw [hrun] at h
  rw [h]
  exact .refl hs

theorem pure (a : α) : SteadyOn s (pure a : Exec α) := of_same rfl

theorem throw (e : Failure) : SteadyOn s (throw e : Exec α) := of_same rfl

theorem bind {f : α → Exec β} (hx : SteadyOn s x)
    (hf : ∀ a t, s.machine.Steady t.machine → outcome x s = (.ok a, t) → SteadyOn t (f a)) :
    SteadyOn s (x >>= f) := by
  intro r t hs hrun hr
  obtain ⟨fault, hfirst, rfl⟩ | ⟨a, u, hfirst, hrun⟩ := outcome_bind_completes hrun hr
  · exact hx _ _ hs hfirst trivial
  · have hu := hx _ _ hs hfirst trivial
    exact hu.trans (hf a u hu hfirst r t hu.regular hrun hr)

theorem lift {x : VM α} (hx : VM.SteadyOn s.machine x) : SteadyOn s (liftM x : Exec α) := by
  intro r t hs hrun hr
  rw [outcome_lift] at hrun
  cases hrun
  obtain ⟨hregular, hevolves, hquiet⟩ := hx _ _ hs rfl hr
  exact ⟨⟨hregular, hevolves⟩, hquiet⟩

theorem machine : SteadyOn s machine := of_same rfl

theorem modifyThread (change : Thread → Thread) : SteadyOn s (modifyThread change) := of_same rfl

theorem onFrame (step : Frame → Option (α × Frame)) : SteadyOn s (onFrame step) := of_same <| by
  rw [outcome_onFrame]
  split
  · rfl
  · split <;> rfl

theorem pushFrame (frame : Frame) : SteadyOn s (pushFrame frame) := of_same <| by
  rw [outcome_pushFrame]
  split <;> rfl

theorem popFrame : SteadyOn s popFrame := of_same <| by
  rw [outcome_popFrame]
  split <;> rfl

theorem inRange (a : Option α) : SteadyOn s (VM.inRange a : Exec α) := of_same <| by cases a <;> rfl

theorem push (value : Value) : SteadyOn s (push value) := onFrame _

/-! ### Instructions -/

theorem woven (hnatives : natives.Orderly) (h : Woven natives x) : ∀ s, SteadyOn s x := by
  induction h with
  | pure a => exact fun _ => .pure a
  | throw e => exact fun _ => .throw e
  | bind _ _ hx hf => exact fun s => .bind (hx s) fun a t _ _ => hf a t
  | lift tame => exact fun s => .lift (tame.steady hnatives s.machine)
  | pc => exact fun _ => .of_same rfl
  | onFrame => exact fun _ => .onFrame _
  | enter => exact fun _ => .bind (.onFrame _) fun _ _ _ _ => .bind (.inRange _) fun _ _ _ _ =>
      .pushFrame _

/-- What an instruction does with a class that counts as started. -/
theorem use {i : Instruction} {need : Need} {ref : need.Ref} (hnatives : natives.Orderly)
    (h : need? natives i = some need)
    (hstarted : (s.machine.cls (need.owner ref)).initStarted = true) : SteadyOn s (need.use ref) := by
  unfold need? at h
  split at h <;> cases h
  · exact woven hnatives (.readStatic ref) s
  · exact woven hnatives (.writeStatic ref) s
  · exact .bind (.lift (.newObject (Machine.lt_of_started hstarted))) fun _ _ _ _ => push _
  · exact woven hnatives (.call ref.2) s

theorem refer {i : Instruction} {need : Need} (hnatives : natives.Orderly)
    (h : need? natives i = some need) :
    SteadyOn s need.refer :=
  woven hnatives (Need.woven_refer h) s

/-- Returns change frames only. -/
theorem returns {i : Instruction} (hi : Returns i) : SteadyOn s (execute natives i) := by
  rcases execute_returns natives hi with ⟨h, -⟩ | ⟨_, pop?, value, h, -⟩ <;> rw [h]
  · exact popFrame.bind fun _ _ _ _ => pure _
  · refine popFrame.bind fun _ _ _ _ => (inRange _).bind fun _ _ _ _ =>
      .bind (.of_same rfl) fun _ _ _ _ => ?_
    split
    · exact modifyThread _
    · exact push _

/-- An instruction that needs no class. -/
theorem execute {i : Instruction} (hnatives : natives.Orderly)
    (h : need? natives (plainForm i) = none) :
    SteadyOn s (execute natives i) := by
  by_cases hreturns : Returns i
  · exact returns hreturns
  · rw [execute_eq]
    exact woven hnatives (.perform (by simpa [Returns] using hreturns) h) s

/-! ### Exceptions -/

theorem unwind (hnatives : natives.Orderly) (exception : Address) :
    ∀ {frames : List Frame} {s : Running}, SteadyOn s (unwind exception frames)
  | [], s => (modifyThread _).bind fun _ _ _ _ => machine.bind fun _ t _ _ =>
      (lift ((VM.Tame.detailMessage exception).steady hnatives t.machine)).bind fun _ _ _ _ => throw _
  | frame :: callers, s =>
      (lift ((VM.Tame.handler? frame exception).steady hnatives s.machine)).bind fun found t _ _ => by
        split
        · exact unwind hnatives exception
        · exact (inRange _).bind fun _ _ _ _ => modifyThread _

theorem throwFrom (hnatives : natives.Orderly) (depth : Nat) (exception : Address) :
    SteadyOn s (throwFrom depth exception) :=
  .bind (.of_same rfl) fun _ _ _ _ => unwind hnatives exception

theorem handle (hnatives : natives.Orderly) (depth : Nat) (fault : Fault) :
    SteadyOn s (handle depth fault) := by
  unfold Exec.handle
  split
  · refine (lift ((VM.Tame.throwable _ _).attempt.steady hnatives s.machine)).bind fun made t _ _ => ?_
    split
    · exact throwFrom hnatives depth _
    · exact throw _
  · exact throwFrom hnatives depth _
  · exact throw _

end SteadyOn

end Exec

end JavaMachine
