import JavaMachine.Proofs.Instructions
import JavaMachine.Proofs.Natives
import JavaMachine.Proofs.Running

/-!
What holds of the machine while code runs.

If programs keep a property of the machine, so do all instructions, steps and calls from outside:
all they do to the machine, they do by programs.
-/

namespace JavaMachine

variable {α β : Type} {p : Machine → Prop} {natives : Natives}

/-- A step that leaves a machine with the property, if it completes on one. -/
def VM.Keeps (p : Machine → Prop) (x : VM α) : Prop :=
  ∀ m r m', p m → outcome x m = (r, m') → Completes r → p m'

/-- All programs keep the property. -/
def VM.KeptByPrograms (natives : Natives) (p : Machine → Prop) : Prop :=
  ∀ {α : Type} {x : VM α}, VM.Program natives x → VM.Keeps p x

namespace VM.Keeps

variable {x : VM α}

theorem pure (a : α) : Keeps p (pure a : VM α) := fun m _ _ hm hrun _ => by cases hrun; exact hm

theorem throw (e : Failure) : Keeps p (throw e : VM α) := fun m _ _ hm hrun _ => by cases hrun; exact hm

theorem get : Keeps p (get : VM Machine) := fun m _ _ hm hrun _ => by cases hrun; exact hm

theorem bind {f : α → VM β} (hx : Keeps p x) (hf : ∀ a, Keeps p (f a)) : Keeps p (x >>= f) := by
  intro m r m' hm hrun hr
  obtain ⟨fault, hfirst, rfl⟩ | ⟨a, m₁, hfirst, hrun⟩ := outcome_bind_completes hrun hr
  · exact hx m _ _ hm hfirst trivial
  · exact hf a m₁ r m' (hx m _ m₁ hm hfirst trivial) hrun hr

theorem attempt (hx : Keeps p x) : Keeps p (attempt x) := by
  intro m r m' hm hrun hr
  obtain ⟨fault, hfirst, rfl⟩ | ⟨a, hfirst, rfl⟩ := outcome_vm_attempt_completes hrun hr
  · exact hx m _ _ hm hfirst trivial
  · exact hx m _ _ hm hfirst trivial

theorem modifyGet {change : Machine → α × Machine} (h : ∀ m, p m → p (change m).2) :
    Keeps p (modifyGet change : VM α) := fun m _ _ hm hrun _ => by cases hrun; exact h m hm

end VM.Keeps

namespace Exec

/-- A step of execution that leaves a machine with the property, if it completes on one. -/
def Keeps (p : Machine → Prop) (x : Exec α) : Prop :=
  ∀ s r t, p s.machine → outcome x s = (r, t) → Completes r → p t.machine

namespace Keeps

variable {x : Exec α}

theorem pure (a : α) : Keeps p (pure a : Exec α) := fun s _ _ hs hrun _ => by cases hrun; exact hs

theorem throw (e : Failure) : Keeps p (throw e : Exec α) :=
  fun s _ _ hs hrun _ => by cases hrun; exact hs

theorem bind {f : α → Exec β} (hx : Keeps p x) (hf : ∀ a, Keeps p (f a)) : Keeps p (x >>= f) := by
  intro s r t hs hrun hr
  obtain ⟨fault, hfirst, rfl⟩ | ⟨a, u, hfirst, hrun⟩ := outcome_bind_completes hrun hr
  · exact hx s _ _ hs hfirst trivial
  · exact hf a u r t (hx s _ u hs hfirst trivial) hrun hr

theorem attempt (hx : Keeps p x) : Keeps p (attempt x) := by
  intro s r t hs hrun hr
  obtain ⟨fault, hfirst, rfl⟩ | ⟨a, hfirst, rfl⟩ := outcome_attempt_completes hrun hr
  · exact hx s _ _ hs hfirst trivial
  · exact hx s _ _ hs hfirst trivial

theorem lift {x : VM α} (hx : VM.Keeps p x) : Keeps p (liftM x : Exec α) := by
  intro s r t hs hrun hr
  rw [outcome_lift] at hrun
  cases hrun
  exact hx s.machine _ _ hs rfl hr

/-- A step that does not change the machine. -/
theorem of_same (h : ∀ s, (outcome x s).2.machine = s.machine) : Keeps p x := by
  intro s r t hs hrun _
  have hsame := h s
  rw [hrun] at hsame
  rwa [hsame]

theorem thread : Keeps p thread := of_same fun _ => rfl

theorem modifyThread (change : Thread → Thread) : Keeps p (modifyThread change) := of_same fun _ => rfl

theorem onFrame (step : Frame → Option (α × Frame)) : Keeps p (onFrame step) := of_same fun s => by
  rw [outcome_onFrame]
  split
  · rfl
  · split <;> rfl

theorem pushFrame (frame : Frame) : Keeps p (pushFrame frame) := of_same fun s => by
  rw [outcome_pushFrame]
  split <;> rfl

theorem popFrame : Keeps p popFrame := of_same fun s => by
  rw [outcome_popFrame]
  split <;> rfl

theorem inRange (a : Option α) : Keeps p (VM.inRange a : Exec α) := by
  cases a with
  | none => exact throw _
  | some a => exact pure a

/-! ### Instructions -/

theorem plain (hp : VM.KeptByPrograms natives p) (h : Plain natives x) : Keeps p x := by
  induction h with
  | pure a => exact pure a
  | throw e => exact throw e
  | bind _ _ hx hf => exact hx.bind hf
  | lift program => exact lift (hp program)
  | pc => exact .of_same fun _ => rfl
  | onFrame => exact onFrame _
  | pushFrame => exact pushFrame _

theorem leaveFrame : Keeps p leaveFrame := popFrame.bind fun _ => pure _

theorem returnValue (pop? : OperandStack → Option (α × OperandStack)) (value : α → Value) :
    Keeps p (returnValue pop? value) :=
  popFrame.bind fun _ => (inRange _).bind fun _ => thread.bind fun _ => by
    split
    · exact modifyThread _
    · exact onFrame _

theorem execute (hp : VM.KeptByPrograms natives p) (i : Instruction) : Keeps p (execute natives i) := by
  by_cases hreturns : Returns i
  · rcases execute_returns natives hreturns with ⟨h, -⟩ | ⟨_, pop?, value, h, -⟩
    · rw [h]
      exact leaveFrame
    · rw [h]
      exact returnValue pop? value
  · exact plain hp (plain_execute natives hreturns)

/-! ### Steps -/

theorem decode (code : Array UInt8) (pc : UInt64) : Keeps p (decode code pc) := by
  unfold Exec.decode
  split
  · exact pure _
  · exact throw _

theorem unwind (hp : VM.KeptByPrograms natives p) (exception : Address) :
    ∀ frames, Keeps p (unwind exception frames)
  | [] => (modifyThread _).bind fun _ => (lift (hp .get)).bind fun _ =>
      (lift (hp (VM.Tame.detailMessage exception).program)).bind fun _ => throw _
  | frame :: callers => (lift (hp (VM.Tame.handler? frame exception).program)).bind fun found => by
      split
      · exact unwind hp exception callers
      · exact (inRange _).bind fun _ => modifyThread _

theorem throwFrom (hp : VM.KeptByPrograms natives p) (depth : Nat) (exception : Address) :
    Keeps p (throwFrom depth exception) := thread.bind fun _ => unwind hp exception _

theorem handle (hp : VM.KeptByPrograms natives p) (depth : Nat) (fault : Fault) :
    Keeps p (handle depth fault) := by
  unfold Exec.handle
  split
  · refine (lift (hp (VM.Tame.throwable _ _).attempt.program)).bind fun made => ?_
    split
    · exact throwFrom hp depth _
    · exact throw _
  · exact throwFrom hp depth _
  · exact throw _

/-- A step keeps what programs keep. -/
theorem step (hp : VM.KeptByPrograms natives p) : Keeps p (step natives) := by
  refine (onFrame _).bind fun top => (modifyThread _).bind fun _ => (decode _ _).bind fun read => ?_
  refine (onFrame _).bind fun _ => thread.bind fun t => (execute hp read.1).attempt.bind fun ended => ?_
  split
  · exact pure _
  · exact handle hp _ _

theorem finish (hp : VM.KeptByPrograms natives p) : ∀ fuel, Keeps p (finish natives fuel)
  | 0 => throw _
  | fuel + 1 => thread.bind fun t => by
    split
    · exact (modifyThread _).bind fun _ => pure _
    · exact (step hp).bind fun _ => finish hp fuel

/-- A call from outside keeps what programs keep. -/
theorem invoke (hp : VM.KeptByPrograms natives p) (fuel : Nat) (method : Method)
    (arguments : List Value) :
    Keeps p (invoke natives fuel method arguments) := by
  unfold Exec.invoke
  dsimp only
  split
  · exact (lift (hp .get)).bind fun _ => (throw _)
  · split
    · exact lift (hp (VM.Tame.invokeNative method _).program)
    · refine (inRange _).bind fun frame => (pushFrame frame).bind fun _ =>
        (lift (hp .get)).bind fun m => ?_
      split
      · exact (plain hp (.initializeClass _)).bind fun _ => finish hp fuel
      · exact finish hp fuel

theorem runMain (hp : VM.KeptByPrograms natives p) (fuel : Nat) (name : String)
    (arguments : List String) :
    Keeps p (runMain natives fuel name arguments) := by
  refine (lift (hp (.load _))).bind fun id => (lift (hp .get)).bind fun m => ?_
  dsimp only
  split
  · exact throw _
  · exact (lift (hp (VM.Tame.stringArray arguments).program)).bind fun _ =>
      (invoke hp fuel _ _).bind fun _ => pure _

end Keeps

end Exec

end JavaMachine
