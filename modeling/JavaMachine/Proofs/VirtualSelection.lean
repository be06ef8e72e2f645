import JavaMachine.Proofs.DefaultMethods

/-!
Methods that virtual calls select.

A virtual call goes up the super chain of the object's class, and the first class there that
declares the method decides (`Exec.virtual_selection`). Interfaces are not asked. A reference may
resolve to a method with code that the class inherits from an interface, and the call still fails,
because there is no class that declares it (`Exec.not_always_inherited`).
-/

namespace JavaMachine

namespace Machine

variable {m : Machine} {id k : ClassId} {name descriptor : String} {method : Method}

/-- `k` is the first class of the super chain that declares a method with the name and descriptor. -/
def FirstAbove (m : Machine) (id k : ClassId) (name descriptor : String) (method : Method) : Prop :=
  ∃ before after, m.superChain id = before ++ k :: after ∧
    (m.cls k).method? name descriptor = some method ∧
    ∀ j ∈ before, (m.cls j).method? name descriptor = none

theorem method?_eq_some : m.method? id name descriptor = some method ↔
    ∃ k, m.FirstAbove id k name descriptor method := by
  rw [method?_eq, List.findSome?_eq_some_iff]
  constructor
  · rintro ⟨before, k, after, hchain, hmethod, hnone⟩
    exact ⟨k, before, after, hchain, hmethod, hnone⟩
  · rintro ⟨k, before, after, hchain, hmethod, hnone⟩
    exact ⟨before, k, after, hchain, hmethod, hnone⟩

end Machine

namespace Exec

variable {natives : Natives} {i : Instruction} {s t : Running} {named id : ClassId} {resolved : Method}

/-- The instruction refers to the method `resolved` of the class `named`, for an object of the class
`id`. The method is not private, and the one to call is selected in the state `t`. -/
structure VirtualCall (i : Instruction) (s : Running) (named : ClassId) (resolved : Method)
    (id : ClassId) (t : Running) :
    Prop where
  resolves : outcome (resolveInstanceMethod i) s = (.ok (named, resolved), t)
  receiver : ∃ a, outcome (receiver resolved) t = (.ok a, t) ∧ t.machine.classOf a = id
  notPrivate : resolved.flags.isPrivate = false

/-- The failure of a call that selects no method. -/
def noImplementation (m : Machine) (resolved : Method) : Failure :=
  .fault (.exception ExceptionName.abstractMethod (m.methodText resolved))

theorem outcome_abstractMethod {α : Type} (method : Method) :
    outcome (abstractMethod method : Exec α) t = (.error (noImplementation t.machine method), t) := rfl

theorem VirtualCall.outcome_eq (h : VirtualCall i s named resolved id t) :
    outcome (invokeVirtual natives i) s =
    outcome (callFound natives (t.machine.methodSearch id resolved.name resolved.descriptor)
      resolved) t := by
  obtain ⟨a, hreceiver, hclass⟩ := h.receiver
  unfold invokeVirtual
  rw [outcome_bind_of_ok h.resolves]
  dsimp only
  rw [outcome_bind_of_ok hreceiver, h.notPrivate, if_neg Bool.false_ne_true,
    outcome_bind_of_ok outcome_machine, hclass]

/-- A virtual call calls the method of the first class above the object's that declares one. If no
class does, it fails with `AbstractMethodError`, whatever the interfaces declare, or does not end
because the super chain never ends. One of these is the case. -/
theorem virtual_selection (hm : s.machine.Reachable) (h : VirtualCall i s named resolved id t) :
    (∀ k method, t.machine.FirstAbove id k resolved.name resolved.descriptor method →
      outcome (invokeVirtual natives i) s = outcome (call natives method) t) ∧
    ((∀ k, t.machine.Extends id k →
        (t.machine.cls k).method? resolved.name resolved.descriptor = none) →
      (t.machine.ChainEnds id →
        outcome (invokeVirtual natives i) s = (.error (noImplementation t.machine resolved), t)) ∧
      (¬ t.machine.ChainEnds id → outcome (invokeVirtual natives i) s = (.error .endless, t))) ∧
    ((∃ k method, t.machine.FirstAbove id k resolved.name resolved.descriptor method) ∨
      ∀ k, t.machine.Extends id k →
        (t.machine.cls k).method? resolved.name resolved.descriptor = none) := by
  have hsound := sound_of_resolves hm h.resolves
  have hrun : outcome (invokeVirtual natives i) s = _ := h.outcome_eq.trans (outcome_callFound _ _)
  refine ⟨fun k method hk => ?_, fun hnone => ⟨fun hends => ?_, fun hnever => ?_⟩, ?_⟩
  · rw [hrun, Search.found?_eq_some.mp (Machine.method?_eq_some.mpr ⟨k, hk⟩)]
  · rw [hrun, Machine.methodSearch, hsound.searchChain_eq_absent.mpr ⟨hends, hnone⟩]
    exact outcome_abstractMethod resolved
  · rw [hrun, Machine.methodSearch, hsound.searchChain_eq_endless.mpr ⟨hnever, hnone⟩]
  · rcases hfound : t.machine.method? id resolved.name resolved.descriptor with _ | method
    · exact .inr (hsound.method?_none.mp hfound)
    · obtain ⟨k, hk⟩ := Machine.method?_eq_some.mp hfound
      exact .inl ⟨k, method, hk⟩

/-! ### A method that is not inherited -/

/-- An interface with a method that has code, a class that implements it and may have a method of
its own, and a class that makes an object of the other one and calls the method on it. -/
def defineSpeaker (overrides : Bool) : VM ClassId := do
  let _ ← VM.define (.build ClassName.object none (pure ()))
  let _ ← VM.define <| .build "Greeter" (some ClassName.object) do
    Builder.setFlags ⟨AccessFlags.publicBit ||| AccessFlags.interfaceBit ||| AccessFlags.abstractBit⟩
    Builder.addMethod ⟨AccessFlags.publicBit⟩ "greet" "()V" 0 1 [0xB1] []
  let _ ← VM.define <| .build "Speaker" (some ClassName.object) do
    Builder.addInterface "Greeter"
    if overrides then Builder.addMethod ⟨AccessFlags.publicBit⟩ "greet" "()V" 0 1 [0xB1] []
  VM.define <| .build "Main" (some ClassName.object) do
    let made ← Builder.classRef "Speaker"
    let greet ← Builder.methodRef "Speaker" "greet" "()V"
    Builder.addMethod ⟨AccessFlags.staticBit⟩ "main" "()V" 1 0
      [0xBB, 0, made.toUInt8, 0xB6, 0, greet.toUInt8, 0xB1] []

def speaker (overrides : Bool) : Machine := (outcome (defineSpeaker overrides) (.start [])).2

/-- The last class has been entered, and so many of its instructions have been executed. -/
def speaking (overrides : Bool) : Nat → Running
  | 0 =>
    let main := ((speaker overrides).cls ⟨3⟩).methods.getD 0 default
    ⟨speaker overrides, { Thread.start 8 with frames := [Frame.start main] }⟩
  | steps + 1 => (outcome (step .standard) (speaking overrides steps)).2

/-- The virtual call, and the state in which it is executed, the object having been made. -/
def virtualCall (overrides : Bool) : Instruction × Running := (speaking overrides 2).next?.getD default

/-- The class that declares the method that the reference resolves to. -/
def speakingClass (overrides : Bool) : ClassId := if overrides then ⟨2⟩ else ⟨1⟩

/-- The method that the reference resolves to. -/
def spoken (overrides : Bool) : Method :=
  ((speaker overrides).cls (speakingClass overrides)).methods.getD 0 default

/-- The state in which the method to call is selected. -/
def speech (overrides : Bool) : Running :=
  (outcome (resolveInstanceMethod (virtualCall overrides).1) (virtualCall overrides).2).2

section

variable (overrides : Bool)

theorem reachable_virtualCall : (virtualCall overrides).2.machine.Reachable := by
  have hruns : ∀ overrides, Completes (outcome (defineSpeaker overrides) (.start [])).1 ∧
      (outcome (step .standard) (speaking overrides 0)).1 = .ok ⟨⟩ ∧
      (outcome (step .standard) (speaking overrides 1)).1 = .ok ⟨⟩ ∧
      (speaking overrides 2).next?.isSome := by
    decide +kernel
  obtain ⟨hdefined, hfirst, hsecond, hnext⟩ := hruns overrides
  have hprogram : VM.Program .none (defineSpeaker overrides) :=
    .bind (.define _) fun _ => .bind (.define _) fun _ => .bind (.define _) fun _ => .define _
  have hentered : (speaking overrides 0).machine.Reachable := by
    rw [speaking]
    exact .program (.start []) Natives.Lawful.none hprogram (Prod.eta _).symm hdefined
  have hstarted : (speaking overrides 1).machine.Reachable := by
    rw [speaking]
    exact reachable_step hentered hfirst
  have hcalling : (speaking overrides 2).machine.Reachable := by
    rw [speaking]
    exact reachable_step hstarted hsecond
  obtain ⟨next, hnext⟩ := Option.isSome_iff_exists.mp hnext
  rw [virtualCall, hnext, Option.getD_some, next?_machine hnext]
  exact hcalling

theorem virtualCall_selects : VirtualCall (virtualCall overrides).1 (virtualCall overrides).2 ⟨2⟩
      (spoken overrides) ⟨2⟩
    (speech overrides) := by
  have hselects : ∀ overrides,
      (outcome (resolveInstanceMethod (virtualCall overrides).1) (virtualCall overrides).2).1 =
        .ok (⟨2⟩, spoken overrides) ∧
      (∃ top ∈ (speech overrides).thread.frames.head?,
        top.stack.topReference? ((spoken overrides).argumentSlots - 1) = some (some ⟨0⟩)) ∧
      (speech overrides).machine.classOf ⟨0⟩ = ⟨2⟩ ∧ (spoken overrides).flags.isPrivate = false := by
    decide +kernel
  obtain ⟨hresolved, ⟨top, htop, hread⟩, hclass, hprivate⟩ := hselects overrides
  obtain ⟨callers, hframes⟩ := List.head?_eq_some_iff.mp htop
  exact ⟨by rw [speech, ← hresolved], ⟨⟨0⟩, outcome_receiver hframes hread, hclass⟩, hprivate⟩

end

/-- The method that the class of the object declares is called. -/
theorem virtual_selection_overriding :
    outcome (invokeVirtual .standard (virtualCall true).1) (virtualCall true).2 =
      outcome (call .standard (spoken true)) (speech true) := by
  have hchain : (speech true).machine.superChain ⟨2⟩ = [⟨2⟩, ⟨0⟩] ∧
      ((speech true).machine.cls ⟨2⟩).method?
      (spoken true).name (spoken true).descriptor = some (spoken true) := by decide +kernel
  exact (virtual_selection (reachable_virtualCall true) (virtualCall_selects true)).1 ⟨2⟩ _
    ⟨[], _, hchain.1, hchain.2, fun _ h => by cases h⟩

/-- A method with code that an interface declares, and that the reference resolves to, is not called
on an object whose class inherits it. -/
theorem not_always_inherited : ¬ ∀ (i : Instruction) (s t : Running) (named id k : ClassId)
      (resolved : Method),
    s.machine.Reachable → VirtualCall i s named resolved id t →
      (t.machine.cls named).isInterface = false →
      (t.machine.cls k).isInterface = true →
    (t.machine.cls k).method? resolved.name resolved.descriptor = some resolved →
      resolved.IsDefault → t.machine.Extends id named →
      (∀ j, t.machine.Extends id j → (t.machine.cls j).method? resolved.name resolved.descriptor =
        none) → ∀ message u, outcome (invokeVirtual .standard i) s ≠
          (.error (.fault (.exception ExceptionName.abstractMethod message)), u) := by
  intro h
  have hcall := virtualCall_selects false
  have hreachable := reachable_virtualCall false
  have hdata : ((speech false).machine.cls ⟨2⟩).isInterface = false ∧
      ((speech false).machine.cls ⟨1⟩).isInterface = true ∧
      ((speech false).machine.cls ⟨1⟩).method? (spoken false).name (spoken false).descriptor =
      some (spoken false) ∧ (spoken false).flags = ⟨AccessFlags.publicBit⟩ ∧
      (speech false).machine.method? ⟨2⟩ (spoken false).name (spoken false).descriptor = none ∧
      ((speech false).machine.cls ⟨2⟩).superClass = some ⟨0⟩ ∧
      ((speech false).machine.cls ⟨0⟩).superClass = none := by
    decide +kernel
  obtain ⟨hclass, hinterface, hmethod, hflags, hnone, hsuper, hroot⟩ := hdata
  have hdefault : (spoken false).IsDefault := by constructor <;> rw [hflags] <;> decide
  have hnone := (sound_of_resolves hreachable hcall.resolves).method?_none.mp hnone
  exact h _ _ _ _ _ _ _ hreachable hcall hclass hinterface hmethod hdefault (.refl _) hnone _ _
    (((virtual_selection hreachable hcall).2.1 hnone).1 ⟨⟨0⟩, .super hsuper (.refl _), hroot⟩)

end Exec

end JavaMachine
