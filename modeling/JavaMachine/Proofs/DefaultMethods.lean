import JavaMachine.Proofs.Inheritance
import JavaMachine.Proofs.Initializing
import JavaMachine.Proofs.Invariants

/-!
Methods that objects get from interfaces.

An interface call for which no class has a method goes up the super chain of the object's class.
Each class there is asked for the first method among the interfaces below it, and the first of these
methods that has code is called (`Machine.Supplies`, `Exec.default_selection`). Which of the
interfaces are more specific than others makes no difference, so a method of an interface that comes
first hides those of all others: an abstract one hides the only one with code
(`Exec.not_always_most_specific`).
-/

namespace JavaMachine

namespace Machine

variable {m : Machine} {id c k : ClassId} {name descriptor : String} {method : Method}

/-- A class passes on the methods of the interfaces that it and its super classes reach. `k` is one
of these that declares a method with the name and descriptor. -/
structure Passes (m : Machine) (id k : ClassId) (name descriptor : String)
    (method : Method) : Prop where
  reached : ∃ c, m.Extends id c ∧ m.SuperInterface c k
  declared : (m.cls k).method? name descriptor = some method

/-- None of the interfaces that pass a method on is below `k`, which passes on one itself. -/
structure MostSpecific (m : Machine) (id k : ClassId) (name descriptor : String)
    (method : Method) : Prop
    extends m.Passes id k name descriptor method where
  minimal : ∀ j other, m.Passes id j name descriptor other → j ≠ k → ¬ m.SuperInterface j k

/-- `k` is the first of the interfaces below `c` that declares a method with the name and descriptor. -/
def FirstBelow (m : Machine) (c k : ClassId) (name descriptor : String) (method : Method) : Prop :=
  ∃ before after, m.interfacesBelow c = before ++ k :: after ∧
    (m.cls k).method? name descriptor = some method ∧
    ∀ j ∈ before, (m.cls j).method? name descriptor = none

/-- `k` is the first of the interfaces below a class of the super chain, and has code for the
method. The classes before that have none, or the first of their interfaces has no code. -/
def Supplies (m : Machine) (id k : ClassId) (name descriptor : String) (method : Method) : Prop :=
  ∃ before c after, m.superChain id = before ++ c :: after ∧ m.FirstBelow c k name descriptor method ∧
    method.flags.isAbstract = false ∧
      ∀ b ∈ before, ∀ j other, m.FirstBelow b j name descriptor other → other.flags.isAbstract = true

theorem interfaceMethod?_eq_some : m.interfaceMethod? c name descriptor = some method ↔
    ∃ k, m.FirstBelow c k name descriptor method := by
  rw [interfaceMethod?, searchInterfaces_eq, List.findSome?_eq_some_iff]
  constructor
  · rintro ⟨before, k, after, hbelow, hmethod, hnone⟩
    exact ⟨k, before, after, hbelow, hmethod, hnone⟩
  · rintro ⟨k, before, after, hbelow, hmethod, hnone⟩
    exact ⟨before, k, after, hbelow, hmethod, hnone⟩

/-- The search is for the interface that supplies the method. -/
theorem defaultMethod?_eq_some : m.defaultMethod? id name descriptor = some method ↔
    ∃ k, m.Supplies id k name descriptor method := by
  have hskipped : ∀ b, (m.interfaceMethod? b name descriptor).filter
      (fun method => !method.flags.isAbstract) = none ↔
      ∀ j other, m.FirstBelow b j name descriptor other → other.flags.isAbstract = true := by
    intro b
    simp only [Option.filter_eq_none_iff, interfaceMethod?_eq_some, Bool.not_eq_true',
      Bool.not_eq_false]
    exact ⟨fun h j other hj => h other ⟨j, hj⟩, fun h other ⟨j, hj⟩ => h j other hj⟩
  rw [defaultMethod?_eq, List.findSome?_eq_some_iff]
  simp only [hskipped, Option.filter_eq_some_iff, interfaceMethod?_eq_some, Bool.not_eq_true']
  constructor
  · rintro ⟨before, c, after, hchain, ⟨⟨k, hk⟩, hcode⟩, hbefore⟩
    exact ⟨k, before, c, after, hchain, hk, hcode, hbefore⟩
  · rintro ⟨k, before, c, after, hchain, hk, hcode, hbefore⟩
    exact ⟨before, c, after, hchain, ⟨⟨k, hk⟩, hcode⟩, hbefore⟩

theorem Supplies.passes (hm : m.Sound) (h : m.Supplies id k name descriptor method) :
    m.Passes id k name descriptor method ∧ method.flags.isAbstract = false := by
  obtain ⟨before, c, after, hchain, ⟨before', after', hbelow, hmethod, -⟩, hcode, -⟩ := h
  have hc : c ∈ m.superChain id := by rw [hchain]; simp
  have hk : k ∈ m.interfacesBelow c := by rw [hbelow]; simp
  exact ⟨⟨⟨c, extends_of_mem_superChain hc, hm.mem_interfacesBelow.mp hk⟩, hmethod⟩, hcode⟩

theorem Passes.mem (hm : m.Sound) (h : m.Passes id k name descriptor method) :
    ∃ c ∈ m.superChain id, k ∈ m.interfacesBelow c := by
  obtain ⟨c, hc, hk⟩ := h.reached
  exact ⟨c, hm.mem_superChain.mpr hc, hm.mem_interfacesBelow.mpr hk⟩

/-- A method is supplied if some are passed on, and all of them have code. -/
theorem Passes.exists_supplies (hm : m.Sound) (h : m.Passes id k name descriptor method)
    (hcode : ∀ j other, m.Passes id j name descriptor other → other.flags.isAbstract = false) :
    ∃ j other, m.Supplies id j name descriptor other := by
  obtain ⟨⟨c, hc, hk⟩, hmethod⟩ := h
  -- the first method below the class `c` is one that is passed on, and so not skipped
  obtain ⟨other, hother⟩ : ∃ other, m.interfaceMethod? c name descriptor = some other :=
    Option.ne_none_iff_exists'.mp fun hnone => by
      rw [hm.interfaceMethod?_none.mp hnone k hk] at hmethod
      cases hmethod
  obtain ⟨j, hj, hdeclared⟩ := hm.interfaceMethod?_some hother
  have hfound : ∃ method, m.defaultMethod? id name descriptor = some method := by
    refine Option.ne_none_iff_exists'.mp fun hnone => ?_
    rw [defaultMethod?_eq] at hnone
    have hskipped := List.findSome?_eq_none_iff.mp hnone c (hm.mem_superChain.mpr hc)
    rw [hother, Option.filter_eq_none_iff] at hskipped
    exact hskipped other rfl (by simp [hcode j other ⟨⟨c, hc, hj⟩, hdeclared⟩])
  obtain ⟨method, hfound⟩ := hfound
  obtain ⟨j, hj⟩ := defaultMethod?_eq_some.mp hfound
  exact ⟨j, method, hj⟩

end Machine

/-- An interface call may select the method. -/
structure Method.IsDefault (method : Method) : Prop where
  code : method.flags.isAbstract = false
  notStatic : method.flags.isStatic = false
  notPrivate : method.flags.isPrivate = false

namespace Exec

variable {natives : Natives} {i : Instruction} {s t : Running} {interface id : ClassId}
  {resolved : Method}

/-- The instruction refers to the method `resolved` of `interface`, for an object of the class `id`,
which implements the interface. The method to call is selected in the state `t`. -/
structure InterfaceCall (i : Instruction) (s : Running) (interface : ClassId)
    (resolved : Method) (id : ClassId) (t : Running) : Prop where
  resolves : outcome (resolveInstanceMethod i) s = (.ok (interface, resolved), t)
  receiver : ∃ a, outcome (receiver resolved) t = (.ok a, t) ∧ t.machine.classOf a = id
  implements : t.machine.isImplementing id interface = true
  /-- No class has a method with the name and descriptor. -/
  unclassed : ∀ k, t.machine.Extends id k →
    (t.machine.cls k).method? resolved.name resolved.descriptor = none

theorem sound_of_resolves {r : ClassId × Method} (hm : s.machine.Reachable)
    (h : outcome (resolveInstanceMethod i) s = (.ok r, t)) : t.machine.Sound := by
  have hkept : VM.KeptByPrograms .none Machine.Settled :=
    Machine.Settled.keptByPrograms Natives.Lawful.none
  exact (Keeps.plain hkept (Woven.resolveInstanceMethod i).plain s _ t hm.settled h trivial).sound

/-- A receiver that is there is the reference below the arguments. -/
theorem outcome_receiver {top : Frame} {callers : List Frame} {a : Address}
    (hframes : t.thread.frames = top :: callers)
    (htop : top.stack.topReference? (resolved.argumentSlots - 1) = some (some a)) :
    outcome (receiver resolved) t = (.ok a, t) := by
  have hread : outcome (topReference (resolved.argumentSlots - 1)) t = (.ok (some a), t) := by
    obtain ⟨m, pc, maxDepth, frames, returnValue⟩ := t
    dsimp only at hframes
    subst hframes
    rw [topReference, onStack, outcome_onFrame]
    dsimp only
    rw [htop]
    rfl
  unfold receiver
  rw [outcome_bind_of_ok hread]
  rfl

theorem InterfaceCall.implementing (h : InterfaceCall i s interface resolved id t) :
    t.machine.implementingSearch id interface = .found ⟨⟩ :=
  Search.found?_isSome.mp h.implements

/-- The method that the interfaces supply is called. -/
theorem InterfaceCall.outcome_eq (h : InterfaceCall i s interface resolved id t) (hm : t.machine.Sound)
    (hends : t.machine.ChainEnds id) :
    outcome (invokeInterface natives i) s =
      match t.machine.defaultMethod? id resolved.name resolved.descriptor with
      | some selected => outcome (call natives selected) t
      | none => outcome (abstractMethod resolved) t := by
  obtain ⟨a, hreceiver, hclass⟩ := h.receiver
  have hmethods : t.machine.methodSearch id resolved.name resolved.descriptor = .absent :=
    hm.searchChain_eq_absent.mpr ⟨hends, h.unclassed⟩
  have hdefaults : t.machine.defaultMethodSearch id resolved.name resolved.descriptor =
      .ofOption (t.machine.defaultMethod? id resolved.name resolved.descriptor) :=
    Search.eq_ofOption fun hendless => (hm.searchChain_eq_endless.mp hendless).1 hends
  unfold invokeInterface
  rw [outcome_bind_of_ok h.resolves]
  dsimp only
  rw [outcome_bind_of_ok hreceiver, outcome_bind_of_ok outcome_machine, hclass, h.implementing,
    hmethods, hdefaults]
  cases t.machine.defaultMethod? id resolved.name resolved.descriptor <;> rfl

/-- The search for a method of a class goes on as long as the chain does. -/
theorem InterfaceCall.outcome_endless (h : InterfaceCall i s interface resolved id t)
    (hm : t.machine.Sound)
    (hnever : ¬ t.machine.ChainEnds id) : outcome (invokeInterface natives i) s =
      (.error .endless, t) := by
  obtain ⟨a, hreceiver, hclass⟩ := h.receiver
  have hmethods : t.machine.methodSearch id resolved.name resolved.descriptor = .endless :=
    hm.searchChain_eq_endless.mpr ⟨hnever, h.unclassed⟩
  unfold invokeInterface
  rw [outcome_bind_of_ok h.resolves]
  dsimp only
  rw [outcome_bind_of_ok hreceiver, outcome_bind_of_ok outcome_machine, hclass,
    h.implementing, hmethods]
  rfl

/-- An interface call for which no class has a method calls the method that an interface supplies.
It fails with `AbstractMethodError` just if none supplies one, which is not so if all that are
passed on have code. If only one is passed on and has code, it is called. On a super chain that
never ends, the call does not end either. -/
theorem default_selection (hm : s.machine.Reachable) (h : InterfaceCall i s interface resolved id t) :
    (¬ t.machine.ChainEnds id → outcome (invokeInterface natives i) s = (.error .endless, t)) ∧
    (t.machine.ChainEnds id →
      (∀ k method, t.machine.Supplies id k resolved.name resolved.descriptor method →
        outcome (invokeInterface natives i) s = outcome (call natives method) t) ∧
      ((¬ ∃ k method, t.machine.Supplies id k resolved.name resolved.descriptor method) →
        outcome (invokeInterface natives i) s = outcome (abstractMethod resolved) t) ∧
      ((∃ k method, t.machine.Passes id k resolved.name resolved.descriptor method) →
        (∀ k method, t.machine.Passes id k resolved.name resolved.descriptor method →
          method.flags.isAbstract = false) →
          ∃ k method, t.machine.Passes id k resolved.name resolved.descriptor method ∧
            outcome (invokeInterface natives i) s = outcome (call natives method) t) ∧
      ∀ k method, t.machine.Passes id k resolved.name resolved.descriptor method →
        method.flags.isAbstract = false →
        (∀ j other, t.machine.Passes id j resolved.name resolved.descriptor other → j = k) →
          outcome (invokeInterface natives i) s = outcome (call natives method) t) := by
  have hsound := sound_of_resolves hm h.resolves
  refine ⟨h.outcome_endless hsound, fun hends => ?_⟩
  have hrun : outcome (invokeInterface natives i) s = _ := h.outcome_eq hsound hends
  have hcalls : ∀ k method, t.machine.Supplies id k resolved.name resolved.descriptor method →
      outcome (invokeInterface natives i) s = outcome (call natives method) t := fun k method hk => by
    rw [hrun, Machine.defaultMethod?_eq_some.mpr ⟨k, hk⟩]
  refine ⟨hcalls, fun hnone => ?_, fun ⟨k, method, hk⟩ hcode => ?_, fun k method hk hcode hone => ?_⟩
  · rcases hfound : t.machine.defaultMethod? id resolved.name resolved.descriptor with _ | method
    · rw [hrun, hfound]
    · obtain ⟨k, hk⟩ := Machine.defaultMethod?_eq_some.mp hfound
      exact absurd ⟨k, method, hk⟩ hnone
  · obtain ⟨j, other, hj⟩ := hk.exists_supplies hsound hcode
    exact ⟨j, other, (hj.passes hsound).1, hcalls j other hj⟩
  · have hall : ∀ j other, t.machine.Passes id j resolved.name resolved.descriptor other →
        other = method := fun j other hj => by
      have hdeclared := hj.declared
      rw [hone j other hj, hk.declared] at hdeclared
      exact (Option.some.inj hdeclared).symm
    obtain ⟨j, other, hj⟩ := hk.exists_supplies hsound fun j other hj => hall j other hj ▸ hcode
    rw [hcalls j other hj, hall j other (hj.passes hsound).1]

/-! ### A method that is hidden -/

theorem reachable_step (hs : s.machine.Reachable) (hok : (outcome (step .standard) s).1 = .ok ⟨⟩) :
    (outcome (step .standard) s).2.machine.Reachable :=
  .step hs Natives.standard_lawful (Prod.eta _).symm (by rw [hok]; trivial)

theorem next?_machine {next : Instruction × Running} (h : s.next? = some next) :
    next.2.machine = s.machine := by
  obtain ⟨top, callers, position, -, -, hpast⟩ := fetches_iff.mpr h
  rw [hpast]
  rfl

/-- An interface with a method that has code, one with a method that has none, a class that
implements interfaces in the given order, and a class that makes an object of it and calls the
method of the first interface on it. -/
def defineImplementor (interfaces : List String) : VM ClassId := do
  let abstractInterface : AccessFlags :=
    ⟨AccessFlags.publicBit ||| AccessFlags.interfaceBit ||| AccessFlags.abstractBit⟩
  let _ ← VM.define (.build ClassName.object none (pure ()))
  let _ ← VM.define <| .build "Greeter" (some ClassName.object) do
    Builder.setFlags abstractInterface
    Builder.addMethod ⟨AccessFlags.publicBit⟩ "greet" "()V" 0 1 [0xB1] []
  let _ ← VM.define <| .build "Silent" (some ClassName.object) do
    Builder.setFlags abstractInterface
    Builder.addBodiless ⟨AccessFlags.publicBit ||| AccessFlags.abstractBit⟩ "greet" "()V"
  let _ ← VM.define (.build "Implementor" (some ClassName.object)
      (interfaces.forM Builder.addInterface))
  VM.define <| .build "Main" (some ClassName.object) do
    let made ← Builder.classRef "Implementor"
    let greet ← Builder.interfaceMethodRef "Greeter" "greet" "()V"
    Builder.addMethod ⟨AccessFlags.staticBit⟩ "main" "()V" 1 0
      [0xBB, 0, made.toUInt8, 0xB9, 0, greet.toUInt8, 1, 0, 0xB1] []

def implementor (interfaces : List String) : Machine :=
  (outcome (defineImplementor interfaces) (.start [])).2

/-- The last class has been entered. -/
def entered (interfaces : List String) : Running :=
  let main := ((implementor interfaces).cls ⟨4⟩).methods.getD 0 default
  ⟨implementor interfaces, { Thread.start 8 with frames := [Frame.start main] }⟩

/-- The class of the object counts as started. -/
def started (interfaces : List String) : Running := (outcome (step .standard) (entered interfaces)).2

/-- The object has been made, and the interface call is next. -/
def greetingCall (interfaces : List String) : Running :=
  (outcome (step .standard) (started interfaces)).2

/-- The interface call, and the state in which it is executed. -/
def interfaceCall (interfaces : List String) : Instruction × Running :=
  (greetingCall interfaces).next?.getD default

/-- The method with code. -/
def greet (interfaces : List String) : Method :=
  ((implementor interfaces).cls ⟨1⟩).methods.getD 0 default

/-- The state in which the method to call is selected. -/
def selecting (interfaces : List String) : Running :=
  (outcome (resolveInstanceMethod (interfaceCall interfaces).1) (interfaceCall interfaces).2).2

section

variable {interfaces : List String} (h : interfaces ∈ [["Greeter"], ["Silent", "Greeter"]])

include h

theorem reachable_interfaceCall : (interfaceCall interfaces).2.machine.Reachable := by
  have hruns : ∀ interfaces ∈ [["Greeter"], ["Silent", "Greeter"]],
      Completes (outcome (defineImplementor interfaces) (.start [])).1 ∧
        (outcome (step .standard) (entered interfaces)).1 = .ok ⟨⟩ ∧
        (outcome (step .standard) (started interfaces)).1 = .ok ⟨⟩ ∧
        (greetingCall interfaces).next?.isSome := by
    decide +kernel
  obtain ⟨hdefined, hfirst, hsecond, hnext⟩ := hruns _ h
  have hprogram : VM.Program .none (defineImplementor interfaces) :=
    .bind (.define _) fun _ => .bind (.define _) fun _ => .bind (.define _) fun _ =>
      .bind (.define _) fun _ => .define _
  have hentered : (entered interfaces).machine.Reachable :=
    .program (.start []) Natives.Lawful.none hprogram (Prod.eta _).symm hdefined
  have hstarted : (started interfaces).machine.Reachable := by
    unfold started
    exact reachable_step hentered hfirst
  have hcalling : (greetingCall interfaces).machine.Reachable := by
    unfold greetingCall
    exact reachable_step hstarted hsecond
  obtain ⟨next, hnext⟩ := Option.isSome_iff_exists.mp hnext
  rw [interfaceCall, hnext, Option.getD_some, next?_machine hnext]
  exact hcalling

theorem interfaceCall_selects :
    InterfaceCall (interfaceCall interfaces).1 (interfaceCall interfaces).2 ⟨1⟩
    (greet interfaces) ⟨3⟩ (selecting interfaces) := by
  have hselects : ∀ interfaces ∈ [["Greeter"], ["Silent", "Greeter"]],
      (outcome (resolveInstanceMethod (interfaceCall interfaces).1) (interfaceCall interfaces).2).1 =
        .ok (⟨1⟩, greet interfaces) ∧
      (∃ top ∈ (selecting interfaces).thread.frames.head?,
        top.stack.topReference? ((greet interfaces).argumentSlots - 1) = some (some ⟨0⟩)) ∧
      (selecting interfaces).machine.classOf ⟨0⟩ = ⟨3⟩ ∧
        (selecting interfaces).machine.isImplementing ⟨3⟩ ⟨1⟩ = true ∧
      (selecting interfaces).machine.method? ⟨3⟩ (greet interfaces).name
        (greet interfaces).descriptor = none := by
    decide +kernel
  obtain ⟨hresolved, ⟨top, htop, hread⟩, hclass, himplements, hnone⟩ := hselects _ h
  have hresolves : outcome (resolveInstanceMethod (interfaceCall interfaces).1)
      (interfaceCall interfaces).2 =
      (.ok (⟨1⟩, greet interfaces), selecting interfaces) := by rw [selecting, ← hresolved]
  obtain ⟨callers, hframes⟩ := List.head?_eq_some_iff.mp htop
  exact ⟨hresolves, ⟨⟨0⟩, outcome_receiver hframes hread, hclass⟩, himplements,
    (sound_of_resolves (reachable_interfaceCall h) hresolves).method?_none.mp hnone⟩

/-- The class passes the method with code on. -/
theorem passes_greet : (selecting interfaces).machine.Passes ⟨3⟩ ⟨1⟩ (greet interfaces).name
      (greet interfaces).descriptor
    (greet interfaces) ∧ (greet interfaces).IsDefault := by
  have hpasses : ∀ interfaces ∈ [["Greeter"], ["Silent", "Greeter"]],
      ⟨1⟩ ∈ ((selecting interfaces).machine.cls ⟨3⟩).interfaces ∧
      ((selecting interfaces).machine.cls ⟨1⟩).method?
        (greet interfaces).name (greet interfaces).descriptor = some (greet interfaces) ∧
      (greet interfaces).flags = ⟨AccessFlags.publicBit⟩ := by decide +kernel
  obtain ⟨hinterface, hmethod, hflags⟩ := hpasses _ h
  exact ⟨⟨⟨⟨3⟩, .refl _, .single hinterface⟩, hmethod⟩,
    by rw [hflags]; decide, by rw [hflags]; decide, by rw [hflags]; decide⟩

end

/-- The only method that is passed on is called. -/
theorem default_selection_implementor :
    outcome (invokeInterface .standard (interfaceCall ["Greeter"]).1) (interfaceCall ["Greeter"]).2 =
      outcome (call .standard (greet ["Greeter"])) (selecting ["Greeter"]) := by
  have hmem : ["Greeter"] ∈ [["Greeter"], ["Silent", "Greeter"]] := by decide
  have hone : ∀ c ∈ (selecting ["Greeter"]).machine.superChain ⟨3⟩,
      ∀ j ∈ (selecting ["Greeter"]).machine.interfacesBelow c, j = ⟨1⟩ := by decide +kernel
  have hcall := interfaceCall_selects hmem
  have hreachable := reachable_interfaceCall hmem
  obtain ⟨hpasses, hdefault⟩ := passes_greet hmem
  have hroot : ((selecting ["Greeter"]).machine.cls ⟨3⟩).superClass = some ⟨0⟩ ∧
      ((selecting ["Greeter"]).machine.cls ⟨0⟩).superClass = none := by decide +kernel
  have hends : (selecting ["Greeter"]).machine.ChainEnds ⟨3⟩ := ⟨⟨0⟩, .super hroot.1 (.refl _), hroot.2⟩
  refine ((default_selection hreachable hcall).2 hends).2.2.2
    ⟨1⟩ _ hpasses hdefault.code fun j other hj => ?_
  obtain ⟨c, hc, hj⟩ := hj.mem (sound_of_resolves hreachable hcall.resolves)
  exact hone c hc j hj

/-- The only most specific method with code is not called if an abstract one comes before it. -/
theorem not_always_most_specific :
    ¬ ∀ (natives : Natives) (i : Instruction) (s t : Running) (interface id k : ClassId)
    (resolved method : Method), s.machine.Reachable → InterfaceCall i s interface resolved id t →
      t.machine.MostSpecific id k resolved.name resolved.descriptor method → method.IsDefault →
        (∀ j other, t.machine.MostSpecific id j resolved.name resolved.descriptor other →
          other.IsDefault → j = k) →
          outcome (invokeInterface natives i) s = outcome (call natives method) t := by
  intro h
  have hmem : ["Silent", "Greeter"] ∈ [["Greeter"], ["Silent", "Greeter"]] := by decide
  have hcall := interfaceCall_selects hmem
  have hreachable := reachable_interfaceCall hmem
  have hsound := sound_of_resolves hreachable hcall.resolves
  obtain ⟨hpasses, hdefault⟩ := passes_greet hmem
  have hbelow : ∀ c ∈ (selecting ["Silent", "Greeter"]).machine.superChain ⟨3⟩,
      ∀ j ∈ (selecting ["Silent", "Greeter"]).machine.interfacesBelow c,
        ⟨1⟩ ∉ (selecting ["Silent", "Greeter"]).machine.interfacesBelow j ∧
        ∀ other ∈ ((selecting ["Silent", "Greeter"]).machine.cls j).method?
        (greet ["Silent", "Greeter"]).name
          (greet ["Silent", "Greeter"]).descriptor, other.flags.isAbstract = false → j = ⟨1⟩ := by
    decide +kernel
  have hspecific : (selecting ["Silent", "Greeter"]).machine.MostSpecific ⟨3⟩ ⟨1⟩
      (greet ["Silent", "Greeter"]).name
      (greet ["Silent", "Greeter"]).descriptor (greet ["Silent", "Greeter"]) := by
    refine ⟨hpasses, fun j other hj _ hsub => ?_⟩
    obtain ⟨c, hc, hj⟩ := hj.mem hsound
    exact (hbelow c hc j hj).1 (hsound.mem_interfacesBelow.mpr hsub)
  have hcalled := h .standard _ _ _ _ _ _ _ _ hreachable hcall hspecific hdefault
      fun j other hj hother => by
    obtain ⟨c, hc, hmem⟩ := hj.mem hsound
    exact (hbelow c hc j hmem).2 other hj.declared hother.code
  have hdiffers : (outcome (invokeInterface .standard (interfaceCall ["Silent", "Greeter"]).1)
      (interfaceCall ["Silent", "Greeter"]).2).1 ≠
        (outcome (call .standard (greet ["Silent", "Greeter"]))
          (selecting ["Silent", "Greeter"])).1 := by
    decide +kernel
  exact hdiffers (congrArg Prod.fst hcalled)

end Exec

end JavaMachine
