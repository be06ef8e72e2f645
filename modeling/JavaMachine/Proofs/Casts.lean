import JavaMachine.Proofs.Sessions
import JavaMachine.Proofs.StorageOrder

/-!
Questions about assignability, and casts.

The question whether one class can be stored as another may load component classes, and these are
kept. So a question that was answered with yes has left all the components that the answer depends
on (`VM.storesBy_of_isAssignableWithin`), and is answered with yes from then on, without loading
anything (`VM.outcome_isAssignable_of_knows`). As the relation on kept components is transitive, so
are the answers, in whatever order the questions were asked (`Session.assignability_preorder`).
-/

namespace JavaMachine

namespace VM

open Machine

variable {m m' : Machine} {id target source : ClassId} {steps : Nat}

/-! ### Questions and answers -/

/-- A component class that is given is kept. -/
theorem component?_keeps (id : ClassId) : SteadyTo m (component? id) fun m' found =>
    (∀ k, found = some k → m'.Kept id k) ∧ (found = none → (m'.cls id).componentName? = none) := by
  refine ⟨Steady.component? id m, fun found m' hm hrun => ?_⟩
  rw [component?_eq, outcome_bind_of_ok (outcome_cls id)] at hrun
  rcases hname : (m.cls id).componentName? with _ | name <;> rw [hname] at hrun <;> dsimp only at hrun
  · cases hrun
    exact ⟨nofun, fun _ => hname⟩
  rcases hkept : (m.cls id).component with _ | component <;> rw [hkept] at hrun <;> dsimp only at hrun
  · obtain ⟨component, m₁, hload, hrun⟩ := outcome_bind_ok.mp hrun
    obtain ⟨⟨⟩, m₂, hmodify, hrun⟩ := outcome_bind_ok.mp hrun
    cases hrun
    obtain ⟨-, hevolves, -⟩ := Steady.load name m _ _ hm hload trivial
    have hid := Nat.lt_of_lt_of_le (lt_of_isArray (Class.isArray_of_componentName? hname))
      hevolves.classes
    refine ⟨fun k hk => ?_, nofun⟩
    cases hk
    rw [outcome_modifyClass] at hmodify
    cases hmodify
    exact congrArg Class.component (cls_changeClass_self _ hid)
  · cases hrun
    exact ⟨fun k hk => by cases hk; exact hkept, nofun⟩

/-- What is attempted gives what it is said to give, if it gives something. -/
theorem SteadyTo.attempt {α : Type} {x : VM α} {p : Machine → α → Prop} (hsteady : Steady x)
    (h : SteadyTo m x p) :
    SteadyTo m (VM.attempt x) fun m' result => ∀ a, result = .ok a → p m' a := by
  refine ⟨hsteady.attempt m, fun result m' hm hrun a ha => ?_⟩
  obtain ⟨_, -, ⟨⟩⟩ | ⟨b, hx, ⟨⟩⟩ := outcome_vm_attempt_completes hrun trivial <;> cases ha
  exact h.gives _ _ hm hx

/-- Classes that are found to be assignable can be stored by the components that are kept then. -/
theorem storesBy_of_isAssignableWithin : ∀ (steps : Nat) (target source : ClassId) {m : Machine},
    target.index < m.classes.size → source.index < m.classes.size →
    SteadyTo m (isAssignableWithin steps target source) fun m' answer =>
      answer = true → m'.StoresBy m'.Kept steps target source
  | 0, _, _, _, _, _ => ⟨.of_same rfl, fun _ _ _ hrun => nomatch hrun⟩
  | steps + 1, target, source, m, ht, hs => by
    refine .reads (outcome_get m) ?_
    split
    · rename_i heq
      cases heq
      exact .pure fun _ => .same
    split
    · rename_i hsource
      refine .ofSearch fun found hfound => .pure fun h => .object (by simpa using hsource) ?_
      rwa [isObjectAssignable, hfound]
    rename_i hsource
    split
    · rename_i htarget
      exact .pure fun h => .array (by simpa using hsource) (by simpa using htarget) h
    rename_i htarget
    refine (SteadyTo.attempt (.component? target) (component?_keeps target)).bind
      fun ofTarget m₁ hm₁ hfirst hoftarget => ?_
    refine (SteadyTo.attempt (.component? source) (component?_keeps source)).bind
      fun ofSource m₂ hm₂ hsecond hofsource => ?_
    split
    · rename_i targetComponent sourceComponent
      have htkept : m₂.Kept target targetComponent := ((hoftarget _ rfl).1 _ rfl).evolves hm₁ hsecond
      have hskept : m₂.Kept source sourceComponent := (hofsource _ rfl).1 _ rfl
      have hlt : ∀ {id k : ClassId}, m₂.Kept id k → k.index < m₂.classes.size := fun hk =>
        (hm₂.kept_loaded hk).lt hm₂.coherent.sound
      have hrest := storesBy_of_isAssignableWithin steps targetComponent sourceComponent
        (hlt htkept) (hlt hskept)
      refine ⟨hrest.steady, fun answer m' _ hrun htrue => ?_⟩
      obtain ⟨-, hthird, -⟩ := hrest.steady _ _ hm₂ hrun trivial
      exact .components (htkept.evolves hm₂ hthird) (hskept.evolves hm₂ hthird)
        (hrest.gives answer m' hm₂ hrun htrue)
    · have hboth := hfirst.trans hsecond
      have htlater := hboth.later target ht
      have hslater := hboth.later source hs
      have htlater₁ := hsecond.later target (Nat.lt_of_lt_of_le ht hfirst.classes)
      refine .pure fun h => .primitives (htlater.isArray.trans (by simpa using htarget))
        (hslater.isArray.trans (by simpa using hsource))
        (htlater₁.componentName?.trans ((hoftarget _ rfl).2 rfl))
        ((hofsource _ rfl).2 rfl) ?_
      rw [htlater.name, hslater.name]
      exact of_decide_eq_true h
    · exact .pure nofun

/-- What can be stored by kept components is found to be assignable, and nothing is loaded for that. -/
theorem outcome_isAssignableWithin_of_storesBy (hm : m.Regular) :
    ∀ {steps : Nat} {target source : ClassId},
    m.StoresBy m.Kept steps target source →
      outcome (isAssignableWithin steps target source) m = (.ok true, m)
  | steps + 1, target, source, h => by
    unfold isAssignableWithin
    rw [outcome_bind_of_ok (outcome_get m)]
    by_cases heq : target = source
    · rw [if_pos heq]
      rfl
    rw [if_neg heq]
    have hcomponent : ∀ {id k : ClassId}, m.Kept id k →
        outcome (attempt (component? id)) m = (.ok (.ok (some k)), m) := by
      intro id k hk
      obtain ⟨name, hname⟩ := hm.kept_name hk
      refine outcome_vm_attempt_of_ok ?_
      rw [component?_eq, outcome_bind_of_ok (outcome_cls id), hname,
        show (m.cls id).component = some k from hk]
      rfl
    have hnone : ∀ {id : ClassId}, (m.cls id).componentName? = none →
        outcome (attempt (component? id)) m = (.ok (.ok none), m) := by
      intro id hid
      refine outcome_vm_attempt_of_ok ?_
      rw [component?_eq, outcome_bind_of_ok (outcome_cls id), hid]
      rfl
    cases h with
    | same => exact absurd rfl heq
    | object noArray assignable =>
      rw [if_pos (by simp [noArray]), Search.found?_isSome.mp assignable]
      rfl
    | array array noArray supertype =>
        rw [if_neg (by simp [array]), if_pos (by simp [noArray]), supertype]; rfl
    | components ofTarget ofSource stores =>
      rw [if_neg (by simp [hm.kept_isArray ofSource]), if_neg (by simp [hm.kept_isArray ofTarget]),
        outcome_bind_of_ok (hcomponent ofTarget), outcome_bind_of_ok (hcomponent ofSource)]
      exact outcome_isAssignableWithin_of_storesBy hm stores
    | primitives targetArray sourceArray noTarget noSource same =>
      rw [if_neg (by simp [sourceArray]), if_neg (by simp [targetArray]),
        outcome_bind_of_ok (hnone noTarget), outcome_bind_of_ok (hnone noSource)]
      simp only [same, decide_true]
      rfl

/-- A question that was answered with yes has left what the answer depends on. -/
theorem storesBy_of_isAssignable (hm : m.Regular) (htarget : target.index < m.classes.size)
    (hsource : source.index < m.classes.size)
    (h : outcome (isAssignable target source) m = (.ok true, m')) :
    m.Advances m' ∧ ∃ steps, m'.StoresBy m'.Kept steps target source := by
  have hasked := storesBy_of_isAssignableWithin (m.assignabilityBound target source)
    target source htarget hsource
  unfold isAssignable at h
  rw [outcome_bind_of_ok (outcome_get m)] at h
  obtain ⟨hregular, hevolves, -⟩ := hasked.steady _ _ hm h trivial
  exact ⟨⟨hregular, hevolves⟩, _, hasked.gives _ _ hm h rfl⟩

theorem outcome_isAssignable_of_knows (hm : m.Regular) (h : m.Knows target source) :
    outcome (isAssignable target source) m = (.ok true, m) := by
  unfold isAssignable
  rw [outcome_bind_of_ok (outcome_get m)]
  exact outcome_isAssignableWithin_of_storesBy hm (h.within_bound hm)

theorem outcome_isInstance (a : Address) (id : ClassId) :
    outcome (isInstance a id) m = outcome (isAssignable id (m.classOf a)) m := by
  unfold isInstance
  rw [outcome_bind_of_ok (outcome_get m)]

theorem orderly_isAssignableWithin : ∀ steps target source,
      Orderly (isAssignableWithin steps target source)
  | 0, _, _ => .throw _
  | steps + 1, target, source => by
    refine .bind .get fun m => ?_
    split
    · exact .pure _
    split
    · exact .bind (.ofSearch _) fun _ => .pure _
    split
    · exact .pure _
    refine .bind (.attempt (.component? target)) fun targetComponent =>
      .bind (.attempt (.component? source)) fun sourceComponent => ?_
    split
    · exact orderly_isAssignableWithin steps _ _
    · exact .pure _
    · exact .pure _

/-- A host may ask whether classes are assignable. -/
theorem orderly_isAssignable (target source : ClassId) : Orderly (isAssignable target source) :=
  .bind .get fun _ => orderly_isAssignableWithin _ _ _

end VM

/-! ### Casts -/

namespace Exec

open Machine

variable {i : Instruction} {s t u : Running} {a : Address} {id : ClassId}

/-- The class that a checkcast checks for. -/
def castTarget (i : Instruction) : Exec ClassId := do VM.resolveClass (← owner) (← poolIndex i)

theorem castTarget_made (hs : s.machine.Regular) (h : outcome (castTarget i) s = (.ok id, t)) :
    s.machine.Advances t.machine ∧ id.index < t.machine.classes.size := by
  obtain ⟨own, s₁, howner, h⟩ := outcome_bind_ok.mp h
  obtain ⟨index, s₂, hindex, h⟩ := outcome_bind_ok.mp h
  have hfirst := SteadyOn.woven Natives.Orderly.none Woven.owner s _ _ hs howner trivial
  have hsecond := SteadyOn.woven Natives.Orderly.none (Woven.poolIndex i)
    s₁ _ _ hfirst.regular hindex trivial
  rw [outcome_lift] at h
  have hresolve := VM.resolveClass_steady hsecond.regular own index
  rcases hrun : outcome (VM.resolveClass own index) s₂.machine with ⟨_ | found, m⟩ <;>
    rw [hrun] at h <;> cases h
  obtain ⟨hregular, hevolves, -⟩ := hresolve.steady _ _ hsecond.regular hrun trivial
  exact ⟨hfirst.toAdvances.trans (hsecond.toAdvances.trans ⟨hregular, hevolves⟩),
    hresolve.gives _ _ hsecond.regular hrun⟩

/-- Raises an exception if the object is no instance of the class. -/
def checkInstance (a : Address) (id : ClassId) : Exec Unit := do
  if !(← VM.isInstance a id) then
    let m ← machine
    raise ExceptionName.classCast s!"{m.className a} cannot be cast to {(m.cls id).name}"

theorem checkCast_eq (i : Instruction) : checkCast i = (do
    match ← topReference 0 with
    | some a => castTarget i >>= checkInstance a
    | none => return ()) := by
  unfold checkCast
  refine bind_congr fun top => ?_
  cases top with
  | none => rfl
  | some a =>
    simp only [castTarget, bind_assoc]
    rfl

/-- A checkcast passes where its object is found to be an instance of its class. -/
theorem checkCast_passes (htop : outcome (topReference 0) s = (.ok (some a), s))
    (hclass : outcome (castTarget i) s = (.ok id, u)) : outcome (checkCast i) s = (.ok ⟨⟩, t) ↔
      t.thread = u.thread ∧
        outcome (VM.isAssignable id (u.machine.classOf a)) u.machine = (.ok true, t.machine) := by
  have hcheck : outcome (checkCast i) s = outcome (checkInstance a id) u := by
    rw [checkCast_eq, outcome_bind_of_ok htop]
    exact outcome_bind_of_ok hclass
  rw [hcheck, checkInstance, outcome_bind, outcome_lift, VM.outcome_isInstance]
  rcases outcome (VM.isAssignable id (u.machine.classOf a)) u.machine with ⟨e | _ | _, m⟩
  · simp
  · constructor
    · intro h
      cases h
    · rintro ⟨-, h⟩
      cases h
  · rcases t with ⟨machine, thread⟩
    simp [and_comm, eq_comm]

end Exec

/-! ### Sessions -/

namespace Session

open Machine

variable {natives : Natives} {directories : List Directory} {S : Session} {es : List Event}
  {target middle source id : ClassId} {a : Address}

/-- On the way to the session the machine was asked whether one loaded class can be stored as
another, and answered with yes. -/
inductive Accepted (natives : Natives) (directories : List Directory) (S : Session)
    (target source : ClassId) : Prop where
  | asked {es es' : List Event} {S₁ : Session} {m : Machine}
      (before : Run natives (start directories) es S₁)
      (targetLoaded : S₁.machine.Loaded target) (sourceLoaded : S₁.machine.Loaded source)
      (answer : outcome (VM.isAssignable target source) S₁.machine = (.ok true, m))
      (after : Run natives ⟨m, S₁.threads⟩ es' S)

/-- On the way to the session an object passed a checkcast to a class. -/
inductive Passed (natives : Natives) (directories : List Directory) (S : Session) (a : Address)
    (id : ClassId) : Prop where
  | cast {es es' : List Event} {S₁ : Session} {i : Instruction} {s t u : Running}
      {threads : List Thread}
      (before : Run natives (start directories) es S₁) (machine : s.machine = S₁.machine)
      (there : a.index < s.machine.heap.size) (loaded : s.machine.Loaded (s.machine.classOf a))
      (top : outcome (Exec.topReference 0) s = (.ok (some a), s))
      (target : outcome (Exec.castTarget i) s = (.ok id, u))
      (passes : outcome (Exec.checkCast i) s = (.ok ⟨⟩, t))
      (after : Run natives ⟨t.machine, threads⟩ es' S)

/-- What was answered with yes is known from then on. -/
theorem Accepted.known (hnatives : natives.Orderly) (h : Accepted natives directories S target source) :
    S.machine.Loaded target ∧ S.machine.Loaded source ∧
      ∃ steps, S.machine.StoresBy S.machine.Kept steps target source := by
  obtain ⟨before, htarget, hsource, answer, after⟩ := h
  have hregular := before.regular hnatives
  have hsound := hregular.coherent.sound
  obtain ⟨hanswered, steps, hstores⟩ :=
    VM.storesBy_of_isAssignable hregular (htarget.lt hsound) (hsource.lt hsound) answer
  have hafter := (after.advances hnatives hanswered.regular).evolves
  have hevolves := hanswered.evolves.trans hafter
  have hsound' := hanswered.regular.coherent.sound
  exact ⟨htarget.evolves hsound hevolves, hsource.evolves hsound hevolves, steps,
    hstores.evolves_kept hanswered.regular hafter
    ((htarget.evolves hsound hanswered.evolves).lt hsound')
      ((hsource.evolves hsound hanswered.evolves).lt hsound')⟩

/-- An object that passed a checkcast is known to be an instance of the class from then on. -/
theorem Passed.known (hnatives : natives.Orderly) (h : Passed natives directories S a id) :
    a.index < S.machine.heap.size ∧ S.machine.Loaded (S.machine.classOf a) ∧
      ∃ steps, S.machine.StoresBy S.machine.Kept steps id (S.machine.classOf a) := by
  obtain ⟨before, hmachine, there, loaded, top, target, passes, after⟩ := h
  have hregular := hmachine ▸ before.regular hnatives
  obtain ⟨hresolved, hid⟩ := Exec.castTarget_made hregular target
  obtain ⟨-, answer⟩ := (Exec.checkCast_passes top target).mp passes
  have hsource := hregular.coherent.there a there
  rw [hresolved.evolves.classOf a there] at answer
  obtain ⟨hanswered, steps, hstores⟩ := VM.storesBy_of_isAssignable hresolved.regular hid
    (Nat.lt_of_lt_of_le hsource hresolved.evolves.classes) answer
  have hafter := (after.advances hnatives hanswered.regular).evolves
  have hevolves := (hresolved.trans hanswered).evolves.trans hafter
  rw [hevolves.classOf a there]
  exact ⟨Nat.lt_of_lt_of_le there hevolves.heap, loaded.evolves hregular.coherent.sound hevolves, steps,
    hstores.evolves_kept hanswered.regular hafter (Nat.lt_of_lt_of_le hid hanswered.evolves.classes)
      (Nat.lt_of_lt_of_le hsource (hresolved.trans hanswered).evolves.classes)⟩

/-- Assignability is reflexive and transitive where the root of the hierarchy and the interfaces of
arrays are as in the built-in library and class files leave array classes alone: once the machine
has found `middle` to be assignable from `source` and `target` from `middle`, it finds `target` to
be assignable from `source`, without loading anything. So an object that passed a checkcast to
`middle` passes every checkcast to `target`. -/
theorem assignability_preorder (hnatives : natives.Orderly) (h : Run natives (start directories) es S)
    (hcustomary : S.machine.Customary) :
    (∀ id, outcome (VM.isAssignable id id) S.machine = (.ok true, S.machine)) ∧
      (∀ source middle target, Accepted natives directories S middle source →
        Accepted natives directories S target middle →
        outcome (VM.isAssignable target source) S.machine = (.ok true, S.machine)) ∧
      ∀ a middle target, Passed natives directories S a middle →
        Accepted natives directories S target middle →
        ∀ i s u, s.machine = S.machine → outcome (Exec.topReference 0) s = (.ok (some a), s) →
          outcome (Exec.castTarget i) s = (.ok target, u) →
            outcome (Exec.checkCast i) s = (.ok ⟨⟩, u) := by
  have hregular := h.regular hnatives
  have hordered : S.machine.Ordered := h.keeps (Ordered.keptByPrograms hnatives.lawful)
    (Ordered.start directories)
  have hupright := hcustomary.upright hregular hordered
  refine ⟨fun id => VM.outcome_isAssignable_of_knows hregular .same,
    fun source middle target hfirst hsecond => ?_,
    fun a middle target hpassed hsecond i s u hmachine htop hclass => ?_⟩
  · obtain ⟨hmiddle, hsource, _, hfirst⟩ := hfirst.known hnatives
    obtain ⟨htarget, -, _, hsecond⟩ := hsecond.known hnatives
    exact VM.outcome_isAssignable_of_knows hregular
      (hcustomary.knows_trans hupright htarget hmiddle hsource hfirst hsecond)
  · obtain ⟨there, hsource, _, hfirst⟩ := hpassed.known hnatives
    obtain ⟨htarget, hmiddle, _, hsecond⟩ := hsecond.known hnatives
    have hknows := hcustomary.knows_trans hupright htarget hmiddle hsource hfirst hsecond
    obtain ⟨hresolved, -⟩ := Exec.castTarget_made (hmachine ▸ hregular) hclass
    rw [hmachine] at hresolved
    have hsound := hregular.coherent.sound
    refine (Exec.checkCast_passes htop hclass).mpr ⟨rfl, ?_⟩
    rw [hresolved.evolves.classOf a there]
    exact VM.outcome_isAssignable_of_knows hresolved.regular
      (hknows.evolves hregular hresolved.evolves (htarget.lt hsound) (hsource.lt hsound))

/-- Array classes whose components are not all loaded. -/
def arrayClasses : VM Unit := do
  let _ ← VM.define Library.objectClass
  let _ ← VM.define (Library.markerInterface ClassName.cloneable)
  let _ ← VM.define (Library.markerInterface ClassName.serializable)
  let _ ← VM.load "[[I"
  let _ ← VM.load "[Ljava/lang/Cloneable;"
  let _ ← VM.load "[Ljava/lang/Object;"

/-- The machine with these classes. -/
def arraysMachine : Machine := (outcome arrayClasses (.start [])).2

/-- The machine after it was asked whether `int[][]` can be stored as `Cloneable[]`. -/
def askedOnce : Machine := (outcome (VM.isAssignable ⟨4⟩ ⟨3⟩) arraysMachine).2

/-- The machine after it was also asked whether `Cloneable[]` can be stored as `Object[]`. -/
def askedTwice : Machine := (outcome (VM.isAssignable ⟨5⟩ ⟨4⟩) askedOnce).2

theorem customary_askedTwice : askedTwice.Customary := by
  have hdata : askedTwice.lookup? ClassName.object = some ⟨0⟩ ∧
      ((askedTwice.cls ⟨0⟩).superName = none ∧ (askedTwice.cls ⟨0⟩).interfaceNames = []) ∧
      (∀ name ∈ [ClassName.cloneable, ClassName.serializable], ∀ id ∈ askedTwice.lookup? name,
        (askedTwice.cls id).interfaceNames = []) ∧ askedTwice.directories = [] ∧
      ∀ c ∈ askedTwice.classes.toList, c.pool ≠ #[] → c.isArray = false ∧
        ∀ name ∈ c.superName, ArrayName.isArray name = false := by
    decide +kernel
  obtain ⟨hobject, hroot, hmarkers, hdirectories, hclasses⟩ := hdata
  refine ⟨fun id hid => ?_, fun name hname id hid => hmarkers name hname id hid,
    fun name bytes file own hfile => ?_, fun id hpool => ?_⟩
  · cases hobject.symm.trans hid
    exact hroot
  · obtain ⟨path, -, hread⟩ := Option.bind_eq_some_iff.mp hfile
    rw [hdirectories] at hread
    cases hread
  · rcases Nat.lt_or_ge id.index askedTwice.classes.size with hlt | hge
    · rw [cls, Array.getD, dif_pos hlt] at hpool ⊢
      exact hclasses _ (Array.getElem_mem_toList hlt) hpool
    · rw [cls_of_size_le hge] at hpool
      exact absurd rfl hpool

theorem assignability_preorder_arrays :
    (∃ es, Run .none (start []) es ⟨askedTwice, []⟩) ∧ askedTwice.Customary ∧
      outcome (VM.isAssignable ⟨5⟩ ⟨3⟩) askedTwice = (.ok true, askedTwice) := by
  have horderly : VM.Orderly arrayClasses :=
    .bind (.define _) fun _ => .bind (.define _) fun _ => .bind (.define _) fun _ =>
        .bind (.load _) fun _ =>
      .bind (.load _) fun _ => .bind (.load _) fun _ => .pure _
  have hdata : (outcome arrayClasses (.start [])).1 = .ok ⟨⟩ ∧
      (outcome (VM.isAssignable ⟨4⟩ ⟨3⟩) arraysMachine).1 = .ok true ∧
      (outcome (VM.isAssignable ⟨5⟩ ⟨4⟩) askedOnce).1 = .ok true ∧
      (∀ i ∈ [3, 4], arraysMachine.lookup? (arraysMachine.cls ⟨i⟩).name = some ⟨i⟩) ∧
      ∀ i ∈ [4, 5], askedOnce.lookup? (askedOnce.cls ⟨i⟩).name = some ⟨i⟩ := by
    decide +kernel
  obtain ⟨hdefined, hfirst, hsecond, hloaded, hloaded'⟩ := hdata
  have hfirst : outcome (VM.isAssignable ⟨4⟩ ⟨3⟩) arraysMachine = (.ok true, askedOnce) :=
    Prod.ext hfirst rfl
  have hsecond : outcome (VM.isAssignable ⟨5⟩ ⟨4⟩) askedOnce = (.ok true, askedTwice) :=
    Prod.ext hsecond rfl
  have hclasses : Run .none (start []) [] ⟨arraysMachine, []⟩ :=
    .host .start horderly (Prod.ext hdefined rfl) trivial
  have honce : Run .none (start []) [] ⟨askedOnce, []⟩ :=
    .host hclasses (VM.orderly_isAssignable _ _) hfirst trivial
  have hlast : Run .none ⟨askedOnce, []⟩ [] ⟨askedTwice, []⟩ :=
    .host .start (VM.orderly_isAssignable _ _) hsecond trivial
  have haccepted : Accepted .none [] ⟨askedTwice, []⟩ ⟨4⟩ ⟨3⟩ :=
    .asked hclasses (hloaded 4 (by decide)) (hloaded 3 (by decide)) hfirst hlast
  have haccepted' : Accepted .none [] ⟨askedTwice, []⟩ ⟨5⟩ ⟨4⟩ :=
    .asked honce (hloaded' 5 (by decide)) (hloaded' 4 (by decide)) hsecond .start
  have htwice := honce.trans hlast
  obtain ⟨-, htrans, -⟩ := assignability_preorder Natives.Orderly.none htwice customary_askedTwice
  exact ⟨⟨_, htwice⟩, customary_askedTwice, htrans _ _ _ haccepted haccepted'⟩

end Session

end JavaMachine
