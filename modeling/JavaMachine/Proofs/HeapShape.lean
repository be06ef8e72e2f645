import JavaMachine.Proofs.Sessions

/-!
How objects are stored.

An instance of a class that is no array class has a slot for each instance field. An array has
elements of the kind that the name of its class says. What an object is, and how much it holds,
never changes (`Session.heap_shape`). Nothing keeps an instance of an array class from being made,
which then has no elements (`Session.not_always_elements`).
-/

namespace JavaMachine

namespace ObjectData

variable {data data' : ObjectData} {className : String}

theorem length?_eq (data : ObjectData) :
    data.length? = if data.fields?.isSome then none else some data.size := by
  cases data <;> rfl

/-- Arrays stay arrays of the same length. -/
theorem SameShape.length? (h : data.SameShape data') : data'.length? = data.length? := by
  rw [length?_eq, length?_eq, h.fields, h.size]

/-- What suits a class has elements as a new array of this class has them. -/
theorem Suits.newArray? {length : Nat} (h : data.Suits className)
    (hlength : data.length? = some length) :
    ∃ fresh, ObjectData.newArray? className length = some fresh ∧
      data.elementKind? = fresh.elementKind? := by
  rw [length?_eq] at hlength
  split at hlength
  · cases hlength
  · rename_i hfields
    cases hlength
    obtain ⟨fresh, hfresh, hkind⟩ := h (by simpa using hfields)
    exact ⟨fresh, hfresh, hkind.symm⟩

end ObjectData

namespace VM

variable {m m' : Machine} {id : ClassId} {a : Address}

/-! ### Lengths of new arrays -/

theorem newArray_length {length : Nat} (hrun : outcome (newArray id length) m = (.ok a, m')) :
    (m'.object a).data.length? = some length := by
  obtain ⟨helements, hsize⟩ := Steady.newArray_data hrun
  rw [ObjectData.length?_eq, helements, hsize]
  rfl

/-- An array gets its elements some time after it was made. -/
theorem length_of_setData {elements : List Address} {m₁ : Machine} (ha : m.HasArray a)
    (hevolves : m.Evolves m₁)
    (hrun : outcome (setData a (.references (elements.map some).toArray) >>= fun _ => pure a) m₁ =
      (.ok a, m')) :
    (m'.object a).data.length? = some elements.length := by
  obtain ⟨⟨⟩, m₂, hset, hrun⟩ := outcome_bind_ok.mp hrun
  cases hrun
  rw [outcome_setData] at hset
  cases hset
  rw [Machine.object_withData_self (Nat.lt_of_lt_of_le ha.there hevolves.heap)]
  exact congrArg some (by simp)

/-- An array of arrays has as many elements as the first count says. -/
theorem multiArray_length {count : Nat} {inner : List Nat} (hm : m.Regular)
    (hrun : outcome (multiArray id count inner) m = (.ok a, m')) :
    (m'.object a).data.length? = some count := by
  cases inner with
  | nil => exact newArray_length hrun
  | cons next inner =>
    unfold multiArray at hrun
    obtain ⟨array, m₁, hnew, hrun⟩ := outcome_bind_ok.mp hrun
    obtain ⟨component, m₂, hcomponent, hrun⟩ := outcome_bind_ok.mp hrun
    have hm₁ := ((Steady.newArray id count) m _ _ hm hnew trivial).1
    obtain ⟨hm₂, hsecond, -⟩ :=
      (Tame.component? id).steady Natives.Orderly.none m₁ _ _ hm₁ hcomponent trivial
    split at hrun
    · obtain ⟨_, _, -, hrun⟩ := outcome_bind_ok.mp hrun
      cases hrun
    rw [outcome_bind_of_ok (outcome_object array)] at hrun
    dsimp only at hrun
    split at hrun
    · obtain ⟨elements, m₃, hmade, hrun⟩ := outcome_bind_ok.mp hrun
      obtain ⟨-, hthird, -⟩ :=
        (Tame.mapM (fun _ => Tame.multiArray _ next inner) _).steady Natives.Orderly.none m₂ _ _ hm₂
        hmade trivial
      have harray : array = a := by
        obtain ⟨_, _, -, hrun⟩ := outcome_bind_ok.mp hrun
        cases hrun
        rfl
      subst harray
      rw [length_of_setData (Steady.newArray_ok hnew) (hsecond.trans hthird) hrun,
        length_of_outcome_mapM hmade, List.length_replicate]
    · cases hrun
      rw [(hsecond.shape _ (Steady.newArray_ok hnew).there).length?]
      exact newArray_length hnew

/-- The arguments of a program become an array with as many elements. -/
theorem stringArray_length {texts : List String} (hm : m.Regular)
    (hrun : outcome (Exec.stringArray texts) m = (.ok a, m')) : (m'.object a).data.length? =
      some texts.length := by
  unfold Exec.stringArray at hrun
  obtain ⟨id, m₁, hload, hrun⟩ := outcome_bind_ok.mp hrun
  obtain ⟨array, m₂, hnew, hrun⟩ := outcome_bind_ok.mp hrun
  obtain ⟨strings, m₃, hmade, hrun⟩ := outcome_bind_ok.mp hrun
  have hm₁ := (Steady.load _ m _ _ hm hload trivial).1
  have hm₂ := (Steady.newArray id _ m₁ _ _ hm₁ hnew trivial).1
  obtain ⟨-, hevolves, -⟩ :=
    (Tame.mapM Tame.string texts).steady Natives.Orderly.none m₂ _ _ hm₂ hmade trivial
  have harray : array = a := by
    obtain ⟨_, _, -, hrun⟩ := outcome_bind_ok.mp hrun
    cases hrun
    rfl
  subst harray
  rw [length_of_setData (Steady.newArray_ok hnew) hevolves hrun, length_of_outcome_mapM hmade]

end VM

/-- How an object is stored. An instance of a class has the slots of the class, and what has
elements has those that a new array of its class has. -/
structure Machine.WellStored (m : Machine) (a : Address) : Prop where
  fields : (m.cls (m.classOf a)).isArray = false →
    ∃ slots, (m.object a).data = .fields slots ∧ slots.size = (m.cls (m.classOf a)).instanceSlots
  elements : ∀ length, (m.object a).data.length? = some length → ∃ fresh,
    ObjectData.newArray? (m.className a) length = some fresh ∧
    (m.object a).data.elementKind? = fresh.elementKind?

namespace Session

variable {natives : Natives} {directories : List Directory} {es : List Event} {S : Session}

/-- At any time of a run all objects are well stored, and stay of the same class and length. New
arrays are as long as they were asked to be. -/
theorem heap_shape (hnatives : natives.Orderly) (hrun : Run natives (.start directories) es S) :
    (∀ a, a.index < S.machine.heap.size → S.machine.WellStored a ∧ ∀ es' S', Run natives S es' S' →
      S'.machine.classOf a = S.machine.classOf a ∧
        (S'.machine.object a).data.length? = (S.machine.object a).data.length?) ∧
    (∀ id count inner a m', outcome (VM.multiArray id count inner) S.machine = (.ok a, m') →
      (m'.object a).data.length? = some count) ∧
    ∀ texts a m', outcome (Exec.stringArray texts) S.machine = (.ok a, m') →
      (m'.object a).data.length? = some texts.length := by
  have hS := hrun.regular hnatives
  refine ⟨fun a ha => ⟨⟨hS.coherent.instances a ha, fun length hlength => ?_⟩, fun es' S' hrest => ?_⟩,
    fun _ _ _ _ _ => VM.multiArray_length hS, fun _ _ _ => VM.stringArray_length hS⟩
  · exact (hS.coherent.arrays a ha).newArray? hlength
  · have hevolves := (hrest.advances hnatives hS).evolves
    exact ⟨hevolves.classOf a ha, (hevolves.shape a ha).length?⟩

/-! ### An array, and an instance of an array class -/

/-- The class files that arrays need, a class with a method that makes an instance of `int[]`, and
an array. -/
def defineMaker : VM Address := do
  let _ ← VM.define (.build ClassName.object none (pure ()))
  let _ ← VM.define (Library.markerInterface ClassName.cloneable)
  let _ ← VM.define (Library.markerInterface ClassName.serializable)
  let _ ← VM.define <| .build "Main" (some ClassName.object) do
    let index ← Builder.classRef "[I"
    Builder.addMethod ⟨AccessFlags.staticBit⟩ "run" "()Ljava/lang/Object;" 1 0
      ([0xBB] ++ Library.operand index ++ [0xB0]) []
  let id ← VM.load "[I"
  VM.newArray id 3

def makerMachine : Machine := (outcome defineMaker (.start [])).2

/-- The method is called, makes the instance and returns it. -/
def making : List Event × Running :=
  play .standard 0 [.call ((makerMachine.cls ⟨3⟩).methods.getD 0 default) [], .step, .step]
    ⟨makerMachine, .start 8⟩

def madeSession : Session := ⟨making.2.machine, [making.2.thread]⟩

theorem run_made : Run .standard (.start []) making.1 madeSession := by
  have horderly : VM.Orderly defineMaker :=
    .bind (.define _) fun _ => .bind (.define _) fun _ => .bind (.define _) fun _ =>
        .bind (.define _) fun _ =>
      .bind (.load _) fun _ => .newArray _ _
  have hdefined : Run .standard (.start []) [] { Session.start [] with machine := makerMachine } :=
    .host .start horderly rfl (by decide +kernel)
  have hcompletes : ∀ e ∈ making.1, Completes e.result := by decide +kernel
  exact Run.of_play (s := ⟨makerMachine, .start 8⟩) (hdefined.thread 8) rfl rfl hcompletes

theorem heap_shape_array : madeSession.machine.WellStored ⟨0⟩ ∧
      madeSession.machine.className ⟨0⟩ = "[I" ∧
    (madeSession.machine.object ⟨0⟩).data = .ints #[0, 0, 0] :=
  ⟨((heap_shape Natives.standard_orderly run_made).1 ⟨0⟩ (by decide +kernel)).1,
    by decide +kernel, by decide +kernel⟩

/-- An instance of an array class has no elements. -/
theorem not_always_elements : Run .standard (.start []) making.1 madeSession ∧
    (madeSession.machine.cls (madeSession.machine.classOf ⟨1⟩)).isArray = true ∧
    (madeSession.machine.object ⟨1⟩).data.length? = none ∧
    (ObjectData.newArray? (madeSession.machine.className ⟨1⟩) 0).isSome = true :=
  ⟨run_made, by decide +kernel, by decide +kernel, by decide +kernel⟩

end Session

end JavaMachine
