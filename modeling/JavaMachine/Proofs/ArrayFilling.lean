import JavaMachine.Interpreter
import JavaMachine.Proofs.Securing

/-!
What arrays are filled with.

Reference arrays get their elements in four ways: an instruction stores one, a range is copied from
an array, an array of arrays is made with all its elements, and the arguments of a program become an
array of strings. Each of them keeps a machine safe: what is stored either is checked, was in the
array before, or is an instance of the component class.
-/

namespace JavaMachine

namespace Machine

variable {m m' : Machine} {id : ClassId} {a : Address}

/-- There is an array of a class at an address, with as many elements as it was made for. -/
structure HasArrayOf (m : Machine) (id : ClassId) (length : Nat) (a : Address) :
    Prop extends m.HasArray a where
  classOf : m.classOf a = id
  elements : (m.object a).data.fields? = none
  size : (m.object a).data.size = length

/-- What an object holds is replaced by the same. -/
theorem withData_self (m : Machine) (a : Address) : m.withData a (m.object a).data = m := by
  have hheap : (m.withData a (m.object a).data).heap = m.heap := by
    refine Array.ext (heap_size_withData _) fun i hi hi' => ?_
    by_cases h : a.index = i
    · simp [withData, Array.getElem_modify, h, object, Array.getD, hi']
    · simp [withData, Array.getElem_modify, h]
  exact congrArg (fun heap => { m with heap }) hheap

theorem HasArrayOf.remembers {length : Nat} (h : m.HasArrayOf id length a) (hm : m.Safe)
    (hremembers : m.Remembers m') :
    m'.HasArrayOf id length a :=
  have hshape := hremembers.shape a h.there
  ⟨h.toHasArray.evolves hm.regular.coherent hremembers.toEvolves,
    (hremembers.classOf a h.there).trans h.classOf,
    hshape.fields?_eq_none.mpr h.elements, hshape.size.trans h.size⟩

end Machine

namespace VM

open Machine

variable {n : Nat} {m m' : Machine}

/-! ### New arrays -/

theorem newArray_secure (id : ClassId) (length : Nat) :
    SecureTo m (newArray id length) fun m' a => m'.HasArrayOf id length a :=
  .of_discreet (Steady.newArray id length m) (.newArray (n := 0) id length) (Nat.zero_le _)
      fun _ _ _ _ hrun =>
    ⟨Steady.newArray_ok hrun, Steady.newArray_classOf hrun, (Steady.newArray_data hrun).1,
      (Steady.newArray_data hrun).2⟩

/-- A new array of arrays holds instances of its component class. -/
theorem multiArray_secure (id : ClassId) (count : Nat) (inner : List Nat) :
    SecureTo m (multiArray id count inner) fun m' a => m'.HasArrayOf id count a := by
  induction inner generalizing id count m with
  | nil => exact newArray_secure id count
  | cons next inner ih =>
    refine .bind (newArray_secure id count) fun array m₁ hm₁ _ _ harray => ?_
    refine .bind (component?_secure id) fun component m₂ hm₂ hsecond _ hcomponent => ?_
    have harray₂ := harray.remembers hm₁ hsecond
    split
    · exact .reads (outcome_cls id) (.throw (Nat.zero_le _))
    · rename_i component _
      refine .reads (outcome_object array) ?_
      split
      · rename_i hkind
        refine .bind (.ran (.mapM (p := fun m a => m.HasArrayOf component next a)
          (fun _ _ _ hm hremembers h => h.remembers hm hremembers) (fun _ _ => ih component next) _))
          fun elements m₃ hm₃ hthird _ ⟨hmade, helements⟩ => ?_
        have harray₃ := harray₂.remembers hm₂ hthird
        have hcomponent₃ : m₃.HasComponent id component :=
          HasComponent.evolves hcomponent hm₂.regular.coherent.sound hthird.toEvolves
        have hfits : ∀ b, some b ∈ (elements.map some).toArray → m₃.Fits array b := fun b hb => by
          have hb' : m₃.HasArrayOf component next b := helements b (by simpa using hb)
          refine fits_of_instance ?_ hb'.there
          rw [harray₃.classOf, hb'.classOf]
          exact hcomponent₃
        have hsize : (elements.map some).toArray.size = count := by
          simpa using length_of_outcome_mapM hmade
        have haccepts := (hm₂.regular.accepts_references_of_kind hkind
          (hsize.trans harray₂.size.symm)).evolves
          hm₂.regular.coherent hthird.toEvolves
        refine .bind (.setElements haccepts fun _ => hfits) fun _ m₄ _ hfourth _ _ => ?_
        have harray₄ := harray₃.remembers hm₃ hfourth
        exact .pure harray₄.there fun _ => harray₄
      · exact .pure harray₂.there fun _ => harray₂

/-! ### Arrays of strings -/

/-- A new string is an instance of the class of strings. -/
theorem stringOfUnits_secure (units : Text.Units) : SecureTo m (stringOfUnits units) fun m' string =>
    string.index < m'.heap.size ∧ m'.lookup? ClassName.string = some (m'.classOf string) := by
  refine .of_discreet (Steady.stringOfUnits units m) (.stringOfUnits (n := 0) units) (Nat.zero_le _)
    fun string m' hm _ hrun => ?_
  unfold stringOfUnits Loader.stringOfUnits at hrun
  obtain ⟨stringClass, m₁, hfirst, hrun⟩ := outcome_bind_ok.mp hrun
  obtain ⟨charsClass, m₂, hsecond, hrun⟩ := outcome_bind_ok.mp hrun
  have hloaded := load_secure _ hm _ _ hfirst trivial
  have hbound := (load_secure _ hloaded.safe _ _ hsecond trivial).remembers.bound _ _
    (hloaded.given _ rfl).1
  rw [outcome_bind_of_ok (outcome_get m₂), outcome_ofSearch_bind] at hrun
  split at hrun
  case h_2 | h_3 => cases hrun
  · obtain ⟨fields, -, hstring, rfl⟩ := string_made hrun trivial
    cases hstring
    have hobject := object_withObject_new (m := m₂.withObject ⟨charsClass, .chars units.toArray⟩)
      ⟨stringClass, .fields fields⟩
    rw [heap_size_withObject] at hobject
    exact ⟨by simp, hbound.trans (congrArg some (congrArg Object.cls hobject).symm)⟩

theorem string_secure (text : String) : SecureTo m (string text) fun m' string =>
    string.index < m'.heap.size ∧ m'.lookup? ClassName.string = some (m'.classOf string) :=
      stringOfUnits_secure _

theorem stringArray_secure (texts : List String) : SecureOn m (Exec.stringArray texts) := by
  refine .bind (load_secure _) fun id m₁ hm₁ _ _ ⟨_, hname⟩ => ?_
  refine .bind (newArray_secure id _) fun array m₂ hm₂ hsecond _ harray => ?_
  have hcomponent : (m₁.cls id).componentName? = some ClassName.string := by
    rw [Class.componentName?, hname]
    decide
  have hid := classId_lt_of_componentName? hcomponent
  refine .bind (.ran (.mapM (p := fun m string => string.index < m.heap.size ∧
    m.lookup? ClassName.string = some (m.classOf string)) (fun m₁ m₂ string _ hremembers h => ?_)
      (fun _ text => string_secure text) _)) fun strings m₃ hm₃ hthird _ hall => ?_
  · refine ⟨Nat.lt_of_lt_of_le h.1 hremembers.heap, ?_⟩
    rw [hremembers.classOf string h.1]
    exact hremembers.bound _ _ h.2
  · obtain ⟨hmade, hstrings⟩ := hall
    have harray₃ := harray.remembers hm₂ hthird
    have hcomponent₃ := ((hsecond.trans hthird).later id hid).componentName?.trans hcomponent
    have hsize : (strings.map some).toArray.size = texts.length := by
      simpa using length_of_outcome_mapM hmade
    have hkind := hm₃.regular.elementKind?_of_strings harray₃.elements <| by
      rw [className, harray₃.classOf, ((hsecond.trans hthird).later id hid).name, hname]
    have haccepts := hm₃.regular.accepts_references_of_kind hkind (hsize.trans harray₃.size.symm)
    refine .bind (.setElements haccepts fun _ b hb => ?_) fun _ m₄ _ hfourth _ _ => ?_
    · obtain ⟨hb, hbound⟩ := hstrings b (by simpa using hb)
      refine fits_of_instance ⟨ClassName.string, ?_, hbound⟩ hb
      rw [harray₃.classOf]
      exact hcomponent₃
    · exact .pure (Nat.lt_of_lt_of_le harray₃.there hfourth.heap) fun _ => trivial

/-! ### Copies -/

/-- A store into something that is no array of references leaves it as it is, or refers to no
objects. -/
theorem store_cases (isBoolean : Bool) (index : Nat) (value : Value) (data : ObjectData) :
    data.store isBoolean index value = data ∨
      data.fields? = none ∧ extent (data.store isBoolean index value) = 0 ∨
      ∃ elements r, data = .references elements ∧ value = .reference r ∧
        data.store isBoolean index value = .references (elements.setIfInBounds index r) := by
  cases data <;> cases value <;> first
    | exact .inl rfl
    | exact .inr (.inl ⟨rfl, rfl⟩)
    | exact .inr (.inr ⟨_, _, rfl, rfl, rfl⟩)

/-- An element that fits is stored. -/
theorem storeElement_secure {a : Address} {isBoolean : Bool} {index : Nat} {value : Value}
    (h : ∀ elements b, (m.object a).data = .references elements →
      value = .reference (some b) → m.Fits a b) :
    SecureOn m (modifyData a (·.store isBoolean index value)) := by
  refine .assuming fun hm => .congr ((outcome_modifyData a _).trans (outcome_setData a _).symm) ?_
  rcases store_cases isBoolean index value (m.object a).data with
    hsame | ⟨harray, hplain⟩ | ⟨elements, r, hdata, hvalue, hstored⟩
  · rw [hsame]
    refine .congr (x := pure ⟨⟩) ?_ (.pure (Nat.zero_le _) fun _ => trivial)
    rw [outcome_setData, withData_self]
    rfl
  · obtain ⟨hshape, hkind⟩ := (m.object a).data.store_shape isBoolean index value
    exact .setPlain (hm.regular.accepts harray hshape hkind) hplain
  · rw [hstored]
    refine .setElements (hm.regular.accepts_references hdata Array.size_setIfInBounds) fun _ b hb => ?_
    rcases Array.mem_or_eq_of_mem_setIfInBounds hb with hold | rfl
    · exact hm.fits a elements b hdata hold
    · exact h elements b hdata hvalue

end VM

end JavaMachine
