import JavaMachine.Proofs.SuperTypes

/-!
The order of all classes.

Component classes that were asked for are kept. What can be stored because of kept components can be
stored from then on, and on kept components the relation is transitive
(`Machine.Upright.storesBy_trans`). The names of components get shorter, so the steps from arrays to
their components that the machine takes are always enough (`Machine.Customary.storesBy_length`).
-/

namespace JavaMachine

namespace Machine

variable {m m' : Machine} {id k target middle source : ClassId} {steps steps' : Nat} {name : String}

/-- Classes stay loaded. -/
theorem Loaded.evolves (h : m.Loaded id) (hm : m.Sound) (hevolves : m.Evolves m') : m'.Loaded id := by
  rw [Loaded, (hevolves.later id (h.lt hm)).name]
  exact hevolves.bound _ _ h

/-! ### Kept components -/

/-- The component class of an array class was asked for before, and is kept. -/
def Kept (m : Machine) (id component : ClassId) : Prop := (m.cls id).component = some component

theorem Regular.kept_name (hm : m.Regular) (h : m.Kept id k) :
    ∃ name, (m.cls id).componentName? = some name :=
  let ⟨name, hname, _⟩ := (hm.component id k h).answers
  ⟨name, hname⟩

theorem Regular.kept_isArray (hm : m.Regular) (h : m.Kept id k) : (m.cls id).isArray = true :=
  let ⟨_, hname⟩ := hm.kept_name h
  Class.isArray_of_componentName? hname

theorem Regular.kept_loaded (hm : m.Regular) (h : m.Kept id k) : m.Loaded k :=
  (hm.component id k h).bound

theorem Kept.evolves (h : m.Kept id k) (hm : m.Regular) (hevolves : m.Evolves m') : m'.Kept id k :=
  (hevolves.later id (lt_of_isArray (hm.kept_isArray h))).component k h

theorem StoresBy.succ {component : ClassId → ClassId → Prop}
    (h : m.StoresBy component steps target source) :
    m.StoresBy component (steps + 1) target source := by
  induction h with
  | same => exact .same
  | object noArray assignable => exact .object noArray assignable
  | array array noArray supertype => exact .array array noArray supertype
  | components ofTarget ofSource _ ih => exact .components ofTarget ofSource ih
  | primitives targetArray sourceArray noTarget noSource same =>
    exact .primitives targetArray sourceArray noTarget noSource same

/-- What takes so many steps can be found in more. -/
theorem StoresBy.mono {component : ClassId → ClassId → Prop}
    (h : m.StoresBy component steps target source)
    (hle : steps ≤ steps') : m.StoresBy component steps' target source := by
  induction hle with
  | refl => exact h
  | step _ ih => exact ih.succ

/-- Components stay kept, so what can be stored because of them can be stored from then on. -/
theorem StoresBy.evolves_kept (h : m.StoresBy m.Kept steps target source) (hm : m.Regular)
    (hevolves : m.Evolves m')
    (htarget : target.index < m.classes.size) (hsource : source.index < m.classes.size) :
    m'.StoresBy m'.Kept steps target source :=
  h.evolves hm.coherent.sound hevolves
    (fun _ _ hk => ⟨(hm.kept_loaded hk).lt hm.coherent.sound, hk.evolves hm hevolves⟩) htarget hsource

/-- What is no array can be stored as itself and as what objects of it can be assigned to. -/
theorem StoresBy.of_noArray (h : m.StoresBy m.Kept steps target source) (hm : m.Regular)
    (hnoArray : (m.cls source).isArray = false) : target = source ∨
      m.isObjectAssignable target source = true := by
  cases h with
  | same => exact .inl rfl
  | object _ assignable => exact .inr assignable
  | array array => cases hnoArray.symm.trans array
  | components _ ofSource => cases hnoArray.symm.trans (hm.kept_isArray ofSource)
  | primitives _ sourceArray => cases hnoArray.symm.trans sourceArray

/-! ### Transitivity -/

namespace Upright

/-- What can be stored as a class can be stored as all that this one can be stored as. -/
theorem storesBy_trans (h : m.Upright) : ∀ {steps : Nat} {target middle source : ClassId},
      m.Loaded target → m.Loaded middle →
    m.Loaded source → m.StoresBy m.Kept steps middle source → m.StoresBy m.Kept steps target middle →
      m.StoresBy m.Kept steps target source := by
  intro steps
  induction steps with
  | zero => exact fun _ _ _ hfirst => nomatch hfirst
  | succ steps ih =>
    intro target middle source htarget hmiddle hsource hfirst hsecond
    have hsound := h.regular.coherent.sound
    cases hfirst with
    | same => exact hsecond
    | object noArray assignable =>
      have hplain := h.noArray_of_isObjectAssignable (hsource.lt hsound) assignable
      rcases hsecond.of_noArray h.regular hplain with rfl | assignable'
      · exact .object noArray assignable
      · rcases h.isObjectAssignable_trans hsource hmiddle htarget noArray assignable assignable'
          with rfl | htrans
        · exact .same
        · exact .object noArray htrans
    | array array noArray supertype =>
      rcases hsecond.of_noArray h.regular noArray with rfl | assignable
      · exact .array array noArray supertype
      · exact .array array (h.noArray_of_isObjectAssignable (hmiddle.lt hsound) assignable)
          (h.isArraySupertype_trans hmiddle supertype assignable)
    | @components _ _ _ k _ ofMiddle ofSource stores =>
      cases hsecond with
      | same => exact .components ofMiddle ofSource stores
      | object noArray => cases noArray.symm.trans (h.regular.kept_isArray ofMiddle)
      | array _ noArray supertype => exact .array (h.regular.kept_isArray ofSource) noArray supertype
      | @components _ _ _ _ k' ofTarget ofMiddle' stores' =>
        obtain rfl : k = k' := Option.some.inj (ofMiddle.symm.trans ofMiddle')
        have hloaded : ∀ {id k : ClassId}, m.Kept id k → m.Loaded k := h.regular.kept_loaded
        exact .components ofTarget ofSource
          (ih (hloaded ofTarget) (hloaded ofMiddle) (hloaded ofSource) stores stores')
      | primitives _ _ _ noMiddle =>
        obtain ⟨name, hname⟩ := h.regular.kept_name ofMiddle
        cases hname.symm.trans noMiddle
    | primitives middleArray sourceArray noMiddle noSource same =>
      cases hsecond with
      | same => exact .primitives middleArray sourceArray noMiddle noSource same
      | object noArray => cases noArray.symm.trans middleArray
      | array _ noArray supertype => exact .array sourceArray noArray supertype
      | components _ ofMiddle =>
        obtain ⟨name, hname⟩ := h.regular.kept_name ofMiddle
        cases hname.symm.trans noMiddle
      | primitives targetArray _ noTarget _ same' =>
        exact .primitives targetArray sourceArray noTarget noSource (same'.trans same)

end Upright

/-! ### The number of steps -/

/-- The name of a component is shorter. -/
theorem length_lt_of_componentName? {c : Class} (h : c.componentName? = some name) :
    name.length < c.name.length := by
  obtain ⟨hname, -⟩ := Option.filter_eq_some_iff.mp h
  rw [← String.length_toList, ← String.length_toList]
  unfold ArrayName.component? at hname
  split at hname
  · rename_i hlist
    split at hname
    · cases hname
      rw [hlist, String.toList_ofList, List.length_dropLast, List.length_cons, List.length_cons]
      omega
    · cases hname
  · rename_i hlist
    cases hname
    rw [hlist, String.toList_ofList, List.length_cons]
    exact Nat.lt_succ_self _
  · cases hname

/-- A component that is an array class has a shorter name than its array. -/
theorem Customary.length_of_kept (h : m.Customary) (hm : m.Regular) (hk : m.Kept id k)
    (harray : (m.cls k).isArray = true) :
    (m.cls k).name.length < (m.cls id).name.length := by
  obtain ⟨name, hname, hanswers⟩ := (hm.component id k hk).answers
  rcases hanswers with heq | ⟨-, bytes, file, hfile, hdecode, hown⟩
  · rw [heq]
    exact length_lt_of_componentName? hname
  · rw [Class.isArray, h.files name bytes file _ hfile hdecode hown] at harray
    cases harray

/-- One step is enough where not both are arrays. -/
theorem Regular.storesBy_one (hm : m.Regular) (h : m.StoresBy m.Kept steps target source)
    (hplain : (m.cls target).isArray = false ∨ (m.cls source).isArray = false) :
    m.StoresBy m.Kept 1 target source := by
  have hno : ∀ {p : Prop}, (m.cls target).isArray = true → (m.cls source).isArray = true → p :=
      fun htarget hsource => by
    rw [htarget, hsource] at hplain
    simp at hplain
  cases h with
  | same => exact .same
  | object noArray assignable => exact .object noArray assignable
  | array array noArray supertype => exact .array array noArray supertype
  | components ofTarget ofSource => exact hno (hm.kept_isArray ofTarget) (hm.kept_isArray ofSource)
  | primitives targetArray sourceArray => exact hno targetArray sourceArray

/-- As many steps are enough as the name of the target is long, and one more. -/
theorem Customary.storesBy_length (h : m.Customary) (hm : m.Regular)
    (hstores : m.StoresBy m.Kept steps target source) :
    m.StoresBy m.Kept ((m.cls target).name.length + 1) target source := by
  induction hstores with
  | same => exact .same
  | object noArray assignable => exact .object noArray assignable
  | array array noArray supertype => exact .array array noArray supertype
  | primitives targetArray sourceArray noTarget noSource same =>
    exact .primitives targetArray sourceArray noTarget noSource same
  | @components _ target source k _ ofTarget ofSource stores ih =>
    refine .components ofTarget ofSource ?_
    rcases harray : (m.cls k).isArray with _ | _
    · -- The file of a component may hold a class with a longer name, but no array class.
      obtain ⟨name, hname⟩ := hm.kept_name ofTarget
      exact (hm.storesBy_one stores (.inl harray)).mono
        (Nat.succ_le_of_lt (Nat.zero_lt_of_lt (length_lt_of_componentName? hname)))
    · exact ih.mono (h.length_of_kept hm ofTarget harray)

/-- What the machine has kept tells that `source` can be stored as `target`, in as many steps as it
takes. -/
def Knows (m : Machine) (target source : ClassId) : Prop :=
  m.StoresBy m.Kept ((m.cls target).name.length + 1) target source

/-- The steps that the machine takes are enough. -/
theorem Knows.within_bound (h : m.Knows target source) (hm : m.Regular) :
    m.StoresBy m.Kept (m.assignabilityBound target source) target source := by
  unfold assignabilityBound
  split
  · refine h.mono ?_
    rw [componentBound, componentBound]
    dsimp only
    omega
  · rename_i harrays
    refine hm.storesBy_one h ?_
    rcases htarget : (m.cls target).isArray with _ | _
    · exact .inl rfl
    · exact .inr (by simpa [htarget] using harrays)

theorem Knows.evolves (h : m.Knows target source) (hm : m.Regular) (hevolves : m.Evolves m')
    (htarget : target.index < m.classes.size) (hsource : source.index < m.classes.size) :
    m'.Knows target source := by
  rw [Knows, (hevolves.later target htarget).name]
  exact h.evolves_kept hm hevolves htarget hsource

theorem Customary.knows_trans (h : m.Customary) (hm : m.Upright) (htarget : m.Loaded target)
    (hmiddle : m.Loaded middle)
    (hsource : m.Loaded source) (hfirst : m.StoresBy m.Kept steps middle source)
    (hsecond : m.StoresBy m.Kept steps' target middle) : m.Knows target source :=
  h.storesBy_length hm.regular
    (hm.storesBy_trans htarget hmiddle hsource (hfirst.mono (Nat.le_max_left steps steps'))
    (hsecond.mono (Nat.le_max_right steps steps')))

end Machine

end JavaMachine
