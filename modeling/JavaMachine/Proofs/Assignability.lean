import JavaMachine.Machine.Assignability
import JavaMachine.Proofs.Evolution

/-!
Assignability as a relation that lasts.

`Machine.StoresBy` says, without loading anything, that a reference to one class can be stored as
another: as the loaded classes are now, in so many steps from arrays to their components. Whatever
is loaded later, it stays so (`StoresBy.evolves`).
-/

namespace JavaMachine

namespace Machine

variable {m m' : Machine} {id target source : ClassId} {steps depth depth' : Nat}

/-! ### The hierarchy above a class lasts -/

theorem chainWithin_evolves (hm : m.Sound) (h : m.Evolves m') : ∀ {depth depth' : Nat} {id k : ClassId},
    id.index < m.classes.size → depth ≤ depth' → k ∈ m.chainWithin depth id →
      k ∈ m'.chainWithin depth' id ∧ k.index < m.classes.size
  | depth + 1, depth' + 1, id, k, hid, hle, hk => by
    rw [chainWithin] at hk ⊢
    rw [(h.later id hid).superClass]
    rcases List.mem_cons.mp hk with rfl | hk
    · exact ⟨List.mem_cons_self, hid⟩
    · rcases hsuper : (m.cls id).superClass with _ | super <;> rw [hsuper] at hk
      · cases hk
      · obtain ⟨hmem, hlt⟩ := chainWithin_evolves hm h (hm.above id super (.inl hsuper))
          (Nat.le_of_succ_le_succ hle) hk
        exact ⟨List.mem_cons_of_mem _ hmem, hlt⟩

theorem interfacesWithin_evolves (hm : m.Sound) (h : m.Evolves m') :
    ∀ {depth depth' : Nat} {ids : List ClassId}
    {k : ClassId}, (∀ id ∈ ids, id.index < m.classes.size) → depth ≤ depth' →
    k ∈ m.interfacesWithin depth ids → k ∈ m'.interfacesWithin depth' ids
  | depth + 1, depth' + 1, ids, k, hids, hle, hk => by
    obtain ⟨id, hid, hk⟩ := List.mem_flatMap.mp hk
    refine List.mem_flatMap.mpr ⟨id, hid, ?_⟩
    rw [(h.later id (hids id hid)).interfaces]
    rcases List.mem_cons.mp hk with rfl | hk
    · exact List.mem_cons_self
    · exact List.mem_cons_of_mem _ (interfacesWithin_evolves hm h (fun k hk => hm.above id k (.inr hk))
        (Nat.le_of_succ_le_succ hle) hk)

theorem isSubclass_evolves (hm : m.Sound) (h : m.Evolves m') (hid : source.index < m.classes.size)
    (hsub : m.isSubclass source target = true) : m'.isSubclass source target = true := by
  obtain ⟨super, hsuper, hmem⟩ := (m.isSubclass_iff_mem source target).mp hsub
  exact (m'.isSubclass_iff_mem source target).mpr ⟨super, (h.later source hid).superClass.trans hsuper,
    (chainWithin_evolves hm h (hm.above source super (.inl hsuper))
      (Nat.succ_le_succ h.classes) hmem).1⟩

theorem isSubInterface_evolves (hm : m.Sound) (h : m.Evolves m') (hid : source.index < m.classes.size)
    (hsub : m.isSubInterface source target = true) : m'.isSubInterface source target = true := by
  rw [isSubInterface_iff, interfacesBelow] at hsub ⊢
  rw [(h.later source hid).interfaces]
  exact interfacesWithin_evolves hm h (fun k hk => hm.above source k (.inr hk)) h.classes hsub

theorem isImplementing_evolves (hm : m.Sound) (h : m.Evolves m') (hid : source.index < m.classes.size)
    (himplements : m.isImplementing source target = true) : m'.isImplementing source target = true := by
  obtain ⟨k, hk, hsub⟩ := (m.isImplementing_iff_mem source target).mp himplements
  obtain ⟨hmem, hlt⟩ := chainWithin_evolves hm h hid (Nat.succ_le_succ h.classes) hk
  exact (m'.isImplementing_iff_mem source target).mpr ⟨k, hmem, isSubInterface_evolves hm h hlt hsub⟩

theorem isObjectAssignable_evolves (hm : m.Sound) (h : m.Evolves m')
    (htarget : target.index < m.classes.size)
    (hsource : source.index < m.classes.size)
    (hassignable : m.isObjectAssignable target source = true) :
    m'.isObjectAssignable target source = true := by
  have hflags : ∀ {id : ClassId}, id.index < m.classes.size →
      (m'.cls id).isInterface = (m.cls id).isInterface :=
    fun hid => by rw [Class.isInterface, Class.isInterface, (h.later _ hid).flags]
  rw [isObjectAssignable_eq] at *
  rw [hflags hsource, hflags htarget]
  split at hassignable
  · exact isSubclass_evolves hm h hsource hassignable
  · exact isImplementing_evolves hm h hsource hassignable
  · exact isSubInterface_evolves hm h hsource hassignable
  · rwa [(h.later target htarget).name]

/-! ### The relation -/

/-- The component class of an array class is loaded. -/
def HasComponent (m : Machine) (id component : ClassId) : Prop :=
  ∃ name, (m.cls id).componentName? = some name ∧ m.lookup? name = some component

/-- A reference to `source` can be stored as `target`, in at most so many steps from arrays to their
components, where `component` says which these are. -/
inductive StoresBy (m : Machine) (component : ClassId → ClassId → Prop) : (steps : Nat) →
      (target source : ClassId) → Prop
    where
  | same {steps : Nat} {id : ClassId} : StoresBy m component (steps + 1) id id
  | object {steps : Nat} {target source : ClassId} (noArray : (m.cls source).isArray = false)
      (assignable : m.isObjectAssignable target source = true) :
      StoresBy m component (steps + 1) target source
  | array {steps : Nat} {target source : ClassId} (array : (m.cls source).isArray = true)
      (noArray : (m.cls target).isArray = false) (supertype : m.isArraySupertype target = true) :
      StoresBy m component (steps + 1) target source
  | components {steps : Nat} {target source targetComponent sourceComponent : ClassId}
      (ofTarget : component target targetComponent) (ofSource : component source sourceComponent)
      (stores : StoresBy m component steps targetComponent sourceComponent) :
      StoresBy m component (steps + 1) target source
  | primitives {steps : Nat} {target source : ClassId} (targetArray : (m.cls target).isArray = true)
      (sourceArray : (m.cls source).isArray = true) (noTarget : (m.cls target).componentName? = none)
      (noSource : (m.cls source).componentName? = none)
      (same : (m.cls target).name = (m.cls source).name) :
      StoresBy m component (steps + 1) target source

/-- A reference to `source` can be stored as `target`, where component classes are found by their
names. -/
abbrev Stores (m : Machine) : (steps : Nat) → (target source : ClassId) → Prop :=
  m.StoresBy m.HasComponent

theorem HasComponent.lt {component : ClassId} (h : m.HasComponent id component) (hm : m.Sound) :
    id.index < m.classes.size ∧ component.index < m.classes.size := by
  obtain ⟨name, hname, hbound⟩ := h
  exact ⟨lt_of_isArray (Class.isArray_of_componentName? hname), hm.bound name component hbound⟩

theorem HasComponent.evolves {component : ClassId} (h : m.HasComponent id component) (hm : m.Sound)
    (hevolves : m.Evolves m') : m'.HasComponent id component := by
  obtain ⟨hid, -⟩ := h.lt hm
  obtain ⟨name, hname, hbound⟩ := h
  exact ⟨name, (hevolves.later id hid).componentName?.trans hname, hevolves.bound name component hbound⟩

/-- What can be stored can be stored from then on, if components stay what they are. -/
theorem StoresBy.evolves {component component' : ClassId → ClassId → Prop}
    (h : m.StoresBy component steps target source)
    (hm : m.Sound) (hevolves : m.Evolves m')
    (hcomponent : ∀ id k, component id k → k.index < m.classes.size ∧ component' id k)
    (htarget : target.index < m.classes.size) (hsource : source.index < m.classes.size) :
    m'.StoresBy component' steps target source := by
  have hlater : ∀ {id : ClassId}, id.index < m.classes.size → (m.cls id).Later (m'.cls id) :=
    hevolves.later _
  induction h with
  | same => exact .same
  | object noArray assignable =>
    exact .object ((hlater hsource).isArray.trans noArray)
      (isObjectAssignable_evolves hm hevolves htarget hsource assignable)
  | array array noArray supertype =>
    refine .array ((hlater hsource).isArray.trans array) ((hlater htarget).isArray.trans noArray) ?_
    rwa [isArraySupertype, Class.isInterface, (hlater htarget).flags, (hlater htarget).name]
  | components ofTarget ofSource _ ih =>
    obtain ⟨htargetThere, ofTarget⟩ := hcomponent _ _ ofTarget
    obtain ⟨hsourceThere, ofSource⟩ := hcomponent _ _ ofSource
    exact .components ofTarget ofSource (ih htargetThere hsourceThere)
  | primitives targetArray sourceArray noTarget noSource same =>
    exact .primitives ((hlater htarget).isArray.trans targetArray)
      ((hlater hsource).isArray.trans sourceArray)
      ((hlater htarget).componentName?.trans noTarget) ((hlater hsource).componentName?.trans noSource)
      ((hlater htarget).name.trans (same.trans (hlater hsource).name.symm))

theorem Stores.evolves (h : m.Stores steps target source) (hm : m.Sound) (hevolves : m.Evolves m')
    (htarget : target.index < m.classes.size) (hsource : source.index < m.classes.size) :
    m'.Stores steps target source :=
  StoresBy.evolves h hm hevolves (fun _ _ hk => ⟨(hk.lt hm).2, hk.evolves hm hevolves⟩) htarget hsource

/-- The bound on the steps does not depend on what is loaded. -/
theorem assignabilityBound_evolves (hevolves : m.Evolves m')
    (hdirectories : m'.directories = m.directories)
    (htarget : target.index < m.classes.size) (hsource : source.index < m.classes.size) :
    m'.assignabilityBound target source = m.assignabilityBound target source := by
  have htarget := hevolves.later target htarget
  have hsource := hevolves.later source hsource
  simp only [assignabilityBound, componentBound, htarget.isArray, hsource.isArray, htarget.name,
    hsource.name, hdirectories]

end Machine

end JavaMachine
