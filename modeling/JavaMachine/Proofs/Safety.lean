import JavaMachine.Proofs.Assignability
import JavaMachine.Proofs.Faults
import JavaMachine.Proofs.LoadSteps
import JavaMachine.Proofs.Natives

/-!
Machines on which every reference is what it is taken for.

A machine is safe if no reference in it dangles, and every element of a reference array can be
stored as the component class of the array. Steps on a machine are careful if they keep it so, as
long as they get no dangling reference, and give none back. Most steps do not touch the elements of
arrays at all; those are discreet.
-/

namespace JavaMachine

variable {α β : Type} [References α] [References β] {n : Nat} {m m₁ m' : Machine} {natives : Natives}

theorem Failure.Ordinary.extent_le {e : Failure} (h : e.Ordinary) : extent e ≤ n := by
  rcases e with (_ | _ | _ | _ | _ | _ | _) | _ | _ | _ <;> first
    | exact Nat.zero_le _
    | exact h.elim

namespace Machine

variable {id : ClassId} {a b : Address}

/-- Every class file that is found by a name holds the class of that name. -/
def FilesNamed (m : Machine) : Prop := ∀ name bytes file, m.classFile? name = some bytes →
  ClassFile.decode bytes = .ok file → file.name? = some name

/-- What an array may hold: an object that can be stored as the component class, which is loaded. -/
structure Fits (m : Machine) (a b : Address) : Prop where
  there : b.index < m.heap.size
  stores : ∀ name, (m.cls (m.classOf a)).componentName? = some name → ∃ component,
    m.lookup? name = some component ∧
    m.Stores (m.assignabilityBound component (m.classOf b)) component (m.classOf b)

/-- A machine between operations on which every reference is what it is taken for. -/
structure Safe (m : Machine) : Prop where
  regular : m.Regular
  grounded : m.Grounded
  files : m.FilesNamed
  cached : ∀ id component name, (m.cls id).component = some component →
    (m.cls id).componentName? = some name → m.lookup? name = some component
  fits : ∀ a elements b, (m.object a).data = .references elements → some b ∈ elements → m.Fits a b

/-- What stays of a machine, its directories included. -/
structure Remembers (m m' : Machine) : Prop extends m.Evolves m' where
  directories : m'.directories = m.directories

/-- A machine on which no component class was kept and no element stored since. -/
structure Undisturbed (m m' : Machine) : Prop where
  directories : m'.directories = m.directories
  heap : m.heap.size ≤ m'.heap.size
  component : ∀ id component, (m'.cls id).component = some component →
    (m.cls id).component = some component
  elements : ∀ a elements b, (m'.object a).data = .references elements → some b ∈ elements →
    ∃ before, (m.object a).data = .references before ∧ some b ∈ before

theorem Remembers.refl (m : Machine) : m.Remembers m := ⟨.refl m, rfl⟩

theorem Remembers.trans (h : m.Remembers m₁) (h' : m₁.Remembers m') : m.Remembers m' :=
  ⟨h.toEvolves.trans h'.toEvolves, h'.directories.trans h.directories⟩

theorem lt_of_elements {elements : Array (Option Address)}
    (h : (m.object a).data = .references elements) :
    a.index < m.heap.size := by
  refine Nat.lt_of_not_le fun hle => ?_
  rw [show m.object a = default by simp [object, Array.getD, Nat.not_lt_of_le hle]] at h
  cases h

/-- What an array may hold it may hold from then on. -/
theorem Fits.evolves (h : m.Fits a b) (hm : m.Regular) (hremembers : m.Remembers m')
    (ha : a.index < m.heap.size) :
    m'.Fits a b := by
  have hb := hm.coherent.there b h.there
  refine ⟨Nat.lt_of_lt_of_le h.there hremembers.heap, fun name hname => ?_⟩
  rw [hremembers.classOf a ha, (hremembers.later _ (hm.coherent.there a ha)).componentName?] at hname
  obtain ⟨component, hbound, hstores⟩ := h.stores name hname
  have hcomponent := hm.coherent.sound.bound name component hbound
  refine ⟨component, hremembers.bound name component hbound, ?_⟩
  rw [hremembers.classOf b h.there,
    assignabilityBound_evolves hremembers.toEvolves hremembers.directories hcomponent hb]
  exact hstores.evolves hm.coherent.sound hremembers.toEvolves hcomponent hb

namespace Undisturbed

theorem refl (m : Machine) : m.Undisturbed m :=
  ⟨rfl, Nat.le_refl _, fun _ _ h => h, fun _ elements _ h hb => ⟨elements, h, hb⟩⟩

theorem trans (h : m.Undisturbed m₁) (h' : m₁.Undisturbed m') : m.Undisturbed m' := by
  refine ⟨h'.directories.trans h.directories, Nat.le_trans h.heap h'.heap,
    fun id component hc => h.component id component (h'.component id component hc),
    fun a elements b he hb => ?_⟩
  obtain ⟨between, hbetween, hb⟩ := h'.elements a elements b he hb
  exact h.elements a between b hbetween hb

theorem of_eq (hdirectories : m'.directories = m.directories) (hclasses : m'.classes = m.classes)
    (hheap : m'.heap = m.heap) : m.Undisturbed m' := by
  refine ⟨hdirectories, Nat.le_of_eq (congrArg _ hheap.symm), fun id component h => ?_,
    fun a elements b h hb => ?_⟩
  · rwa [cls_congr hclasses] at h
  · rw [object, hheap] at h
    exact ⟨elements, h, hb⟩

theorem changeClass {change : Class → Class}
    (h : (change (m.cls id)).component = (m.cls id).component) :
    m.Undisturbed (m.changeClass id change) := by
  refine ⟨rfl, Nat.le_refl _, fun other component hc => ?_,
    fun _ elements _ he hb => ⟨elements, he, hb⟩⟩
  rcases cls_changeClass m id change other with heq | ⟨rfl, heq⟩ <;> rw [heq] at hc
  · exact hc
  · exact h.symm.trans hc

theorem withClass {c : Class} (h : c.component = none) : m.Undisturbed (m.withClass c) := by
  refine ⟨rfl, Nat.le_refl _, fun id component hc => ?_, fun _ elements _ he hb => ⟨elements, he, hb⟩⟩
  by_cases hnew : id = m.nextClassId
  · subst hnew
    rw [cls_withClass_new, h] at hc
    cases hc
  · rwa [cls_withClass_ne hnew] at hc

/-- A new object holds no element that is not null. -/
theorem withObject {object : Object} (h : ∀ elements b, object.data = .references elements →
      some b ∉ elements) :
    m.Undisturbed (m.withObject object) := by
  refine ⟨rfl, by simp, fun _ _ hc => hc, fun a elements b he hb => ?_⟩
  by_cases hold : a.index < m.heap.size
  · rw [object_withObject_of_lt hold] at he
    exact ⟨elements, he, hb⟩
  · have hlt : a.index < (m.withObject object).heap.size := lt_of_elements he
    have hnew : a.index = m.heap.size := by rw [heap_size_withObject] at hlt; omega
    obtain rfl : a = ⟨m.heap.size⟩ := by cases a; cases hnew; rfl
    rw [object_withObject_new] at he
    exact absurd hb (h elements b he)

theorem withData {data : ObjectData} (h : ∀ elements b, data = .references elements →
      some b ∈ elements →
    ∃ before, (m.object a).data = .references before ∧ some b ∈ before) :
    m.Undisturbed (m.withData a data) := by
  refine ⟨rfl, by simp, fun _ _ hc => hc, fun other elements b he hb => ?_⟩
  by_cases hother : other = a
  · subst hother
    have hlt : other.index < m.heap.size := by simpa using lt_of_elements he
    rw [object_withData_self hlt] at he
    exact h elements b he hb
  · rw [object_withData_ne hother] at he
    exact ⟨elements, he, hb⟩

end Undisturbed

/-- The loader stores no elements and keeps no component classes. -/
theorem LoadStep.undisturbed {base : Nat} (h : m.LoadStep base m') : m.Undisturbed m' := by
  cases h with
  | beginDefinition read =>
    exact (Undisturbed.withClass (Loader.ofClassFile_defines read).component).trans (.of_eq rfl rfl rfl)
  | addArray => exact .withClass rfl
  | attachSuper | attachInterfaces | layOut | setStatics | link => exact .changeClass rfl
  | unbind | bind | keepLiteral => exact .of_eq rfl rfl rfl
  | allocate plain => exact .withObject fun elements _ h => absurd h (plain elements)

theorem Loading.undisturbed {base : Nat} (h : Loading base m m') : m.Undisturbed m' := by
  induction h with
  | refl => exact .refl m
  | tail _ step ih => exact ih.trans step.undisturbed

/-- As long as arrays are left alone, a machine stays safe. -/
theorem Safe.undisturbed (hm : m.Safe) (h : m.Undisturbed m') (hregular : m'.Regular)
    (hgrounded : m'.Grounded) (hevolves : m.Evolves m') : m'.Safe := by
  refine ⟨hregular, hgrounded, ?_, fun id component name hcomponent hname => ?_,
    fun a elements b helements hb => ?_⟩
  · have hread : ∀ name, m'.classFile? name = m.classFile? name := fun name => by
      simp only [classFile?, h.directories]
    exact fun name bytes file hfile => hm.files name bytes file (hread name ▸ hfile)
  · have hold := h.component id component hcomponent
    have hid : id.index < m.classes.size := Nat.lt_of_not_le fun hle => by
      rw [cls_of_size_le hle] at hold; cases hold
    rw [(hevolves.later id hid).componentName?] at hname
    exact hevolves.bound name component (hm.cached id component name hold hname)
  · obtain ⟨before, hbefore, hb⟩ := h.elements a elements b helements hb
    exact (hm.fits a before b hbefore hb).evolves hm.regular ⟨hevolves, h.directories⟩
      (lt_of_elements hbefore)

end Machine

end JavaMachine
