import JavaMachine.Proofs.Ancestry
import JavaMachine.Proofs.Assignability

/-!
The order of classes and interfaces.

Nothing extends an array class if no class file has the name of one or names one as its super class,
as long as the interfaces that array classes implement are the ones of the built-in library
(`Customary.upright`). Then every walk up the hierarchy comes to its end, that of a class at the
root, and what can be stored as another class or interface can be stored as everything that this one
can be stored as (`Upright.isObjectAssignable_trans`).
-/

namespace JavaMachine

namespace Machine

variable {m : Machine} {id k target middle source marker : ClassId} {name : String}

/-- A class that can be found by its name. -/
def Loaded (m : Machine) (id : ClassId) : Prop := m.lookup? (m.cls id).name = some id

/-- Nothing is above the root of the hierarchy and above the interfaces of arrays, as in the
built-in library, and no class file has the name of an array class or names one as its super class.
Classes that are made from class files have constants. -/
structure Customary (m : Machine) : Prop where
  object : ∀ id, m.lookup? ClassName.object = some id → (m.cls id).superName = none ∧
    (m.cls id).interfaceNames = []
  markers : ∀ name ∈ [ClassName.cloneable, ClassName.serializable], ∀ id, m.lookup? name = some id →
    (m.cls id).interfaceNames = []
  files : ∀ name bytes file own, m.classFile? name = some bytes → ClassFile.decode bytes = .ok file →
    file.name? = some own → ArrayName.isArray own = false
  classes : ∀ id, (m.cls id).pool ≠ #[] → (m.cls id).isArray = false ∧
    ∀ name, (m.cls id).superName = some name → ArrayName.isArray name = false

/-- A machine on which array classes are not above anything, and no class is above itself. -/
structure Upright (m : Machine) : Prop where
  regular : m.Regular
  above : ∀ id k, (m.cls id).Below k → (m.cls k).isArray = false
  interface : ∀ id, (m.cls id).isInterface = true → (m.cls id).isArray = false
  wellFounded : WellFounded fun k id => (m.cls id).Below k
  object : ∀ id, m.lookup? ClassName.object = some id → ∀ k, ¬ (m.cls id).Below k
  markers : ∀ name ∈ [ClassName.cloneable, ClassName.serializable], ∀ id, m.lookup? name = some id →
    (m.cls id).interfaces = []

theorem Loaded.lt (h : m.Loaded id) (hm : m.Sound) : id.index < m.classes.size := hm.bound _ _ h

/-- A loaded class is found by the name that it has. -/
theorem Loaded.lookup (h : m.Loaded id) (hname : (m.cls id).name = name) :
    m.lookup? name = some id := hname ▸ h

/-! ### Array classes are not above anything -/

namespace Customary

/-- Array classes are not made from class files. -/
theorem pool_of_isArray (h : m.Customary) (harray : (m.cls id).isArray = true) :
    (m.cls id).pool.size = 0 := by
  refine Decidable.byContradiction fun hsize => ?_
  have hplain := (h.classes id fun hempty => hsize (by rw [hempty]; rfl)).1
  exact Bool.false_ne_true (hplain.symm.trans harray)

theorem interface (h : m.Customary) (hm : m.Coherent) (hinterface : (m.cls id).isInterface = true) :
    (m.cls id).isArray = false := by
  refine Bool.eq_false_iff.mpr fun harray => ?_
  have horigin := (hm.lineage id (lt_of_isArray harray)).array (h.pool_of_isArray harray)
  have hflags : (m.cls id).flags.isInterface = false := by
    rw [horigin.flags]
    exact (by decide : (AccessFlags.mk
      (AccessFlags.publicBit ||| AccessFlags.finalBit)).isInterface = false)
  exact Bool.false_ne_true (hflags.symm.trans hinterface)

/-- Nothing but an array class answers to the name of one. -/
theorem noArray_of_answers (h : m.Customary) (hname : ArrayName.isArray name = false)
    (hanswers : m.Answers name k) :
    (m.cls k).isArray = false := by
  rcases hanswers with heq | ⟨-, bytes, file, hfile, hdecode, hown⟩
  · rw [Class.isArray, heq]
    exact hname
  · exact h.files name bytes file _ hfile hdecode hown

theorem above (h : m.Customary) (hm : m.Coherent) (hbelow : (m.cls id).Below k) :
    (m.cls k).isArray = false := by
  have hid : id.index < m.classes.size := Nat.lt_of_not_le fun hle => by
    rw [cls_of_size_le hle] at hbelow
    exact Class.not_below_default k hbelow
  have hlineage := hm.lineage id hid
  by_cases hpool : (m.cls id).pool.size = 0
  · -- An array class extends the root, and implements the two interfaces of arrays.
    have horigin := hlineage.array hpool
    rcases hbelow with hsuper | hinterface
    · obtain ⟨name, hname, hanswers⟩ := hlineage.super k hsuper
      rw [horigin.superName] at hname
      cases hname
      exact h.noArray_of_answers (by decide) hanswers
    · obtain ⟨name, hname, hanswers⟩ := hlineage.interfaces k hinterface
      rw [horigin.interfaceNames] at hname
      refine h.noArray_of_answers ?_ hanswers
      rcases List.mem_cons.mp hname with rfl | hname
      · decide
      · cases List.mem_singleton.mp hname
        decide
  · rcases hbelow with hsuper | hinterface
    · obtain ⟨name, hname, hanswers⟩ := hlineage.super k hsuper
      exact h.noArray_of_answers
        ((h.classes id fun hempty => hpool (by rw [hempty]; rfl)).2 name hname) hanswers
    · exact h.interface hm (hlineage.declared hpool k hinterface)

theorem upright (h : m.Customary) (hm : m.Regular) (hordered : m.Ordered) : m.Upright where
  regular := hm
  above _ _ := h.above hm.coherent
  interface _ := h.interface hm.coherent
  wellFounded := by
    have hproper : WellFounded m.ProperParent := ⟨hordered.acc⟩
    exact Subrelation.wf (fun hbelow => ⟨hbelow, h.above hm.coherent hbelow⟩) hproper
  object id hid k hbelow := by
    obtain ⟨hsuper, hinterfaces⟩ := h.object id hid
    have hlineage := hm.coherent.lineage id (hm.coherent.sound.bound _ _ hid)
    rcases hbelow with hk | hk
    · obtain ⟨name, hname, -⟩ := hlineage.super k hk
      rw [hsuper] at hname
      cases hname
    · obtain ⟨name, hname, -⟩ := hlineage.interfaces k hk
      rw [hinterfaces] at hname
      cases hname
  markers name hname id hid := by
    refine List.eq_nil_iff_forall_not_mem.mpr fun k hk => ?_
    obtain ⟨other, hother, -⟩ :=
      (hm.coherent.lineage id (hm.coherent.sound.bound _ _ hid)).interfaces k hk
    rw [h.markers name hname id hid] at hother
    cases hother

end Customary

/-! ### Walks up the hierarchy -/

namespace Upright

theorem walks (h : m.Upright) (hid : id.index < m.classes.size) : m.WalksEnd id :=
  walksEnd_of_wellFounded h.regular.coherent.sound h.wellFounded hid

theorem isSubclass_iff (h : m.Upright) (hid : id.index < m.classes.size) :
    m.isSubclass id target = true ↔
    ∃ k, (m.cls id).superClass = some k ∧ (k = target ∨ m.isSubclass k target = true) := by
  rw [(h.walks hid).subclass, Option.any_eq_true]
  simp

theorem isSubInterface_iff (h : m.Upright) (hid : id.index < m.classes.size) :
    m.isSubInterface id marker = true ↔
    ∃ k ∈ (m.cls id).interfaces, k = marker ∨ m.isSubInterface k marker = true := by
  rw [(h.walks hid).subInterface, List.any_eq_true]
  simp

theorem isImplementing_iff (h : m.Upright) (hid : id.index < m.classes.size) :
    m.isImplementing id marker = true ↔
    m.isSubInterface id marker = true ∨ ∃ k, (m.cls id).superClass = some k ∧
      m.isImplementing k marker = true := by
  rw [(h.walks hid).implementing, Bool.or_eq_true, Option.any_eq_true]

theorem super_lt (h : m.Upright) (hsuper : (m.cls id).superClass = some k) : k.index < m.classes.size :=
  h.regular.coherent.sound.above id k (.inl hsuper)

theorem interface_lt (h : m.Upright) (hinterface : k ∈ (m.cls id).interfaces) :
    k.index < m.classes.size :=
  h.regular.coherent.sound.above id k (.inr hinterface)

/-- A super class is no array class. -/
theorem noArray_of_isSubclass (h : m.Upright) (hsource : source.index < m.classes.size)
    (hsub : m.isSubclass source target = true) : (m.cls target).isArray = false := by
  induction source using h.wellFounded.induction with
  | _ source ih =>
    obtain ⟨k, hk, rfl | hrest⟩ := (h.isSubclass_iff hsource).mp hsub
    · exact h.above source k (.inl hk)
    · exact ih k (.inl hk) (h.super_lt hk) hrest

theorem isSubclass_trans (h : m.Upright) (hsource : source.index < m.classes.size)
    (hsub : m.isSubclass source middle = true) (hsub' : m.isSubclass middle target = true) :
    m.isSubclass source target = true := by
  induction source using h.wellFounded.induction with
  | _ source ih =>
    obtain ⟨k, hk, rfl | hrest⟩ := (h.isSubclass_iff hsource).mp hsub
    · exact (h.isSubclass_iff hsource).mpr ⟨k, hk, .inr hsub'⟩
    · exact (h.isSubclass_iff hsource).mpr ⟨k, hk, .inr (ih k (.inl hk) (h.super_lt hk) hrest)⟩

theorem isSubInterface_trans (h : m.Upright) (hsource : source.index < m.classes.size)
    (hsub : m.isSubInterface source middle = true) (hsub' : m.isSubInterface middle target = true) :
    m.isSubInterface source target = true := by
  induction source using h.wellFounded.induction with
  | _ source ih =>
    obtain ⟨k, hk, rfl | hrest⟩ := (h.isSubInterface_iff hsource).mp hsub
    · exact (h.isSubInterface_iff hsource).mpr ⟨k, hk, .inr hsub'⟩
    · exact (h.isSubInterface_iff hsource).mpr ⟨k, hk, .inr (ih k (.inr hk) (h.interface_lt hk) hrest)⟩

/-- What a super class implements is inherited. -/
theorem isImplementing_of_isSubclass (h : m.Upright) (hsource : source.index < m.classes.size)
    (hsub : m.isSubclass source middle = true) (himplements : m.isImplementing middle target = true) :
    m.isImplementing source target = true := by
  induction source using h.wellFounded.induction with
  | _ source ih =>
    obtain ⟨k, hk, rfl | hrest⟩ := (h.isSubclass_iff hsource).mp hsub
    · exact (h.isImplementing_iff hsource).mpr (.inr ⟨k, hk, himplements⟩)
    · exact (h.isImplementing_iff hsource).mpr (.inr ⟨k, hk, ih k (.inl hk) (h.super_lt hk) hrest⟩)

/-- What implements an interface implements all that the interface extends. -/
theorem isImplementing_of_isSubInterface (h : m.Upright) (hsource : source.index < m.classes.size)
    (himplements : m.isImplementing source middle = true)
    (hsub : m.isSubInterface middle target = true) :
    m.isImplementing source target = true := by
  induction source using h.wellFounded.induction with
  | _ source ih =>
    rcases (h.isImplementing_iff hsource).mp himplements with hbelow | ⟨k, hk, hrest⟩
    · exact (h.isImplementing_iff hsource).mpr (.inl (h.isSubInterface_trans hsource hbelow hsub))
    · exact (h.isImplementing_iff hsource).mpr (.inr ⟨k, hk, ih k (.inl hk) (h.super_lt hk) hrest⟩)

/-- Every class is the root of the hierarchy or below it. -/
theorem root_or_isSubclass (h : m.Upright) {root : ClassId}
    (hroot : m.lookup? ClassName.object = some root)
    (hlinked : (m.cls source).linked = true) (hsource : (m.cls source).isArray = false) :
    source = root ∨ m.isSubclass source root = true := by
  induction source using h.wellFounded.induction with
  | _ source ih =>
    rcases hsuper : (m.cls source).superClass with _ | k
    · have hfound := h.regular.coherent.root source hlinked hsource hsuper
      exact .inl (Option.some.inj (hfound.symm.trans hroot))
    · have hbelow : (m.cls source).Below k := .inl hsuper
      refine .inr ((h.isSubclass_iff (lt_of_linked hlinked)).mpr ⟨k, hsuper, ?_⟩)
      exact ih k hbelow (h.regular.coherent.sound.linked source k hsource hbelow)
        (h.above source k hbelow)

/-! ### What can be stored as a class or interface -/

/-- Nothing but the root can be stored as the root, and it as nothing else. -/
theorem not_isObjectAssignable_of_object (h : m.Upright) (hid : m.lookup? ClassName.object = some id)
    (hclass : (m.cls id).isInterface = false) : m.isObjectAssignable target id = false := by
  have hlt := h.regular.coherent.sound.bound _ _ hid
  have hnone := h.object id hid
  rw [isObjectAssignable_eq]
  rw [hclass]
  split
  · refine Bool.eq_false_iff.mpr fun hsub => ?_
    obtain ⟨k, hk, -⟩ := (h.isSubclass_iff hlt).mp hsub
    exact hnone k (.inl hk)
  · refine Bool.eq_false_iff.mpr fun himplements => ?_
    rcases (h.isImplementing_iff hlt).mp himplements with hsub | ⟨k, hk, -⟩
    · obtain ⟨k, hk, -⟩ := (h.isSubInterface_iff hlt).mp hsub
      exact hnone k (.inr hk)
    · exact hnone k (.inl hk)
  · contradiction
  · contradiction

/-- What can be stored as something can be stored as nothing that is an array class, unless it is an
array itself. -/
theorem noArray_of_isObjectAssignable (h : m.Upright) (hsource : source.index < m.classes.size)
    (hassignable : m.isObjectAssignable target source = true) : (m.cls target).isArray = false := by
  rw [isObjectAssignable_eq] at hassignable
  split at hassignable
  · exact h.noArray_of_isSubclass hsource hassignable
  · exact h.interface target ‹_›
  · exact h.interface target ‹_›
  · rw [Class.isArray, of_decide_eq_true hassignable]
    decide

/-- What can be stored as a class or interface can be stored as all that this one can be stored as. -/
theorem isObjectAssignable_trans (h : m.Upright) (hsource : m.Loaded source) (hmiddle : m.Loaded middle)
    (htarget : m.Loaded target) (hnoArray : (m.cls source).isArray = false)
    (hfirst : m.isObjectAssignable middle source = true)
    (hsecond : m.isObjectAssignable target middle = true) :
    target = source ∨ m.isObjectAssignable target source = true := by
  have hsound := h.regular.coherent.sound
  have hlt := hsource.lt hsound
  rcases hm : (m.cls middle).isInterface with _ | _ <;> rcases hs : (m.cls source).isInterface with
    _ | _ <;>
    rcases ht : (m.cls target).isInterface with _ | _ <;>
    simp only [isObjectAssignable_eq, hm, hs, ht] at hfirst hsecond ⊢
  case false.false.false => exact .inr (h.isSubclass_trans hlt hfirst hsecond)
  case false.false.true => exact .inr (h.isImplementing_of_isSubclass hlt hfirst hsecond)
  case true.false.true => exact .inr (h.isImplementing_of_isSubInterface hlt hfirst hsecond)
  case true.false.false =>
    have hroot := htarget.lookup (of_decide_eq_true hsecond)
    exact (h.root_or_isSubclass hroot (h.regular.linked _ _ hsource) hnoArray).imp_left Eq.symm
  case true.true.true => exact .inr (h.isSubInterface_trans hlt hfirst hsecond)
  case true.true.false => exact .inr hsecond
  case false.true.false =>
    have hnot : m.isObjectAssignable target middle = false :=
      h.not_isObjectAssignable_of_object (hmiddle.lookup (of_decide_eq_true hfirst)) hm
    simp only [isObjectAssignable_eq, hm, ht] at hnot
    exact absurd hsecond (by rw [hnot]; exact Bool.false_ne_true)
  case false.true.true =>
    have hnot : m.isObjectAssignable target middle = false :=
      h.not_isObjectAssignable_of_object (hmiddle.lookup (of_decide_eq_true hfirst)) hm
    simp only [isObjectAssignable_eq, hm, ht] at hnot
    exact absurd hsecond (by rw [hnot]; exact Bool.false_ne_true)

/-- Where arrays can be stored as a class or interface, they can be stored as all that this one can
be stored as. -/
theorem isArraySupertype_trans (h : m.Upright) (hmiddle : m.Loaded middle)
    (hfirst : m.isArraySupertype middle = true)
    (hsecond : m.isObjectAssignable target middle = true) : m.isArraySupertype target = true := by
  have hlt := hmiddle.lt h.regular.coherent.sound
  rcases hm : (m.cls middle).isInterface with _ | _
  · have hname : (m.cls middle).name = ClassName.object := by simpa [isArraySupertype, hm] using hfirst
    rw [h.not_isObjectAssignable_of_object (hmiddle.lookup hname) hm] at hsecond
    cases hsecond
  · have hname : (m.cls middle).name ∈ [ClassName.cloneable, ClassName.serializable] := by
      simpa [isArraySupertype, hm] using hfirst
    have hnone := h.markers _ hname middle hmiddle
    rcases ht : (m.cls target).isInterface with _ | _ <;>
      simp only [isObjectAssignable_eq, hm, ht] at hsecond
    · simpa [isArraySupertype, ht] using hsecond
    · obtain ⟨k, hk, -⟩ := (h.isSubInterface_iff hlt).mp hsecond
      rw [hnone] at hk
      cases hk

end Upright

end Machine

end JavaMachine
