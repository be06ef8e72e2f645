import JavaMachine.Proofs.Loading

/-!
Defining classes, and the loader as a whole.

`Defines` says what defining a class file comes to. A name is bound for good only together with a
linked class: a definition that fails unbinds its name again, and what other classes extend is
linked, so none of them extends the failed class. `loadWithin_lawful` closes the circle: the loader
is lawful itself, by induction on how deep loads can be inside of each other.
-/

namespace JavaMachine

/-- A method as its class file gives it to the owner, with the arguments that the descriptor tells,
and room for them. -/
structure Method.DefinedFor (owner : ClassId) (method : Method) : Prop where
  owned : method.owner = owner
  parsed : MethodDescriptor.parse method.descriptor = some method.parsed
  roomy : method.argumentSlots ≤ method.maxLocals

/-- A class as its class file gives it. It is attached to no other class, has no slots, and is
neither initialized nor linked. -/
structure Class.DefinedBy (id : ClassId) (file : ClassFile) (c : Class) : Prop where
  name : file.name? = some c.name
  superName : Definition.superName c.name file = .ok c.superName
  pool : Definition.constants file.pool = .ok c.pool
  fields : file.fields.toArray.mapM (Definition.field file.pool) = .ok c.fields
  methods : file.methods.toArray.mapM (Definition.method id file.pool) = .ok c.methods
  superClass : c.superClass = none
  interfaces : c.interfaces = []
  component : c.component = none
  instanceSlots : c.instanceSlots = 0
  staticSlots : c.staticSlots = 0
  statics : c.statics = .zeros 0
  notStarted : c.initStarted = false
  unlinked : c.linked = false

namespace Class.DefinedBy

variable {id : ClassId} {file : ClassFile} {c : Class}

theorem not_below (h : c.DefinedBy id file) (k : ClassId) : ¬ c.Below k := by
  rintro (hk | hk)
  · rw [h.superClass] at hk
    cases hk
  · rw [h.interfaces] at hk
    cases hk

theorem superName_eq (h : c.DefinedBy id file) : c.superName = file.superName? := by
  have hsuper := h.superName
  unfold Definition.superName at hsuper
  split at hsuper
  · rename_i hnamed
    exact (Except.ok.inj hsuper).symm.trans hnamed.symm
  · rename_i hnone
    split at hsuper
    · exact (Except.ok.inj hsuper).symm.trans hnone.symm
    · cases hsuper

/-- Only the root of the hierarchy names no super class. -/
theorem root (h : c.DefinedBy id file) (hnone : c.superName = none) : c.name = ClassName.object := by
  have hsuper := h.superName
  rw [hnone] at hsuper
  unfold Definition.superName at hsuper
  split at hsuper
  · cases hsuper
  · split at hsuper
    · assumption
    · cases hsuper

/-- The name of the class is an entry of the pool. -/
theorem pool_size (h : c.DefinedBy id file) : c.pool.size ≠ 0 := by
  intro hzero
  have hpool := h.pool
  have hempty : file.pool.size = 0 := by
    rw [Definition.constants, Array.mapM_eq_mapM_toList] at hpool
    rcases hlist : file.pool.toList.mapM (Definition.constant file.pool) with e | list <;>
      rw [hlist] at hpool
    · cases hpool
    · rw [← Except.ok.inj hpool] at hzero
      rw [← Array.length_toList, ← checked_mapM_length hlist]
      exact hzero
  have hname := h.name
  rw [ClassFile.name?, Pool.className?, Array.getElem?_eq_none (by omega)] at hname
  cases hname

end Class.DefinedBy

namespace Loader

variable {room : Nat} {own : ClassId → Prop} {m m' : Machine} {id : ClassId}
  {load : Load} {name : String} {file : ClassFile}

/-! ### Class files -/

theorem method_defines {pool : Pool} {member : Member} {method : Method}
    (h : Definition.method id pool member = .ok method) : method.DefinedFor id := by
  obtain ⟨bare, hbare, h⟩ := checked_bind_ok.mp h
  have hdefined : bare.owner = id ∧ MethodDescriptor.parse bare.descriptor = some bare.parsed := by
    obtain ⟨name, -, hbare⟩ := checked_bind_ok.mp hbare
    obtain ⟨descriptor, -, hbare⟩ := checked_bind_ok.mp hbare
    split at hbare <;> cases hbare
    exact ⟨rfl, by assumption⟩
  dsimp only at h
  split at h
  · rename_i found hfound
    cases h
    obtain ⟨content, -, hcode⟩ := List.exists_of_findSome?_eq_some hfound
    split at hcode <;> cases hcode
    exact ⟨hdefined.1, hdefined.2, Nat.le_max_right _ _⟩
  · split at h <;> cases h
    exact ⟨hdefined.1, hdefined.2, Nat.le_refl _⟩

theorem ofClassFile_defines {c : Class} (h : Definition.ofClassFile id file = .ok c) :
    c.DefinedBy id file := by
  unfold Definition.ofClassFile at h
  split at h
  · cases h
  · rename_i name hname
    obtain ⟨superName, hsuper, h⟩ := checked_bind_ok.mp h
    obtain ⟨pool, hpool, h⟩ := checked_bind_ok.mp h
    obtain ⟨fields, hfields, h⟩ := checked_bind_ok.mp h
    obtain ⟨methods, hmethods, h⟩ := checked_bind_ok.mp h
    cases h
    exact ⟨hname, hsuper, hpool, hfields, hmethods, rfl, rfl, rfl, rfl, rfl, rfl, rfl, rfl⟩

/-- Another class may own a method. -/
theorem bareMethod_withOwner (pool : Pool) (member : Member) (id owner : ClassId) :
    Definition.bareMethod owner pool member =
      (Definition.bareMethod id pool member).map ({ · with owner }) := by
  unfold Definition.bareMethod
  rcases Definition.text pool member.nameIndex with e | name
  · rfl
  rcases Definition.text pool member.descriptorIndex with e | descriptor
  · rfl
  simp only [bind, Except.bind]
  cases MethodDescriptor.parse descriptor <;> rfl

theorem method_withOwner (pool : Pool) (member : Member) (id owner : ClassId) :
    Definition.method owner pool member =
      (Definition.method id pool member).map ({ · with owner }) := by
  unfold Definition.method
  rw [bareMethod_withOwner pool member id owner]
  rcases Definition.bareMethod id pool member with e | bare
  · rfl
  simp only [Except.map, bind, Except.bind, pure, Except.pure]
  -- The first code attribute is the same, whoever owns the method.
  induction member.attributes with
  | nil => dsimp only [List.findSome?_nil]; split <;> rfl
  | cons a attributes ih =>
    cases a with
    | code => rfl
    | leaf => exact ih

theorem exists_methods {pool : Pool} {members : List Member} {methods : Array Method}
    (h : members.toArray.mapM (Definition.method id pool) = .ok methods) (owner : ClassId) :
    ∃ methods, members.toArray.mapM (Definition.method owner pool) = .ok methods := by
  have hiff : ∀ owner, (∃ methods, members.toArray.mapM (Definition.method owner pool) = .ok methods) ↔
      ∀ member ∈ members, ∃ method, Definition.method owner pool member = .ok method := by
    intro owner
    rw [← checked_mapM_exists, List.mapM_toArray]
    rcases members.mapM (Definition.method owner pool) with e | list
    · exact iff_of_false (fun ⟨_, h⟩ => by cases h) fun ⟨_, h⟩ => by cases h
    · exact iff_of_true ⟨_, rfl⟩ ⟨_, rfl⟩
  refine (hiff owner).mpr fun member hmember => ?_
  obtain ⟨method, hmethod⟩ := (hiff id).mp ⟨_, h⟩ member hmember
  exact ⟨_, by rw [method_withOwner pool member id owner, hmethod]; rfl⟩

/-- Whether a class file has a class does not depend on what the class is to be known as. -/
theorem exists_ofClassFile {c : Class} (h : Definition.ofClassFile id file = .ok c) (other : ClassId) :
    ∃ c, Definition.ofClassFile other file = .ok c := by
  have hdefined := ofClassFile_defines h
  obtain ⟨owned, howned⟩ := exists_methods hdefined.methods other
  unfold Definition.ofClassFile
  rw [hdefined.name]
  dsimp only
  rw [hdefined.superName, hdefined.pool, hdefined.fields, howned]
  exact ⟨_, rfl⟩

/-- A class file whose class can be made, and whose name is free, has its class attached while the
name is bound. -/
theorem outcome_define {load : Load} {c : Class}
    (hread : Definition.ofClassFile m.nextClassId file = .ok c) (hfree : m.lookup? c.name = none) :
    outcome (define load file) m = match outcome (attach load m.nextClassId) (m.begun c) with
      | (.ok _, m₁) => (.ok m.nextClassId, m₁.changeClass m.nextClassId ({ · with linked := true }))
      | (.error (.fault fault), m₁) => (.error (.fault fault), m₁.withoutName c.name)
      | (.error e, m₁) => (.error e, m₁) := by
  have hnew : ¬ m.isLoaded c.name = true := by simp [Machine.isLoaded, hfree]
  unfold define
  rw [outcome_bind_of_ok (outcome_get m), hread, outcome_bind_of_ok (VM.outcome_ofFormat_ok c)]
  dsimp only
  rw [if_neg hnew, outcome_bind_of_ok (VM.outcome_addClass c),
    outcome_bind_of_ok (VM.outcome_bindName ..), outcome_bind,
    outcome_vm_attempt, complete_eq, outcome_bind, ← Machine.begun]
  rcases outcome (attach load m.nextClassId) (m.begun c) with ⟨(_ | _ | _ | _) | _, _⟩ <;> rfl

/-- A definition is refused at once, or it attaches its class while the name is bound. Then the
class is linked or the name is unbound again. -/
theorem define_runs (load : Load) (file : ClassFile) (m : Machine) :
    (∃ fault, outcome (define load file) m = (.error (.fault fault), m)) ∨
      ∃ c, Definition.ofClassFile m.nextClassId file = .ok c ∧ m.lookup? c.name = none ∧
        outcome (define load file) m = match outcome (attach load m.nextClassId) (m.begun c) with
          | (.ok _, m₁) => (.ok m.nextClassId, m₁.changeClass m.nextClassId ({ · with linked := true }))
          | (.error (.fault fault), m₁) => (.error (.fault fault), m₁.withoutName c.name)
          | (.error e, m₁) => (.error e, m₁) := by
  rcases hread : Definition.ofClassFile m.nextClassId file with error | c
  · left
    unfold define
    rw [outcome_bind_of_ok (outcome_get m), hread]
    exact ⟨_, rfl⟩
  · rcases hfree : m.lookup? c.name with _ | bound
    · exact .inr ⟨c, rfl, hfree, outcome_define hread hfree⟩
    · left
      have hloaded : m.isLoaded c.name = true := by simp [Machine.isLoaded, hfree]
      unfold define
      rw [outcome_bind_of_ok (outcome_get m), hread, outcome_bind_of_ok (VM.outcome_ofFormat_ok c)]
      dsimp only
      rw [if_pos hloaded]
      exact ⟨_, rfl⟩

/-- What defining a class file comes to: it is refused at once, or it ends with a linked class, or
its name is unbound again. -/
inductive Defines (file : ClassFile) (m : Machine) : Except Failure ClassId → Machine → Prop where
  | refused {fault : Fault} : Defines file m (.error (.fault fault)) m
  | linked {c : Class} {m₁ : Machine} (read : Definition.ofClassFile m.nextClassId file = .ok c)
      (free : m.lookup? c.name = none) (sound : m₁.Sound)
      (grows : (m.begun c).Grows (· = m.nextClassId) m₁) :
      Defines file m (.ok m.nextClassId) (m₁.changeClass m.nextClassId ({ · with linked := true }))
  | undone {c : Class} {m₁ : Machine} {fault : Fault}
      (read : Definition.ofClassFile m.nextClassId file = .ok c)
      (free : m.lookup? c.name = none) (sound : m₁.Sound)
      (grows : (m.begun c).Grows (· = m.nextClassId) m₁) :
      Defines file m (.error (.fault fault)) (m₁.withoutName c.name)
  | outOfRange {m' : Machine} : Defines file m (.error .outOfRange) m'
  | endless {m' : Machine} : Defines file m (.error .endless) m'

/-- The loads that a definition takes are lawful. -/
def LawfulFor (file : ClassFile) (m : Machine) (load : Load) : Prop :=
  ∀ c, Definition.ofClassFile m.nextClassId file = .ok c → m.lookup? c.name = none →
    ∃ room, 2 * (m.begun c).pending ≤ room ∧ Lawful room load

theorem define_cases {r : Except Failure ClassId} (hload : LawfulFor file m load) (hm : m.Sound)
    (hrun : outcome (define load file) m = (r, m')) : Defines file m r m' := by
  rcases define_runs load file m with ⟨fault, hrefused⟩ | ⟨c, hread, hfree, hdefined⟩
  · rw [hrefused] at hrun
    cases hrun
    exact .refused
  · obtain ⟨room, hroom, hload⟩ := hload c hread hfree
    rcases hstep : outcome (attach load m.nextClassId) (m.begun c) with ⟨r₁, m₁⟩
    have hattach : Loads room (· = m.nextClassId) (m.begun c) (attach load m.nextClassId)
        fun _ _ => True :=
      attach_loads hload rfl
    have hends := hattach (hm.begun (ofClassFile_defines hread).not_below) hroom r₁ m₁ hstep
    rw [hdefined, hstep] at hrun
    cases hends with
    | ok hm₁ hgrows =>
      cases hrun
      exact .linked hread hfree hm₁ hgrows
    | fault hm₁ hgrows =>
      cases hrun
      exact .undone hread hfree hm₁ hgrows
    | outOfRange =>
      cases hrun
      exact .outOfRange
    | endless =>
      cases hrun
      exact .endless

theorem Defines.ends {r : Except Failure ClassId} (h : Defines file m r m') (hm : m.Sound) :
    Ends own m (fun m' id => id.index < m'.classes.size) r m' := by
  cases h with
  | refused => exact .fault hm (.refl m)
  | outOfRange => exact .outOfRange
  | endless => exact .endless
  | @undone c m₁ _ _ hfree hm₁ hgrows => exact .fault (hm₁.withoutName c.name) (hgrows.undone hfree)
  | @linked c m₁ _ hfree hm₁ hgrows =>
    have hthere : m.nextClassId.index < m₁.classes.size := by
      have hsize := hgrows.classes
      rwa [Machine.size_begun] at hsize
    have hmarked : ((m₁.changeClass m.nextClassId ({ · with linked := true })).cls
        m.nextClassId).linked = true :=
      congrArg Class.linked (Machine.cls_changeClass_self _ hthere)
    refine .ok (hm₁.changeClass rfl (fun _ => rfl) fun k h => .inl h) ?_
      (by rwa [Machine.size_changeClass])
    refine ((hgrows.undone hfree).changeClass (Nat.le_refl _) fun _ => rfl).named hfree
      (Nat.le_refl _) hmarked
      (hgrows.bound _ _ Machine.lookup?_begun_self) (fun other hother => ?_) rfl rfl rfl rfl
    exact (Machine.lookup?_withoutName_ne hother).symm

theorem define_loads (hload : LawfulFor file m load) :
    Loads room own m (define load file) fun m' id => id.index < m'.classes.size :=
  fun hm _ _ _ hrun => (define_cases hload hm hrun).ends hm

/-! ### Array classes -/

/-- The super class and the interfaces of array classes. -/
def arrayParents (load : Load) : VM (ClassId × List ClassId) := do
  let superClass ← load ClassName.object
  let interfaces ← [ClassName.cloneable, ClassName.serializable].mapM load
  return (superClass, interfaces)

/-- The array class of a name below its super class and interfaces. -/
def arrayBelow (name : String) (parents : ClassId × List ClassId) : Class :=
  { Definition.arrayClass name with superClass := some parents.1, interfaces := parents.2 }

/-- Adds and links an array class, without binding its name. -/
def arrayClass (load : Load) (name : String) (parents : ClassId × List ClassId) : VM ClassId := do
  let id ← VM.addClass (arrayBelow name parents)
  link load id
  return id

theorem defineArray_eq (load : Load) (name : String) : defineArray load name =
    if (FieldType.parse name).isNone then VM.raise ExceptionName.classNotFound name
    else do
      let parents ← arrayParents load
      let id ← arrayClass load name parents
      VM.bindName name id
      return id := by
  unfold defineArray arrayParents arrayClass arrayBelow
  split
  · rfl
  · simp only [bind_assoc, pure_bind]

/-- A new array class is linked without any load. -/
theorem outcome_arrayClass (load : Load) (name : String)
    (parents : ClassId × List ClassId) (m : Machine) :
    ∃ inherited, outcome (arrayClass load name parents) m = (.ok m.nextClassId,
      ((m.withClass (arrayBelow name parents)).changeClass m.nextClassId
        (·.layOut inherited)).changeClass m.nextClassId
        ({ · with linked := true })) := by
  have hnone : ((m.withClass (arrayBelow name parents)).cls m.nextClassId).fields = #[] := by
    rw [Machine.cls_withClass_new]
    rfl
  obtain ⟨inherited, hprepared⟩ := outcome_prepare_of_no_fields load hnone
  refine ⟨inherited, ?_⟩
  rw [arrayClass, outcome_bind_of_ok (VM.outcome_addClass _), link_eq, bind_assoc,
    outcome_bind_of_ok hprepared]
  rfl

/-- A load that is lawful for all names but those of array classes. -/
def LawfulBelowArrays (room : Nat) (load : Load) : Prop :=
  ∀ m name, ArrayName.isArray name = false →
    Loads room (fun _ => False) m (load name) fun m' id => id.index < m'.classes.size

theorem arrayParents_loads (hload : LawfulBelowArrays room load) :
    Loads room own m (arrayParents load) fun m' parents =>
      ∀ k, k = parents.1 ∨ k ∈ parents.2 → k.index < m'.classes.size := by
  have hloads : ∀ {m : Machine} {name : String}, ArrayName.isArray name = false →
      Loads room own m (load name) fun m' id => id.index < m'.classes.size :=
    fun hname => (hload _ _ hname).mono fun _ h => h.elim
  refine (hloads (by decide)).bind fun superClass m₁ _ hsuper => ?_
  refine (Loads.mapM ?_ fun name hname _ => hloads ?_).bind fun interfaces m₂ hgrows hall => ?_
  · exact fun k _ _ hgrows hk => Nat.lt_of_lt_of_le hk hgrows.classes
  · revert name
    decide
  · refine .pure fun k hk => ?_
    rcases hk with rfl | hk
    · exact Nat.lt_of_lt_of_le hsuper hgrows.classes
    · exact hall k hk

/-- A new array class is linked, and is not known by its name yet. -/
theorem arrayClass_loads {parents : ClassId × List ClassId} (harray : ArrayName.isArray name = true)
    (hparents : ∀ k, k = parents.1 ∨ k ∈ parents.2 → k.index < m.classes.size) :
    Loads room own m (arrayClass load name parents) fun m' id =>
      m.classes.size ≤ id.index ∧ (m'.cls id).linked = true := by
  intro hm _ r m' hrun
  obtain ⟨inherited, hmade⟩ := outcome_arrayClass load name parents m
  rw [hmade] at hrun
  cases hrun
  have hsound : (m.withClass (arrayBelow name parents)).Sound := by
    refine hm.withClass (fun k hk => hparents k ?_) fun hnot => ?_
    · rcases hk with hk | hk
      · exact .inl (Option.some.inj hk).symm
      · exact .inr hk
    · cases harray.symm.trans hnot
  have hthere : m.nextClassId.index < (m.withClass (arrayBelow name parents)).classes.size := by
    rw [Machine.size_withClass]
    exact Nat.lt_succ_self _
  refine .ok ((hsound.changePlaced (Class.samePlace_layOut _ inherited)).changeClass rfl
    (fun _ => rfl) fun k h => .inl h)
    (((Machine.grows_withClass _).changeClass (Nat.le_refl _) fun h => h).changeClass
      (Nat.le_refl _) fun _ => rfl)
    ⟨Nat.le_refl _, congrArg Class.linked (Machine.cls_changeClass_self _ ?_)⟩
  rwa [Machine.size_changeClass]

theorem defineArray_loads (hload : LawfulBelowArrays room load) (harray : ArrayName.isArray name = true)
    (hfree : m.lookup? name = none) :
    Loads room own m (defineArray load name) fun m' id => id.index < m'.classes.size := by
  rw [defineArray_eq]
  split
  · exact .raise _ _
  · intro hm hroom r m' hrun
    rcases (arrayParents_loads hload).bind_cases hm hroom hrun with
      hends | ⟨parents, m₁, hm₁, hgrows₁, hparents, hrun⟩
    · exact hends.weaken fun _ _ h => h.elim
    · have hroom₁ := Nat.le_trans (Nat.mul_le_mul_left 2 hgrows₁.pending_le) hroom
      rcases (arrayClass_loads harray hparents).bind_cases hm₁ hroom₁ hrun with
        hends | ⟨id, m₂, hm₂, hgrows₂, ⟨hnew, hlinked⟩, hrun⟩
      · exact (hends.weaken fun _ _ h => h.elim).after hgrows₁ hm₁
      · cases hrun
        have hthere := Machine.lt_of_linked hlinked
        -- a load in between may have bound the name as well, so the binding is compared with the
        -- first machine
        exact .ok (hm₂.withName hthere) ((hgrows₁.trans hm₁ hgrows₂).named hfree
          (Nat.le_trans hgrows₁.classes hnew) hlinked Machine.lookup?_withName_self
          (fun other hother => Machine.lookup?_withName_ne hother) rfl rfl rfl rfl) hthere

/-! ### The loader -/

theorem outcome_loadWithin_of_bound {nesting : Nat} (hbound : m.lookup? name = some id) :
    outcome (loadWithin (nesting + 1) name) m = (.ok id, m) := by
  rw [loadWithin, outcome_bind_of_ok (outcome_get m), hbound]
  rfl

/-- The load of a name that has a file is the definition of the class that the file holds. -/
theorem outcome_loadWithin_of_file {nesting : Nat} {bytes : List UInt8} {file : ClassFile}
    (hfree : m.lookup? name = none)
    (harray : ArrayName.isArray name = false) (hfound : m.classFile? name = some bytes)
    (hdecode : ClassFile.decode bytes = .ok file) :
    outcome (loadWithin (nesting + 1) name) m = outcome (define (loadWithin nesting) file) m := by
  rw [loadWithin, outcome_bind_of_ok (outcome_get m), hfree]
  dsimp only
  rw [harray, hfound, if_neg Bool.false_ne_true]
  dsimp only
  rw [defineBytes, hdecode]
  rfl

/-- A class file from the directories or the library takes its name from the ones that are left,
which leaves room for the loads that its definition takes. -/
theorem lawfulFor_of_name (hname : ∀ name, file.name? = some name →
      name ∈ m.fileNames ++ Machine.libraryNames)
    (hroom : 2 * m.pending ≤ room) (hload : ∀ inner, inner + 2 ≤ room → Lawful inner load) :
    LawfulFor file m load := by
  intro c hread hfree
  have hdrop := Machine.pending_begun_lt (hname c.name (ofClassFile_defines hread).name) hfree
  exact ⟨room - 2, by omega, hload (room - 2) (by omega)⟩

theorem loadWithin_succ {nesting : Nat}
    (hload : ∀ inner, inner + 2 ≤ room → Lawful inner (loadWithin nesting))
    (harrays : ArrayName.isArray name = true → LawfulBelowArrays room (loadWithin nesting)) :
    Loads room (fun _ => False) m (loadWithin (nesting + 1) name) fun m' id =>
      id.index < m'.classes.size := by
  intro hm hroom
  refine Loads.reads (outcome_get m) ?_ hm hroom
  split
  · rename_i id hbound
    exact .pure (hm.bound name id hbound)
  · rename_i hfree
    split
    · rename_i harray
      exact defineArray_loads (harrays harray) harray hfree
    · split
      · rename_i bytes hfound
        cases hdecode : ClassFile.decode bytes with
        | error e =>
          unfold defineBytes
          rw [hdecode]
          exact .fail (.classFormat e)
        | ok file =>
          have hlawful : LawfulFor file m (loadWithin nesting) := lawfulFor_of_name
            (fun _ hname => List.mem_append_left _
              (Machine.classFile?_pending hfound hdecode hname)) hroom hload
          unfold defineBytes
          rw [hdecode]
          exact .reads (VM.outcome_ofFormat_ok file) (define_loads hlawful)
      · split
        · rename_i file hfound
          exact define_loads (lawfulFor_of_name
            (fun _ hname => List.mem_append_right _ (Machine.library_pending hfound hname)) hroom hload)
        · exact .raise _ _

/-- Loads are lawful if they may be nested twice for each definition that may begin, and two times
more. -/
theorem loadWithin_lawful : ∀ {nesting room : Nat}, room + 2 ≤ nesting →
      Lawful room (loadWithin nesting)
  | nesting + 2, room, hnesting => by
    have hload : ∀ inner, inner + 2 ≤ room → Lawful inner (loadWithin (nesting + 1)) :=
      fun _ _ => loadWithin_lawful (by omega)
    have hbelow : LawfulBelowArrays room (loadWithin (nesting + 1)) := fun m name hname =>
      loadWithin_succ (fun _ _ => loadWithin_lawful (by omega)) fun harray => by
        rw [hname] at harray; cases harray
    exact fun m name => loadWithin_succ hload fun _ => hbelow

end Loader

namespace VM

open Loader

variable {room : Nat} {own : ClassId → Prop} {m m' : Machine}

/-- The bound on the nesting is never reached. -/
theorem load_lawful (room : Nat) : Lawful room load := by
  intro m name hm _
  have hnesting := m.pending_nesting
  have hload : Lawful (2 * m.pending) (loadWithin m.nesting) := loadWithin_lawful (by omega)
  exact Loads.reads (outcome_get m) (hload m name) hm (Nat.le_refl _)

theorem lawfulFor_load (file : ClassFile) (m : Machine) : LawfulFor file m load :=
  fun c _ _ => ⟨2 * (m.begun c).pending, Nat.le_refl _, load_lawful _⟩

end VM

end JavaMachine
