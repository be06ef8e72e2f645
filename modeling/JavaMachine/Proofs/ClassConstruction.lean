import Mathlib.Data.List.Forall2
import JavaMachine.Machine.Definition
import JavaMachine.Proofs.ClassFileCodec

/-!
Classes from decoded class files.

Decoding checks the indices of a class file in several places, and making its class follows all of
them again. `class_of_decoded` says that the checks are enough: every entry of the pool has its
constant, every member its name and descriptor and every interface its name. What is left to fail is
a missing super class, and methods whose descriptor cannot be parsed or that have no code.
-/

namespace JavaMachine

/-- Checks of the elements that all succeed give one result for each, related to it as the result of
its check is. -/
theorem checked_mapM_forall₂ {ε α β : Type} {f : α → Except ε β} {r : α → β → Prop} {as : List α}
    (h : ∀ a ∈ as, ∃ b, f a = .ok b ∧ r a b) : ∃ bs, as.mapM f = .ok bs ∧ List.Forall₂ r as bs := by
  induction as with
  | nil => exact ⟨[], rfl, .nil⟩
  | cons a as ih =>
    obtain ⟨⟨b, hb, hrel⟩, hrest⟩ := List.forall_mem_cons.mp h
    obtain ⟨bs, hbs, hrels⟩ := ih hrest
    refine ⟨b :: bs, ?_, .cons hrel hrels⟩
    rw [List.mapM_cons, hb, hbs]
    rfl

/-! ### Constants -/

namespace Pool

variable {pool : Pool} {index : UInt16} {name : String}

/-- The member that a pool has at the indices of a reference, with nothing of it resolved. -/
structure Refers {α : Type} (pool : Pool) (owner nameAndType : UInt16) (ref : MemberRef α) : Prop where
  owned : pool.className? owner = some ref.owner.name
  signed : ∃ nameIndex descriptorIndex,
    pool[nameAndType.toNat]? = some (.nameAndType nameIndex descriptorIndex) ∧
    pool.text? nameIndex = some ref.name ∧ pool.text? descriptorIndex = some ref.descriptor
  unresolved : ref.owner.resolved = none ∧ ref.resolved = none

/-- A run-time constant says what an entry says: values and texts are copied, references are
followed to the names that they lead to, and entries that only others refer to have no constant of
their own. -/
inductive Represents (pool : Pool) : PoolEntry → Constant → Prop where
  | unusable : Represents pool .unusable .empty
  | utf8 (units : Text.Units) : Represents pool (.utf8 units) .empty
  | nameAndType (nameIndex descriptorIndex : UInt16) :
      Represents pool (.nameAndType nameIndex descriptorIndex) .empty
  | integer (value : Int32) : Represents pool (.integer value) (.integer value)
  | float (bits : UInt32) : Represents pool (.float bits) (.float bits)
  | long (value : Int64) : Represents pool (.long value) (.long value)
  | double (bits : UInt64) : Represents pool (.double bits) (.double bits)
  | string {index : UInt16} {units : Text.Units} (holds : pool[index.toNat]? = some (.utf8 units)) :
      Represents pool (.string index) (.string units)
  | classRef {index : UInt16} {name : String} (named : pool.text? index = some name) :
      Represents pool (.classRef index) (.classRef ⟨name, none⟩)
  | fieldRef {owner nameAndType : UInt16} {ref : MemberRef FieldId}
      (refers : pool.Refers owner nameAndType ref) :
      Represents pool (.fieldRef owner nameAndType) (.field ref)
  | methodRef {owner nameAndType : UInt16} {ref : MemberRef Method}
      (refers : pool.Refers owner nameAndType ref) :
      Represents pool (.methodRef owner nameAndType) (.method ref)
  | interfaceMethodRef {owner nameAndType : UInt16} {ref : MemberRef Method}
      (refers : pool.Refers owner nameAndType ref) :
      Represents pool (.interfaceMethodRef owner nameAndType) (.interfaceMethod ref)

theorem text_ok : Definition.text pool index = .ok name ↔ pool.text? index = some name := by
  unfold Definition.text
  cases pool.text? index <;> simp

theorem className_ok :
    Definition.className pool index = .ok name ↔ pool.className? index = some name := by
  unfold Definition.className
  cases pool.className? index <;> simp

theorem isNameAndType_iff {entry : PoolEntry} :
    entry.isNameAndType = true ↔ ∃ nameIndex descriptorIndex,
      entry = .nameAndType nameIndex descriptorIndex := by
  cases entry <;> simp [PoolEntry.isNameAndType]

/-- The indices of an entry of a well-formed pool are checked. -/
theorem WellFormed.indicesIn (h : pool.WellFormed) {i : Nat} {entry : PoolEntry}
    (hentry : pool[i]? = some entry) :
    entry.IndicesIn pool :=
  h.indices entry (List.mem_of_getElem? (by rwa [Array.getElem?_toList]))

/-- A class index of a well-formed pool has a name. -/
theorem WellFormed.exists_className (h : pool.WellFormed)
    (hindex : pool.Points index PoolEntry.isClass) :
    ∃ name, pool.className? index = some name :=
  Option.isSome_iff_exists.mp (h.points_isClass_iff.mp hindex)

/-- Class indices of a well-formed pool all have names. -/
theorem WellFormed.filterMap_className (h : pool.WellFormed) : ∀ {indices : List UInt16},
    (∀ index ∈ indices, pool.Points index PoolEntry.isClass) →
      List.Forall₂ (fun index name => pool.className? index = some name) indices
        (indices.filterMap pool.className?)
  | [], _ => .nil
  | index :: indices, hall => by
    obtain ⟨hindex, hrest⟩ := List.forall_mem_cons.mp hall
    obtain ⟨name, hname⟩ := h.exists_className hindex
    rw [List.filterMap_cons_some hname]
    exact .cons hname (h.filterMap_className hrest)

theorem WellFormed.memberRef_ok {α : Type} (h : pool.WellFormed) {owner nameAndType : UInt16}
    (howner : pool.Points owner PoolEntry.isClass)
    (hsigned : pool.Points nameAndType PoolEntry.isNameAndType) :
    ∃ ref : MemberRef α, Definition.memberRef pool owner nameAndType = .ok ref ∧
      pool.Refers owner nameAndType ref := by
  obtain ⟨ownerName, howner⟩ := h.exists_className howner
  obtain ⟨entry, hentry, hkind⟩ := hsigned
  obtain ⟨nameIndex, descriptorIndex, rfl⟩ := isNameAndType_iff.mp hkind
  obtain ⟨hname, hdescriptor⟩ :
      pool.Points nameIndex PoolEntry.isUtf8 ∧ pool.Points descriptorIndex PoolEntry.isUtf8 :=
      h.indicesIn hentry
  obtain ⟨name, hname⟩ := points_isUtf8_iff.mp hname
  obtain ⟨descriptor, hdescriptor⟩ := points_isUtf8_iff.mp hdescriptor
  refine ⟨⟨⟨ownerName, none⟩, name, descriptor, none⟩, ?_, howner,
    ⟨_, _, hentry, hname, hdescriptor⟩, rfl, rfl⟩
  unfold Definition.memberRef
  rw [hentry]
  dsimp only
  rw [text_ok.mpr hname, text_ok.mpr hdescriptor, className_ok.mpr howner]
  rfl

theorem WellFormed.constant_ok (h : pool.WellFormed) {entry : PoolEntry}
    (hentry : entry.IndicesIn pool) :
    ∃ constant, Definition.constant pool entry = .ok constant ∧ pool.Represents entry constant := by
  cases entry with
  | unusable => exact ⟨_, rfl, .unusable⟩
  | utf8 units => exact ⟨_, rfl, .utf8 units⟩
  | nameAndType nameIndex descriptorIndex => exact ⟨_, rfl, .nameAndType nameIndex descriptorIndex⟩
  | integer value => exact ⟨_, rfl, .integer value⟩
  | float bits => exact ⟨_, rfl, .float bits⟩
  | long value => exact ⟨_, rfl, .long value⟩
  | double bits => exact ⟨_, rfl, .double bits⟩
  | string index =>
    obtain ⟨target, htarget, hkind⟩ := hentry
    obtain ⟨units, rfl⟩ := isUtf8_iff.mp hkind
    exact ⟨.string units, by rw [Definition.constant, htarget], .string htarget⟩
  | classRef index =>
    obtain ⟨name, hname⟩ := points_isUtf8_iff.mp hentry
    exact ⟨.classRef ⟨name, none⟩, by rw [Definition.constant, text_ok.mpr hname]; rfl, .classRef hname⟩
  | fieldRef owner nameAndType =>
    obtain ⟨ref, href, hrefers⟩ := h.memberRef_ok hentry.1 hentry.2
    exact ⟨.field ref, by rw [Definition.constant, href]; rfl, .fieldRef hrefers⟩
  | methodRef owner nameAndType =>
    obtain ⟨ref, href, hrefers⟩ := h.memberRef_ok hentry.1 hentry.2
    exact ⟨.method ref, by rw [Definition.constant, href]; rfl, .methodRef hrefers⟩
  | interfaceMethodRef owner nameAndType =>
    obtain ⟨ref, href, hrefers⟩ := h.memberRef_ok hentry.1 hentry.2
    exact ⟨.interfaceMethod ref, by rw [Definition.constant, href]; rfl, .interfaceMethodRef hrefers⟩

/-- A well-formed pool has one constant for each entry. -/
theorem WellFormed.constants_ok (h : pool.WellFormed) :
    ∃ constants, Definition.constants pool = .ok constants ∧
      List.Forall₂ pool.Represents pool.toList constants.toList := by
  obtain ⟨constants, hconstants, hrepresents⟩ :=
    checked_mapM_forall₂ fun entry hmem => h.constant_ok (h.indices entry hmem)
  refine ⟨constants.toArray, ?_, hrepresents⟩
  rw [Definition.constants, Array.mapM_eq_mapM_toList, hconstants]
  rfl

end Pool

/-! ### Members -/

/-- Whether an attribute is decoded code. -/
def Attribute.isCode : Attribute → Bool
  | .code .. => true
  | .leaf .. => false

namespace Member

variable {pool : Pool} {m : Member} {id : ClassId} {e : FormatError}

/-- The member has its name and its descriptor. -/
def HasSignature (pool : Pool) (m : Member) : Prop :=
  ∃ name descriptor, Definition.text pool m.nameIndex = .ok name ∧
    Definition.text pool m.descriptorIndex = .ok descriptor

/-- Why a method with a name and a descriptor cannot be a method of a class. -/
inductive Unusable (pool : Pool) (m : Member) : FormatError → Prop where
  | malformedDescriptor {descriptor : String}
      (described : pool.text? m.descriptorIndex = some descriptor)
      (malformed : MethodDescriptor.parse descriptor = none) :
      Unusable pool m (.invalidIndex m.descriptorIndex (.malformedDescriptor descriptor))
  | noCode {name : String} (named : pool.text? m.nameIndex = some name)
      (codeless : ∀ a ∈ m.attributes, a.isCode = false)
      (concrete : m.flags.isNative = false ∧ m.flags.isAbstract = false) :
      Unusable pool m (.malformedAttribute "Code" (.noCode name))

theorem WellFormed.hasSignature (h : m.WellFormed pool) : m.HasSignature pool := by
  obtain ⟨name, hname⟩ := Pool.points_isUtf8_iff.mp h.name
  obtain ⟨descriptor, hdescriptor⟩ := Pool.points_isUtf8_iff.mp h.descriptor
  exact ⟨name, descriptor, Pool.text_ok.mpr hname, Pool.text_ok.mpr hdescriptor⟩

theorem WellFormed.field_ok (h : m.WellFormed pool) : ∃ field, Definition.field pool m = .ok field := by
  obtain ⟨name, descriptor, hname, hdescriptor⟩ := h.hasSignature
  rw [Definition.field, hname, hdescriptor]
  exact ⟨_, rfl⟩

/-- A search that takes something from code and nothing from other attributes fails without code. -/
theorem findSome?_code {α : Type} {take : Attribute → Option α} {attributes : List Attribute}
    (htake : ∀ a, (take a).isSome = a.isCode) :
    attributes.findSome? take = none ↔ ∀ a ∈ attributes, a.isCode = false := by
  rw [List.findSome?_eq_none_iff]
  refine forall₂_congr fun a _ => ?_
  rw [← htake a, Option.isSome_eq_false_iff, Option.isNone_iff_eq_none]

/-- Whether a member is a method of a class depends on its descriptor, its code and its flags. -/
theorem WellFormed.method_cases (h : m.WellFormed pool) (id : ClassId) :
    (∃ method, Definition.method id pool m = .ok method ∧ ¬ ∃ e, m.Unusable pool e) ∨
      ∃ e, Definition.method id pool m = .error e ∧ m.Unusable pool e := by
  obtain ⟨name, descriptor, hname, hdescriptor⟩ := h.hasSignature
  have hnamed := Pool.text_ok.mp hname
  have hdescribed := Pool.text_ok.mp hdescriptor
  unfold Definition.method Definition.bareMethod
  rw [hname, hdescriptor]
  dsimp only [bind, Except.bind]
  rcases hparse : MethodDescriptor.parse descriptor with _ | parsed
  · exact .inr ⟨_, rfl, .malformedDescriptor hdescribed hparse⟩
  have hparsed : ∀ {d}, pool.text? m.descriptorIndex = some d → MethodDescriptor.parse d ≠ none := by
    intro d hd
    rw [hdescribed] at hd
    cases hd
    rw [hparse]
    exact Option.some_ne_none parsed
  dsimp only [pure, Except.pure]
  split
  · rename_i method hfound
    refine .inl ⟨method, rfl, fun ⟨e, he⟩ => ?_⟩
    cases he with
    | malformedDescriptor hd hnone => exact hparsed hd hnone
    | noCode _ hcodeless _ =>
      rw [(findSome?_code fun a => by cases a <;> rfl).mpr hcodeless] at hfound
      cases hfound
  · rename_i hnone
    have hcodeless := (findSome?_code fun a => by cases a <;> rfl).mp hnone
    split
    · rename_i hflags
      refine .inl ⟨_, rfl, fun ⟨e, he⟩ => ?_⟩
      cases he with
      | malformedDescriptor hd hnone => exact hparsed hd hnone
      | noCode _ _ hconcrete => simp [hconcrete] at hflags
    · rename_i hflags
      exact .inr ⟨_, rfl, .noCode hnamed hcodeless (by simpa using hflags)⟩

end Member

/-! ### Classes -/

namespace ClassFile

variable {c : ClassFile} {id : ClassId} {e : FormatError}

/-- Why a decoded class file has no class. -/
inductive Unusable (c : ClassFile) : FormatError → Prop where
  | noSuperClass {name : String} (named : c.name? = some name) (without : c.superClass = 0)
      (other : name ≠ ClassName.object) : Unusable c (.invalidIndex c.superClass (.noSuperClass name))
  | method {m : Member} {e : FormatError} (declared : m ∈ c.methods)
      (unusable : m.Unusable c.pool e) : Unusable c e

theorem WellFormed.exists_name (h : c.WellFormed) : ∃ name, c.name? = some name :=
  h.pool.exists_className h.thisClass

/-- No interface is passed over. -/
theorem WellFormed.interfaceNames (h : c.WellFormed) :
    List.Forall₂ (fun index name => c.pool.className? index = some name)
      c.interfaces c.interfaceNames :=
  h.pool.filterMap_className h.interfaces

/-- The name of the super class is missing only where there is no super class. -/
theorem WellFormed.superName_error (h : c.WellFormed) {name : String} :
    Definition.superName name c = .error e ↔
      c.superClass = 0 ∧ name ≠ ClassName.object ∧
        e = .invalidIndex c.superClass (.noSuperClass name) := by
  unfold Definition.superName superName?
  by_cases hzero : c.superClass = 0
  · rw [if_pos hzero]
    dsimp only
    by_cases hroot : name = ClassName.object
    · simp [hroot]
    · simp [hroot, hzero, eq_comm]
  · obtain ⟨superName, hsuper⟩ := h.pool.exists_className (h.superClass hzero)
    rw [if_neg hzero, hsuper]
    simp [hzero]

theorem WellFormed.fields_ok (h : c.WellFormed) :
    ∃ fields, c.fields.toArray.mapM (Definition.field c.pool) = .ok fields := by
  obtain ⟨fields, hfields⟩ := checked_mapM_exists.mpr fun m hm => (h.fields m hm).field_ok
  rw [List.mapM_toArray, hfields]
  exact ⟨_, rfl⟩

/-- The methods of a class file are made, or one of them cannot be made. -/
theorem WellFormed.methods_cases (h : c.WellFormed) (id : ClassId) :
    (∃ methods, c.methods.toArray.mapM (Definition.method id c.pool) = .ok methods ∧
      ∀ m ∈ c.methods, ¬ ∃ e, m.Unusable c.pool e) ∨
      ∃ e, c.methods.toArray.mapM (Definition.method id c.pool) = .error e ∧ ∃ m ∈ c.methods,
        m.Unusable c.pool e := by
  rw [List.mapM_toArray]
  rcases hmade : c.methods.mapM (Definition.method id c.pool) with e | methods
  · obtain ⟨m, hm, herror⟩ := checked_mapM_error hmade
    refine .inr ⟨e, rfl, m, hm, ?_⟩
    rcases (h.methods m hm).method_cases id with ⟨method, hok, -⟩ | ⟨e', herror', hunusable⟩
    · cases herror.symm.trans hok
    · cases herror.symm.trans herror'
      exact hunusable
  · refine .inl ⟨_, rfl, fun m hm => ?_⟩
    obtain ⟨made, hok⟩ := checked_mapM_exists.mp ⟨methods, hmade⟩ m hm
    rcases (h.methods m hm).method_cases id with ⟨_, -, husable⟩ | ⟨e, herror, -⟩
    · exact husable
    · cases hok.symm.trans herror

/-- A well-formed class file has a class, or it has none for one of the reasons that there are. -/
theorem WellFormed.ofClassFile_cases (h : c.WellFormed) (id : ClassId) :
    (∃ cls, Definition.ofClassFile id c = .ok cls ∧ ¬ ∃ e, c.Unusable e) ∨
      ∃ e, Definition.ofClassFile id c = .error e ∧ c.Unusable e := by
  obtain ⟨name, hname⟩ := h.exists_name
  obtain ⟨constants, hconstants, -⟩ := h.pool.constants_ok
  obtain ⟨fields, hfields⟩ := h.fields_ok
  unfold Definition.ofClassFile
  rw [hname]
  dsimp only
  rcases hsuper : Definition.superName name c with e | superName
  · obtain ⟨hzero, hother, rfl⟩ := h.superName_error.mp hsuper
    exact .inr ⟨_, rfl, .noSuperClass hname hzero hother⟩
  rw [hconstants, hfields]
  rcases h.methods_cases id with ⟨methods, hmethods, husable⟩ | ⟨e, herror, m, hm, hunusable⟩
  · rw [hmethods]
    refine .inl ⟨_, rfl, fun ⟨e, he⟩ => ?_⟩
    cases he with
    | noSuperClass hnamed hzero hother =>
      cases hname.symm.trans hnamed
      cases hsuper.symm.trans (h.superName_error.mpr ⟨hzero, hother, rfl⟩)
    | method hm hunusable => exact husable _ hm ⟨_, hunusable⟩
  · rw [herror]
    exact .inr ⟨e, rfl, .method hm hunusable⟩

/-- The indices of a decoded class file lead where making its class follows them: each entry of the
pool has one constant, each member its name and descriptor and each interface its name. There is no
class exactly if there is no super class although the class is not the root, or some method has a
malformed descriptor, or has no code and is neither native nor abstract; and then one of these is
the error. -/
theorem class_of_decoded {bytes : List UInt8} (h : decode bytes = .ok c) (id : ClassId) :
    (∃ constants, Definition.constants c.pool = .ok constants ∧
      List.Forall₂ c.pool.Represents c.pool.toList constants.toList) ∧
    (∀ m, m ∈ c.fields ∨ m ∈ c.methods → m.HasSignature c.pool) ∧
    List.Forall₂ (fun index name => c.pool.className? index = some name) c.interfaces c.interfaceNames ∧
    (∀ e, Definition.ofClassFile id c = .error e → c.Unusable e) ∧
    ((∃ cls, Definition.ofClassFile id c = .ok cls) ↔ ¬ ∃ e, c.Unusable e) := by
  obtain ⟨_, -, hc, -⟩ := decode_ok.mp h
  refine ⟨hc.pool.constants_ok, ?_, hc.interfaceNames, ?_⟩
  · rintro m (hm | hm)
    · exact (hc.fields m hm).hasSignature
    · exact (hc.methods m hm).hasSignature
  · rcases hc.ofClassFile_cases id with ⟨cls, hok, husable⟩ | ⟨e, herror, hunusable⟩
    · exact ⟨fun e he => (by cases hok.symm.trans he), iff_of_true ⟨cls, hok⟩ husable⟩
    · refine ⟨fun e' he => ?_, iff_of_false (fun ⟨cls, hok⟩ => ?_) fun husable =>
        husable ⟨e, hunusable⟩⟩
      · cases herror.symm.trans he
        exact hunusable
      · cases herror.symm.trans hok

/-- A class below the root with an interface, a method reference and a method that has no code. -/
def codeless (flags : UInt16) : ClassFile where
  magic := expectedMagic
  minorVersion := 0
  majorVersion := 52
  pool := #[.unusable, .utf8 [65], .classRef 1, .utf8 [66], .classRef 3,
    .utf8 (Text.units "()V"), .nameAndType 1 5, .methodRef 4 6]
  flags := ⟨0x21⟩
  thisClass := 2
  superClass := 4
  interfaces := [4]
  fields := []
  methods := [⟨⟨flags⟩, 1, 5, []⟩]
  attributes := []

theorem class_of_decoded_codeless :
    decode (codeless 0x400).encode = .ok (codeless 0x400) ∧ decode (codeless 0).encode =
      .ok (codeless 0) ∧ (∃ cls, Definition.ofClassFile ⟨3⟩ (codeless 0x400) = .ok cls) ∧
      (∃ constants, Definition.constants (codeless 0).pool = .ok constants ∧ constants.size = 8) ∧
      ¬ ∃ cls, Definition.ofClassFile ⟨3⟩ (codeless 0) = .ok cls := by
  have habstract : decode (codeless 0x400).encode = .ok (codeless 0x400) := by decide +kernel
  have hconcrete : decode (codeless 0).encode = .ok (codeless 0) := by decide +kernel
  refine ⟨habstract, hconcrete, (class_of_decoded habstract ⟨3⟩).2.2.2.2.mpr ?_, ?_, fun hmade => ?_⟩
  · rintro ⟨e, he⟩
    cases he with
    | noSuperClass _ hzero _ => cases hzero
    | method hm hunusable =>
      rw [codeless, List.mem_singleton] at hm
      subst hm
      cases hunusable with
      | malformedDescriptor hdescribed hmalformed =>
        cases hdescribed
        revert hmalformed
        decide +kernel
      | noCode _ _ hflags => exact absurd hflags.2 (by decide)
  · obtain ⟨constants, hconstants, hrepresents⟩ := (class_of_decoded hconcrete ⟨3⟩).1
    exact ⟨constants, hconstants, by simpa [codeless] using hrepresents.length_eq.symm⟩
  · have hunusable : Member.Unusable (codeless 0).pool ⟨⟨0⟩, 1, 5, []⟩
        (.malformedAttribute "Code" (.noCode "A")) :=
      .noCode (by decide +kernel) (fun _ ha => by cases ha) ⟨by decide, by decide⟩
    exact (class_of_decoded hconcrete ⟨3⟩).2.2.2.2.mp hmade
      ⟨_, .method (List.mem_singleton_self _) hunusable⟩

end ClassFile

end JavaMachine
