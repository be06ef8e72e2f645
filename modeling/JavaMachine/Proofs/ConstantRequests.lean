import JavaMachine.ClassFile.Builder
import JavaMachine.Proofs.PoolGrowth
import JavaMachine.Proofs.Units

/-!
Requests for constants of a class file under construction.

A step keeps the class file in order and says of its pool what the index that it returns stands for
(`Builder.Keeps`). What is known of the pool is stated by entries at indices, so it lasts through
all steps that follow, whatever they add. An index has 16 bits, so this is about steps that leave no
more entries than it can count.
-/

namespace JavaMachine

variable {α β : Type}

/-- A constant that a pool is asked for. -/
inductive Builder.Request where
  | utf8 (value : String)
  | integer (value : Int32)
  | float (bits : UInt32)
  | long (value : Int64)
  | double (bits : UInt64)
  | classRef (name : String)
  | string (value : String)
  | stringOfUnits (units : Text.Units)
  | nameAndType (name descriptor : String)
  | fieldRef (owner name descriptor : String)
  | methodRef (owner name descriptor : String)
  | interfaceMethodRef (owner name descriptor : String)
  deriving DecidableEq, Repr, Inhabited

/-- The step that returns the index of the constant. -/
def Builder.Request.make : Builder.Request → Builder UInt16
  | utf8 value => Builder.utf8 value
  | integer value => Builder.integer value
  | float bits => Builder.float bits
  | long value => Builder.long value
  | double bits => Builder.double bits
  | classRef name => Builder.classRef name
  | string value => Builder.string value
  | stringOfUnits units => Builder.stringOfUnits units
  | nameAndType name descriptor => Builder.nameAndType name descriptor
  | fieldRef owner name descriptor => Builder.fieldRef owner name descriptor
  | methodRef owner name descriptor => Builder.methodRef owner name descriptor
  | interfaceMethodRef owner name descriptor => Builder.interfaceMethodRef owner name descriptor

namespace Pool

variable {pool : Pool}

/-- The index stands for the constant: its entry is of that kind, and the indices in the entry stand
for its parts. -/
inductive Denotes (pool : Pool) : UInt16 → Builder.Request → Prop where
  | utf8 {index value} (entry : pool[index.toNat]? = some (.utf8 (Text.units value))) :
      Denotes pool index (.utf8 value)
  | integer {index value} (entry : pool[index.toNat]? = some (.integer value)) :
      Denotes pool index (.integer value)
  | float {index bits} (entry : pool[index.toNat]? = some (.float bits)) :
      Denotes pool index (.float bits)
  | long {index value} (entry : pool[index.toNat]? = some (.long value)) :
      Denotes pool index (.long value)
  | double {index bits} (entry : pool[index.toNat]? = some (.double bits)) :
      Denotes pool index (.double bits)
  | classRef {index nameIndex name} (entry : pool[index.toNat]? = some (.classRef nameIndex))
      (named : Denotes pool nameIndex (.utf8 name)) : Denotes pool index (.classRef name)
  | string {index unitsIndex value} (entry : pool[index.toNat]? = some (.string unitsIndex))
      (spelled : Denotes pool unitsIndex (.utf8 value)) : Denotes pool index (.string value)
  | stringOfUnits {index unitsIndex units} (entry : pool[index.toNat]? = some (.string unitsIndex))
      (spelled : pool[unitsIndex.toNat]? = some (.utf8 units)) :
      Denotes pool index (.stringOfUnits units)
  | nameAndType {index nameIndex descriptorIndex name descriptor}
      (entry : pool[index.toNat]? = some (.nameAndType nameIndex descriptorIndex))
      (named : Denotes pool nameIndex (.utf8 name))
      (typed : Denotes pool descriptorIndex (.utf8 descriptor)) :
      Denotes pool index (.nameAndType name descriptor)
  | fieldRef {index classIndex signatureIndex owner name descriptor}
      (entry : pool[index.toNat]? = some (.fieldRef classIndex signatureIndex))
      (owned : Denotes pool classIndex (.classRef owner))
      (signed : Denotes pool signatureIndex (.nameAndType name descriptor)) :
      Denotes pool index (.fieldRef owner name descriptor)
  | methodRef {index classIndex signatureIndex owner name descriptor}
      (entry : pool[index.toNat]? = some (.methodRef classIndex signatureIndex))
      (owned : Denotes pool classIndex (.classRef owner))
      (signed : Denotes pool signatureIndex (.nameAndType name descriptor)) :
      Denotes pool index (.methodRef owner name descriptor)
  | interfaceMethodRef {index classIndex signatureIndex owner name descriptor}
      (entry : pool[index.toNat]? = some (.interfaceMethodRef classIndex signatureIndex))
      (owned : Denotes pool classIndex (.classRef owner))
      (signed : Denotes pool signatureIndex (.nameAndType name descriptor)) :
      Denotes pool index (.interfaceMethodRef owner name descriptor)

theorem lasting_denotes (index : UInt16) (request : Builder.Request) :
    Lasting (Denotes · index request) := by
  intro pool pool' h hdenotes
  induction hdenotes with
  | utf8 entry => exact .utf8 (h _ _ entry)
  | integer entry => exact .integer (h _ _ entry)
  | float entry => exact .float (h _ _ entry)
  | long entry => exact .long (h _ _ entry)
  | double entry => exact .double (h _ _ entry)
  | classRef entry _ named => exact .classRef (h _ _ entry) named
  | string entry _ spelled => exact .string (h _ _ entry) spelled
  | stringOfUnits entry spelled => exact .stringOfUnits (h _ _ entry) (h _ _ spelled)
  | nameAndType entry _ _ named typed => exact .nameAndType (h _ _ entry) named typed
  | fieldRef entry _ _ owned signed => exact .fieldRef (h _ _ entry) owned signed
  | methodRef entry _ _ owned signed => exact .methodRef (h _ _ entry) owned signed
  | interfaceMethodRef entry _ _ owned signed => exact .interfaceMethodRef (h _ _ entry) owned signed

theorem Denotes.isUtf8 {index : UInt16} {value : String} (h : pool.Denotes index (.utf8 value)) :
    pool.Points index PoolEntry.isUtf8 := by
  cases h with | utf8 entry => exact ⟨_, entry, rfl⟩

theorem Denotes.isClass {index : UInt16} {name : String} (h : pool.Denotes index (.classRef name)) :
    pool.Points index PoolEntry.isClass := by
  cases h with | classRef entry => exact ⟨_, entry, rfl⟩

theorem Denotes.isNameAndType {index : UInt16} {name descriptor : String}
    (h : pool.Denotes index (.nameAndType name descriptor)) :
    pool.Points index PoolEntry.isNameAndType := by
  cases h with | nameAndType entry => exact ⟨_, entry, rfl⟩

theorem Denotes.text {index : UInt16} {value : String} (h : pool.Denotes index (.utf8 value)) :
    pool.text? index = some value := by
  cases h with | utf8 entry => simp only [text?, entry, Text.text_units]

end Pool

/-! ### Well-formed parts of class files -/

section

open Pool

theorem Attribute.lasting_wellFormed (a : Attribute) : Lasting a.WellFormed := by
  intro pool pool' h ha
  induction ha with
  | code named nonempty code_lt handlers_lt attributes_lt _ body_lt nested =>
    exact .code (lasting_text _ _ pool pool' h named)
      nonempty code_lt handlers_lt attributes_lt nested body_lt
  | leaf named selects fits body_lt =>
      exact .leaf (lasting_text _ _ pool pool' h named) selects fits body_lt

theorem Attribute.lasting_tableWellFormed (attributes : List Attribute) :
    Lasting (TableWellFormed · attributes) :=
  fun pool pool' h htable => ⟨htable.1, fun a ha => a.lasting_wellFormed pool pool' h (htable.2 a ha)⟩

theorem Member.lasting_wellFormed (m : Member) : Lasting m.WellFormed := fun pool pool' h hm =>
  ⟨lasting_points _ _ pool pool' h hm.name, lasting_points _ _ pool pool' h hm.descriptor,
    Attribute.lasting_tableWellFormed _ pool pool' h hm.attributes⟩

end

/-- A class file under construction: its parts are well formed, but they need not fit their counts
yet. -/
structure ClassFile.Assembled (c : ClassFile) : Prop where
  magic : c.magic = expectedMagic
  pool : c.pool.Assembled
  thisClass : c.pool.Points c.thisClass PoolEntry.isClass
  superClass : c.superClass ≠ 0 → c.pool.Points c.superClass PoolEntry.isClass
  interfaces : ∀ index ∈ c.interfaces, c.pool.Points index PoolEntry.isClass
  fields : ∀ field ∈ c.fields, field.WellFormed c.pool
  methods : ∀ method ∈ c.methods, method.WellFormed c.pool
  attributes : ∀ a ∈ c.attributes, a.WellFormed c.pool

theorem ClassFile.Assembled.grow {c : ClassFile} (hc : c.Assembled) {pool : Pool}
    (hgrows : c.pool.Grows pool) (hpool : pool.Assembled) : { c with pool }.Assembled where
  magic := hc.magic
  pool := hpool
  thisClass := Pool.lasting_points _ _ _ _ hgrows hc.thisClass
  superClass h := Pool.lasting_points _ _ _ _ hgrows (hc.superClass h)
  interfaces index h := Pool.lasting_points _ _ _ _ hgrows (hc.interfaces index h)
  fields field h := field.lasting_wellFormed _ _ hgrows (hc.fields field h)
  methods method h := method.lasting_wellFormed _ _ hgrows (hc.methods method h)
  attributes a h := a.lasting_wellFormed _ _ hgrows (hc.attributes a h)

namespace Builder

open Pool

/-! ### Steps that keep a class file in order -/

/-- Where the pool satisfies `pre`, the step keeps the class file in order, and its result and the
pool satisfy `post`. -/
structure Keeps (pre : Pool → Prop) (x : Builder α) (post : α → Pool → Prop) : Prop where
  grows : ∀ c : ClassFile, c.pool.Grows (x.run c).2.pool
  keeps : ∀ c : ClassFile, c.Assembled → pre c.pool → (x.run c).2.pool.size < UInt16.size →
    (x.run c).2.Assembled ∧ post (x.run c).1 (x.run c).2.pool

variable {pre R : Pool → Prop} {x : Builder α} {post : α → Pool → Prop} {post' : β → Pool → Prop}

theorem run_bind_of_run {c c' : ClassFile} {a : α} (h : x.run c = (a, c')) (f : α → Builder β) :
    (x >>= f).run c = (f a).run c' := by
  rw [StateT.run_bind, h]
  rfl

theorem Keeps.pure {a : α} (h : ∀ pool, pre pool → post a pool) : Keeps pre (pure a) post where
  grows c := .refl c.pool
  keeps c hc hpre _ := ⟨hc, h c.pool hpre⟩

theorem Keeps.bind {f : α → Builder β} (hx : Keeps pre x post) (hf : ∀ a, Keeps (post a) (f a) post') :
    Keeps pre (x >>= f) post' where
  grows c := (hx.grows c).trans ((hf _).grows _)
  keeps c hc hpre hsize := by
    obtain ⟨hc', hpost⟩ := hx.keeps c hc hpre (Nat.lt_of_le_of_lt ((hf _).grows _).size_le hsize)
    exact (hf _).keeps _ hc' hpost hsize

theorem Keeps.imp {post' : α → Pool → Prop} (hx : Keeps pre x post)
    (h : ∀ a pool, post a pool → post' a pool) :
    Keeps pre x post' where
  grows := hx.grows
  keeps c hc hpre hsize := (hx.keeps c hc hpre hsize).imp_right (h _ _)

/-- A change of anything but the pool. -/
theorem Keeps.update {f : ClassFile → ClassFile} (hpool : ∀ c, (f c).pool = c.pool)
    (hf : ∀ c : ClassFile, c.Assembled → pre c.pool → (f c).Assembled) :
    Keeps pre (modify f : Builder Unit) fun _ _ => True where
  grows c := by
    change c.pool.Grows (f c).pool
    rw [hpool]
    exact .refl c.pool
  keeps c hc hpre _ := ⟨hf c hc hpre, trivial⟩

/-- An entry that the pool has is not added again. -/
theorem constant_cases (entry : PoolEntry) (c : ClassFile) :
    (∃ i : Nat, c.pool[i]? = some entry ∧ (constant entry).run c = (i.toUInt16, c)) ∨
      (∀ i : Nat, c.pool[i]? ≠ some entry) ∧
        (constant entry).run c = (c.pool.size.toUInt16, { c with pool := c.pool.added entry }) := by
  unfold constant
  rcases hfind : c.pool.toList.findIdx? (· = entry) with _ | i
  · refine .inr ⟨fun i hi => ?_, by simp [hfind, Pool.added]; rfl⟩
    have hmem : entry ∈ c.pool.toList := List.mem_of_getElem? (by rwa [Array.getElem?_toList])
    exact absurd rfl (of_decide_eq_false (List.findIdx?_eq_none_iff.mp hfind entry hmem))
  · obtain ⟨hlt, hi, -⟩ := List.findIdx?_eq_some_iff_getElem.mp hfind
    refine .inl ⟨i, ?_, by simp [hfind]; rfl⟩
    rw [← Array.getElem?_toList, List.getElem?_eq_getElem hlt, of_decide_eq_true hi]

theorem run_constant_of_entry {c : ClassFile} (hc : c.pool.Assembled) {entry : PoolEntry}
    (husable : entry ≠ .unusable)
    {index : UInt16} (hentry : c.pool[index.toNat]? = some entry) :
    (constant entry).run c = (index, c) := by
  obtain ⟨i, hi, hrun⟩ | ⟨hnew, -⟩ := constant_cases entry c
  · obtain rfl := hc.distinct i index.toNat entry husable hi hentry
    rw [hrun, Nat.toUInt16_eq, UInt16.ofNat_toNat]
  · exact absurd hentry (hnew _)

/-- The index of an entry is returned. What lasts is still known then. -/
theorem keeps_constant (hR : Lasting R) (entry : PoolEntry) (husable : entry ≠ .unusable)
    (hindices : ∀ pool, R pool → entry.IndicesIn pool) :
    Keeps R (constant entry) fun index pool => R pool ∧ pool[index.toNat]? = some entry where
  grows c := by
    obtain ⟨i, -, hrun⟩ | ⟨-, hrun⟩ := constant_cases entry c <;> rw [hrun]
    · exact .refl c.pool
    · exact c.pool.grows_added entry
  keeps c hc hpre hsize := by
    obtain ⟨i, hi, hrun⟩ | ⟨hnew, hrun⟩ := constant_cases entry c <;> rw [hrun] at hsize ⊢
    · exact ⟨hc, hpre, by rwa [toNat_toUInt16 hi hsize]⟩
    · have hgrows := c.pool.grows_added entry
      have hself : (c.pool.added entry)[c.pool.size]? = some entry := by rw [getElem?_added, if_pos rfl]
      exact ⟨hc.grow hgrows (hc.pool.added husable (hindices _ hpre) hnew), hR _ _ hgrows hpre,
        by rwa [toNat_toUInt16 hself hsize]⟩

/-! ### Constants -/

theorem keeps_utf8 (hR : Lasting R) (value : String) :
    Keeps R (utf8 value) fun index pool => R pool ∧ pool.Denotes index (.utf8 value) :=
  (keeps_constant hR (.utf8 (Text.units value)) nofun fun _ _ => trivial).imp fun _ _ h =>
    ⟨h.1, .utf8 h.2⟩

theorem keeps_classRef (hR : Lasting R) (name : String) :
    Keeps R (classRef name) fun index pool => R pool ∧ pool.Denotes index (.classRef name) :=
  (keeps_utf8 hR name).bind fun nameIndex =>
    have hname := hR.and (lasting_denotes nameIndex (.utf8 name))
    (keeps_constant hname (.classRef nameIndex) nofun fun _ h => h.2.isUtf8).imp fun _ _ h =>
      ⟨h.1.1, .classRef h.2 h.1.2⟩

theorem keeps_string (hR : Lasting R) (value : String) :
    Keeps R (string value) fun index pool => R pool ∧ pool.Denotes index (.string value) :=
  (keeps_utf8 hR value).bind fun unitsIndex =>
    have hvalue := hR.and (lasting_denotes unitsIndex (.utf8 value))
    (keeps_constant hvalue (.string unitsIndex) nofun fun _ h => h.2.isUtf8).imp fun _ _ h =>
      ⟨h.1.1, .string h.2 h.1.2⟩

theorem keeps_stringOfUnits (hR : Lasting R) (units : Text.Units) :
    Keeps R (stringOfUnits units) fun index pool => R pool ∧
      pool.Denotes index (.stringOfUnits units) :=
  (keeps_constant hR (.utf8 units) nofun fun _ _ => trivial).bind fun unitsIndex =>
    have hunits := hR.and (lasting_entry unitsIndex.toNat (.utf8 units))
    (keeps_constant hunits (.string unitsIndex) nofun fun _ h => ⟨_, h.2, rfl⟩).imp fun _ _ h =>
      ⟨h.1.1, .stringOfUnits h.2 h.1.2⟩

theorem keeps_nameAndType (hR : Lasting R) (name descriptor : String) :
    Keeps R (nameAndType name descriptor) fun index pool =>
      R pool ∧ pool.Denotes index (.nameAndType name descriptor) :=
  (keeps_utf8 hR name).bind fun nameIndex =>
    have hname := hR.and (lasting_denotes nameIndex (.utf8 name))
    (keeps_utf8 hname descriptor).bind fun descriptorIndex =>
      have hdescriptor := hname.and (lasting_denotes descriptorIndex (.utf8 descriptor))
      (keeps_constant hdescriptor (.nameAndType nameIndex descriptorIndex) nofun fun _ h =>
        ⟨h.1.2.isUtf8, h.2.isUtf8⟩).imp fun _ _ h => ⟨h.1.1.1, .nameAndType h.2 h.1.1.2 h.1.2⟩

/-- What the parts of a reference to a member stand for. -/
theorem keeps_reference (hR : Lasting R) (entry : UInt16 → UInt16 → PoolEntry)
    (owner name descriptor : String)
    (husable : ∀ classIndex signatureIndex, entry classIndex signatureIndex ≠ .unusable)
    (hindices : ∀ classIndex signatureIndex pool, pool.Points classIndex PoolEntry.isClass →
      pool.Points signatureIndex PoolEntry.isNameAndType →
        (entry classIndex signatureIndex).IndicesIn pool) :
    Keeps R (do constant (entry (← classRef owner) (← nameAndType name descriptor))) fun index pool =>
      R pool ∧ ∃ classIndex signatureIndex,
        pool[index.toNat]? = some (entry classIndex signatureIndex) ∧
        pool.Denotes classIndex (.classRef owner) ∧ pool.Denotes signatureIndex
        (.nameAndType name descriptor) :=
  (keeps_classRef hR owner).bind fun classIndex =>
    have howner := hR.and (lasting_denotes classIndex (.classRef owner))
    (keeps_nameAndType howner name descriptor).bind fun signatureIndex =>
      have hsignature := howner.and (lasting_denotes signatureIndex (.nameAndType name descriptor))
      (keeps_constant hsignature (entry classIndex signatureIndex) (husable _ _) fun _ h =>
        hindices _ _ _ h.1.2.isClass h.2.isNameAndType).imp fun _ _ h =>
          ⟨h.1.1.1, classIndex, signatureIndex, h.2, h.1.1.2, h.1.2⟩

/-- The index that a request returns stands for the constant. -/
theorem keeps_make (hR : Lasting R) (request : Request) :
    Keeps R request.make fun index pool => R pool ∧ pool.Denotes index request := by
  cases request with
  | utf8 value => exact keeps_utf8 hR value
  | integer value =>
    exact (keeps_constant hR (.integer value) nofun fun _ _ => trivial).imp fun _ _ h =>
      ⟨h.1, .integer h.2⟩
  | float bits => exact (keeps_constant hR (.float bits) nofun fun _ _ => trivial).imp fun _ _ h =>
      ⟨h.1, .float h.2⟩
  | long value => exact (keeps_constant hR (.long value) nofun fun _ _ => trivial).imp fun _ _ h =>
      ⟨h.1, .long h.2⟩
  | double bits =>
    exact (keeps_constant hR (.double bits) nofun fun _ _ => trivial).imp fun _ _ h =>
      ⟨h.1, .double h.2⟩
  | classRef name => exact keeps_classRef hR name
  | string value => exact keeps_string hR value
  | stringOfUnits units => exact keeps_stringOfUnits hR units
  | nameAndType name descriptor => exact keeps_nameAndType hR name descriptor
  | fieldRef owner name descriptor =>
    exact (keeps_reference hR .fieldRef owner name descriptor (fun _ _ => nofun)
      fun _ _ _ => And.intro).imp
      fun _ _ ⟨h, _, _, hentry, howner, hsignature⟩ => ⟨h, .fieldRef hentry howner hsignature⟩
  | methodRef owner name descriptor =>
    exact (keeps_reference hR .methodRef owner name descriptor (fun _ _ => nofun)
      fun _ _ _ => And.intro).imp
      fun _ _ ⟨h, _, _, hentry, howner, hsignature⟩ => ⟨h, .methodRef hentry howner hsignature⟩
  | interfaceMethodRef owner name descriptor =>
    exact (keeps_reference hR .interfaceMethodRef owner name descriptor (fun _ _ => nofun)
      fun _ _ _ => And.intro).imp
      fun _ _ ⟨h, _, _, hentry, howner, hsignature⟩ => ⟨h, .interfaceMethodRef hentry howner hsignature⟩

/-- A constant that the pool has is not added again, whatever it is made of. -/
theorem run_make_of_denotes {c : ClassFile} (hc : c.pool.Assembled) {index : UInt16} {request : Request}
    (h : c.pool.Denotes index request) : request.make.run c = (index, c) := by
  have hrun : ∀ {index : UInt16} {entry : PoolEntry}, c.pool[index.toNat]? = some entry →
      entry ≠ .unusable →
      (constant entry).run c = (index, c) :=
      fun hentry husable => run_constant_of_entry hc husable hentry
  induction h with
  | utf8 entry | integer entry | float entry | long entry | double entry => exact hrun entry nofun
  | classRef entry _ named =>
    exact (run_bind_of_run named _).trans (hrun entry nofun)
  | string entry _ spelled => exact (run_bind_of_run spelled _).trans (hrun entry nofun)
  | stringOfUnits entry spelled =>
      exact (run_bind_of_run (hrun spelled nofun) _).trans (hrun entry nofun)
  | nameAndType entry _ _ named typed =>
    exact (run_bind_of_run named _).trans ((run_bind_of_run typed _).trans (hrun entry nofun))
  | fieldRef entry _ _ owned signed | methodRef entry _ _ owned signed
      | interfaceMethodRef entry _ _ owned signed =>
    exact (run_bind_of_run owned _).trans ((run_bind_of_run signed _).trans (hrun entry nofun))

end Builder

end JavaMachine
