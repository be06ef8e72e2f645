import JavaMachine.Proofs.ClassFileCodec
import JavaMachine.Proofs.ConstantRequests

/-!
Class files that are assembled in memory.

Every call keeps the class file in order (`Builder.keeps_call`), and so do all of them in turn
(`Builder.keeps_calls`). As pools only grow, the size of the last one decides whether indices could
count all of them. What is assembled and fits its counts is well formed, so it is read back from its
bytes.
-/

namespace JavaMachine

namespace Builder

open Pool

variable {R : Pool → Prop}

/-! ### Calls -/

/-- A call that adds to a class file. -/
inductive Call where
  | request (r : Request)
  | setFlags (flags : AccessFlags)
  | setMajorVersion (majorVersion : UInt16)
  | addInterface (name : String)
  | addField (flags : AccessFlags) (name descriptor : String)
  | addConstantField (name descriptor : String) (valueIndex : UInt16)
  | addConstantInt (name : String) (value : Int32)
  | addMethod (flags : AccessFlags) (name descriptor : String) (maxStack maxLocals : UInt16)
      (code : List UInt8)
      (handlers : List HandlerEntry)
  | addBodiless (flags : AccessFlags) (name descriptor : String)
  | addNative (flags : AccessFlags) (name descriptor : String)
  | setSourceFile (file : String)
  deriving DecidableEq, Repr, Inhabited

namespace Call

/-- What the call does; the index that a request returns is left to `Request.make`. -/
def make : Call → Builder Unit
  | .request r => do let _ ← r.make
  | setFlags flags => Builder.setFlags flags
  | setMajorVersion majorVersion => Builder.setMajorVersion majorVersion
  | addInterface name => Builder.addInterface name
  | addField flags name descriptor => Builder.addField flags name descriptor
  | addConstantField name descriptor valueIndex => Builder.addConstantField name descriptor valueIndex
  | addConstantInt name value => Builder.addConstantInt name value
  | addMethod flags name descriptor maxStack maxLocals code handlers =>
    Builder.addMethod flags name descriptor maxStack maxLocals code handlers
  | addBodiless flags name descriptor => Builder.addBodiless flags name descriptor
  | addNative flags name descriptor => Builder.addNative flags name descriptor
  | setSourceFile file => Builder.setSourceFile file

/-- A method has code, and its handlers and its attribute fit the count and the length that they are
written with. -/
def Fits : Call → Prop
  | addMethod _ _ _ maxStack maxLocals code handlers => code ≠ [] ∧ handlers.length < UInt16.size ∧
    (Attribute.encodeCode maxStack maxLocals code handlers []).length < UInt32.size
  | _ => True

instance decidableFits : (call : Call) → Decidable call.Fits
  | addMethod .. => inferInstanceAs (Decidable (_ ∧ _ ∧ _))
  | request _ | setFlags _ | setMajorVersion _ | addInterface _ | addField .. | addConstantField ..
      | addConstantInt ..
  | addBodiless .. | addNative .. | setSourceFile _ => isTrue trivial

end Call

theorem keeps_member (hR : Lasting R) {attributes : List Attribute}
    (hattributes : ∀ pool, R pool → Attribute.TableWellFormed pool attributes) (flags : AccessFlags)
    (name descriptor : String) : Keeps R (member flags name descriptor attributes) fun m pool =>
      m.WellFormed pool :=
  (keeps_utf8 hR name).bind fun nameIndex =>
    have hname := hR.and (lasting_denotes nameIndex (.utf8 name))
    (keeps_utf8 hname descriptor).bind fun _ => .pure fun _ h =>
      ⟨h.1.2.isUtf8, h.2.isUtf8, hattributes _ h.1.1⟩

theorem tableWellFormed_nil (pool : Pool) : Attribute.TableWellFormed pool [] := ⟨by decide, nofun⟩

theorem tableWellFormed_singleton {pool : Pool} {a : Attribute} (h : a.WellFormed pool) :
    Attribute.TableWellFormed pool [a] :=
  have hone : 1 < UInt16.size := by decide
  ⟨hone, List.forall_mem_singleton.mpr h⟩

theorem keeps_fields (field : Member) :
    Keeps field.WellFormed (modify fun c : ClassFile =>
      { c with fields := c.fields ++ [field] } : Builder Unit)
      fun _ _ => True :=
  .update (fun _ => rfl) fun _ hc h =>
    { hc with fields := List.forall_mem_append.mpr ⟨hc.fields, List.forall_mem_singleton.mpr h⟩ }

theorem keeps_methods (method : Member) :
    Keeps method.WellFormed (modify fun c : ClassFile =>
      { c with methods := c.methods ++ [method] } : Builder Unit)
      fun _ _ => True :=
  .update (fun _ => rfl) fun _ hc h =>
    { hc with methods := List.forall_mem_append.mpr ⟨hc.methods, List.forall_mem_singleton.mpr h⟩ }

theorem lasting_true : Lasting fun _ => True := fun _ _ _ _ => trivial

theorem keeps_addConstantField (name descriptor : String) (valueIndex : UInt16) :
    Keeps (fun _ => True) (addConstantField name descriptor valueIndex) fun _ _ => True :=
  (keeps_utf8 lasting_true "ConstantValue").bind fun attributeName =>
    have hattribute (pool : Pool) (h : True ∧ pool.Denotes attributeName (.utf8 "ConstantValue")) :
        Attribute.TableWellFormed pool [.leaf attributeName (.constantValue valueIndex)] :=
      tableWellFormed_singleton (.leaf h.2.text rfl trivial
        (by rw [AttributeContent.encode, Encode.u16, BigEndian.length_ofNat]; decide))
    (keeps_member (lasting_true.and (lasting_denotes attributeName _))
      hattribute _ name descriptor).bind keeps_fields

theorem keeps_addMethod (flags : AccessFlags) (name descriptor : String) {maxStack maxLocals : UInt16}
    {code : List UInt8} {handlers : List HandlerEntry} (hcode : code ≠ [])
    (hhandlers : handlers.length < UInt16.size)
    (hbody : (Attribute.encodeCode maxStack maxLocals code handlers []).length < UInt32.size) :
    Keeps (fun _ => True) (addMethod flags name descriptor maxStack maxLocals code handlers)
      fun _ _ => True :=
  (keeps_utf8 lasting_true "Code").bind fun attributeName =>
    have hattribute (pool : Pool) (h : True ∧ pool.Denotes attributeName (.utf8 "Code")) :
        Attribute.TableWellFormed pool [.code attributeName maxStack maxLocals code handlers []] :=
      have hcode_lt : code.length < UInt32.size := by
        simp only [Attribute.encodeCode, Encode.lengthPrefixed, List.length_append] at hbody
        omega
      tableWellFormed_singleton (.code h.2.text hcode hcode_lt hhandlers (by decide) nofun hbody)
    (keeps_member (lasting_true.and (lasting_denotes attributeName _))
      hattribute _ name descriptor).bind keeps_methods

theorem keeps_setSourceFile (file : String) :
    Keeps (fun _ => True) (setSourceFile file) fun _ _ => True :=
  (keeps_utf8 lasting_true "SourceFile").bind fun attributeName =>
    have hname := lasting_true.and (lasting_denotes attributeName (.utf8 "SourceFile"))
    (keeps_utf8 hname file).bind fun fileIndex =>
      have hattribute (pool : Pool) (h : pool.Denotes attributeName (.utf8 "SourceFile")) :
          (Attribute.leaf attributeName (.sourceFile fileIndex)).WellFormed pool :=
        .leaf h.text rfl trivial
          (by rw [AttributeContent.encode, Encode.u16, BigEndian.length_ofNat]; decide)
      .update (fun _ => rfl) fun c hc h => { hc with
        attributes := List.forall_mem_append.mpr ⟨hc.attributes, List.forall_mem_singleton.mpr
          (hattribute c.pool h.1.2)⟩ }

theorem keeps_call {call : Call} (hcall : call.Fits) :
    Keeps (fun _ => True) call.make fun _ _ => True := by
  cases call with
  | request r => exact (keeps_make lasting_true r).bind fun _ => .pure fun _ _ => trivial
  | setFlags flags => exact .update (fun _ => rfl) fun _ hc _ => { hc with }
  | setMajorVersion majorVersion => exact .update (fun _ => rfl) fun _ hc _ => { hc with }
  | addInterface name =>
    exact (keeps_classRef lasting_true name).bind fun index =>
      .update (fun _ => rfl) fun _ hc h => { hc with
        interfaces := List.forall_mem_append.mpr
          ⟨hc.interfaces, List.forall_mem_singleton.mpr h.2.isClass⟩ }
  | addField flags name descriptor =>
    exact (keeps_member lasting_true (fun pool _ => tableWellFormed_nil pool)
      flags name descriptor).bind keeps_fields
  | addConstantField name descriptor valueIndex =>
      exact keeps_addConstantField name descriptor valueIndex
  | addConstantInt name value =>
    have hvalue : Keeps (fun _ => True) (integer value) fun _ _ => True :=
      (keeps_make lasting_true (.integer value)).imp fun _ _ _ => trivial
    exact hvalue.bind fun index => keeps_addConstantField name "I" index
  | addMethod flags name descriptor maxStack maxLocals code handlers =>
    exact keeps_addMethod flags name descriptor hcall.1 hcall.2.1 hcall.2.2
  | addBodiless flags name descriptor =>
    exact (keeps_member lasting_true (fun pool _ => tableWellFormed_nil pool)
      flags name descriptor).bind keeps_methods
  | addNative flags name descriptor =>
    exact (keeps_member lasting_true (fun pool _ => tableWellFormed_nil pool)
      _ name descriptor).bind keeps_methods
  | setSourceFile file => exact keeps_setSourceFile file

theorem keeps_calls {calls : List Call} (hcalls : ∀ call ∈ calls, call.Fits) :
    Keeps (fun _ => True) (forM calls Call.make : Builder Unit) fun _ _ => True := by
  induction calls with
  | nil => exact .pure fun _ _ => trivial
  | cons call calls ih =>
    rw [List.forall_mem_cons] at hcalls
    rw [List.forM_cons]
    exact (keeps_call hcalls.1).bind fun _ => ih hcalls.2

/-! ### The names of the class -/

theorem blank_entry {i : Nat} {entry : PoolEntry} (h : blank.pool[i]? = some entry) :
    i = 0 ∧ entry = .unusable := by
  rcases i with _ | i
  · exact ⟨rfl, (Option.some.inj h).symm⟩
  · cases h

theorem assembled_blank : Assembled blank.pool where
  first := rfl
  wide i entry h hwide := by
    obtain ⟨-, rfl⟩ := blank_entry h
    cases hwide
  unusable i h := absurd (blank_entry h).1 (Nat.succ_ne_zero i)
  indices i entry h := by
    obtain ⟨-, rfl⟩ := blank_entry h
    trivial
  distinct i j entry _ hi hj := (blank_entry hi).1.trans (blank_entry hj).1.symm

/-- A class file with nothing but the name of its class. -/
def named (name : String) : ClassFile :=
  { blank with pool :=
    (blank.pool.added (.utf8 (Text.units name))).added (.classRef 1), thisClass := 2 }

theorem assembled_named (name : String) : (named name).Assembled where
  magic := rfl
  pool := by
    have htext : (blank.pool.added (.utf8 (Text.units name))).Assembled :=
      assembled_blank.added nofun trivial fun i h => nomatch (blank_entry h).2
    have hname : PoolEntry.IndicesIn (blank.pool.added (.utf8 (Text.units name))) (.classRef 1) :=
      ⟨.utf8 (Text.units name), rfl, rfl⟩
    have hnew (i : Nat) : (blank.pool.added (.utf8 (Text.units name)))[i]? ≠ some
        (.classRef 1) := fun h => by
      obtain ⟨-, heq⟩ | ⟨-, -, heq⟩ | hold := added_cases h
      · cases heq
      · cases heq
      · cases (blank_entry hold).2
    have hpool : ((blank.pool.added (.utf8 (Text.units name))).added (.classRef 1)).Assembled :=
      htext.added nofun hname hnew
    exact hpool
  thisClass := ⟨.classRef 1, rfl, rfl⟩
  superClass h := absurd rfl h
  interfaces := nofun
  fields := nofun
  methods := nofun
  attributes := nofun

/-- Names the super class of a class that has its own name. -/
def nameSuper : Option String → Builder Unit
  | none => pure ()
  | some superName => do
    let superClass ← classRef superName
    modify ({ · with superClass })

theorem keeps_nameSuper (superName : Option String) :
    Keeps (fun _ => True) (nameSuper superName) fun _ _ => True := by
  cases superName with
  | none => exact .pure fun _ _ => trivial
  | some superName =>
    exact (keeps_classRef lasting_true superName).bind fun _ =>
      .update (fun _ => rfl) fun _ hc h => { hc with superClass := fun _ => h.2.isClass }

theorem build_eq (name : String) (superName : Option String) (steps : Builder Unit) :
    ClassFile.build name superName steps = ((nameSuper superName >>= fun _ => steps).run
      (named name)).2 := by
  have hstart : start name superName =
      ((do let thisClass ← classRef name; modify ({ · with thisClass }) : Builder Unit) >>= fun _ =>
        nameSuper superName) := by
    cases superName <;> rfl
  have hnamed : (do let thisClass ← classRef name; modify ({ · with thisClass }) :
      Builder Unit).run blank = ((), named name) := rfl
  rw [ClassFile.build, hstart, bind_assoc, StateT.run_bind, hnamed]
  rfl

/-! ### Whole class files -/

/-- The class file with the given names after the calls. -/
def assemble (name : String) (superName : Option String) (calls : List Call) : ClassFile :=
  ClassFile.build name superName (forM calls Call.make)

section

variable {name : String} {superName : Option String} {calls : List Call}

theorem assemble_append (calls later : List Call) : assemble name superName (calls ++ later) =
    ((forM later Call.make : Builder Unit).run (assemble name superName calls)).2 := by
  unfold assemble ClassFile.build
  rw [List.forM_append, ← bind_assoc]
  rfl

theorem grows_append {later : List Call} (hlater : ∀ call ∈ later, call.Fits) (calls : List Call) :
    (assemble name superName calls).pool.Grows (assemble name superName (calls ++ later)).pool := by
  rw [assemble_append]
  exact (keeps_calls hlater).grows _

/-- After every call the class file is in order, as long as indices can count its pool. -/
theorem assembled_assemble (hcalls : ∀ call ∈ calls, call.Fits)
    (hsize : (assemble name superName calls).pool.size < UInt16.size) :
    (assemble name superName calls).Assembled := by
  unfold assemble at hsize ⊢
  rw [build_eq] at hsize ⊢
  exact (((keeps_nameSuper superName).bind fun _ => keeps_calls hcalls).keeps _
    (assembled_named name) trivial hsize).1

end

end Builder

/-- The parts of the class file fit their counts and lengths, and its version is read. -/
structure ClassFile.Countable (c : ClassFile) : Prop where
  version : 45 ≤ c.majorVersion ∧ c.majorVersion ≤ 53
  pool : c.pool.size < UInt16.size
  texts : ∀ entry ∈ c.pool.toList, entry.Fits
  interfaces : c.interfaces.length < UInt16.size
  fields : c.fields.length < UInt16.size
  methods : c.methods.length < UInt16.size
  attributes : c.attributes.length < UInt16.size

instance PoolEntry.decidableFits : (entry : PoolEntry) → Decidable entry.Fits
  | .utf8 _ => inferInstanceAs (Decidable (_ < _))
  | .unusable | .integer _ | .float _ | .long _ | .double _ | .classRef _ | .string _
      | .fieldRef .. | .methodRef ..
  | .interfaceMethodRef .. | .nameAndType .. => isTrue trivial

instance ClassFile.decidableCountable (c : ClassFile) : Decidable c.Countable :=
  decidable_of_iff ((45 ≤ c.majorVersion ∧ c.majorVersion ≤ 53) ∧ c.pool.size < UInt16.size ∧
      (∀ entry ∈ c.pool.toList, entry.Fits) ∧ c.interfaces.length < UInt16.size ∧
      c.fields.length < UInt16.size ∧
      c.methods.length < UInt16.size ∧ c.attributes.length < UInt16.size)
    ⟨fun ⟨hv, hp, ht, hi, hf, hm, ha⟩ => ⟨hv, hp, ht, hi, hf, hm, ha⟩,
      fun ⟨hv, hp, ht, hi, hf, hm, ha⟩ => ⟨hv, hp, ht, hi, hf, hm, ha⟩⟩

theorem ClassFile.Assembled.wellFormed {c : ClassFile} (hc : c.Assembled) (h : c.Countable) :
    c.WellFormed where
  magic := hc.magic
  version := h.version
  pool :=
    { size_lt := h.pool
      first := hc.pool.first
      wide := hc.pool.wide
      unusable := hc.pool.unusable
      fits := h.texts
      indices := fun entry hentry => by
        obtain ⟨i, hi⟩ := List.getElem?_of_mem hentry
        exact hc.pool.indices i entry (by rwa [Array.getElem?_toList] at hi) }
  thisClass := hc.thisClass
  superClass := hc.superClass
  interfaces := hc.interfaces
  interfaces_lt := h.interfaces
  fields_lt := h.fields
  fields := hc.fields
  methods_lt := h.methods
  methods := hc.methods
  attributes := ⟨h.attributes, hc.attributes⟩

namespace Builder

/-- Calls after each of which the class file is in order: every index that a request returned stands
for its constant from then on and is returned again, and the finished class file is read back from
its bytes. -/
structure Faithful (name : String) (superName : Option String) (calls : List Call) : Prop where
  distinct : ∀ done, done <+: calls → ∀ (i j : Nat) (entry : PoolEntry), entry ≠ .unusable →
    (assemble name superName done).pool[i]? = some entry →
    (assemble name superName done).pool[j]? = some entry → i = j
  wide : ∀ done, done <+: calls → ∀ (i : Nat) (entry : PoolEntry),
    (assemble name superName done).pool[i]? = some entry →
    entry.isWide = true → (assemble name superName done).pool[i + 1]? = some .unusable
  denotes : ∀ before request between, before ++ .request request :: between <+: calls →
    let index := (request.make.run (assemble name superName before)).1
    let later := assemble name superName (before ++ .request request :: between)
    later.pool.Denotes index request ∧ request.make.run later = (index, later)
  decoded : ClassFile.decode (assemble name superName calls).encode =
    .ok (assemble name superName calls)

/-- Calls that leave a class file whose parts fit are faithful. -/
theorem assembly_faithful {name : String} {superName : Option String} {calls : List Call}
    (hcalls : ∀ call ∈ calls, call.Fits) (hcountable : (assemble name superName calls).Countable) :
    Faithful name superName calls := by
  have hdone : ∀ done, done <+: calls → (assemble name superName done).pool.size < UInt16.size ∧
      (assemble name superName done).Assembled := by
    rintro done ⟨later, rfl⟩
    rw [List.forall_mem_append] at hcalls
    have hsize := Nat.lt_of_le_of_lt (grows_append hcalls.2 done).size_le hcountable.pool
    exact ⟨hsize, assembled_assemble hcalls.1 hsize⟩
  refine ⟨fun done h => (hdone done h).2.pool.distinct, fun done h => (hdone done h).2.pool.wide,
    fun before request between h => ?_, ClassFile.decode_ok.mpr
    ((hdone calls List.prefix_rfl).2.wellFormed hcountable).spells⟩
  obtain ⟨hsize, hlater⟩ := hdone _ h
  have hbefore : (assemble name superName before).Assembled :=
    (hdone before ((List.prefix_append ..).trans h)).2
  have hbetween : ∀ call ∈ between, call.Fits := fun call hcall =>
    hcalls call (h.subset (List.mem_append_right _ (List.mem_cons_of_mem _ hcall)))
  -- The request is made on what was assembled before; the calls between only add to the pool that
  -- it leaves.
  have hsplit : assemble name superName (before ++ .request request :: between) =
      ((forM between Call.make : Builder Unit).run
        (request.make.run (assemble name superName before)).2).2 := by
    rw [assemble_append, List.forM_cons]
    rfl
  have hgrows := (keeps_calls hbetween).grows (request.make.run (assemble name superName before)).2
  rw [hsplit] at hsize
  have hindex := ((keeps_make lasting_true request).keeps _ hbefore trivial
    (Nat.lt_of_le_of_lt hgrows.size_le hsize)).2.2
  have hdenotes := Pool.lasting_denotes _ request _ _ hgrows hindex
  rw [← hsplit] at hdenotes
  exact ⟨hdenotes, run_make_of_denotes hlater.pool hdenotes⟩

/-- Calls that ask for one string as text and as units, before and after wide constants and a method. -/
def sampleCalls : List Call :=
  [.request (.string "greeting"), .request (.long 5), .addInterface "demo/I", .addConstantInt "LIMIT" 7,
    .addMethod ⟨1⟩ "run" "()V" 0 1 [0xB1] [⟨0, 1, 0, 0⟩], .request (.stringOfUnits [0xD800]),
    .request (.double 5),
    .request (.stringOfUnits (Text.units "greeting")), .request (.methodRef "demo/A" "run" "()V"),
    .setSourceFile "A.java", .setMajorVersion 45]

theorem assembly_faithful_sample :
    (∀ call ∈ sampleCalls, call.Fits) ∧
    (assemble "demo/A" (some "java/lang/Object") sampleCalls).Countable ∧
      Faithful "demo/A" (some "java/lang/Object") sampleCalls := by
  have hcalls : ∀ call ∈ sampleCalls, call.Fits := by decide +kernel
  have hcountable : (assemble "demo/A" (some "java/lang/Object") sampleCalls).Countable := by
    decide +kernel
  exact ⟨hcalls, hcountable, assembly_faithful hcalls hcountable⟩

end Builder

end JavaMachine
