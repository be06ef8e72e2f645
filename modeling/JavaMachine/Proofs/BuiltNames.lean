import JavaMachine.Machine.Library
import JavaMachine.Proofs.ConstantRequests

/-!
Names of class files that are built.

A class file is named first, and no later step takes the name away (`Builder.KeepsName`). The files
of the library are built in this way (`Library.built_of_find?`).
-/

namespace JavaMachine

namespace Builder

variable {α β : Type} {x : Builder α}

/-- A step that leaves a class its name. -/
structure KeepsName (x : Builder α) : Prop where
  named : ∀ (c : ClassFile) (name : String), c.name? = some name → (x.run c).2.name? = some name

theorem lasting_className (index : UInt16) (name : String) :
    Pool.Lasting fun pool => pool.className? index = some name := by
  intro pool pool' h hname
  unfold Pool.className? at hname ⊢
  split at hname
  · rename_i hentry
    rw [h _ _ hentry]
    exact Pool.lasting_text _ _ _ _ h hname
  · cases hname

namespace KeepsName

theorem pure (a : α) : KeepsName (Pure.pure a : Builder α) := ⟨fun _ _ h => h⟩

theorem bind {f : α → Builder β} (hx : KeepsName x) (hf : ∀ a, KeepsName (f a)) : KeepsName (x >>= f) :=
  ⟨fun c name h => (hf _).named _ name (hx.named c name h)⟩

/-- A change of anything but the pool and the name. -/
theorem update {f : ClassFile → ClassFile}
    (hf : ∀ c, (f c).pool = c.pool ∧ (f c).thisClass = c.thisClass) :
    KeepsName (modify f : Builder Unit) where
  named c name h := by
    change (f c).name? = some name
    rw [ClassFile.name?, (hf c).1, (hf c).2]
    exact h

theorem constant (entry : PoolEntry) : KeepsName (constant entry) where
  named c name h := by
    obtain ⟨i, -, hrun⟩ | ⟨-, hrun⟩ := constant_cases entry c <;> rw [hrun]
    · exact h
    · exact lasting_className _ _ _ _ (c.pool.grows_added entry) h

theorem classRef (name : String) : KeepsName (classRef name) := (constant _).bind fun _ => constant _

theorem nameAndType (name descriptor : String) : KeepsName (nameAndType name descriptor) :=
  (constant _).bind fun _ => (constant _).bind fun _ => constant _

theorem fieldRef (owner name descriptor : String) : KeepsName (fieldRef owner name descriptor) :=
  (classRef owner).bind fun _ => (nameAndType name descriptor).bind fun _ => constant _

theorem methodRef (owner name descriptor : String) : KeepsName (methodRef owner name descriptor) :=
  (classRef owner).bind fun _ => (nameAndType name descriptor).bind fun _ => constant _

theorem setFlags (flags : AccessFlags) : KeepsName (setFlags flags) := update fun _ => ⟨rfl, rfl⟩

theorem addInterface (name : String) : KeepsName (addInterface name) :=
  (classRef name).bind fun _ => update fun _ => ⟨rfl, rfl⟩

theorem member (flags : AccessFlags) (name descriptor : String) (attributes : List Attribute) :
    KeepsName (member flags name descriptor attributes) :=
  (constant _).bind fun _ => (constant _).bind fun _ => pure _

theorem addField (flags : AccessFlags) (name descriptor : String) :
    KeepsName (addField flags name descriptor) :=
  (member ..).bind fun _ => update fun _ => ⟨rfl, rfl⟩

theorem addMethod (flags : AccessFlags) (name descriptor : String) (maxStack maxLocals : UInt16)
    (code : List UInt8)
    (handlers : List HandlerEntry) :
    KeepsName (addMethod flags name descriptor maxStack maxLocals code handlers) :=
  (constant _).bind fun _ => (member ..).bind fun _ => update fun _ => ⟨rfl, rfl⟩

theorem addNative (flags : AccessFlags) (name descriptor : String) :
    KeepsName (addNative flags name descriptor) :=
  (member ..).bind fun _ => update fun _ => ⟨rfl, rfl⟩

end KeepsName

/-- A class file that is built is called by its name. -/
theorem name_build (name : String) (superName : Option String)
    {steps : Builder Unit} (h : KeepsName steps) :
    (ClassFile.build name superName steps).name? = some name := by
  refine h.named _ _ ?_
  have hnamed : ((do let thisClass ← classRef name; modify ({ · with thisClass }) :
      Builder Unit).run blank).2.name? = some name := congrArg some (Text.text_units name)
  cases superName with
  | none => exact hnamed
  | some superName =>
    have hsuper : KeepsName
        (do let superClass ← classRef superName; modify ({ · with superClass }) : Builder Unit) :=
      (KeepsName.classRef superName).bind fun _ => .update fun _ => ⟨rfl, rfl⟩
    exact hsuper.named _ _ hnamed

end Builder

namespace Library

open Builder

theorem keepsName_addConstructor (superName : String) : KeepsName (addConstructor superName) :=
  (KeepsName.methodRef ..).bind fun _ => .addMethod ..

/-- The files of the library are built under the names that they are found by. -/
theorem built_of_find? {name : String} {file : ClassFile} (h : find? name = some file) :
    ∃ superName steps, file = .build name superName steps ∧ KeepsName steps := by
  unfold find? at h
  split at h
  · rename_i hname
    subst hname
    obtain rfl := Option.some.inj h
    exact ⟨_, _, rfl, (KeepsName.addMethod ..).bind fun _ => (KeepsName.addMethod ..).bind fun _ =>
      (KeepsName.addNative ..).bind fun _ => .addNative ..⟩
  split at h
  · rename_i hname
    subst hname
    obtain rfl := Option.some.inj h
    exact ⟨_, _, rfl, (KeepsName.setFlags _).bind fun _ => (KeepsName.addInterface _).bind fun _ =>
      (KeepsName.addField ..).bind fun _ => (keepsName_addConstructor _).bind fun _ =>
      (KeepsName.fieldRef ..).bind fun _ => (KeepsName.addMethod ..).bind fun _ => .addMethod ..⟩
  split at h
  · rename_i hname
    subst hname
    obtain rfl := Option.some.inj h
    exact ⟨_, _, rfl, (KeepsName.addInterface _).bind fun _ => (KeepsName.addField ..).bind fun _ =>
      (keepsName_addConstructor _).bind fun _ => (KeepsName.methodRef ..).bind fun _ =>
      (KeepsName.fieldRef ..).bind fun _ => (KeepsName.addMethod ..).bind fun _ => .addMethod ..⟩
  split at h
  · obtain rfl := Option.some.inj h
    exact ⟨_, _, rfl, .setFlags _⟩
  split at h
  · rename_i hname
    subst hname
    obtain rfl := Option.some.inj h
    exact ⟨_, _, rfl, (KeepsName.setFlags _).bind fun _ => (KeepsName.methodRef ..).bind fun _ =>
      (KeepsName.addNative ..).bind fun _ => (KeepsName.addNative ..).bind fun _ => .addMethod ..⟩
  have hbits : ∀ toBits toDescriptor ofBits ofDescriptor, ∃ superName steps,
      bitsClass name toBits toDescriptor ofBits ofDescriptor = .build name superName steps ∧
      KeepsName steps :=
    fun _ _ _ _ => ⟨_, _, rfl, (KeepsName.setFlags _).bind fun _ =>
      (KeepsName.addNative ..).bind fun _ => .addNative ..⟩
  split at h
  · obtain rfl := Option.some.inj h
    exact hbits ..
  split at h
  · obtain rfl := Option.some.inj h
    exact hbits ..
  · obtain ⟨superName, -, rfl⟩ := Option.map_eq_some_iff.mp h
    exact ⟨_, _, rfl, (keepsName_addConstructor _).bind fun _ =>
      (KeepsName.methodRef ..).bind fun _ => .addMethod ..⟩

end Library

end JavaMachine
