import JavaMachine.Code.Instruction
import JavaMachine.Proofs.Loading

/-!
What steps can fail with.

Throwables in flight and uncaught exceptions are the business of frames. Decoding and loading fail
with neither of them, whatever the code and the machine are (`Instruction.read_ordinary`,
`VM.load_ordinary`).
-/

namespace JavaMachine

variable {ε σ α β : Type}

/-- All errors of a step have a property, whatever the state. -/
def FailsOnly (p : ε → Prop) (x : ExceptT ε (StateM σ) α) : Prop :=
  ∀ s e t, outcome x s = (.error e, t) → p e

namespace FailsOnly

variable {p : ε → Prop} {x : ExceptT ε (StateM σ) α}

/-- A step that does not fail. -/
theorem of_ok (h : ∀ s, ∃ a t, outcome x s = (.ok a, t)) : FailsOnly p x := fun s e t hrun => by
  obtain ⟨a, u, hok⟩ := h s
  rw [hok] at hrun
  cases hrun

theorem pure (a : α) : FailsOnly p (pure a : ExceptT ε (StateM σ) α) := of_ok fun s => ⟨a, s, rfl⟩

theorem get : FailsOnly p (get : ExceptT ε (StateM σ) σ) := of_ok fun s => ⟨s, s, rfl⟩

theorem modifyGet (change : σ → α × σ) : FailsOnly p (modifyGet change : ExceptT ε (StateM σ) α) :=
  of_ok fun _ => ⟨_, _, rfl⟩

theorem throw {e : ε} (h : p e) : FailsOnly p (throw e : ExceptT ε (StateM σ) α) := fun _ _ _ hrun => by
  cases hrun
  exact h

theorem bind {f : α → ExceptT ε (StateM σ) β} (hx : FailsOnly p x) (hf : ∀ a, FailsOnly p (f a)) :
    FailsOnly p (x >>= f) := fun s e t hrun => by
  rcases outcome_bind_error.mp hrun with hfirst | ⟨a, u, -, hrest⟩
  · exact hx s e t hfirst
  · exact hf a u e t hrest

theorem map {f : α → β} (hx : FailsOnly p x) : FailsOnly p (f <$> x) := by
  rw [map_eq_pure_bind]
  exact bind hx fun a => pure (f a)

theorem mono {q : ε → Prop} (hx : FailsOnly p x) (h : ∀ e, p e → q e) :
    FailsOnly q x := fun s e t hrun =>
  h e (hx s e t hrun)

theorem forM {f : α → ExceptT ε (StateM σ) PUnit} (h : ∀ a, FailsOnly p (f a)) : ∀ as : List α,
      FailsOnly p (as.forM f)
  | [] => pure _
  | a :: as => bind (h a) fun _ => forM h as

theorem mapM {f : α → ExceptT ε (StateM σ) β} (h : ∀ a, FailsOnly p (f a)) : ∀ as : List α,
      FailsOnly p (as.mapM f)
  | [] => pure _
  | a :: as => by
    rw [List.mapM_cons]
    exact bind (h a) fun b => bind (mapM h as) fun bs => pure (b :: bs)

end FailsOnly

/-- A failure that is no exception on its way. -/
def Failure.Ordinary : Failure → Prop
  | .fault f => f.Ordinary
  | .outOfRange | .outOfFuel | .endless => True

/-! ### Decoding -/

namespace CodeReader

theorem number_ordinary (width : Nat) : FailsOnly Fault.Ordinary (number width) :=
  .bind .get fun ⟨code, pc⟩ => by
    dsimp only
    split
    · exact .bind (.modifyGet _) fun _ => .pure _
    · exact .throw trivial

theorem u1_ordinary : FailsOnly Fault.Ordinary u1 := .map (number_ordinary 1)
theorem i1_ordinary : FailsOnly Fault.Ordinary i1 := .map u1_ordinary
theorem u2_ordinary : FailsOnly Fault.Ordinary u2 := .map (number_ordinary 2)
theorem i2_ordinary : FailsOnly Fault.Ordinary i2 := .map u2_ordinary
theorem i4_ordinary : FailsOnly Fault.Ordinary i4 := .map (number_ordinary 4)

theorem i4s_ordinary : ∀ count, FailsOnly Fault.Ordinary (i4s count)
  | 0 => .pure _
  | count + 1 => .bind i4_ordinary fun _ => .bind (i4s_ordinary count) fun _ => .pure _

end CodeReader

namespace Instruction

open CodeReader

theorem readTableSwitch_ordinary : FailsOnly Fault.Ordinary readTableSwitch :=
  .bind (.modifyGet _) fun _ => .bind i4_ordinary fun _ => .bind i4_ordinary fun _ =>
      .bind i4_ordinary fun _ => by
    dsimp only
    split
    · exact .bind (.throw trivial) fun _ => .bind (i4s_ordinary _) fun _ => .pure _
    · exact .bind (i4s_ordinary _) fun _ => .pure _

theorem readLookupSwitch_ordinary : FailsOnly Fault.Ordinary readLookupSwitch :=
  .bind (.modifyGet _) fun _ => .bind i4_ordinary fun _ => .bind i4_ordinary fun _ =>
    .bind (i4s_ordinary _) fun _ => .pure _

theorem readWide_ordinary : FailsOnly Fault.Ordinary readWide :=
  .bind (.bind .get fun _ => .pure _) fun start => .bind u1_ordinary fun byte => by
    split
    · exact .throw trivial
    · refine .bind u2_ordinary fun index => ?_
      split
      · exact .bind i2_ordinary fun _ => .pure _
      · exact .pure _

theorem readOperands_ordinary (opcode : Opcode) : FailsOnly Fault.Ordinary (readOperands opcode) := by
  unfold readOperands
  split
  -- Only the syntax of what is read tells the cases apart: unfolding the readers finds no
  -- difference for long.
  all_goals first
    | with_reducible exact .map u1_ordinary
    | with_reducible exact .map i1_ordinary
    | with_reducible exact .map u2_ordinary
    | with_reducible exact .map i2_ordinary
    | with_reducible exact .map i4_ordinary
    | with_reducible exact readTableSwitch_ordinary
    | with_reducible exact readLookupSwitch_ordinary
    | with_reducible exact readWide_ordinary
    | with_reducible exact .bind u1_ordinary fun _ => .bind i1_ordinary fun _ => .pure _
    | with_reducible
        exact .bind u2_ordinary fun _ => .bind u1_ordinary fun _ => .bind u1_ordinary fun _ =>
          .pure _
    | with_reducible exact .bind u2_ordinary fun _ => .bind u1_ordinary fun _ => .pure _
    | with_reducible exact .pure _

/-- Code that cannot be decoded is reported as such. -/
theorem read_ordinary : FailsOnly Fault.Ordinary read :=
  .bind (.bind .get fun _ => .pure _) fun start => .bind u1_ordinary fun byte => by
    split
    · exact .throw trivial
    · exact .bind (readOperands_ordinary _) fun _ => .pure _

end Instruction

/-! ### Steps on a machine -/

namespace FailsOnly

variable {p : Failure → Prop} {x : VM α}

theorem fail {fault : Fault} (h : fault.Ordinary) :
    FailsOnly Failure.Ordinary (VM.fail fault : VM α) := throw h

theorem raise (className message : String) :
    FailsOnly Failure.Ordinary (VM.raise className message : VM α) := throw trivial

/-- Nothing comes after an exception. -/
theorem raise_bind {className message : String} {f : α → VM β} :
    FailsOnly Failure.Ordinary (VM.raise className message >>= f) := fun _ _ _ hrun => by
  cases hrun
  trivial

theorem ofFormat (checked : Except FormatError α) :
    FailsOnly Failure.Ordinary (VM.ofFormat checked) := by
  cases checked with
  | ok a => exact pure a
  | error e => exact throw trivial

theorem inRange (a : Option α) : FailsOnly Failure.Ordinary (VM.inRange a) := by
  cases a with
  | none => exact throw trivial
  | some a => exact pure a

theorem ofSearch (search : Search α) : FailsOnly Failure.Ordinary (VM.ofSearch search) := by
  cases search with
  | found a => exact pure _
  | absent => exact pure _
  | endless => exact throw trivial

theorem cls (id : ClassId) : FailsOnly p (VM.cls id) := bind get fun _ => pure _

theorem object (a : Address) : FailsOnly p (VM.object a) := bind get fun _ => pure _

/-- What is attempted may only end in a way that no caller sees. -/
theorem attempt (x : VM α) : FailsOnly Failure.Ordinary (VM.attempt x) := fun m e m' hrun => by
  rw [outcome_vm_attempt] at hrun
  rcases hx : outcome x m with ⟨(_ | _ | _ | _) | _, _⟩ <;> rw [hx] at hrun <;> cases hrun <;> trivial

/-- The fault of an attempt is one of the step that is attempted. -/
theorem attempt_bind {f : Except Fault α → VM β} (hx : FailsOnly Failure.Ordinary x)
    (hok : ∀ a, FailsOnly Failure.Ordinary (f (.ok a)))
    (herror : ∀ fault, fault.Ordinary → FailsOnly Failure.Ordinary (f (.error fault))) :
    FailsOnly Failure.Ordinary (VM.attempt x >>= f) := fun m e m' hrun => by
  rcases outcome_bind_error.mp hrun with hfirst | ⟨ended, m₁, hfirst, hrest⟩
  · exact attempt x m e m' hfirst
  · obtain ⟨fault, hrun, ⟨⟩⟩ | ⟨a, -, ⟨⟩⟩ := outcome_vm_attempt_completes hfirst trivial
    · exact herror fault (hx m _ _ hrun) m₁ e m' hrest
    · exact hok a m₁ e m' hrest

theorem newObject (id : ClassId) : FailsOnly p (VM.newObject id) := bind (cls id) fun _ => modifyGet _

theorem setField (a : Address) (slot : Nat) (value : Slot) :
    FailsOnly Failure.Ordinary (VM.setField a slot value) :=
  bind (object a) fun o => by
    split
    · exact pure _
    · exact bind (inRange _) fun _ => modifyGet _

end FailsOnly

/-! ### The loader -/

namespace Loader

variable {load : Load}

theorem stringOfUnits_ordinary (hload : ∀ name, FailsOnly Failure.Ordinary (load name))
    (units : Text.Units) :
    FailsOnly Failure.Ordinary (stringOfUnits load units) :=
  .bind (hload _) fun stringClass => .bind (hload _) fun charsClass => .bind .get fun m =>
      .bind (.ofSearch _) fun _ => by
    split
    · exact .raise _ _
    · exact .bind (.modifyGet _) fun _ => .bind (.newObject _) fun _ =>
        .bind (.setField _ _ _) fun _ => .pure _

theorem intern_ordinary (hload : ∀ name, FailsOnly Failure.Ordinary (load name)) (units : Text.Units) :
    FailsOnly Failure.Ordinary (intern load units) :=
  .bind .get fun m => by
    split
    · exact .pure _
    · exact .bind (stringOfUnits_ordinary hload units) fun _ => .bind (.modifyGet _) fun _ => .pure _

theorem setStatic_ordinary (id : ClassId) (slot : Nat) (value : Value) :
    FailsOnly Failure.Ordinary (setStatic id slot value) :=
  .bind (.cls id) fun _ => .bind (.inRange _) fun _ => .modifyGet _

theorem initializeField_ordinary (hload : ∀ name, FailsOnly Failure.Ordinary (load name))
    (id : ClassId) (field : Field)
    (index : UInt16) : FailsOnly Failure.Ordinary (initializeField load id field index) :=
  .bind (.cls id) fun c => .bind (.ofFormat _) fun constant => by
    split
    · exact setStatic_ordinary _ _ _
    · exact setStatic_ordinary _ _ _
    · exact setStatic_ordinary _ _ _
    · exact setStatic_ordinary _ _ _
    · exact .bind (intern_ordinary hload _) fun _ => setStatic_ordinary _ _ _
    · exact .throw trivial

theorem link_ordinary (hload : ∀ name, FailsOnly Failure.Ordinary (load name)) (id : ClassId) :
    FailsOnly Failure.Ordinary (link load id) := by
  have hinherited : FailsOnly Failure.Ordinary (inheritedSlots id) := .bind (.cls id) fun c => by
    split
    · exact .bind (.cls _) fun _ => .pure _
    · exact .pure _
  rw [link_eq]
  refine .bind (.bind hinherited fun _ => .bind (.modifyGet _) fun _ => .bind (.cls id) fun _ => ?_)
    fun _ => .modifyGet _
  exact .forM (fun ⟨field, index⟩ => initializeField_ordinary hload id field index) _

theorem loadLinked_ordinary (hload : ∀ name, FailsOnly Failure.Ordinary (load name))
    (className name : String) :
    FailsOnly Failure.Ordinary (loadLinked load className name) :=
  .bind (hload name) fun id => .bind (.cls id) fun c => by
    split
    · exact .pure _
    · exact .raise _ _

theorem attachSuper_ordinary (hload : ∀ name, FailsOnly Failure.Ordinary (load name)) (id : ClassId) :
    FailsOnly Failure.Ordinary (attachSuper load id) :=
  .bind (.cls id) fun c => by
    split
    · exact .pure _
    · refine .bind (loadLinked_ordinary hload _ _) fun superClass => .bind (.cls _) fun c => ?_
      dsimp only
      split
      · exact .raise_bind
      · exact .modifyGet _

theorem loadInterface_ordinary (hload : ∀ name, FailsOnly Failure.Ordinary (load name))
    (className name : String) :
    FailsOnly Failure.Ordinary (loadInterface load className name) :=
  .bind (loadLinked_ordinary hload className name) fun id => .bind (.cls id) fun c => by
    split
    · exact .pure _
    · exact .raise _ _

theorem attachInterfaces_ordinary (hload : ∀ name, FailsOnly Failure.Ordinary (load name))
    (id : ClassId) :
    FailsOnly Failure.Ordinary (attachInterfaces load id) :=
  .bind (.cls id) fun _ => .bind (.mapM (loadInterface_ordinary hload _) _) fun _ => .modifyGet _

theorem define_ordinary (hload : ∀ name, FailsOnly Failure.Ordinary (load name)) (file : ClassFile) :
    FailsOnly Failure.Ordinary (define load file) := by
  refine .bind .get fun m => .bind (.ofFormat _) fun c => ?_
  dsimp only
  split
  · exact .raise_bind
  · refine .bind (.modifyGet _) fun id => .bind (.modifyGet _) fun _ => .attempt_bind ?_
      (fun _ => .pure _) fun fault h => ?_
    · exact .bind (attachSuper_ordinary hload id) fun _ =>
          .bind (attachInterfaces_ordinary hload id) fun _ =>
        link_ordinary hload id
    · exact .bind (.modifyGet _) fun _ => .throw h

theorem defineArray_ordinary (hload : ∀ name, FailsOnly Failure.Ordinary (load name)) (name : String) :
    FailsOnly Failure.Ordinary (defineArray load name) := by
  unfold defineArray
  dsimp only
  split
  · exact .raise_bind
  · exact .bind (hload _) fun _ => .bind (.mapM hload _) fun _ => .bind (.modifyGet _) fun id =>
      .bind (link_ordinary hload id) fun _ => .bind (.modifyGet _) fun _ => .pure _

theorem loadWithin_ordinary : ∀ nesting name, FailsOnly Failure.Ordinary (loadWithin nesting name)
  | 0, _ => .throw trivial
  | nesting + 1, name => .bind .get fun m => by
    have hload := loadWithin_ordinary nesting
    split
    · exact .pure _
    · split
      · exact defineArray_ordinary hload name
      · split
        · exact .bind (.ofFormat _) fun file => define_ordinary hload file
        · split
          · exact define_ordinary hload _
          · exact .raise _ _

end Loader

namespace VM

/-- A load fails with what is wrong with a class. -/
theorem load_ordinary (name : String) : FailsOnly Failure.Ordinary (load name) :=
  .bind .get fun m => Loader.loadWithin_ordinary m.nesting name

theorem component?_ordinary (id : ClassId) : FailsOnly Failure.Ordinary (component? id) :=
  .bind (.cls id) fun c => by
    split
    · exact .pure _
    · split
      · exact .pure _
      · exact .bind (load_ordinary _) fun _ => .bind (.modifyGet _) fun _ => .pure _

end VM

end JavaMachine
