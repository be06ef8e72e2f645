import JavaMachine.Proofs.Defining

/-!
Loads without a bound on their nesting.

The bound is there to make the loader a recursion that ends. With a higher bound a load does the
same, unless it runs out of the lower one (`Loader.loadWithin_approximates`), and that does not
happen on a sound machine. So a load is what the loader says it is, with loads in place of the
nested loads (`VM.load_unfolds`).
-/

namespace JavaMachine

variable {α β : Type} {directories : List Directory} {m : Machine}

/-- On machines with these directories, which stay, `y` does what `x` does, unless `x` runs out of
fuel. -/
def VM.Approximates (directories : List Directory) (x y : VM α) : Prop :=
  ∀ m : Machine, m.directories = directories →
  (outcome x m).1 = .error .outOfFuel ∨ outcome y m = outcome x m ∧
  (outcome x m).2.directories = directories

namespace VM.Approximates

variable {x y : VM α}

/-- A step that leaves the directories alone. -/
theorem same (h : ∀ m, (outcome x m).2.directories = m.directories) : Approximates directories x x :=
  fun m hm => .inr ⟨rfl, (h m).trans hm⟩

theorem pure (a : α) : Approximates directories (pure a : VM α) (pure a) := same fun _ => rfl

theorem throw (e : Failure) : Approximates directories (throw e : VM α) (throw e) := same fun _ => rfl

theorem raise (className message : String) :
    Approximates directories (VM.raise className message : VM α) (VM.raise className message) := throw _

/-- Nothing comes after an exception. -/
theorem raise_bind {f g : α → VM β} (className message : String) :
    Approximates directories (VM.raise className message >>= f) (VM.raise className message >>= g) :=
  fun _ hm => .inr ⟨rfl, hm⟩

theorem get : Approximates directories (get : VM Machine) get := same fun _ => rfl

theorem modifyGet {change : Machine → α × Machine} (h : ∀ m, (change m).2.directories = m.directories) :
    Approximates directories (modifyGet change : VM α) (modifyGet change) := same h

theorem bind {f g : α → VM β} (hx : Approximates directories x y)
    (hf : ∀ a, Approximates directories (f a) (g a)) :
    Approximates directories (x >>= f) (y >>= g) := by
  intro m hm
  rw [outcome_bind x f, outcome_bind y g]
  rcases hx m hm with hfuel | ⟨hsame, hkept⟩
  · -- Nothing comes after a step that is out of fuel.
    left
    rcases hrun : outcome x m with ⟨e | a, m₁⟩ <;> rw [hrun] at hfuel <;> cases hfuel
    rfl
  · rw [hsame]
    rcases hrun : outcome x m with ⟨e | a, m₁⟩ <;> rw [hrun] at hkept
    · exact .inr ⟨rfl, hkept⟩
    · exact hf a m₁ hkept

/-- To be out of fuel is no fault, so an attempt does not catch it. -/
theorem attempt (hx : Approximates directories x y) :
    Approximates directories (attempt x) (attempt y) := by
  intro m hm
  rw [outcome_vm_attempt, outcome_vm_attempt]
  rcases hx m hm with hfuel | ⟨hsame, hkept⟩
  · left
    rcases hrun : outcome x m with ⟨e | a, m₁⟩ <;> rw [hrun] at hfuel <;> cases hfuel
    rfl
  · rw [hsame]
    rcases hrun : outcome x m with ⟨(_ | _ | _ | _) | a, m₁⟩ <;> rw [hrun] at hkept <;>
      exact .inr ⟨rfl, hkept⟩

theorem ofFormat (checked : Except FormatError α) :
    Approximates directories (VM.ofFormat checked) (VM.ofFormat checked) := by
  cases checked with
  | ok a => exact pure a
  | error e => exact throw _

theorem ofSearch (search : Search α) :
    Approximates directories (VM.ofSearch search) (VM.ofSearch search) := by
  cases search with
  | found a => exact pure _
  | absent => exact pure _
  | endless => exact throw _

theorem inRange (a? : Option α) : Approximates directories (VM.inRange a?) (VM.inRange a?) := by
  cases a? with
  | none => exact throw _
  | some a => exact pure a

theorem cls (id : ClassId) : Approximates directories (VM.cls id) (VM.cls id) := same fun _ => rfl

theorem object (a : Address) : Approximates directories (VM.object a) (VM.object a) := same fun _ => rfl

theorem setField (a : Address) (slot : Nat) (value : Slot) :
    Approximates directories (VM.setField a slot value) (VM.setField a slot value) :=
  bind (object a) fun o => by
    split
    · exact pure _
    · exact bind (inRange _) fun _ => modifyGet fun _ => rfl

theorem mapM {f g : α → VM β} (h : ∀ a, Approximates directories (f a) (g a)) :
    ∀ as : List α, Approximates directories (as.mapM f) (as.mapM g)
  | [] => pure []
  | a :: as => by
    rw [List.mapM_cons, List.mapM_cons]
    exact bind (h a) fun b => bind (mapM h as) fun bs => pure (b :: bs)

theorem forM {f g : α → VM PUnit} (h : ∀ a, Approximates directories (f a) (g a)) :
    ∀ as : List α, Approximates directories (as.forM f) (as.forM g)
  | [] => pure PUnit.unit
  | a :: as => by
    rw [List.forM, List.forM]
    exact bind (h a) fun _ => forM h as

end VM.Approximates

namespace Loader

open VM (Approximates)

/-! ### Steps of the loader -/

section

variable {load load' : Load} (hload : ∀ name, Approximates directories (load name) (load' name))

include hload

theorem stringOfUnits_approximates (units : Text.Units) :
    Approximates directories (stringOfUnits load units) (stringOfUnits load' units) :=
  .bind (hload _) fun stringClass => .bind (hload _) fun charsClass => .bind .get fun m =>
      .bind (.ofSearch _) fun found => by
    split
    · exact .raise _ _
    · exact .bind (.modifyGet fun _ => rfl) fun _ => .bind (.same fun _ => rfl) fun _ =>
        .bind (.setField _ _ _) fun _ => .pure _

theorem intern_approximates (units : Text.Units) :
    Approximates directories (intern load units) (intern load' units) :=
  .bind .get fun m => by
    split
    · exact .pure _
    · exact .bind (stringOfUnits_approximates hload units) fun _ =>
        .bind (.modifyGet fun _ => rfl) fun _ => .pure _

theorem initializeField_approximates (id : ClassId) (field : Field) (index : UInt16) :
    Approximates directories (initializeField load id field index)
      (initializeField load' id field index) := by
  have hset : ∀ value, Approximates directories (setStatic id field.slot value)
      (setStatic id field.slot value) :=
    fun _ => .bind (.cls id) fun _ => .bind (.inRange _) fun _ => .modifyGet fun _ => rfl
  refine .bind (.cls id) fun c => .bind (.ofFormat _) fun constant => ?_
  split
  · exact hset _
  · exact hset _
  · exact hset _
  · exact hset _
  · exact .bind (intern_approximates hload _) fun _ => hset _
  · exact .throw _

theorem link_approximates (id : ClassId) : Approximates directories (link load id) (link load' id) := by
  have hinherited : Approximates directories (inheritedSlots id) (inheritedSlots id) :=
      .bind (.cls id) fun c => by
    split
    · exact .bind (.cls _) fun _ => .pure _
    · exact .pure _
  rw [link_eq, link_eq]
  refine .bind (.bind hinherited fun _ => .bind (.modifyGet fun _ => rfl) fun _ => .bind (.cls id)
      fun _ => ?_) fun _ =>
    .modifyGet fun _ => rfl
  exact .forM (fun ⟨field, index⟩ => initializeField_approximates hload id field index) _

theorem loadLinked_approximates (className name : String) :
    Approximates directories (loadLinked load className name) (loadLinked load' className name) :=
  .bind (hload name) fun id => .bind (.cls id) fun c => by
    split
    · exact .pure _
    · exact .raise _ _

theorem attachSuper_approximates (id : ClassId) :
    Approximates directories (attachSuper load id) (attachSuper load' id) :=
  .bind (.cls id) fun c => by
    split
    · exact .pure _
    · refine .bind (loadLinked_approximates hload _ _) fun superClass => .bind (.cls _) fun c => ?_
      dsimp only
      split
      · exact .raise_bind _ _
      · exact .modifyGet fun _ => rfl

theorem attachInterfaces_approximates (id : ClassId) :
    Approximates directories (attachInterfaces load id) (attachInterfaces load' id) := by
  have hinterface : ∀ className name,
      Approximates directories (loadInterface load className name)
      (loadInterface load' className name) := by
    intro className name
    refine .bind (loadLinked_approximates hload className name) fun id => .bind (.cls id) fun c => ?_
    split
    · exact .pure _
    · exact .raise _ _
  exact .bind (.cls id) fun c => .bind (.mapM (hinterface c.name) _) fun _ => .modifyGet fun _ => rfl

theorem define_approximates (file : ClassFile) :
    Approximates directories (define load file) (define load' file) := by
  have hcomplete : ∀ id, Approximates directories (complete load id) (complete load' id) := fun id =>
    .bind (attachSuper_approximates hload id) fun _ =>
        .bind (attachInterfaces_approximates hload id) fun _ =>
      link_approximates hload id
  refine .bind .get fun m => .bind (.ofFormat _) fun c => ?_
  dsimp only
  split
  · exact .raise_bind _ _
  · refine .bind (.modifyGet fun _ => rfl) fun id => .bind (.modifyGet fun _ => rfl) fun _ => ?_
    refine .bind (hcomplete id).attempt fun ended => ?_
    split
    · exact .pure _
    · exact .bind (.modifyGet fun _ => rfl) fun _ => .throw _

theorem defineArray_approximates (name : String) :
    Approximates directories (defineArray load name) (defineArray load' name) := by
  rw [defineArray_eq, defineArray_eq]
  split
  · exact .raise _ _
  · have hparents : Approximates directories (arrayParents load) (arrayParents load') :=
      .bind (hload _) fun _ => .bind (.mapM hload _) fun _ => .pure _
    exact .bind hparents fun parents => .bind
      (.bind (.modifyGet fun _ => rfl) fun id => .bind (link_approximates hload id)
          fun _ => .pure _) fun _ =>
        .bind (.modifyGet fun _ => rfl) fun _ => .pure _

end

/-! ### Loads -/

/-- What a load does, by way of other loads. -/
def unfolded (load : Load) (name : String) : VM ClassId := do
  let m ← get
  match m.lookup? name with
  | some id => return id
  | none =>
    if ArrayName.isArray name then defineArray load name
    else match m.classFile? name with
      | some bytes => defineBytes load bytes
      | none => match Library.find? name with
        | some file => define load file
        | none => VM.raise ExceptionName.classNotFound name

theorem unfolded_approximates {load load' : Load}
    (hload : ∀ name, Approximates directories (load name) (load' name))
    (name : String) : Approximates directories (unfolded load name) (unfolded load' name) := by
  refine .bind .get fun m => ?_
  split
  · exact .pure _
  split
  · exact defineArray_approximates hload name
  split
  · exact .bind (.ofFormat _) fun file => define_approximates hload file
  split
  · exact define_approximates hload _
  · exact .raise _ _

/-- With one more load inside of each other a load does the same, unless it was out of fuel. -/
theorem loadWithin_approximates : ∀ nesting name,
    Approximates directories (loadWithin nesting name) (loadWithin (nesting + 1) name)
  | 0, _ => fun _ _ => .inl rfl
  | nesting + 1, name => unfolded_approximates (loadWithin_approximates nesting) name

end Loader

namespace VM

/-- A load is what the loader does by way of other loads. -/
theorem load_unfolds (hm : m.Sound) (name : String) :
    outcome (load name) m = outcome (Loader.unfolded load name) m := by
  obtain ⟨nesting, hnesting⟩ : ∃ nesting, m.nesting = nesting + 1 := ⟨_, rfl⟩
  have hbounded : ∀ m' : Machine, m'.directories = m.directories →
      ∀ name, outcome (load name) m' = outcome (Loader.loadWithin (nesting + 1) name) m' := by
    intro m' hdirectories name
    have hsame : m'.nesting = m.nesting := by rw [Machine.nesting, hdirectories, Machine.nesting]
    unfold load
    rw [outcome_bind_of_ok (outcome_get m'), hsame, hnesting]
  -- The nested loads have one less to go, and the bound of a load depends on the directories alone.
  have hnested : ∀ name, Approximates m.directories (Loader.loadWithin nesting name) (load name) := by
    intro name m' hm'
    rw [hbounded m' hm']
    exact Loader.loadWithin_approximates nesting name m' hm'
  have hfuel : (outcome (Loader.loadWithin (nesting + 1) name) m).1 ≠ .error .outOfFuel := by
    rw [← hbounded m rfl]
    intro hspent
    rcases hrun : outcome (load name) m with ⟨r, m'⟩
    rw [hrun] at hspent
    cases load_lawful (2 * m.pending) m name hm (Nat.le_refl _) r m' hrun <;> cases hspent
  rw [hbounded m rfl]
  exact ((Loader.unfolded_approximates hnested name m rfl).resolve_left hfuel).1.symm

/-- A load of an array class that is not known yet makes it. -/
theorem outcome_load_of_array {name : String} (hm : m.Sound) (hfree : m.lookup? name = none)
    (harray : ArrayName.isArray name = true) : outcome (load name) m =
      outcome (Loader.defineArray load name) m := by
  rw [load_unfolds hm, Loader.unfolded, outcome_bind_of_ok (outcome_get m), hfree, if_pos harray]

end VM

end JavaMachine
