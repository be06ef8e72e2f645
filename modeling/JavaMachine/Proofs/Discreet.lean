import JavaMachine.Execution.Exception
import JavaMachine.Execution.Fields
import JavaMachine.Proofs.Safety

/-!
Steps that leave arrays alone.

A discreet step keeps no component class and stores no element of a reference array. As long as it
gets no dangling reference it makes none, and what goes wrong in it is no exception on its way.
Loading, resolving, making objects and strings, and storing in fields are discreet, whatever the
classes are.
-/

namespace JavaMachine

namespace VM

open Machine

variable {α β : Type} [References α] [References β] {n n' : Nat} {m m' : Machine}

/-- A step that leaves arrays alone, on a machine that has the first `n` objects. -/
structure Discreet (n : Nat) (x : VM α) : Prop where
  ordinary : FailsOnly Failure.Ordinary x
  leaves : ∀ m r m', n ≤ m.heap.size → m.Sound → m.Grounded → outcome x m = (r, m') → Completes r →
    m'.Sound ∧ m'.Grounded ∧ m.Undisturbed m' ∧ extent r ≤ m'.heap.size

namespace Discreet

variable {x : VM α}

/-- A step that leaves the machine as it is. -/
theorem of_same (hordinary : FailsOnly Failure.Ordinary x) (hsame : ∀ m, (outcome x m).2 = m)
    (h : ∀ m a, n ≤ m.heap.size → m.Grounded → (outcome x m).1 = .ok a → extent a ≤ m.heap.size) :
    Discreet n x := by
  refine ⟨hordinary, fun m r m' hn hm hgrounded hrun _ => ?_⟩
  obtain rfl : m = m' := by rw [← hsame m, hrun]
  refine ⟨hm, hgrounded, .refl m, ?_⟩
  cases r with
  | error e => exact (hordinary m e m hrun).extent_le
  | ok a => exact h m a hn hgrounded (by rw [hrun])

theorem pure {a : α} (h : extent a ≤ n) : Discreet n (pure a : VM α) :=
  of_same (.pure a) (fun _ => rfl) fun _ _ hn _ ha => by cases ha; exact Nat.le_trans h hn

theorem throw {e : Failure} (h : e.Ordinary) : Discreet n (throw e : VM α) :=
  of_same (.throw h) (fun _ => rfl) fun _ _ _ _ ha => by cases ha

theorem get : Discreet n (get : VM Machine) :=
  of_same .get (fun _ => rfl) fun _ _ _ hm ha => by cases ha; exact hm

theorem cls (id : ClassId) : Discreet n (cls id) :=
  of_same (.cls id) (fun _ => rfl) fun _ _ _ hm ha => by cases ha; exact hm.statics id

theorem object (a : Address) : Discreet n (object a) :=
  of_same (.object a) (fun _ => rfl) fun _ _ _ hm ha => by cases ha; exact hm.data a

theorem fail {fault : Fault} (h : fault.Ordinary) : Discreet n (fail fault : VM α) := throw h

theorem raise (className message : String) : Discreet n (raise className message : VM α) :=
  throw trivial

theorem ofFormat {checked : Except FormatError α} (h : ∀ a, checked = .ok a → extent a ≤ n) :
    Discreet n (ofFormat checked) := by
  cases checked with
  | ok a => exact pure (h a rfl)
  | error e => exact throw trivial

theorem inRange {a? : Option α} (h : ∀ a, a? = some a → extent a ≤ n) : Discreet n (inRange a?) := by
  cases a? with
  | none => exact throw trivial
  | some a => exact pure (h a rfl)

theorem ofSearch {search : Search α} (h : ∀ a, search = .found a → extent a ≤ n) :
    Discreet n (ofSearch search) := by
  cases search with
  | found a => exact pure (h a rfl)
  | absent => exact pure (Nat.zero_le _)
  | endless => exact throw trivial

/-- What comes after a step has at least the objects that the result of the step refers to. -/
theorem bind {f : α → VM β} (hx : Discreet n x)
    (hf : ∀ n' a, n ≤ n' → extent a ≤ n' → Discreet n' (f a)) :
    Discreet n (x >>= f) := by
  constructor
  · exact .bind hx.ordinary fun a =>
      (hf (max n (extent a)) a (Nat.le_max_left _ _) (Nat.le_max_right _ _)).ordinary
  · intro m r m' hn hm hgrounded hrun hr
    obtain ⟨fault, hfirst, rfl⟩ | ⟨a, m₁, hfirst, hrun⟩ := outcome_bind_completes hrun hr
    · exact hx.leaves m _ _ hn hm hgrounded hfirst trivial
    · obtain ⟨hm₁, hgrounded₁, hfirst', ha⟩ := hx.leaves m _ _ hn hm hgrounded hfirst trivial
      obtain ⟨hm', hgrounded', hrest, hr⟩ :=
        (hf m₁.heap.size a (Nat.le_trans hn hfirst'.heap) ha).leaves m₁ r m'
        (Nat.le_refl _) hm₁ hgrounded₁ hrun hr
      exact ⟨hm', hgrounded', hfirst'.trans hrest, hr⟩

/-- A change of a machine that always succeeds. -/
theorem changes (value : Machine → α) (after : Machine → Machine)
    (hrun : ∀ m, outcome x m = (.ok (value m), after m))
    (h : ∀ m, n ≤ m.heap.size → m.Sound → m.Grounded → (after m).Sound ∧ (after m).Grounded ∧
      m.Undisturbed (after m) ∧ extent (value m) ≤ (after m).heap.size) : Discreet n x := by
  refine ⟨.of_ok fun m => ⟨_, _, hrun m⟩, fun m r m' hn hm hgrounded hrun' _ => ?_⟩
  rw [hrun] at hrun'
  cases hrun'
  exact h m hn hm hgrounded

omit [References α] in
theorem mapM {f : α → VM β} : ∀ {n : Nat} (_ : ∀ n' a, n ≤ n' → Discreet n' (f a)) (as : List α),
      Discreet n (as.mapM f)
  | _, _, [] => pure (Nat.zero_le _)
  | n, h, a :: as => by
    rw [List.mapM_cons]
    refine bind (h n a (Nat.le_refl n)) fun n₁ b hn hb => ?_
    refine bind (mapM (fun n' a hn' => h n' a (Nat.le_trans hn hn')) as) fun n₂ bs hn hbs => pure ?_
    exact extent_list.mpr (List.forall_mem_cons.mpr ⟨Nat.le_trans hb hn, extent_list.mp hbs⟩)

/-! ### The loader -/

/-- What makes only changes of the loader is discreet. -/
theorem of_traced {gives : Machine → α → Prop} (hordinary : FailsOnly Failure.Ordinary x)
    (htraced : ∀ m, Loader.Traced m.classes.size m x gives)
    (hgives : ∀ m a, m.Grounded → gives m a → extent a ≤ m.heap.size) : Discreet n x := by
  refine ⟨hordinary, fun m r m' hn hm hgrounded hrun hr => ?_⟩
  obtain ⟨hloading, hgiven⟩ := htraced m hm (Nat.le_refl _) r m' hrun hr
  have hgrounded' := hloading.grounded hgrounded
  refine ⟨hloading.sound hm, hgrounded', hloading.undisturbed, ?_⟩
  cases r with
  | error e => exact (hordinary m e m' hrun).extent_le
  | ok a => exact hgives m' a hgrounded' (hgiven a rfl)

theorem load (name : String) : Discreet n (load name) :=
  of_traced (load_ordinary name) (fun m => load_tracing m name) fun _ _ _ _ => Nat.zero_le _

theorem define (file : ClassFile) : Discreet n (define file) :=
  of_traced (Loader.define_ordinary load_ordinary file)
    (fun _ => Loader.define_traced load_tracing file)
    fun _ _ _ _ => Nat.zero_le _

theorem stringOfUnits (units : Text.Units) : Discreet n (stringOfUnits units) :=
  of_traced (Loader.stringOfUnits_ordinary load_ordinary units)
    (fun _ => Loader.stringOfUnits_traced load_tracing units) fun _ _ _ h => h

theorem string (text : String) : Discreet n (string text) := stringOfUnits _

theorem intern (units : Text.Units) : Discreet n (intern units) :=
  of_traced (Loader.intern_ordinary load_ordinary units)
    (fun _ => Loader.intern_traced load_tracing units)
    fun _ _ hm h => h hm

/-! ### Objects -/

/-- A class comes to have other static fields, constants or marks. -/
theorem modifyClass {id : ClassId} {change : Class → Class}
    (hplace : ∀ c : Class, c.SamePlace (change c))
    (hcomponent : ∀ c : Class, (change c).component = c.component)
    (hstatics : ∀ c : Class, ∀ k, n ≤ k → extent c.statics ≤ k → extent (change c).statics ≤ k) :
    Discreet n (modifyClass id change) :=
  changes (fun _ => ⟨⟩) (·.changeClass id change) (fun _ => outcome_modifyClass id change)
      fun _ hn hm hgrounded =>
    ⟨hm.changePlaced (hplace _), hgrounded.changeClass (hstatics _ _ hn (hgrounded.statics id)),
      .changeClass (hcomponent _), Nat.zero_le _⟩

theorem setConstant (owner : ClassId) (index : UInt16) (constant : Constant) :
    Discreet n (setConstant owner index constant) :=
  modifyClass (fun _ => ⟨rfl, rfl, rfl, rfl⟩) (fun _ => rfl) fun _ _ _ h => h

theorem setStatics (id : ClassId) {statics : SlotTable} (h : extent statics ≤ n) :
    Discreet n (VM.modifyClass id ({ · with statics })) :=
  modifyClass (fun _ => ⟨rfl, rfl, rfl, rfl⟩) (fun _ => rfl) fun _ _ hn _ => Nat.le_trans h hn

theorem storeStatics (id : ClassId) (slot : Nat) {slots : List Slot} (h : extent slots ≤ n) :
    Discreet n (storeStatics id slot slots) :=
  .bind (cls id) fun _ _ hn hc => .bind (inRange fun _ hset =>
    SlotTable.extent_setAll? hc (Nat.le_trans h hn) hset) fun _ _ _ hstatics => setStatics id hstatics

/-- A new object that holds no element yet. -/
theorem allocate {object : Object} (hdata : extent object.data ≤ n)
    (hnew : ∀ elements b, object.data = .references elements → some b ∉ elements) :
    Discreet n (allocate object) :=
  changes (fun m => ⟨m.heap.size⟩) (·.withObject object) (fun _ => outcome_allocate object)
      fun _ hn hm hgrounded =>
    ⟨hm.of_eq rfl rfl, hgrounded.withObject (Nat.le_trans hdata hn), .withObject hnew, by simp [extent]⟩

theorem newObject (id : ClassId) : Discreet n (newObject id) :=
  .bind (cls id) fun _ _ _ _ =>
    allocate (extent_le_of_zero (SlotTable.extent_zeros _)) fun _ _ h => by cases h

/-- The elements of a new array are zero, or null. -/
theorem newArray?_blank {name : String} {length : Nat} {data : ObjectData}
    (h : ObjectData.newArray? name length = some data) :
    extent data = 0 ∧ ∀ elements b, data = .references elements → some b ∉ elements := by
  have hnull : ∀ r ∈ Array.replicate length (none : Option Address), r = none := fun r hr =>
    (Array.mem_replicate.mp hr).2
  unfold ObjectData.newArray? at h
  split at h <;> cases h <;> first
    | exact ⟨rfl, fun _ _ h => by cases h⟩
    | exact ⟨Nat.le_zero.mp (extent_array.mpr fun r hr => by rw [hnull r hr]; exact Nat.le_refl _),
        fun _ b h hb => by cases h; cases hnull _ hb⟩

theorem newArray (id : ClassId) (length : Nat) : Discreet n (newArray id length) :=
  .bind (cls id) fun _ c _ _ => by
    dsimp only
    split
    · rename_i hdata
      obtain ⟨hextent, hblank⟩ := newArray?_blank hdata
      exact allocate (extent_le_of_zero hextent) hblank
    · exact fail trivial

/-- The instance fields of an object are replaced. -/
theorem setFields (a : Address) {fields : SlotTable} (h : extent fields ≤ n) :
    Discreet n (setData a (.fields fields)) :=
  changes (fun _ => ⟨⟩) (·.withData a (.fields fields)) (fun _ => outcome_setData a _)
      fun _ hn hm hgrounded =>
    ⟨hm.of_eq rfl rfl, hgrounded.withData (Nat.le_trans h hn), .withData fun _ _ h => (by cases h),
      Nat.zero_le _⟩

theorem extent_fields {data : ObjectData} {fields : SlotTable} (h : extent data ≤ n)
    (hfields : data.fields? = some fields) :
    extent fields ≤ n := by
  cases data <;> cases hfields
  exact h

theorem field? (a : Address) (slot : Nat) : Discreet n (field? a slot) :=
  .bind (object a) fun _ o _ ho => by
    split
    · exact pure (Nat.zero_le _)
    · rename_i hfields
      exact .bind (inRange fun _ => SlotTable.extent_slot? (extent_fields ho hfields))
        fun _ _ _ hslot => pure hslot

theorem setField (a : Address) (slot : Nat) {value : Slot} (h : extent value ≤ n) :
    Discreet n (setField a slot value) :=
  .bind (object a) fun _ o hn ho => by
    split
    · exact pure (Nat.zero_le _)
    · rename_i hfields
      exact .bind (inRange fun _ => SlotTable.extent_set? (extent_fields ho hfields)
        (Nat.le_trans h hn))
        fun _ _ _ hset => setFields a hset

theorem instanceFields (a : Address) : Discreet n (instanceFields a) :=
  .bind get fun _ m _ hm => by
    split
    · rename_i hfields
      exact pure (extent_fields ((Machine.extent_le.mp hm).2.2 a) hfields)
    · exact raise _ _

theorem storeFields (a : Address) (slot : Nat) {slots : List Slot} (h : extent slots ≤ n) :
    Discreet n (storeFields a slot slots) :=
  .bind (instanceFields a) fun _ _ hn hfields => .bind (inRange fun _ hset =>
    SlotTable.extent_setAll? hfields (Nat.le_trans h hn) hset) fun _ _ _ hset => setFields a hset

theorem fieldSlots {table : SlotTable} (field : Field) (h : extent table ≤ n) :
    Discreet n (Exec.fieldSlots table field) :=
  mapM (fun _ _ hn => inRange fun _ => SlotTable.extent_slot? (Nat.le_trans h hn)) _

theorem unitsOfString? (a : Address) : Discreet n (unitsOfString? a) := by
  unfold VM.unitsOfString?
  refine .bind get fun _ m _ _ => ?_
  have hnone : ∀ {n : Nat}, Discreet n (Pure.pure none : VM (Option Text.Units)) := pure (Nat.zero_le _)
  have hunits : ∀ {n : Nat} {units : Text.Units},
      Discreet n (Pure.pure (some units) : VM (Option Text.Units)) :=
    pure (extent_list.mpr fun _ _ => Nat.zero_le _)
  split
  · exact hnone
  · refine .bind (ofSearch fun _ _ => Nat.zero_le _) fun _ found _ _ => ?_
    split
    · exact hnone
    · refine .bind (field? a _) fun _ slot _ _ => ?_
      split
      · split
        · exact hunits
        · exact hnone
      · exact hnone

/-! ### References -/

theorem constantAt (owner : ClassId) (index : UInt16) : Discreet n (constantAt owner index) :=
  .bind (cls owner) fun _ _ _ _ => ofFormat fun _ _ => Nat.zero_le _

theorem target (ref : ClassRef) : Discreet n (target ref) := by
  unfold VM.target
  split
  · exact pure (Nat.zero_le _)
  · exact load _

theorem wrongKind (index : UInt16) (problem : IndexProblem) :
    Discreet n (wrongKind index problem : VM α) := fail trivial

theorem resolveClass (owner : ClassId) (index : UInt16) : Discreet n (resolveClass owner index) :=
  .bind (constantAt owner index) fun _ constant _ _ => by
    split
    · exact .bind (target _) fun _ id _ _ => .bind (setConstant owner index _) fun _ _ _ _ =>
        pure (Nat.zero_le _)
    · exact wrongKind _ _

/-- A member refers to no object. -/
theorem resolveMember {ref : MemberRef α} {keep : MemberRef α → VM Unit}
    {search : Machine → ClassId → VM α}
    (hmember : ∀ member : α, extent member = 0) (hkeep : ∀ n ref, Discreet n (keep ref))
    (hsearch : ∀ n m id, Discreet n (search m id)) : Discreet n (resolveMember ref keep search) := by
  have hpair : ∀ {n : Nat} {id : ClassId} {member : α}, extent (id, member) ≤ n := fun {_ _ member} =>
    extent_pair.mpr ⟨Nat.zero_le _, extent_le_of_zero (hmember member)⟩
  refine .bind (target _) fun _ id _ _ => .bind (hkeep _ _) fun _ _ _ _ => ?_
  dsimp only
  split
  · exact pure hpair
  · exact .bind get fun _ m _ _ => .bind (hsearch _ m id) fun _ member _ _ =>
      .bind (hkeep _ _) fun _ _ _ _ => pure hpair

theorem searchField (ref : MemberRef FieldId) (m : Machine) (id : ClassId) :
    Discreet n (searchField ref m id) := by
  refine .bind (ofSearch fun _ _ => Nat.zero_le _) fun _ found _ _ => ?_
  split
  · exact pure (Nat.zero_le _)
  · exact raise _ _

theorem searchMethod (ref : MemberRef Method) (m : Machine) (id : ClassId) :
    Discreet n (searchMethod ref m id) := by
  unfold VM.searchMethod
  split
  · exact raise _ _
  · refine .bind (ofSearch fun _ _ => Nat.zero_le _) fun _ found _ _ => ?_
    split
    · exact pure (Nat.zero_le _)
    · exact raise _ _

theorem searchInterfaceMethod (ref : MemberRef Method) (m : Machine) (id : ClassId) :
    Discreet n (searchInterfaceMethod ref m id) := by
  unfold VM.searchInterfaceMethod
  dsimp only
  split
  · exact raise _ _
  · split
    · exact pure (Nat.zero_le _)
    · exact raise _ _

theorem resolveField (owner : ClassId) (index : UInt16) : Discreet n (resolveField owner index) :=
  .bind (constantAt owner index) fun _ constant _ _ => by
    split
    · exact .bind (resolveMember (fun _ => rfl) (fun _ _ => setConstant owner index _)
        fun _ => searchField _)
        fun _ _ _ _ => pure (Nat.zero_le _)
    · exact wrongKind _ _

theorem resolveMethod (owner : ClassId) (index : UInt16) : Discreet n (resolveMethod owner index) :=
  .bind (constantAt owner index) fun _ constant _ _ => by
    split
    · exact resolveMember (fun _ => rfl) (fun _ _ => setConstant owner index _) fun _ => searchMethod _
    · exact resolveMember (fun _ => rfl) (fun _ _ => setConstant owner index _) fun _ =>
        searchInterfaceMethod _
    · exact wrongKind _ _

/-! ### Exceptions -/

theorem throwable (className message : String) : Discreet n (throwable className message) :=
  .bind (load className) fun _ id _ _ => .bind (newObject id) fun _ exception _ hexception =>
    .bind get fun _ m hn _ => .bind (ofSearch fun _ _ => Nat.zero_le _) fun _ found hfound _ => by
      have hexception := Nat.le_trans hexception (Nat.le_trans hn hfound)
      split
      · exact pure hexception
      · exact .bind (string message) fun _ text hn htext =>
            .bind (setField exception _ htext) fun _ _ hn' _ =>
          pure (Nat.le_trans hexception (Nat.le_trans hn hn'))

theorem detailMessage (exception : Address) : Discreet n (detailMessage exception) :=
  .bind get fun _ m _ _ => .bind (ofSearch fun _ _ => Nat.zero_le _) fun _ found _ _ => by
    split
    · exact pure (Nat.zero_le _)
    · refine .bind (field? exception _) fun _ slot _ _ => ?_
      split
      · exact pure (Nat.zero_le _)
      · exact .bind (unitsOfString? _) fun _ _ _ _ => pure (Nat.zero_le _)

end Discreet

end VM

end JavaMachine
