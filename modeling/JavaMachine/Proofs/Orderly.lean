import JavaMachine.Interpreter
import JavaMachine.Proofs.Program
import JavaMachine.Proofs.Resolving

/-!
What code outside of the loader may do to a machine.

`VM.Orderly` is what hosts and natives do: they load and define classes, make objects, arrays and
strings, and store in fields and elements. `VM.Tame` is said of everything that instructions and the
interpreter do to a machine: it is a program, and steady as long as the natives are orderly.
-/

namespace JavaMachine

namespace VM

/-- Steps put together from the operations that a machine offers to hosts and natives. -/
inductive Orderly : {α : Type} → VM α → Prop where
  | pure {α : Type} (a : α) : Orderly (pure a : VM α)
  | throw {α : Type} (e : Failure) : Orderly (throw e : VM α)
  | get : Orderly (get : VM Machine)
  | bind {α β : Type} {x : VM α} {f : α → VM β} (first : Orderly x) (second : ∀ a, Orderly (f a)) :
      Orderly (x >>= f)
  | attempt {α : Type} {x : VM α} (step : Orderly x) : Orderly (attempt x)
  | load (name : String) : Orderly (load name)
  | define (file : ClassFile) : Orderly (define file)
  | create {β : Type} (name : String) {f : ClassId → Address → VM β} (next : ∀ id a, Orderly (f id a)) :
      Orderly (load name >>= fun id => newObject id >>= f id)
  | newArray (id : ClassId) (length : Nat) : Orderly (newArray id length)
  | stringOfUnits (units : Text.Units) : Orderly (stringOfUnits units)
  | intern (units : Text.Units) : Orderly (intern units)
  | setField (a : Address) (slot : Nat) (value : Slot) : Orderly (setField a slot value)
  | storeElement (a : Address) (isBoolean : Bool) (index : Nat) (value : Value) :
      Orderly (modifyData a (·.store isBoolean index value))
  | component? (id : ClassId) : Orderly (component? id)
  | arrayCopy (r : ArrayCopy.Range) (source destination : Address) :
      Orderly (ArrayCopy.copy r source destination)

theorem Orderly.ofSearch {α : Type} (search : Search α) : Orderly (ofSearch search) := by
  cases search with
  | found a => exact .pure _
  | absent => exact .pure _
  | endless => exact .throw _

end VM

/-- Every native is orderly, and calls no other natives. -/
def Natives.Orderly (natives : Natives) : Prop :=
  ∀ key native, (key, native) ∈ natives.entries → ∀ call, VM.Orderly (native call)

/-- What holds of all natives still does when another one is registered that it holds of. -/
theorem Natives.forall_register {natives : Natives} {native : Native} {p : Native → Prop}
    (h : ∀ key native, (key, native) ∈ natives.entries → p native) (hnative : p native)
    (className name descriptor : String) (key : String) (other : Native)
    (hmem : (key, other) ∈ (natives.register className name descriptor native).entries) : p other := by
  rcases List.mem_cons.mp hmem with heq | hmem
  · cases heq
    exact hnative
  · exact h key other (List.mem_filter.mp hmem).1

/-- The native of a method is a registered one, or there is none. -/
theorem Natives.find_cases (natives : Natives) (className name descriptor : String) :
    (∃ key native, (key, native) ∈ natives.entries ∧
      natives.find className name descriptor = pure native) ∨
      ∃ message, natives.find className name descriptor =
        VM.raise ExceptionName.unsatisfiedLink message := by
  unfold find
  dsimp only
  split
  · rename_i native hlookup
    obtain ⟨before, after, hentries, -⟩ := List.lookup_eq_some_iff.mp hlookup
    exact .inl ⟨key className name descriptor, native, by rw [hentries]; simp, rfl⟩
  · exact .inr ⟨_, rfl⟩

namespace VM

/-- A program that is steady as long as the natives it calls are orderly. -/
structure Tame (natives : Natives) {α : Type} (x : VM α) : Prop where
  program : Program natives x
  steady : natives.Orderly → Steady x

variable {natives : Natives} {α β : Type}

namespace Tame

theorem pure (a : α) : Tame natives (pure a : VM α) := ⟨.pure a, fun _ => .pure a⟩

theorem throw (e : Failure) : Tame natives (throw e : VM α) := ⟨.throw e, fun _ => .throw e⟩

theorem get : Tame natives (get : VM Machine) := ⟨.get, fun _ => .get⟩

theorem bind {x : VM α} {f : α → VM β} (first : Tame natives x) (second : ∀ a, Tame natives (f a)) :
    Tame natives (x >>= f) :=
  ⟨.bind first.program fun a => (second a).program, fun h => .bind (first.steady h) fun a =>
    (second a).steady h⟩

theorem attempt {x : VM α} (step : Tame natives x) : Tame natives (attempt x) :=
  ⟨.attempt step.program, fun h => .attempt (step.steady h)⟩

theorem load (name : String) : Tame natives (load name) := ⟨.load name, fun _ => .load name⟩

theorem define (file : ClassFile) : Tame natives (define file) := ⟨.define file, fun _ => .define file⟩

theorem component? (id : ClassId) : Tame natives (component? id) :=
  ⟨.component? id, fun _ => .component? id⟩

theorem create (name : String) {f : ClassId → Address → VM β} (next : ∀ id a, Tame natives (f id a)) :
    Tame natives (VM.load name >>= fun id => newObject id >>= f id) :=
  ⟨.bind (.load name) fun id => .bind (.newObject id) fun a => (next id a).program,
    fun h => .create name fun id a => (next id a).steady h⟩

theorem newArray (id : ClassId) (length : Nat) : Tame natives (newArray id length) :=
  ⟨.newArray id length, fun _ => .newArray id length⟩

theorem stringOfUnits (units : Text.Units) : Tame natives (stringOfUnits units) :=
  ⟨.stringOfUnits units, fun _ => .stringOfUnits units⟩

theorem intern (units : Text.Units) : Tame natives (intern units) :=
  ⟨.intern units, fun _ => .intern units⟩

theorem setField (a : Address) (slot : Nat) (value : Slot) : Tame natives (setField a slot value) :=
  ⟨.setField a slot value, fun _ => .setField a slot value⟩

theorem storeElement (a : Address) (isBoolean : Bool) (index : Nat) (value : Value) :
    Tame natives (modifyData a (·.store isBoolean index value)) :=
  ⟨.modifyData a _, fun _ => .storeElement a isBoolean index value⟩

/-! ### Composition -/

theorem mapM {f : α → VM β} (h : ∀ a, Tame natives (f a)) : ∀ as : List α, Tame natives (as.mapM f)
  | [] => .pure []
  | a :: as => by
    rw [List.mapM_cons]
    exact (h a).bind fun b => (mapM h as).bind fun bs => .pure (b :: bs)

theorem findM? {p : α → VM Bool} (h : ∀ a, Tame natives (p a)) :
    ∀ as : List α, Tame natives (as.findM? p)
  | [] => .pure none
  | a :: as => by
    rw [List.findM?]
    exact (h a).bind fun found => by cases found; exact findM? h as; exact .pure _

theorem fail (fault : Fault) : Tame natives (fail fault : VM α) := .throw _

theorem raise (className message : String) : Tame natives (raise className message : VM α) := .throw _

/-- Nothing comes after an exception. -/
theorem raise_bind (className message : String) (f : α → VM β) :
    Tame natives (VM.raise className message >>= f) := .throw (.fault (.exception className message))

theorem ofFormat (checked : Except FormatError α) : Tame natives (ofFormat checked) := by
  cases checked with
  | ok a => exact .pure a
  | error e => exact fail _

theorem ofSearch (search : Search α) : Tame natives (ofSearch search) := by
  cases search with
  | found a => exact .pure _
  | absent => exact .pure _
  | endless => exact .throw _

theorem inRange (a : Option α) : Tame natives (inRange a) := by
  cases a with
  | none => exact .throw _
  | some a => exact .pure a

theorem cls (id : ClassId) : Tame natives (cls id) := .bind .get fun _ => .pure _

theorem object (a : Address) : Tame natives (object a) := .bind .get fun _ => .pure _

/-! ### Objects -/

theorem field? (a : Address) (slot : Nat) : Tame natives (field? a slot) :=
  .bind (object a) fun o => by
    split
    · exact .pure none
    · exact .bind (inRange _) fun _ => .pure _

/-! ### Strings -/

theorem string (text : String) : Tame natives (string text) := stringOfUnits _

theorem unitsOfString? (a : Address) : Tame natives (unitsOfString? a) := by
  unfold VM.unitsOfString?
  refine .bind .get fun m => ?_
  split
  · exact .pure _
  · refine .bind (ofSearch _) fun found => ?_
    split
    · exact .pure _
    · refine .bind (field? a _) fun slot => ?_
      split
      · split <;> exact .pure _
      · exact .pure _

/-! ### Classes and references to them -/

theorem isAssignableWithin : ∀ steps target source,
      Tame natives (isAssignableWithin steps target source)
  | 0, _, _ => .throw _
  | steps + 1, target, source => by
    refine .bind .get fun m => ?_
    split
    · exact .pure _
    · split
      · exact .bind (ofSearch _) fun _ => .pure _
      · split
        · exact .pure _
        · refine .bind (.attempt (component? target)) fun targetComponent =>
            .bind (.attempt (component? source)) fun sourceComponent => ?_
          split
          · exact isAssignableWithin steps _ _
          · exact .pure _
          · exact .pure _

theorem isAssignable (target source : ClassId) : Tame natives (isAssignable target source) :=
  .bind .get fun _ => isAssignableWithin _ _ _

theorem isInstance (a : Address) (id : ClassId) : Tame natives (isInstance a id) :=
  .bind .get fun _ => isAssignable _ _

theorem constantAt (owner : ClassId) (index : UInt16) : Tame natives (constantAt owner index) :=
  .bind (cls owner) fun _ => ofFormat _

/-! ### References -/

theorem target (ref : ClassRef) : Program natives (target ref) := by
  unfold VM.target
  split
  · exact .pure _
  · exact .load _

theorem resolveClass (owner : ClassId) (index : UInt16) : Tame natives (resolveClass owner index) := by
  refine ⟨.bind (constantAt owner index).program fun constant => ?_,
    fun _ m r m' hm => (resolveClass_steady hm owner index).steady r m' hm⟩
  split
  · exact .bind (target _) fun id => .bind (.setConstant owner index _) fun _ => .pure id
  · exact .fail _

theorem resolveMember (ref : MemberRef α) {keep : MemberRef α → VM Unit}
    {search : Machine → ClassId → VM α}
    (hkeep : ∀ ref, Program natives (keep ref)) (hsearch : ∀ m id, Program natives (search m id)) :
    Program natives (resolveMember ref keep search) :=
  .bind (target _) fun id => .bind (hkeep _) fun _ => by
    split
    · exact .pure _
    · exact .bind .get fun m => .bind (hsearch m id) fun member => .bind (hkeep _) fun _ => .pure _

theorem searchField (ref : MemberRef FieldId) (m : Machine) (id : ClassId) :
    Program natives (searchField ref m id) := by
  refine .bind (.ofSearch _) fun found => ?_
  split
  · exact .pure _
  · exact .raise _ _

theorem searchMethod (ref : MemberRef Method) (m : Machine) (id : ClassId) :
    Program natives (searchMethod ref m id) := by
  unfold VM.searchMethod
  split
  · exact .raise _ _
  · refine .bind (.ofSearch _) fun found => ?_
    split
    · exact .pure _
    · exact .raise _ _

theorem searchInterfaceMethod (ref : MemberRef Method) (m : Machine) (id : ClassId) :
    Program natives (searchInterfaceMethod ref m id) := by
  unfold VM.searchInterfaceMethod
  dsimp only
  split
  · exact .raise _ _
  · split
    · exact .pure _
    · exact .raise _ _

theorem resolveField (owner : ClassId) (index : UInt16) : Tame natives (resolveField owner index) := by
  refine ⟨.bind (constantAt owner index).program fun constant => ?_,
    fun _ m r m' hm => (resolveField_steady hm owner index).steady r m' hm⟩
  split
  · exact .bind (resolveMember _ (fun _ => .setConstant owner index _) (searchField _)) fun _ => .pure _
  · exact .fail _

theorem resolveMethod (owner : ClassId) (index : UInt16) :
    Tame natives (resolveMethod owner index) := by
  refine ⟨.bind (constantAt owner index).program fun constant => ?_,
    fun _ m r m' hm => (resolveMethod_steady hm owner index).steady r m' hm⟩
  split
  · exact resolveMember _ (fun _ => .setConstant owner index _) (searchMethod _)
  · exact resolveMember _ (fun _ => .setConstant owner index _) (searchInterfaceMethod _)
  · exact .fail _

/-! ### Arrays, fields and constants -/

theorem multiArray (id : ClassId) (count : Nat) (inner : List Nat) :
    Tame natives (multiArray id count inner) := by
  induction inner generalizing id count with
  | nil => exact newArray id count
  | cons next inner ih =>
    constructor
    · refine .bind (.newArray id count) fun array => .bind (component? id).program fun component => ?_
      split
      · exact .bind (.cls id) fun _ => .fail _
      · refine .bind (.object array) fun data => ?_
        split
        · exact .bind (.mapM (fun _ => (ih _ next).program) _) fun _ => .bind (.setData array _)
            fun _ => .pure array
        · exact .pure array
    · intro hnatives m
      refine (Steady.newArray id count m).bind fun array m₁ _ hm₁ _ hnew => ?_
      refine ((component? id).steady hnatives m₁).bind fun component m₂ _ hm₂ hsecond _ => ?_
      split
      · exact .of_same rfl
      refine .bind (.of_same rfl) fun object m₂' _ _ _ hobject => ?_
      cases hobject
      split
      · rename_i hkind
        refine ((mapM (fun _ => ih _ next) _).steady hnatives m₂).bind
          fun elements m₃ _ _ hthird hmade => ?_
        have hsize : (elements.map some).toArray.size = count := by
          simpa using length_of_outcome_mapM hmade
        have hcount : (m₂.object array).data.size = count :=
          (hsecond.shape array (Steady.newArray_ok hnew).there).size.trans (Steady.newArray_data hnew).2
        have hset : SteadyOn m₃ (VM.setData array (.references (elements.map some).toArray)) :=
          .setAccepted ((hm₂.accepts_references_of_kind hkind (hsize.trans hcount.symm)).evolves
            hm₂.coherent hthird)
        exact hset.bind fun _ _ _ _ _ _ => .of_same rfl
      · exact .of_same rfl

theorem fieldSlots (table : SlotTable) (field : Field) : Tame natives (Exec.fieldSlots table field) :=
  mapM (fun _ => inRange _) _

/-! ### Exceptions -/

theorem throwable (className message : String) : Tame natives (throwable className message) :=
  .create className fun id exception => .bind .get fun m => .bind (ofSearch _) fun found => by
    split
    · exact .pure exception
    · exact .bind (string message) fun text => .bind (setField exception _ _) fun _ => .pure exception

theorem detailMessage (exception : Address) : Tame natives (detailMessage exception) :=
  .bind .get fun m => .bind (ofSearch _) fun found => by
    split
    · exact .pure _
    · refine .bind (field? exception _) fun slot => ?_
      split
      · exact .pure _
      · exact .bind (unitsOfString? _) fun _ => .pure _

theorem catches (owner : ClassId) (exception : Address) (handler : Handler) :
    Tame natives (catches owner exception handler) := by
  unfold VM.catches
  split
  · exact .pure _
  · refine .bind (.attempt (resolveClass owner _)) fun resolved => ?_
    split
    · exact isInstance _ _
    · exact .pure _

theorem handler? (frame : Frame) (exception : Address) : Tame natives (handler? frame exception) := by
  unfold VM.handler?
  split
  · exact .pure _
  · exact findM? (catches frame.owner exception) _

theorem stringArray (texts : List String) : Tame natives (Exec.stringArray texts) := by
  constructor
  · exact .bind (.load _) fun id => .bind (.newArray id _) fun array =>
        .bind (mapM string texts).program fun _ =>
      .bind (.setData array _) fun _ => .pure array
  · intro hnatives m
    refine (Steady.load _ m).bind fun id m₁ hm _ _ hload =>
      (Steady.newArray id _ m₁).bind fun array m₂ _ hm₂ _ hnew => ?_
    refine ((mapM string texts).steady hnatives m₂).bind fun strings m₃ _ _ hevolves hmade => ?_
    have hfound := (load_faithful m _ hm.coherent _ _ hload trivial).given id rfl
    have hname : (m₁.cls id).name = "[Ljava/lang/String;" :=
      hfound.named.resolve_right fun hother => absurd hother.noArray (by decide)
    obtain ⟨helements, hcount⟩ := Steady.newArray_data hnew
    have hkind : (m₂.object array).data.elementKind? = some .reference := by
      refine hm₂.elementKind?_of_strings helements ?_
      rw [Machine.className, Steady.newArray_classOf hnew, Steady.newArray_cls hnew, hname]
    have hsize : (strings.map some).toArray.size = texts.length := by
      simpa using length_of_outcome_mapM hmade
    have hset : SteadyOn m₃ (VM.setData array (.references (strings.map some).toArray)) :=
      .setAccepted ((hm₂.accepts_references_of_kind hkind (hsize.trans hcount.symm)).evolves
        hm₂.coherent hevolves)
    exact hset.bind fun _ _ _ _ _ _ => .of_same rfl

/-! ### Copying between arrays -/

theorem size_taken_le (r : ArrayCopy.Range) (elements : Array α) :
    (ArrayCopy.taken r elements).size ≤ r.length.toInt.toNat := by
  unfold ArrayCopy.taken
  rw [Array.size_extract]
  omega

/-- An array has as many elements after some that fit were overwritten. -/
theorem size_overwrite {elements copied : Array α} {start : Nat}
    (h : start + copied.size ≤ elements.size) :
    (ArrayCopy.overwrite elements start copied).size = elements.size := by
  unfold ArrayCopy.overwrite
  rw [Array.size_append, Array.size_append, Array.size_extract, Array.size_extract]
  omega

theorem bounds_of_fits {r : ArrayCopy.Range} {sourceLength destinationLength : Nat}
    (h : r.fits sourceLength destinationLength = true) :
    r.source.toInt.toNat + r.length.toInt.toNat ≤ sourceLength ∧
      r.destination.toInt.toNat + r.length.toInt.toNat ≤ destinationLength := by
  unfold ArrayCopy.Range.fits at h
  simp only [Bool.and_eq_true, decide_eq_true_eq, Int32.le_iff_toInt_le] at h
  change ((((0 ≤ _) ∧ (0 ≤ _)) ∧ (0 ≤ _)) ∧ _) ∧ _ at h
  omega

theorem size_overwrite_taken {r : ArrayCopy.Range} {s d : Array α} (h : r.fits s.size d.size = true) :
    (ArrayCopy.overwrite d r.destination.toInt.toNat (ArrayCopy.taken r s)).size = d.size :=
  size_overwrite (Nat.le_trans (Nat.add_le_add_left (size_taken_le r s) _) (bounds_of_fits h).2)

theorem mismatch (problem : String) : Tame natives (ArrayCopy.mismatch problem : VM α) := raise _ _

theorem storable (component : ClassId) :
    ∀ elements, Tame natives (ArrayCopy.storable component elements)
  | [] => .pure _
  | element :: elements => by
    unfold ArrayCopy.storable
    split
    · refine .bind (isInstance _ component) fun fits => ?_
      dsimp only
      split
      · exact .bind (storable component elements) fun _ => .pure _
      · exact .pure _
    · rw [pure_bind]
      exact .bind (storable component elements) fun _ => .pure _

/-- The elements that go into an array, of those that are taken from another, and the first that
does not fit. -/
def fitting (r : ArrayCopy.Range) (component : Option ClassId) (s : Array (Option Address)) :
    VM (List (Option Address) × Option Address) :=
  match component with
  | some component => ArrayCopy.storable component (ArrayCopy.taken r s).toList
  | none => return ((ArrayCopy.taken r s).toList, none)

/-- The exception for an element that does not fit, if there is one. -/
def reportMisfit (destination : Address) : Option Address → VM Unit
  | none => return ()
  | some a => do
    let m ← MonadState.get
    ArrayCopy.mismatch s!"element type mismatch: {m.className a} stored into {m.className destination}"

theorem copyReferences_eq (r : ArrayCopy.Range) (destination : Address) (component : Option ClassId)
    (s d : Array (Option Address)) :
    ArrayCopy.copyReferences r destination component s d = (do
      let found ← fitting r component s
      setData destination (.references
        (ArrayCopy.overwrite d r.destination.toInt.toNat found.1.toArray))
      reportMisfit destination found.2) := by
  cases component <;> rfl

theorem fitting_tame (r : ArrayCopy.Range) (component : Option ClassId) (s : Array (Option Address)) :
    Tame natives (fitting r component s) := by
  cases component with
  | some component => exact storable component _
  | none => exact .pure _

theorem reportMisfit_tame (destination : Address) (misfit : Option Address) :
    Tame natives (reportMisfit destination misfit) := by
  cases misfit with
  | none => exact .pure _
  | some a => exact .bind .get fun _ => mismatch _

theorem copyReferences (r : ArrayCopy.Range) (destination : Address) (component : Option ClassId)
    (s d : Array (Option Address)) :
    Program natives (ArrayCopy.copyReferences r destination component s d) := by
  rw [copyReferences_eq]
  exact .bind (fitting_tame ..).program fun _ => .bind (.setData _ _) fun _ =>
    (reportMisfit_tame ..).program

/-- No more elements are found to fit than there are. -/
theorem length_of_storable {component : ClassId} : ∀ {elements : List (Option Address)} {m m' : Machine}
    {found : List (Option Address) × Option Address},
    outcome (ArrayCopy.storable component elements) m = (.ok found, m') →
      found.1.length ≤ elements.length
  | [], _, _, _, hrun => by cases hrun; exact Nat.le_refl _
  | element :: elements, m, m', found, hrun => by
    have hrest : ∀ (fits : Bool) m₁, outcome (if fits = true then do
          let found ← ArrayCopy.storable component elements
          Pure.pure (element :: found.1, found.2)
        else Pure.pure ([], element)) m₁ = (.ok found, m') →
          found.1.length ≤ (element :: elements).length := by
      intro fits m₁ hrun
      split at hrun
      · obtain ⟨others, m₂, hothers, hrun⟩ := outcome_bind_ok.mp hrun
        cases hrun
        exact Nat.succ_le_succ (length_of_storable hothers)
      · cases hrun
        exact Nat.zero_le _
    unfold ArrayCopy.storable at hrun
    split at hrun
    · obtain ⟨fits, m₁, -, hrun⟩ := outcome_bind_ok.mp hrun
      exact hrest fits m₁ hrun
    · rw [pure_bind] at hrun
      exact hrest true m hrun

theorem length_of_fitting {r : ArrayCopy.Range} {component : Option ClassId}
    {s : Array (Option Address)} {m m' : Machine}
    {found : List (Option Address) × Option Address}
    (hrun : outcome (fitting r component s) m = (.ok found, m')) :
    found.1.length ≤ r.length.toInt.toNat := by
  cases component with
  | some component =>
    have hlength := length_of_storable hrun
    rw [Array.length_toList] at hlength
    exact Nat.le_trans hlength (size_taken_le r s)
  | none =>
    cases hrun
    rw [Array.length_toList]
    exact size_taken_le r s

/-- An array has as many elements after the ones that fit were copied into it. -/
theorem size_overwrite_fitting {r : ArrayCopy.Range} {component : Option ClassId}
    {s d : Array (Option Address)} {found : List (Option Address) × Option Address} {m m' : Machine}
    (hrun : outcome (fitting r component s) m = (.ok found, m'))
    (hfits : r.destination.toInt.toNat + r.length.toInt.toNat ≤ d.size) :
    (ArrayCopy.overwrite d r.destination.toInt.toNat found.1.toArray).size = d.size := by
  refine size_overwrite (Nat.le_trans (Nat.add_le_add_left ?_ _) hfits)
  rw [List.size_toArray]
  exact length_of_fitting hrun

/-- References are copied to where there are as many elements. -/
theorem copyReferences_steady {r : ArrayCopy.Range} {destination : Address} {component : Option ClassId}
    {s d : Array (Option Address)} {m : Machine} (hnatives : natives.Orderly)
    (haccepts : ∀ after : Array (Option Address), after.size = d.size →
      m.Accepts destination (.references after))
    (hfits : r.destination.toInt.toNat + r.length.toInt.toNat ≤ d.size) :
    SteadyOn m (ArrayCopy.copyReferences r destination component s d) := by
  rw [copyReferences_eq]
  refine ((fitting_tame ..).steady hnatives m).bind fun found m₁ hm _ hevolves hfound => ?_
  have haccepts₁ := (haccepts _ (size_overwrite_fitting hfound hfits)).evolves hm.coherent hevolves
  exact (SteadyOn.setAccepted haccepts₁).bind fun _ m₂ _ _ _ _ =>
    (reportMisfit_tame ..).steady hnatives m₂

/-- A copy within the bounds leaves the number of elements and their kind. -/
theorem copied?_shape {r : ArrayCopy.Range} {s d data : ObjectData}
    (h : ArrayCopy.copied? r s d = some data)
    (hfits : r.fits (s.length?.getD 0) (d.length?.getD 0) = true) :
    d.fields? = none ∧ d.SameShape data ∧ data.elementKind? = d.elementKind? := by
  unfold ArrayCopy.copied? at h
  dsimp only at h
  split at h
  case h_9 => cases h
  all_goals
    cases h
    refine ⟨rfl, ⟨?_, size_overwrite_taken hfits⟩, ?_⟩ <;>
      simp only [ObjectData.fields?, ObjectData.elementKind?]

theorem copyRange (r : ArrayCopy.Range) (source destination : Address) :
    Program natives (ArrayCopy.copyRange r source destination) := by
  refine .bind .get fun m => ?_
  dsimp only
  split
  · split
    · exact .setData _ _
    · exact .pure _
  · refine .bind (component? _).program fun component => ?_
    split
    · exact copyReferences ..
    · split
      · exact .setData _ _
      · exact (mismatch _).program

/-- Elements are copied to where there are as many. -/
theorem copyRange_steady {r : ArrayCopy.Range} {source destination : Address} {m : Machine}
    (hnatives : natives.Orderly)
    (hfits : r.fits (ArrayCopy.lengthOf (m.object source))
      (ArrayCopy.lengthOf (m.object destination)) = true) :
    SteadyOn m (ArrayCopy.copyRange r source destination) := by
  refine (Steady.get m).bind fun m₀ m₁ hm _ _ hget => ?_
  cases hget
  dsimp only
  split
  · rename_i hsame
    split
    · rename_i data hcopied
      rw [hsame] at hcopied hfits
      obtain ⟨hnone, hshape, hkind⟩ := copied?_shape hcopied hfits
      exact .setAccepted (hm.accepts hnone hshape hkind)
    · exact .of_same rfl
  · -- The elements go where the ones before them were read, though the component class may be
    -- loaded in between.
    refine ((component? _).steady hnatives m).bind fun component m₁ _ _ hevolves _ => ?_
    split
    · rename_i s d hs hd
      unfold ArrayCopy.lengthOf at hfits
      rw [hs, hd] at hfits
      exact copyReferences_steady hnatives (fun _ hsize =>
        (hm.accepts_references hd hsize).evolves hm.coherent hevolves) (bounds_of_fits hfits).2
    · split
      · rename_i hcopied
        obtain ⟨hnone, hshape, hkind⟩ := copied?_shape hcopied hfits
        exact .setAccepted ((hm.accepts hnone hshape hkind).evolves hm.coherent hevolves)
      · exact .of_same rfl

theorem checkArray (a : Address) : Tame natives (ArrayCopy.checkArray a) :=
  .bind .get fun m => by
    split
    · exact mismatch _
    · exact .pure _

theorem arrayCopy (r : ArrayCopy.Range) (source destination : Address) :
    Tame natives (ArrayCopy.copy r source destination) := by
  constructor
  · refine .bind (checkArray source).program fun _ =>
      .bind (checkArray destination).program fun _ => .bind .get fun m => ?_
    dsimp only
    split
    · exact (raise_bind _ _ _).program
    · split
      · exact copyRange ..
      · exact (raise _ _).program
  · intro hnatives m
    refine ((checkArray source).steady hnatives m).bind fun _ m₁ _ _ _ _ => ?_
    refine ((checkArray destination).steady hnatives m₁).bind fun _ m₂ _ _ _ _ => ?_
    refine (Steady.get m₂).bind fun m m₃ _ _ _ hget => ?_
    cases hget
    dsimp only
    split
    · exact (raise_bind _ _ _).steady hnatives _
    · split
      · exact copyRange_steady hnatives ‹_›
      · exact (raise _ _).steady hnatives _

/-! ### Natives -/

end Tame

variable {x : VM α}

/-- What is orderly calls no natives. -/
theorem Orderly.tame (h : Orderly x) : Tame natives x := by
  induction h with
  | pure a => exact .pure a
  | throw e => exact .throw e
  | get => exact .get
  | bind _ _ hx hf => exact .bind hx hf
  | attempt _ hx => exact .attempt hx
  | load name => exact .load name
  | define file => exact .define file
  | create name _ hf => exact .create name hf
  | newArray id length => exact .newArray id length
  | stringOfUnits units => exact .stringOfUnits units
  | intern units => exact .intern units
  | setField a slot value => exact .setField a slot value
  | storeElement a isBoolean index value => exact .storeElement a isBoolean index value
  | component? id => exact .component? id
  | arrayCopy r source destination => exact .arrayCopy r source destination

namespace Tame

theorem native {key : String} {native : Native} (registered : (key, native) ∈ natives.entries)
    (call : NativeCall) :
    Tame natives (native call) where
  program := .native registered call
  steady h :=
    have htame : Tame natives (native call) := (h key native registered call).tame
    htame.steady h

theorem invokeNative (method : Method) (arguments : List Slot) :
    Tame natives (Exec.invokeNative natives method arguments) := by
  refine .bind (cls _) fun c => ?_
  rcases natives.find_cases c.name method.name method.descriptor with
    ⟨key, native, hregistered, hfind⟩ | ⟨message, hfind⟩
  · rw [hfind, pure_bind]
    refine .bind (Tame.native hregistered _) fun result => ?_
    split
    · exact .bind (inRange _) fun _ => inRange _
    · exact .bind (.pure _) fun _ => inRange _
  · rw [hfind]
    exact .throw _

/-! ### Storing in fields -/

theorem storeFields (a : Address) (slot : Nat) (slots : List Slot) :
    Tame natives (storeFields a slot slots) := by
  refine ⟨.bind (.bind .get fun m => ?_) fun fields => .bind (.inRange _) fun _ => .setData a _,
    fun _ => .storeFields a slot slots⟩
  split
  · exact .pure _
  · exact .raise _ _

theorem storeStatics (id : ClassId) (slot : Nat) (slots : List Slot) :
    Tame natives (storeStatics id slot slots) :=
  ⟨.bind (.cls id) fun _ => .bind (.inRange _) fun _ => .setStatics id _,
    fun _ => .storeStatics id slot slots⟩

end Tame

end VM

end JavaMachine
