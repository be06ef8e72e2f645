import Mathlib.Logic.Relation
import JavaMachine.Proofs.Defining
import JavaMachine.Proofs.Extent

/-!
The single changes that loading is made of.

A load or a definition that completes is a sequence of changes, each of which is one of a few
(`Machine.LoadStep`). So what each of these keeps is kept by all loads, whatever the class path has.
A class is only changed while it is unlinked, and a load inside of a definition changes no class
that was there before it: the changes of a sequence leave the first `base` classes as they are.
-/

namespace JavaMachine

namespace Machine

variable {base base' : Nat} {m m₁ m' : Machine} {id : ClassId}

/-- A change that the loader makes to a machine, but not to its first `base` classes. -/
inductive LoadStep (base : Nat) (m : Machine) : Machine → Prop where
  | beginDefinition {file : ClassFile} {c : Class}
      (read : Definition.ofClassFile m.nextClassId file = .ok c) :
      LoadStep base m (m.begun c)
  | attachSuper {id k : ClassId} (owned : base ≤ id.index) (unlinked : (m.cls id).linked = false)
      (above : (m.cls k).linked = true) :
      LoadStep base m (m.changeClass id ({ · with superClass := some k }))
  | attachInterfaces {id : ClassId} {interfaces : List ClassId} (owned : base ≤ id.index)
      (unlinked : (m.cls id).linked = false) (above : ∀ k ∈ interfaces, (m.cls k).linked = true) :
      LoadStep base m (m.changeClass id ({ · with interfaces }))
  | layOut {id : ClassId} (inherited : Nat) (owned : base ≤ id.index)
      (unlinked : (m.cls id).linked = false) :
      LoadStep base m (m.changeClass id (·.layOut inherited))
  | setStatics {id : ClassId} (statics : SlotTable) (owned : base ≤ id.index)
      (unlinked : (m.cls id).linked = false)
      (grounded : m.Grounded → extent statics ≤ m.heap.size) :
      LoadStep base m (m.changeClass id ({ · with statics }))
  | link {id : ClassId} (owned : base ≤ id.index) (unlinked : (m.cls id).linked = false) :
      LoadStep base m (m.changeClass id ({ · with linked := true }))
  | unbind (name : String) : LoadStep base m (m.withoutName name)
  | addArray {name : String} {parents : ClassId × List ClassId} (array : ArrayName.isArray name = true)
      (there : ∀ k, k = parents.1 ∨ k ∈ parents.2 → k.index < m.classes.size) :
      LoadStep base m (m.withClass (Loader.arrayBelow name parents))
  | bind (name : String) {id : ClassId} (there : id.index < m.classes.size) :
      LoadStep base m (m.withName name id)
  | allocate {object : Object} (plain : ∀ elements, object.data ≠ .references elements)
      (grounded : extent object.data ≤ m.heap.size) : LoadStep base m (m.withObject object)
  | keepLiteral (literals : List (Text.Units × Address))
      (grounded : m.Grounded → ∀ entry ∈ literals, entry.2.index < m.heap.size) :
      LoadStep base m { m with literals }

/-- Changes that the loader makes one after the other. -/
abbrev Loading (base : Nat) : Machine → Machine → Prop := Relation.ReflTransGen (LoadStep base)

/-- A class of the machine that is being defined. -/
structure Underway (m : Machine) (id : ClassId) : Prop where
  there : id.index < m.classes.size
  unlinked : (m.cls id).linked = false

theorem underway_begun {file : ClassFile} {c : Class}
    (read : Definition.ofClassFile m.nextClassId file = .ok c) :
    (m.begun c).Underway m.nextClassId :=
  ⟨by rw [size_begun]; exact Nat.lt_succ_self _,
    by rw [cls_begun_self]; exact (Loader.ofClassFile_defines read).unlinked⟩

theorem underway_arrayBelow {name : String} {parents : ClassId × List ClassId} :
    (m.withClass (Loader.arrayBelow name parents)).Underway m.nextClassId :=
  ⟨by rw [size_withClass]; exact Nat.lt_succ_self _, by rw [cls_withClass_new]; rfl⟩

/-- A change of a class keeps it underway if it does not link it. -/
theorem Underway.changeClass {change : Class → Class} (h : m.Underway id)
    (hlinked : (change (m.cls id)).linked = (m.cls id).linked) :
    (m.changeClass id change).Underway id :=
  ⟨by rw [size_changeClass]; exact h.there, by
    rw [cls_changeClass_self change h.there, hlinked]; exact h.unlinked⟩

namespace LoadStep

theorem mono (h : m.LoadStep base' m') (hle : base ≤ base') : m.LoadStep base m' := by
  cases h with
  | beginDefinition read => exact .beginDefinition read
  | attachSuper owned unlinked above => exact .attachSuper (Nat.le_trans hle owned) unlinked above
  | attachInterfaces owned unlinked above =>
      exact .attachInterfaces (Nat.le_trans hle owned) unlinked above
  | layOut inherited owned unlinked => exact .layOut inherited (Nat.le_trans hle owned) unlinked
  | setStatics statics owned unlinked grounded =>
    exact .setStatics statics (Nat.le_trans hle owned) unlinked grounded
  | link owned unlinked => exact .link (Nat.le_trans hle owned) unlinked
  | unbind name => exact .unbind name
  | addArray array there => exact .addArray array there
  | bind name there => exact .bind name there
  | allocate plain grounded => exact .allocate plain grounded
  | keepLiteral literals grounded => exact .keepLiteral literals grounded

theorem sound (h : m.LoadStep base m') (hm : m.Sound) : m'.Sound := by
  cases h with
  | beginDefinition read => exact hm.begun (Loader.ofClassFile_defines read).not_below
  | attachSuper _ _ above =>
    refine hm.changeClass rfl (fun h => h) fun k hk => ?_
    rcases hk with hk | hk
    · cases hk
      exact .inr above
    · exact .inl (.inr hk)
  | attachInterfaces _ _ above =>
    refine hm.changeClass rfl (fun h => h) fun k hk => ?_
    rcases hk with hk | hk
    · exact .inl (.inl hk)
    · exact .inr (above k hk)
  | layOut inherited => exact hm.changePlaced (Class.samePlace_layOut _ inherited)
  | setStatics => exact hm.changePlaced ⟨rfl, rfl, rfl, rfl⟩
  | link => exact hm.changeClass rfl (fun _ => rfl) fun k hk => .inl hk
  | unbind name => exact hm.withoutName name
  | addArray array there =>
    refine hm.withClass (fun k hk => there k ?_) fun hnot => by cases array.symm.trans hnot
    exact hk.imp_left fun hk => (Option.some.inj hk).symm
  | bind name there => exact hm.withName there
  | allocate => exact hm.of_eq rfl rfl
  | keepLiteral => exact hm.of_eq rfl rfl

/-- What a change does to the classes: it may add one that is unlinked, or changes one that is
unlinked. -/
theorem cls (h : m.LoadStep base m') (id : ClassId) : m'.cls id = m.cls id ∨
    (m.cls id).linked = false ∧ (m.classes.size ≤ id.index ∨ base ≤ id.index) := by
  have hadded : ∀ c : Class, (m.withClass c).cls id = m.cls id ∨
      (m.cls id).linked = false ∧ (m.classes.size ≤ id.index ∨ base ≤ id.index) := fun c => by
    by_cases hnew : id = m.nextClassId
    · subst hnew
      have hnone : m.cls m.nextClassId = default := cls_of_size_le (Nat.le_refl _)
      exact .inr ⟨congrArg Class.linked hnone, .inl (Nat.le_refl _)⟩
    · exact .inl (cls_withClass_ne hnew)
  have hchanged : ∀ {other : ClassId} (change : Class → Class), base ≤ other.index →
      (m.cls other).linked = false → (m.changeClass other change).cls id = m.cls id ∨
        (m.cls id).linked = false ∧ (m.classes.size ≤ id.index ∨ base ≤ id.index) :=
        fun {other} change owned unlinked => by
    rcases cls_changeClass m other change id with heq | ⟨rfl, -⟩
    · exact .inl heq
    · exact .inr ⟨unlinked, .inr owned⟩
  cases h with
  | beginDefinition => exact hadded _
  | addArray => exact hadded _
  | attachSuper owned unlinked => exact hchanged _ owned unlinked
  | attachInterfaces owned unlinked => exact hchanged _ owned unlinked
  | layOut _ owned unlinked => exact hchanged _ owned unlinked
  | setStatics _ owned unlinked => exact hchanged _ owned unlinked
  | link owned unlinked => exact hchanged _ owned unlinked
  | unbind | bind | allocate | keepLiteral => exact .inl rfl

theorem size_le (h : m.LoadStep base m') : m.classes.size ≤ m'.classes.size := by
  cases h with
  | beginDefinition => rw [size_begun]; exact Nat.le_succ _
  | addArray => rw [size_withClass]; exact Nat.le_succ _
  | attachSuper | attachInterfaces | layOut | setStatics | link =>
      exact Nat.le_of_eq size_changeClass.symm
  | unbind | bind | allocate | keepLiteral => exact Nat.le_refl _

/-- No change makes a reference that dangles. -/
theorem grounded (h : m.LoadStep base m') (hm : m.Grounded) : m'.Grounded := by
  cases h with
  | beginDefinition read =>
    have hbegun := hm.withClass ((congrArg extent (Loader.ofClassFile_defines read).statics).trans
      (SlotTable.extent_zeros 0))
    exact hbegun.of_eq rfl rfl rfl
  | attachSuper => exact hm.changeClass (hm.statics _)
  | attachInterfaces => exact hm.changeClass (hm.statics _)
  | layOut => exact hm.changeClass (extent_le_of_zero (SlotTable.extent_zeros _))
  | setStatics _ _ _ grounded => exact hm.changeClass (grounded hm)
  | link => exact hm.changeClass (hm.statics _)
  | addArray => exact hm.withClass (SlotTable.extent_zeros 0)
  | unbind | bind => exact hm.of_eq rfl rfl rfl
  | allocate _ grounded => exact hm.withObject grounded
  | keepLiteral _ grounded => exact hm.withLiterals (grounded hm)

/-- A linked class is not changed. -/
theorem linked (h : m.LoadStep base m') (hlinked : (m.cls id).linked = true) :
    m'.cls id = m.cls id := by
  rcases h.cls id with heq | ⟨hunlinked, -⟩
  · exact heq
  · rw [hunlinked] at hlinked
    cases hlinked

/-- The loader keeps no component classes. -/
theorem component (h : m.LoadStep base m') {k : ClassId} (hk : (m'.cls id).component = some k) :
    (m.cls id).component = some k := by
  have hadded : ∀ {c : Class}, c.component = none → ((m.withClass c).cls id).component = some k →
      (m.cls id).component = some k := by
    intro c hc hk
    by_cases hnew : id = m.nextClassId
    · subst hnew
      rw [cls_withClass_new, hc] at hk
      cases hk
    · rwa [cls_withClass_ne hnew] at hk
  have hchanged : ∀ {other : ClassId} {change : Class → Class},
      (change (m.cls other)).component = (m.cls other).component →
        ((m.changeClass other change).cls id).component = some k → (m.cls id).component = some k := by
    intro other change hsame hk
    rcases cls_changeClass m other change id with heq | ⟨rfl, heq⟩ <;> rw [heq] at hk
    · exact hk
    · exact hsame.symm.trans hk
  cases h with
  | beginDefinition read => exact hadded (Loader.ofClassFile_defines read).component hk
  | addArray => exact hadded rfl hk
  | attachSuper | attachInterfaces | layOut | setStatics | link => exact hchanged (by rfl) hk
  | unbind | bind | allocate | keepLiteral => exact hk

/-- Neither is one of the first classes. -/
theorem same (h : m.LoadStep base m') (hbase : base ≤ m.classes.size) (hid : id.index < base) :
    m'.cls id = m.cls id := by
  rcases h.cls id with heq | ⟨-, hsize | howned⟩
  · exact heq
  · omega
  · omega

end LoadStep

namespace Loading

theorem mono (h : Loading base' m m') (hle : base ≤ base') : Loading base m m' := by
  induction h with
  | refl => exact .refl
  | tail _ step ih => exact ih.tail (step.mono hle)

theorem size_le (h : Loading base m m') : m.classes.size ≤ m'.classes.size := by
  induction h with
  | refl => exact Nat.le_refl _
  | tail _ step ih => exact Nat.le_trans ih step.size_le

theorem linked (h : Loading base m m') (hlinked : (m.cls id).linked = true) : m'.cls id = m.cls id := by
  induction h with
  | refl => rfl
  | tail _ step ih => exact (step.linked (by rw [ih]; exact hlinked)).trans ih

theorem same (h : Loading base m m') (hbase : base ≤ m.classes.size) (hid : id.index < base) :
    m'.cls id = m.cls id := by
  induction h with
  | refl => rfl
  | tail before step ih => exact (step.same (Nat.le_trans hbase (size_le before)) hid).trans ih

theorem component (h : Loading base m m') {k : ClassId} (hk : (m'.cls id).component = some k) :
    (m.cls id).component = some k := by
  induction h with
  | refl => exact hk
  | tail _ step ih => exact ih (step.component hk)

theorem grounded (h : Loading base m m') (hm : m.Grounded) : m'.Grounded := by
  induction h with
  | refl => exact hm
  | tail _ step ih => exact step.grounded ih

/-- What every change keeps of a sound machine is kept by all of them. -/
theorem keeps {p : Machine → Prop} (hp : ∀ m m', m.LoadStep base m' → m.Sound → p m → p m')
    (h : Loading base m m') (hm : m.Sound) (hpm : p m) : m'.Sound ∧ p m' := by
  induction h with
  | refl => exact ⟨hm, hpm⟩
  | tail _ step ih => exact ⟨step.sound ih.1, hp _ _ step ih.1 ih.2⟩

theorem sound (h : Loading base m m') (hm : m.Sound) : m'.Sound :=
  (h.keeps (p := fun _ => True) (fun _ _ _ _ _ => trivial) hm trivial).1

end Loading

theorem Underway.loading (h : m.Underway id) (hloading : Loading base m m')
    (hbase : base ≤ m.classes.size) (hid : id.index < base) : m'.Underway id :=
  ⟨Nat.lt_of_lt_of_le h.there hloading.size_le, by rw [hloading.same hbase hid]; exact h.unlinked⟩

end Machine

namespace Loader

open Machine (LoadStep Loading Underway)

variable {α β : Type} {base base₁ : Nat} {m m₁ m' : Machine} {id : ClassId} {load : Load}

/-- A step that, if it completes, makes changes of the loader to classes from `base` on. -/
def Traced (base : Nat) (m : Machine) (x : VM α) (gives : Machine → α → Prop) : Prop :=
  m.Sound → base ≤ m.classes.size → ∀ r m', outcome x m = (r, m') → Completes r →
    Loading base m m' ∧ ∀ a, r = .ok a → gives m' a

/-- A load that only changes classes that were not there before it. -/
def Tracing (load : Load) : Prop :=
  ∀ m name, Traced m.classes.size m (load name) fun m' id => id.index < m'.classes.size

/-! ### Sequences of steps -/

namespace Traced

variable {x : VM α} {gives : Machine → α → Prop} {then' : Machine → β → Prop}

theorem pure {a : α} (h : gives m a) : Traced base m (pure a) gives := by
  intro _ _ r m' hrun _
  cases hrun
  exact ⟨.refl, fun b hb => by cases hb; exact h⟩

theorem fail (fault : Fault) : Traced base m (VM.fail fault) gives := by
  intro _ _ r m' hrun _
  cases hrun
  exact ⟨.refl, fun b hb => by cases hb⟩

theorem raise (className message : String) : Traced base m (VM.raise className message) gives := fail _

/-- Nothing comes after an exception. -/
theorem raise_bind {f : α → VM β} (className message : String) :
    Traced base m (VM.raise className message >>= f) then' :=
  fail (.exception className message)

/-- The first step may be confined to later classes than the second one. -/
theorem bind {f : α → VM β} (first : Traced base₁ m x gives) (hbase : base ≤ base₁)
    (hbase₁ : base ≤ m.classes.size → base₁ ≤ m.classes.size)
    (second : ∀ a m₁, Loading base₁ m m₁ → gives m₁ a → Traced base m₁ (f a) then') :
    Traced base m (x >>= f) then' := by
  intro hm hsize r m' hrun hr
  obtain ⟨fault, hx, rfl⟩ | ⟨a, m₁, hx, hrun⟩ := outcome_bind_completes hrun hr
  · exact ⟨(first hm (hbase₁ hsize) _ _ hx trivial).1.mono hbase, fun b hb => by cases hb⟩
  · obtain ⟨hloading, hgiven⟩ := first hm (hbase₁ hsize) _ _ hx trivial
    obtain ⟨hrest, hgives⟩ := second a m₁ hloading (hgiven a rfl) (hloading.sound hm)
      (Nat.le_trans hsize hloading.size_le) r m' hrun hr
    exact ⟨(hloading.mono hbase).trans hrest, hgives⟩

/-- One step of a definition after the other. -/
theorem andThen {f : α → VM β} (first : Traced base m x gives)
    (second : ∀ a m₁, Loading base m m₁ → gives m₁ a → Traced base m₁ (f a) then') :
    Traced base m (x >>= f) then' :=
  bind first (Nat.le_refl _) (fun h => h) second

/-- A step that only changes classes that were not there, and what comes after it. -/
theorem nested {f : α → VM β} (first : Traced m.classes.size m x gives)
    (second : ∀ a m₁, Loading m.classes.size m m₁ → gives m₁ a → Traced base m₁ (f a) then') :
    Traced base m (x >>= f) then' := fun hm hsize =>
  bind first hsize (fun _ => Nat.le_refl _) second hm hsize

/-- What a step reads of the machine is not asked for again. -/
theorem reads {f : α → VM β} {a : α} (hread : outcome x m = (.ok a, m))
    (second : Traced base m (f a) then') :
    Traced base m (x >>= f) then' := by
  intro hm hsize r m' hrun hr
  rw [outcome_bind_of_ok hread] at hrun
  exact second hm hsize r m' hrun hr

theorem ofFormat {f : α → VM β} {checked : Except FormatError α}
    (second : ∀ a, checked = .ok a → Traced base m (f a) then') :
    Traced base m (VM.ofFormat checked >>= f) then' := by
  cases checked with
  | ok a => exact reads (VM.outcome_ofFormat_ok a) (second a rfl)
  | error e => exact fail (.classFormat e)

theorem inRange {f : α → VM β} {a? : Option α} (second : ∀ a, a? = some a → Traced base m (f a) then') :
    Traced base m (VM.inRange a? >>= f) then' := by
  cases a? with
  | none =>
    intro _ _ r m' hrun hr
    cases hrun
    exact hr.elim
  | some a => exact reads (a := a) rfl (second a rfl)

theorem ofSearch {f : Option α → VM β} {search : Search α}
    (second : ∀ found, Traced base m (f found) then') :
    Traced base m (VM.ofSearch search >>= f) then' := by
  cases search with
  | found a => exact reads (a := some a) rfl (second _)
  | absent => exact reads (a := none) rfl (second _)
  | endless =>
    intro _ _ r m' hrun hr
    cases hrun
    exact hr.elim

/-- A step that is a single change. -/
theorem single {a : α} (hrun : outcome x m = (.ok a, m₁)) (hstep : m.LoadStep base m₁)
    (h : gives m₁ a) :
    Traced base m x gives := by
  intro _ _ r m' hrun' _
  rw [hrun] at hrun'
  cases hrun'
  exact ⟨.single hstep, fun b hb => by cases hb; exact h⟩

/-- A property of the machine that each of the steps keeps is kept by all of them. -/
theorem forM {f : α → VM PUnit} {p : Machine → Prop}
    (h : ∀ a m₁, p m₁ → Traced base m₁ (f a) fun m' _ => p m') :
    ∀ (as : List α) {m : Machine}, p m → Traced base m (as.forM f) fun m' _ => p m'
  | [], _, hp => pure hp
  | a :: as, m, hp => by
    rw [List.forM]
    exact andThen (h a m hp) fun _ _ _ hp => forM h as hp

/-- What each of the results is said to be still holds at the end, if changes keep it. -/
theorem mapM {f : α → VM β} {p : Machine → β → Prop}
    (hkeep : ∀ base b (m₁ m₂ : Machine), Loading base m₁ m₂ → p m₁ b → p m₂ b)
    (h : ∀ a m₁, Traced m₁.classes.size m₁ (f a) p) :
    ∀ (as : List α) {m : Machine}, Traced m.classes.size m (as.mapM f) fun m' bs => ∀ b ∈ bs, p m' b
  | [], _ => pure fun b hb => by cases hb
  | a :: as, m => by
    rw [List.mapM_cons]
    refine nested (h a m) fun b m₁ hfirst hb => ?_
    refine bind (mapM hkeep h as) hfirst.size_le (fun _ => Nat.le_refl _) fun bs m₂ hrest hbs => ?_
    exact pure (List.forall_mem_cons.mpr ⟨hkeep _ b m₁ m₂ hrest hb, hbs⟩)

end Traced

/-! ### Strings -/

theorem stringOfUnits_traced (hload : Tracing load) (units : Text.Units) :
    Traced m.classes.size m (stringOfUnits load units) fun m' string => string.index <
      m'.heap.size := by
  refine .nested (hload m _) fun stringClass m₁ hfirst _ => ?_
  refine .bind (hload m₁ _) hfirst.size_le (fun _ => Nat.le_refl _) fun charsClass m₂ _ _ => ?_
  refine .reads (outcome_get m₂) (.ofSearch fun found => ?_)
  split
  · exact .raise _ _
  · rename_i field
    intro _ _ r m' hrun hr
    obtain ⟨fields, hset, rfl, rfl⟩ := VM.string_made hrun hr
    have hchars : extent fields ≤ (m₂.withObject ⟨charsClass, .chars units.toArray⟩).heap.size :=
      SlotTable.extent_set? (extent_le_of_zero (SlotTable.extent_zeros _)) (by simp [extent]) hset
    exact ⟨(Relation.ReflTransGen.single (.allocate (fun _ h => by cases h) (Nat.zero_le _))).tail
      (.allocate (fun _ h => by cases h) hchars), fun _ h => by cases h; simp⟩

theorem intern_traced (hload : Tracing load) (units : Text.Units) :
    Traced m.classes.size m (intern load units) fun m' string => m'.Grounded →
      string.index < m'.heap.size := by
  refine .reads (outcome_get m) ?_
  split
  · rename_i string hfound
    refine .pure fun hm => ?_
    obtain ⟨before, after, hliterals, -⟩ := List.lookup_eq_some_iff.mp hfound
    have hkept : (units, string) ∈ m.literals := by rw [hliterals]; simp
    exact hm.literal hkept
  · refine .nested (stringOfUnits_traced hload units) fun string m₁ _ hstring => ?_
    have hkeep : Traced m₁.classes.size m₁ (VM.bindLiteral units string) fun m' _ => string.index <
        m'.heap.size := by
      refine .single rfl (.keepLiteral _ fun hm entry hentry => ?_) hstring
      rcases List.mem_cons.mp hentry with rfl | hold
      · exact hstring
      · exact hm.literal (List.mem_filter.mp hold).1
    exact .nested hkeep fun _ _ _ hstring => .pure fun _ => hstring

/-! ### Linking -/

theorem setStatic_traced (slot : Nat) {value : Value} (hvalue : m.Grounded → extent value ≤ m.heap.size)
    (hid : base ≤ id.index) (h : m.Underway id) :
    Traced base m (setStatic id slot value) fun m' _ => m'.Underway id :=
  .reads (VM.outcome_cls id) (.inRange fun statics hset =>
    .single (VM.outcome_modifyClass id _) (.setStatics statics hid h.unlinked fun hm =>
      SlotTable.extent_setAll? (hm.statics id) (extent_slots (hvalue hm)) hset) (h.changeClass rfl))

theorem initializeField_traced (hload : Tracing load) (field : Field) (index : UInt16)
    (hid : base ≤ id.index)
    (h : m.Underway id) : Traced base m (initializeField load id field index) fun m' _ =>
      m'.Underway id := by
  refine .reads (VM.outcome_cls id) (.ofFormat fun constant _ => ?_)
  split
  · exact setStatic_traced _ (fun _ => Nat.zero_le _) hid h
  · exact setStatic_traced _ (fun _ => Nat.zero_le _) hid h
  · exact setStatic_traced _ (fun _ => Nat.zero_le _) hid h
  · exact setStatic_traced _ (fun _ => Nat.zero_le _) hid h
  · exact .nested (intern_traced hload _) fun _ _ hloading hstring =>
      setStatic_traced _ hstring hid (h.loading hloading (Nat.le_refl _) h.there)
  · exact .fail _

theorem prepare_traced (hload : Tracing load) (hid : base ≤ id.index) (h : m.Underway id) :
    Traced base m (prepare load id) fun m' _ => m'.Underway id := by
  obtain ⟨inherited, hinherited⟩ := inheritedSlots_reads m id
  refine .reads hinherited ?_
  have hlaidOut : Traced base m (VM.modifyClass id (·.layOut inherited)) fun m' _ => m'.Underway id :=
    .single (VM.outcome_modifyClass id _) (.layOut inherited hid h.unlinked) (h.changeClass rfl)
  refine .andThen hlaidOut fun _ m₁ _ h => .reads (VM.outcome_cls id) ?_
  exact .forM (p := fun m' => m'.Underway id)
    (fun ⟨field, index⟩ _ h => initializeField_traced hload field index hid h) _ h

theorem link_traced (hload : Tracing load) (hid : base ≤ id.index) (h : m.Underway id) :
    Traced base m (link load id) fun m' _ => id.index < m'.classes.size := by
  rw [link_eq]
  refine .andThen (prepare_traced hload hid h) fun _ m₁ _ h => ?_
  exact .single (VM.outcome_modifyClass id _) (.link hid h.unlinked)
    (by rw [Machine.size_changeClass]; exact h.there)

/-! ### Definition -/

theorem loadLinked_traced (hload : Tracing load) (className name : String) :
    Traced m.classes.size m (loadLinked load className name) fun m' k => (m'.cls k).linked = true := by
  refine .nested (hload m name) fun k m₁ _ _ => .reads (VM.outcome_cls k) ?_
  split
  · rename_i hlinked
    exact .pure hlinked
  · exact .raise _ _

theorem attachSuper_traced (hload : Tracing load) (hid : base ≤ id.index) (h : m.Underway id) :
    Traced base m (attachSuper load id) fun m' _ => m'.Underway id := by
  refine .reads (VM.outcome_cls id) ?_
  split
  · exact .pure h
  · rename_i name _
    refine .nested (loadLinked_traced hload _ name) fun superClass m₁ hloading hlinked => ?_
    refine .reads (VM.outcome_cls superClass) ?_
    dsimp only
    have h₁ := h.loading hloading (Nat.le_refl _) h.there
    split
    · exact .raise_bind _ _
    · exact .single (VM.outcome_modifyClass id _) (.attachSuper hid h₁.unlinked hlinked)
        (h₁.changeClass rfl)

theorem loadInterface_traced (hload : Tracing load) (className name : String) :
    Traced m.classes.size m (loadInterface load className name) fun m' k =>
      (m'.cls k).linked = true := by
  refine .nested (loadLinked_traced hload className name) fun k m₁ _ hlinked =>
    .reads (VM.outcome_cls k) ?_
  split
  · exact .pure hlinked
  · exact .raise _ _

theorem attachInterfaces_traced (hload : Tracing load) (hid : base ≤ id.index) (h : m.Underway id) :
    Traced base m (attachInterfaces load id) fun m' _ => m'.Underway id := by
  refine .reads (VM.outcome_cls id) ?_
  refine .nested (.mapM ?_ (fun name _ => loadInterface_traced hload _ name) _)
    fun interfaces m₁ hloading hlinked => ?_
  · exact fun _ k m₁ m₂ hloading hk => (congrArg Class.linked (hloading.linked hk)).trans hk
  · have h₁ := h.loading hloading (Nat.le_refl _) h.there
    exact .single (VM.outcome_modifyClass id _) (.attachInterfaces hid h₁.unlinked hlinked)
      (h₁.changeClass rfl)

theorem attach_traced (hload : Tracing load) (hid : base ≤ id.index) (h : m.Underway id) :
    Traced base m (attach load id) fun m' _ => m'.Underway id :=
  .andThen (attachSuper_traced hload hid h) fun _ _ _ h =>
    .andThen (attachInterfaces_traced hload hid h) fun _ _ _ h => prepare_traced hload hid h

theorem define_traced (hload : Tracing load) (file : ClassFile) :
    Traced m.classes.size m (define load file) fun m' id => id.index < m'.classes.size := by
  intro hm hsize r m' hrun hr
  rcases define_runs load file m with ⟨fault, hrefused⟩ | ⟨c, hread, -, hdefined⟩
  · rw [hrefused] at hrun
    cases hrun
    exact ⟨.refl, fun _ h => by cases h⟩
  · rcases hstep : outcome (attach load m.nextClassId) (m.begun c) with ⟨r₁, m₁⟩
    rw [hdefined, hstep] at hrun
    have hbegun : m.LoadStep m.classes.size (m.begun c) := .beginDefinition hread
    have hattach : Traced m.classes.size (m.begun c) (attach load m.nextClassId) fun m' _ =>
        m'.Underway m.nextClassId := attach_traced hload (Nat.le_refl _) (Machine.underway_begun hread)
    have htraced := hattach (hbegun.sound hm) hbegun.size_le r₁ m₁ hstep
    rcases r₁ with (fault | _ | _ | _) | _ <;> cases hrun
    · exact ⟨(Relation.ReflTransGen.head hbegun (htraced trivial).1).tail (.unbind _),
        fun _ h => by cases h⟩
    · exact hr.elim
    · exact hr.elim
    · exact hr.elim
    · obtain ⟨hloading, hunderway⟩ := htraced trivial
      have h₁ := hunderway _ rfl
      refine ⟨(Relation.ReflTransGen.head hbegun hloading).tail (.link (Nat.le_refl _) h₁.unlinked),
        fun id h => ?_⟩
      cases h
      rw [Machine.size_changeClass]
      exact h₁.there

/-! ### Array classes -/

theorem arrayParents_traced (hload : Tracing load) :
      Traced m.classes.size m (arrayParents load) fun m' parents =>
    ∀ k, k = parents.1 ∨ k ∈ parents.2 → k.index < m'.classes.size := by
  refine .nested (hload m _) fun superClass m₁ hfirst hsuper => ?_
  refine .bind (.mapM ?_ (fun name m₁ => hload m₁ name) _) hfirst.size_le (fun _ => Nat.le_refl _)
    fun interfaces m₂ hrest hall => ?_
  · exact fun _ k _ _ hloading hk => Nat.lt_of_lt_of_le hk hloading.size_le
  · refine .pure fun k hk => ?_
    rcases hk with rfl | hk
    · exact Nat.lt_of_lt_of_le hsuper hrest.size_le
    · exact hall k hk

/-- An array class is added as the next class and linked. -/
theorem arrayClass_traced (hload : Tracing load) {name : String} {parents : ClassId × List ClassId}
    (harray : ArrayName.isArray name = true)
    (hparents : ∀ k, k = parents.1 ∨ k ∈ parents.2 → k.index < m.classes.size) :
    Traced m.classes.size m (arrayClass load name parents) fun m' id => id.index < m'.classes.size := by
  have hadded : Traced m.classes.size m (VM.addClass (arrayBelow name parents)) fun m' id =>
      id = m.nextClassId ∧ m'.Underway id :=
    .single (VM.outcome_addClass _) (.addArray harray hparents) ⟨rfl, Machine.underway_arrayBelow⟩
  refine .andThen hadded fun id m₁ _ ⟨hid, hunderway⟩ => ?_
  refine .andThen (link_traced hload (by rw [hid]; exact Nat.le_refl _) hunderway)
    fun _ m₂ _ hthere => ?_
  exact .pure hthere

theorem defineArray_traced (hload : Tracing load) {name : String}
    (harray : ArrayName.isArray name = true) :
    Traced m.classes.size m (defineArray load name) fun m' id => id.index < m'.classes.size := by
  rw [defineArray_eq]
  split
  · exact .raise _ _
  · refine .nested (arrayParents_traced hload) fun parents m₁ hfirst hparents => ?_
    refine .bind (arrayClass_traced hload harray hparents) hfirst.size_le (fun _ => Nat.le_refl _)
      fun id m₂ _ hthere => ?_
    have hbound : Traced m.classes.size m₂ (VM.bindName name id) fun m' _ =>
        id.index < m'.classes.size :=
      .single (VM.outcome_bindName ..) (.bind name hthere) hthere
    exact .andThen hbound fun _ _ _ hthere => .pure hthere

/-! ### The loader -/

/-- Whatever a load nests, it makes the changes of the loader. -/
theorem loadWithin_tracing : ∀ nesting, Tracing (loadWithin nesting)
  | 0 => fun m name _ _ r m' hrun hr => by
    cases hrun
    exact hr.elim
  | nesting + 1 => fun m name hm hsize => by
    have hload := loadWithin_tracing nesting
    refine Traced.reads (outcome_get m) ?_ hm hsize
    split
    · rename_i id hbound
      exact .pure (hm.bound name id hbound)
    · split
      · rename_i harray
        exact defineArray_traced hload harray
      · split
        · exact .ofFormat fun file _ => define_traced hload file
        · split
          · exact define_traced hload _
          · exact .raise _ _

end Loader

namespace VM

open Loader

theorem load_tracing : Tracing load := fun m name =>
  Traced.reads (outcome_get m) (loadWithin_tracing m.nesting m name)

end VM

end JavaMachine
