import JavaMachine.Proofs.Nesting

/-!
What the steps of loading a class leave behind.

`Loads room own m x gives` says it of one step: on a sound machine whose definitions to come take at
most `room` loads inside of each other, and while the classes `own` are being defined, `x` ends with
a sound machine that has grown, and with what `gives` says. The load that the steps of the loader
take as an argument is only asked to be `Lawful`.
-/

namespace JavaMachine

/-- `string` is a string object with the given units, made after the first `oldest` objects. -/
def Machine.HasString (m : Machine) (oldest : Nat) (string : Address) (units : Text.Units) : Prop :=
  ∃ stringClass charsClass field chars fields,
    m.field? stringClass "value" "[C" = some field ∧
    (SlotTable.zeros (m.cls stringClass).instanceSlots).set? (m.fieldAt field).slot
    (.ref (some chars)) = some fields ∧
    m.object string = ⟨stringClass, .fields fields⟩ ∧
    m.object chars = ⟨charsClass, .chars units.toArray⟩ ∧
    oldest ≤ string.index ∧ string.index < m.heap.size ∧ oldest ≤ chars.index

namespace Loader

variable {α β : Type} {room : Nat} {own own' : ClassId → Prop} {m m₁ m' : Machine}
  {id : ClassId} {load : Load}

/-- How a step on `m` ends. A slot may be out of range, and a search for the field of strings
endless, but the nesting of loads is never too deep. -/
inductive Ends (own : ClassId → Prop) (m : Machine) (gives : Machine → α → Prop) :
    Except Failure α → Machine → Prop where
  | ok {a : α} {m' : Machine} (sound : m'.Sound) (grows : m.Grows own m') (given : gives m' a) :
      Ends own m gives (.ok a) m'
  | fault {fault : Fault} {m' : Machine} (sound : m'.Sound) (grows : m.Grows own m') :
      Ends own m gives (.error (.fault fault)) m'
  | outOfRange {m' : Machine} : Ends own m gives (.error .outOfRange) m'
  | endless {m' : Machine} : Ends own m gives (.error .endless) m'

namespace Ends

variable {gives : Machine → α → Prop} {r : Except Failure α}

theorem weaken {gives' : Machine → α → Prop} (h : Ends own m gives r m')
    (hgives : ∀ m' a, gives m' a → gives' m' a) : Ends own m gives' r m' := by
  cases h with
  | ok hm' hgrows ha => exact .ok hm' hgrows (hgives _ _ ha)
  | fault hm' hgrows => exact .fault hm' hgrows
  | outOfRange => exact .outOfRange
  | endless => exact .endless

theorem mono (h : Ends own m gives r m') (hown : ∀ id, own id → own' id) : Ends own' m gives r m' := by
  cases h with
  | ok hm' hgrows ha => exact .ok hm' (hgrows.mono hown) ha
  | fault hm' hgrows => exact .fault hm' (hgrows.mono hown)
  | outOfRange => exact .outOfRange
  | endless => exact .endless

/-- The growth before a step counts as well. -/
theorem after (h : Ends own m₁ gives r m') (hgrows : m.Grows own m₁) (hm₁ : m₁.Sound) :
    Ends own m gives r m' := by
  cases h with
  | ok hm' hgrows' ha => exact .ok hm' (hgrows.trans hm₁ hgrows') ha
  | fault hm' hgrows' => exact .fault hm' (hgrows.trans hm₁ hgrows')
  | outOfRange => exact .outOfRange
  | endless => exact .endless

end Ends

/-- What a step does to a sound machine. Every definition that may still begin takes two loads of
the room: one for its class, and one for an array class in between. -/
def Loads (room : Nat) (own : ClassId → Prop) (m : Machine) (x : VM α)
    (gives : Machine → α → Prop) : Prop :=
  m.Sound → 2 * m.pending ≤ room → ∀ r m', outcome x m = (r, m') → Ends own m gives r m'

/-- A load that gives a class of the machine, and does nothing to the classes that were there. -/
def Lawful (room : Nat) (load : Load) : Prop :=
  ∀ m name, Loads room (fun _ => False) m (load name) fun m' id => id.index < m'.classes.size

/-! ### Sequences of steps -/

namespace Loads

variable {x : VM α} {gives : Machine → α → Prop} {then' : Machine → β → Prop}

theorem pure {a : α} (h : gives m a) : Loads room own m (pure a) gives := by
  intro hm _ r m' hrun
  cases hrun
  exact .ok hm (.refl m) h

theorem fail (fault : Fault) : Loads room own m (VM.fail fault) gives := by
  intro hm _ r m' hrun
  cases hrun
  exact .fault hm (.refl m)

theorem raise (className message : String) : Loads room own m (VM.raise className message) gives :=
  fail _

/-- Nothing comes after an exception. -/
theorem raise_bind {f : α → VM β} (className message : String) :
    Loads room own m (VM.raise className message >>= f) then' :=
  fail (.exception className message)

/-- Either the first step fails and all is done, or the second one starts with a sound machine that
has grown. -/
theorem bind_cases {f : α → VM β} {r : Except Failure β}
    (first : Loads room own m x gives) (hm : m.Sound)
    (hroom : 2 * m.pending ≤ room) (hrun : outcome (x >>= f) m = (r, m')) :
    Ends own m (fun _ _ => False) r m' ∨
      ∃ a m₁, m₁.Sound ∧ m.Grows own m₁ ∧ gives m₁ a ∧ outcome (f a) m₁ = (r, m') := by
  rw [outcome_bind] at hrun
  rcases hx : outcome x m with ⟨e | a, m₁⟩ <;> rw [hx] at hrun
  · cases hrun
    cases first hm hroom _ _ hx with
    | fault hm' hgrows => exact .inl (.fault hm' hgrows)
    | outOfRange => exact .inl .outOfRange
    | endless => exact .inl .endless
  · cases first hm hroom _ _ hx with
    | ok hm₁ hgrows ha => exact .inr ⟨a, m₁, hm₁, hgrows, ha, hrun⟩

theorem bind {f : α → VM β} (first : Loads room own m x gives)
    (second : ∀ a m₁, m.Grows own m₁ → gives m₁ a → Loads room own m₁ (f a) then') :
    Loads room own m (x >>= f) then' := by
  intro hm hroom r m' hrun
  rcases first.bind_cases hm hroom hrun with hends | ⟨a, m₁, hm₁, hgrows, ha, hrun⟩
  · exact hends.weaken fun _ _ h => h.elim
  · exact (second a m₁ hgrows ha hm₁ (Nat.le_trans (Nat.mul_le_mul_left 2 hgrows.pending_le) hroom)
      r m' hrun).after
      hgrows hm₁

theorem mono (h : Loads room own m x gives) (hown : ∀ id, own id → own' id) :
    Loads room own' m x gives :=
  fun hm hroom r m' hrun => (h hm hroom r m' hrun).mono hown

/-- What a step reads of the machine is not asked for again. -/
theorem reads {f : α → VM β} {a : α} (hread : outcome x m = (.ok a, m))
    (second : Loads room own m (f a) then') :
    Loads room own m (x >>= f) then' := by
  intro hm hroom r m' hrun
  rw [outcome_bind_of_ok hread] at hrun
  exact second hm hroom r m' hrun

theorem ofFormat {checked : Except FormatError α} :
    Loads room own m (VM.ofFormat checked) fun _ a => checked = .ok a := by
  cases checked with
  | ok a => exact pure rfl
  | error e => exact fail _

theorem inRange {a : Option α} : Loads room own m (VM.inRange a) fun _ b => a = some b := by
  cases a with
  | none =>
    intro hm _ r m' hrun
    cases hrun
    exact .outOfRange
  | some b => exact pure rfl

/-- A search that ends is gone on from. -/
theorem ofSearch {search : Search α} {f : Option α → VM β}
    (second : ∀ found, search.found? = found → Loads room own m (f found) then') :
    Loads room own m (VM.ofSearch search >>= f) then' := by
  cases search with
  | found a => exact reads (a := some a) rfl (second _ rfl)
  | absent => exact reads (a := none) rfl (second _ rfl)
  | endless =>
    intro _ _ r m' hrun
    cases hrun
    exact .endless

/-- A class that is being defined may come to extend linked classes. -/
theorem modifyClass {change : Class → Class} {gives : Machine → Unit → Prop} (hown : own id)
    (harray : (change (m.cls id)).isArray = (m.cls id).isArray)
    (hlinked : (change (m.cls id)).linked = (m.cls id).linked)
    (habove : ∀ k, (change (m.cls id)).Below k → (m.cls id).Below k ∨ (m.cls k).linked = true)
    (h : gives (m.changeClass id change) ⟨⟩) : Loads room own m (VM.modifyClass id change) gives := by
  intro hm _ r m' hrun
  cases hrun
  exact .ok (hm.changeClass harray (fun hl => hlinked.trans hl) habove)
    (Machine.grows_changeClass hown hlinked) h

theorem modifyPlaced {change : Class → Class} (hown : own id)
    (hplace : ∀ c : Class, c.SamePlace (change c)) :
    Loads room own m (VM.modifyClass id change) fun _ _ => True :=
  modifyClass hown (hplace _).isArray (hplace _).linked
    (fun k h => .inl (((hplace _).below k).mp h)) trivial

theorem forM {f : α → VM PUnit} (h : ∀ a m₁, Loads room own m₁ (f a) fun _ _ => True) :
    ∀ (as : List α) {m : Machine}, Loads room own m (as.forM f) fun _ _ => True
  | [], _ => pure trivial
  | a :: as, m => by
    rw [List.forM]
    exact bind (h a m) fun _ _ _ _ => forM h as

/-- What each of the results is said to be still holds at the end, if it is kept while the machine
grows. -/
theorem mapM {f : α → VM β} {p : Machine → β → Prop}
    (hkeep : ∀ b m₁ m₂, m₁.Grows own m₂ → p m₁ b → p m₂ b) :
    ∀ {as : List α} {m : Machine}, (∀ a ∈ as, ∀ m₁, Loads room own m₁ (f a) p) →
      Loads room own m (as.mapM f) fun m' bs => ∀ b ∈ bs, p m' b
  | [], _, _ => pure fun b hb => by cases hb
  | a :: as, m, h => by
    rw [List.mapM_cons]
    obtain ⟨ha, has⟩ := List.forall_mem_cons.mp h
    refine bind (ha m) fun b m₁ _ hb => bind (mapM hkeep has) fun bs m₂ hgrows hbs => ?_
    exact pure (List.forall_mem_cons.mpr ⟨hkeep b m₁ m₂ hgrows hb, hbs⟩)

end Loads

theorem Lawful.loads (hload : Lawful room load) (name : String) :
    Loads room own m (load name) fun m' id => id.index < m'.classes.size :=
  (hload m name).mono fun _ h => h.elim

/-! ### Strings -/

theorem stringOfUnits_loads (hload : Lawful room load) (units : Text.Units) :
    Loads room own m (stringOfUnits load units) fun m' string =>
      m'.HasString m.heap.size string units ∧ m.Spares string m' := by
  refine (hload.loads _).bind fun stringClass m₁ hgrows₁ _ => ?_
  refine (hload.loads _).bind fun charsClass m₂ hgrows₂ _ => ?_
  refine .reads (outcome_get m₂) ?_
  refine .ofSearch fun found hfound => ?_
  split
  · exact .raise _ _
  · rename_i field
    intro hm₂ _ r m' hrun
    rw [outcome_bind_of_ok (VM.outcome_allocate _), outcome_bind_of_ok (VM.outcome_newObject _),
      outcome_bind, VM.outcome_setField (Machine.object_withObject_new _)] at hrun
    split at hrun
    · rename_i hset
      split at hset
      · cases hset
      · rename_i fields hset'
        cases hset
        rw [Machine.withData_withObject] at hrun
        cases hrun
        have hheap := Nat.le_trans hgrows₁.heap hgrows₂.heap
        refine .ok (hm₂.of_eq rfl rfl) (Machine.grows_of_eq rfl rfl rfl rfl (by simp; omega)
          fun a ha => ?_) ⟨?_, ?_⟩
        · rw [Machine.object_withObject_of_lt (by simp; omega), Machine.object_withObject_of_lt ha]
        · refine ⟨stringClass, charsClass, field, ⟨m₂.heap.size⟩, fields, ?_, hset', ?_, ?_, ?_⟩
          · exact (congrArg Search.found? (Machine.fieldSearch_congr (by rfl) ..)).trans hfound
          · exact Machine.object_withObject_new _
          · rw [Machine.object_withObject_of_lt (by simp)]
            exact Machine.object_withObject_new _
          · simp; omega
        · exact (hgrows₁.recalls.trans hgrows₂.recalls hgrows₁.heap hgrows₂.heap).spares_new
            (by simp) rfl
    · rename_i hset
      split at hset
      · cases hset
        cases hrun
        exact .outOfRange
      · cases hset

theorem intern_loads (hload : Lawful room load) (units : Text.Units) :
    Loads room own m (intern load units) fun _ _ => True := by
  refine .reads (outcome_get m) ?_
  split
  · exact .pure trivial
  · rename_i hfree
    intro hm hroom r m' hrun
    rcases (stringOfUnits_loads hload units).bind_cases hm hroom hrun with
      hends | ⟨string, m₁, hm₁, hgrows, ⟨⟨_, _, _, _, _, _, _, _, _, hnew, hthere, _⟩, hspares⟩, hrun⟩
    · exact hends.weaken fun _ _ h => h.elim
    · cases hrun
      exact .ok (hm₁.of_eq rfl rfl) (hgrows.withLiteral hfree hnew hthere hspares) trivial

/-! ### Linking -/

theorem setStatic_loads (slot : Nat) (value : Value) (hown : own id) :
    Loads room own m (setStatic id slot value) fun _ _ => True :=
  .reads (VM.outcome_cls id) (Loads.inRange.bind fun _ _ _ _ => .modifyPlaced hown fun _ =>
    ⟨rfl, rfl, rfl, rfl⟩)

theorem initializeField_loads (hload : Lawful room load) (field : Field)
    (index : UInt16) (hown : own id) :
    Loads room own m (initializeField load id field index) fun _ _ => True := by
  refine .reads (VM.outcome_cls id) (Loads.ofFormat.bind fun constant m₁ _ _ => ?_)
  split
  · exact setStatic_loads _ _ hown
  · exact setStatic_loads _ _ hown
  · exact setStatic_loads _ _ hown
  · exact setStatic_loads _ _ hown
  · exact (intern_loads hload _).bind fun _ _ _ _ => setStatic_loads _ _ hown
  · exact .fail _

/-- The slots of the super class, after which the class has its own. -/
def inheritedSlots (id : ClassId) : VM Nat := do
  match (← VM.cls id).superClass with
  | some superClass => return (← VM.cls superClass).instanceSlots
  | none => return 0

/-- What linking does before it marks the class as linked. -/
def prepare (load : Load) (id : ClassId) : VM Unit := do
  let inherited ← inheritedSlots id
  VM.modifyClass id (·.layOut inherited)
  (← VM.cls id).constantFields.forM fun (field, index) => initializeField load id field index

theorem link_eq (load : Load) (id : ClassId) :
    link load id = prepare load id >>= fun _ => VM.modifyClass id ({ · with linked := true }) := by
  simp only [link, prepare, inheritedSlots, bind_assoc]
  congr 1
  funext c
  cases c.superClass <;> simp only [bind_assoc, pure_bind]

theorem inheritedSlots_loads :
    Loads room own m (inheritedSlots id) fun m' _ => m'.cls id = m.cls id := by
  refine .reads (VM.outcome_cls id) ?_
  split
  · exact .reads (VM.outcome_cls _) (.pure rfl)
  · exact .pure rfl

theorem prepare_loads (hload : Lawful room load) (hown : own id) :
    Loads room own m (prepare load id) fun _ _ => True := by
  refine inheritedSlots_loads.bind fun inherited m₁ _ _ => ?_
  refine Loads.bind (.modifyPlaced hown (Class.samePlace_layOut · inherited)) fun _ m₂ _ _ => ?_
  refine .reads (VM.outcome_cls id) ?_
  exact .forM (fun ⟨field, index⟩ _ => initializeField_loads hload field index hown) _

theorem inheritedSlots_reads (m : Machine) (id : ClassId) :
    ∃ inherited, outcome (inheritedSlots id) m = (.ok inherited, m) := by
  unfold inheritedSlots
  rw [outcome_bind_of_ok (VM.outcome_cls id)]
  cases (m.cls id).superClass <;> exact ⟨_, rfl⟩

/-- A class without fields is prepared without any load. -/
theorem outcome_prepare_of_no_fields (load : Load) (hfields : (m.cls id).fields = #[]) :
    ∃ inherited, outcome (prepare load id) m = (.ok ⟨⟩, m.changeClass id (·.layOut inherited)) := by
  obtain ⟨inherited, hinherited⟩ := inheritedSlots_reads m id
  have hnone : ((m.changeClass id (·.layOut inherited)).cls id).constantFields = [] := by
    rcases m.cls_changeClass id (·.layOut inherited) id with h | ⟨-, h⟩ <;> rw [h, Class.constantFields]
    · rw [hfields]; rfl
    · rw [Class.layOut, hfields]; rfl
  refine ⟨inherited, ?_⟩
  rw [prepare, outcome_bind_of_ok hinherited, outcome_bind_of_ok (VM.outcome_modifyClass ..),
    outcome_bind_of_ok (VM.outcome_cls id), hnone]
  rfl

/-! ### Definition -/

theorem loadLinked_loads (hload : Lawful room load) (className name : String) :
    Loads room own m (loadLinked load className name) fun m' k => (m'.cls k).linked = true := by
  refine (hload.loads name).bind fun k m₁ _ _ => ?_
  refine .reads (VM.outcome_cls k) ?_
  split
  · rename_i hlinked
    exact .pure hlinked
  · exact .raise _ _

theorem attachSuper_loads (hload : Lawful room load) (hown : own id) :
    Loads room own m (attachSuper load id) fun _ _ => True := by
  refine .reads (VM.outcome_cls id) ?_
  split
  · exact .pure trivial
  · rename_i name _
    refine (loadLinked_loads hload _ name).bind fun superClass m₁ _ hlinked => ?_
    refine .reads (VM.outcome_cls superClass) ?_
    dsimp only
    split
    · exact .raise_bind _ _
    · refine .modifyClass hown rfl rfl ?_ trivial
      rintro k (h | h)
      · cases h
        exact .inr hlinked
      · exact .inl (.inr h)

theorem loadInterface_loads (hload : Lawful room load) (className name : String) :
    Loads room own m (loadInterface load className name) fun m' k => (m'.cls k).linked = true := by
  refine (loadLinked_loads hload className name).bind fun k m₁ _ hlinked => ?_
  refine .reads (VM.outcome_cls k) ?_
  split
  · exact .pure hlinked
  · exact .raise _ _

theorem attachInterfaces_loads (hload : Lawful room load) (hown : own id) :
    Loads room own m (attachInterfaces load id) fun _ _ => True := by
  refine .reads (VM.outcome_cls id) ?_
  refine (Loads.mapM ?_ fun name _ _ => loadInterface_loads hload _ name).bind
    fun interfaces m₁ _ hlinked => ?_
  · exact fun k m₁ m₂ hgrows hk => (hgrows.linked k (Machine.lt_of_linked hk)).trans hk
  · refine .modifyClass hown rfl rfl ?_ trivial
    rintro k (h | h)
    · exact .inl (.inl h)
    · exact .inr (hlinked k h)

/-- What is done for a class before it is marked as linked. -/
def attach (load : Load) (id : ClassId) : VM Unit := do
  attachSuper load id
  attachInterfaces load id
  prepare load id

theorem complete_eq (load : Load) (id : ClassId) :
    complete load id = attach load id >>= fun _ => VM.modifyClass id ({ · with linked := true }) := by
  simp only [complete, attach, link_eq, bind_assoc]

theorem attach_loads (hload : Lawful room load) (hown : own id) :
    Loads room own m (attach load id) fun _ _ => True :=
  (attachSuper_loads hload hown).bind fun _ _ _ _ =>
    (attachInterfaces_loads hload hown).bind fun _ _ _ _ => prepare_loads hload hown

end Loader

end JavaMachine
