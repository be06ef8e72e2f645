import JavaMachine.Proofs.BuiltNames
import JavaMachine.Proofs.Coherence
import JavaMachine.Proofs.OperandStack

/-!
Loading keeps a machine coherent.

`Follows own m x gives` says of a step on `m` that completes, while the classes `own` are being
defined, that it leaves a coherent machine that has grown, and what `gives` says. Nothing is said
about how deep loads are inside of each other: a load that is too deep does not complete.
`loadWithin_follows` adds what the class is called that a load gives.
-/

namespace JavaMachine

namespace Machine

variable {m m₁ m' : Machine} {id : ClassId}

/-- No initialization has begun. Array classes count as started from the beginning, but have no
methods. -/
def Quiet (m m' : Machine) : Prop :=
  ∀ id, (m'.cls id).initStarted = true → (m'.cls id).methods = #[] ∨
    (m.cls id).initStarted = true ∧ (m'.cls id).methods = (m.cls id).methods

namespace Quiet

theorem of_eq (hclasses : m'.classes = m.classes) : m.Quiet m' := fun id h => by
  rw [cls_congr hclasses] at h ⊢
  exact .inr ⟨h, rfl⟩

theorem refl (m : Machine) : m.Quiet m := of_eq rfl

theorem trans (h : m.Quiet m₁) (h' : m₁.Quiet m') : m.Quiet m' := by
  intro id hid
  rcases h' id hid with hnone | ⟨hid, hmethods⟩
  · exact .inl hnone
  · rw [hmethods]
    exact h id hid

theorem changeClass {change : Class → Class}
    (hstarted : (change (m.cls id)).initStarted = (m.cls id).initStarted)
    (hmethods : (change (m.cls id)).methods = (m.cls id).methods) :
    m.Quiet (m.changeClass id change) := by
  intro other h
  rcases cls_changeClass m id change other with heq | ⟨rfl, heq⟩ <;> rw [heq] at h ⊢
  · exact .inr ⟨h, rfl⟩
  · exact .inr ⟨hstarted.symm.trans h, hmethods⟩

theorem withClass {c : Class} (h : c.initStarted = true → c.methods = #[]) :
    m.Quiet (m.withClass c) := by
  intro id hid
  by_cases hnew : id = m.nextClassId
  · subst hnew
    rw [cls_withClass_new] at hid ⊢
    exact .inl (h hid)
  · rw [cls_withClass_ne hnew] at hid ⊢
    exact .inr ⟨hid, rfl⟩

end Quiet

/-- The directories have, under the name, the file of a class that is called otherwise. -/
structure Misnames (m : Machine) (name other : String) : Prop where
  unbound : m.lookup? name = none
  noArray : ArrayName.isArray name = false
  file : ∃ bytes file, m.classFile? name = some bytes ∧ ClassFile.decode bytes = .ok file ∧
    file.name? = some other
  different : other ≠ name

/-- The class that a load of a name gives. It has that name, unless there is a misnamed file. -/
structure Finds (m : Machine) (name : String) (m' : Machine) (id : ClassId) : Prop where
  bound : m'.lookup? (m'.cls id).name = some id
  named : (m'.cls id).name = name ∨ m.Misnames name (m'.cls id).name

theorem Finds.answers {name : String} (h : m.Finds name m' id)
    (hdirectories : m'.directories = m.directories) :
    m'.Answers name id := by
  refine h.named.imp_right fun hmisnamed => ?_
  rw [classFile?, hdirectories]
  exact ⟨hmisnamed.noArray, hmisnamed.file⟩

end Machine

namespace Loader

variable {α β : Type} {own own₁ : ClassId → Prop} {m m₁ m' : Machine} {id : ClassId} {load : Load}

/-- What a step leaves that has run on `m`. -/
structure Leaves (own : ClassId → Prop) (m : Machine) (gives : Machine → α → Prop)
    (r : Except Failure α) (m' : Machine) : Prop where
  coherent : m'.Coherent
  grows : m.Grows own m'
  quiet : m.Quiet m'
  given : ∀ a, r = .ok a → gives m' a

/-- What a step does to a coherent machine, if it completes. -/
def Follows (own : ClassId → Prop) (m : Machine) (x : VM α) (gives : Machine → α → Prop) : Prop :=
  m.Coherent → ∀ r m', outcome x m = (r, m') → Completes r → Leaves own m gives r m'

/-- A load that gives a class by its name, and does nothing to the classes that were there. -/
def Faithful (load : Load) : Prop := ∀ m name, Follows (fun _ => False) m (load name) (m.Finds name)

/-! ### Sequences of steps -/

namespace Follows

variable {x : VM α} {gives : Machine → α → Prop} {then' : Machine → β → Prop}

theorem pure {a : α} (h : gives m a) : Follows own m (pure a) gives := by
  intro hm r m' hrun _
  cases hrun
  exact ⟨hm, .refl m, .refl m, fun b hb => by cases hb; exact h⟩

theorem fail (fault : Fault) : Follows own m (VM.fail fault) gives := by
  intro hm r m' hrun _
  cases hrun
  exact ⟨hm, .refl m, .refl m, fun b hb => by cases hb⟩

theorem raise (className message : String) : Follows own m (VM.raise className message) gives := fail _

/-- Nothing comes after an exception. -/
theorem raise_bind {f : α → VM β} (className message : String) :
    Follows own m (VM.raise className message >>= f) then' :=
  fail (.exception className message)

/-- The first step may own less than the second one. -/
theorem bind {f : α → VM β} (first : Follows own₁ m x gives) (hown : ∀ id, own₁ id → own id)
    (second : ∀ a m₁, m₁.Coherent → m.Grows own₁ m₁ → gives m₁ a → Follows own m₁ (f a) then') :
    Follows own m (x >>= f) then' := by
  intro hm r m' hrun hr
  obtain ⟨fault, hx, rfl⟩ | ⟨a, m₁, hx, hrun⟩ := outcome_bind_completes hrun hr
  · have hfirst := first hm _ _ hx trivial
    exact ⟨hfirst.coherent, hfirst.grows.mono hown, hfirst.quiet, fun b hb => by cases hb⟩
  · have hfirst := first hm _ _ hx trivial
    have hrest := second a m₁ hfirst.coherent hfirst.grows (hfirst.given a rfl)
      hfirst.coherent r m' hrun hr
    exact ⟨hrest.coherent, (hfirst.grows.mono hown).trans hfirst.coherent.sound hrest.grows,
      hfirst.quiet.trans hrest.quiet, hrest.given⟩

/-- What a step reads of the machine is not asked for again. -/
theorem reads {f : α → VM β} {a : α} (hread : outcome x m = (.ok a, m))
    (second : Follows own m (f a) then') :
    Follows own m (x >>= f) then' := by
  intro hm r m' hrun hr
  rw [outcome_bind_of_ok hread] at hrun
  exact second hm r m' hrun hr

theorem ofFormat {f : α → VM β} {checked : Except FormatError α}
    (second : ∀ a, checked = .ok a → Follows own m (f a) then') :
    Follows own m (VM.ofFormat checked >>= f) then' := by
  cases checked with
  | ok a => exact reads (VM.outcome_ofFormat_ok a) (second a rfl)
  | error e => exact fail (.classFormat e)

theorem inRange {f : α → VM β} {a? : Option α} (second : ∀ a, a? = some a → Follows own m (f a) then') :
    Follows own m (VM.inRange a? >>= f) then' := by
  cases a? with
  | none =>
    intro _ r m' hrun hr
    cases hrun
    exact hr.elim
  | some a => exact reads (a := a) rfl (second a rfl)

theorem ofSearch {f : Option α → VM β} {search : Search α}
    (second : ∀ found, search.found? = found → Follows own m (f found) then') :
    Follows own m (VM.ofSearch search >>= f) then' := by
  cases search with
  | found a => exact reads (a := some a) rfl (second _ rfl)
  | absent => exact reads (a := none) rfl (second _ rfl)
  | endless =>
    intro _ r m' hrun hr
    cases hrun
    exact hr.elim

theorem modifyClass {change : Class → Class} {gives : Machine → Unit → Prop} (hown : own id)
    (hcoherent : (m.changeClass id change).Coherent)
    (hlinked : (change (m.cls id)).linked = (m.cls id).linked)
    (hstarted : (change (m.cls id)).initStarted = (m.cls id).initStarted)
    (hmethods : (change (m.cls id)).methods = (m.cls id).methods)
    (h : gives (m.changeClass id change) ⟨⟩) :
    Follows own m (VM.modifyClass id change) gives := by
  intro _ r m' hrun _
  cases hrun
  exact ⟨hcoherent, Machine.grows_changeClass hown hlinked,
    .changeClass hstarted hmethods, fun _ _ => h⟩

theorem weaken {gives' : Machine → α → Prop} (h : Follows own m x gives)
    (hgives : ∀ m' a, gives m' a → gives' m' a) :
    Follows own m x gives' := fun hm r m' hrun hr =>
  let left := h hm r m' hrun hr
  ⟨left.coherent, left.grows, left.quiet, fun a ha => hgives m' a (left.given a ha)⟩

/-- A property of the machine that each of the steps keeps is kept by all of them. -/
theorem forM {f : α → VM PUnit} {p : Machine → Prop}
    (h : ∀ a m₁, m₁.Coherent → p m₁ → Follows own m₁ (f a) fun m' _ => p m') :
    ∀ (as : List α) {m : Machine}, p m → Follows own m (as.forM f) fun m' _ => p m'
  | [], _, hp => pure hp
  | a :: as, m, hp => by
    rw [List.forM]
    intro hm
    exact bind (h a m hm hp) (fun _ h => h) (fun _ _ _ _ hp => forM h as hp) hm

/-- What each of the results is said to be still holds at the end, if it is kept while the machine
grows. -/
theorem mapM {f : α → VM β} {p : Machine → β → Prop}
    (hkeep : ∀ b m₁ m₂, m₁.Coherent → m₁.Grows own m₂ → p m₁ b → p m₂ b) :
    ∀ (as : List α) {m : Machine}, (∀ a ∈ as, ∀ m₁, Follows own m₁ (f a) p) →
      Follows own m (as.mapM f) fun m' bs => ∀ b ∈ bs, p m' b
  | [], _, _ => pure fun b hb => by cases hb
  | a :: as, m, h => by
    obtain ⟨ha, has⟩ := List.forall_mem_cons.mp h
    rw [List.mapM_cons]
    refine bind (ha m) (fun _ h => h) fun b m₁ hm₁ _ hb => ?_
    refine bind (mapM hkeep as has) (fun _ h => h) fun bs m₂ _ hgrows hbs => ?_
    exact pure (List.forall_mem_cons.mpr ⟨hkeep b m₁ m₂ hm₁ hgrows hb, hbs⟩)

end Follows

theorem Faithful.bind {name : String} {f : ClassId → VM β} {then' : Machine → β → Prop}
    (hload : Faithful load)
    (second : ∀ id m₁, m₁.Coherent → m.Grows (fun _ => False) m₁ → m.Finds name m₁ id →
      Follows own m₁ (f id) then') :
    Follows own m (load name >>= f) then' :=
  Follows.bind (hload m name) (fun _ h => h.elim) second

/-! ### Strings -/

theorem stringOfUnits_follows (hload : Faithful load) (units : Text.Units) :
    Follows (fun _ => False) m (stringOfUnits load units) fun m' string =>
      m.heap.size ≤ string.index ∧ string.index < m'.heap.size ∧ m.Spares string m' := by
  refine hload.bind fun stringClass m₁ _ hgrows₁ hstring =>
    hload.bind fun charsClass m₂ hm₂ hgrows hchars => ?_
  refine .reads (outcome_get m₂) (.ofSearch fun found _ => ?_)
  split
  · exact .raise _ _
  · rename_i field
    have hcharsThere := hm₂.sound.bound _ _ hchars.bound
    have hcharsName : (m₂.cls charsClass).name = "[C" :=
      hchars.named.resolve_right fun hother => absurd hother.noArray (by decide)
    have hcharsArray : (m₂.cls charsClass).isArray = true := by rw [Class.isArray, hcharsName]; decide
    have hstringThere := hm₂.sound.bound _ _ (hgrows.bound _ _ hstring.bound)
    intro _ r m' hrun hr
    obtain ⟨fields, hset, rfl, rfl⟩ := VM.string_made hrun hr
    have hsize := SlotTable.size_set? hset
    rw [SlotTable.size_zeros] at hsize
    have hpos : 0 < (m₂.cls stringClass).instanceSlots := by
      refine Nat.pos_of_ne_zero fun hzero => ?_
      change (SlotTable.zeros (m₂.cls stringClass).instanceSlots).set? _ _ = _ at hset
      rw [hzero] at hset
      simp [SlotTable.set?, SlotTable.zeros] at hset
    have hwithChars : (m₂.withObject ⟨charsClass, .chars units.toArray⟩).Coherent :=
      hm₂.withObject hcharsThere (fun h => by rw [hcharsArray] at h; cases h)
        (fun _ => hcharsName ▸ ⟨_, rfl, rfl⟩)
        fun h => by rw [hcharsArray] at h; cases h
    refine ⟨hwithChars.withObject hstringThere (fun _ => ⟨fields, rfl, hsize⟩)
      (ObjectData.suits_fields _ _)
        fun _ _ _ => .inr hpos,
      Machine.grows_of_eq rfl rfl rfl rfl (by simp; omega) fun a ha => ?_, .of_eq rfl,
        fun string hstring => ?_⟩
    · rw [Machine.object_withObject_of_lt (by simp; omega), Machine.object_withObject_of_lt ha]
    · cases hstring
      have hheap := Nat.le_trans hgrows₁.heap hgrows.heap
      exact ⟨Nat.le_succ_of_le hheap, by simp,
        (hgrows₁.recalls.trans hgrows.recalls hgrows₁.heap hgrows.heap).spares_new (Nat.le_succ _) rfl⟩

theorem intern_follows (hload : Faithful load) (units : Text.Units) :
    Follows (fun _ => False) m (intern load units) fun m' string =>
      m'.literals.lookup units = some string := by
  refine .reads (outcome_get m) ?_
  split
  · rename_i hbound
    exact .pure hbound
  · rename_i hfree
    intro hm r m' hrun hr
    obtain ⟨fault, hmade, rfl⟩ | ⟨string, m₁, hmade, hrun⟩ := outcome_bind_completes hrun hr
    · have hleft := stringOfUnits_follows hload units hm _ _ hmade trivial
      exact ⟨hleft.coherent, hleft.grows, hleft.quiet, fun _ h => by cases h⟩
    · cases hrun
      have hleft := stringOfUnits_follows hload units hm _ _ hmade trivial
      obtain ⟨hnew, hthere, hspares⟩ := hleft.given string rfl
      refine ⟨hleft.coherent.of_eq rfl rfl rfl rfl, hleft.grows.withLiteral hfree hnew hthere hspares,
        hleft.quiet.trans (.of_eq rfl), fun a ha => ?_⟩
      cases ha
      exact Machine.lookup_withLiteral_self

/-! ### Linking -/

/-- Storing a value in a static field changes nothing but the static fields. -/
theorem setStatic_follows (slot : Nat) (value : Value) :
    Follows (· = id) m (setStatic id slot value) fun m' _ => ∀ name, m.Ready id name →
      m'.Ready id name := by
  refine .reads (VM.outcome_cls id) (.inRange fun statics hset => ?_)
  intro hm
  refine Follows.modifyClass rfl (hm.changeLater (.withStatics _ _) (SlotTable.size_setAll? hset)
    fun _ => .inl) rfl rfl rfl
    (fun name h => ?_) hm
  have hself := Machine.cls_changeClass_self ({ · with statics }) h.there
  refine ⟨by rw [Machine.size_changeClass]; exact h.there, by rw [hself]; exact h.root,
    (congrArg Class.name hself).trans h.called, ?_⟩
  have hinherited : (m.changeClass id ({ · with statics })).inherited id = m.inherited id := by
    rw [Machine.inherited, Machine.inherited, hself]
    refine congrArg (Option.getD · 0) (congrFun (congrArg Option.map (funext fun k => ?_)) _)
    rcases m.cls_changeClass id ({ · with statics }) k with heq | ⟨rfl, heq⟩ <;> rw [heq]
  rw [hself, hinherited]
  exact h.placed

theorem initializeField_follows (hload : Faithful load) (field : Field) (index : UInt16) :
    Follows (· = id) m (initializeField load id field index) fun m' _ => ∀ name, m.Ready id name →
      m'.Ready id name := by
  refine .reads (VM.outcome_cls id) (.ofFormat fun constant _ => ?_)
  split
  · exact setStatic_follows _ _
  · exact setStatic_follows _ _
  · exact setStatic_follows _ _
  · exact setStatic_follows _ _
  · intro hm
    refine Follows.bind (intern_follows hload _) (fun _ h => h.elim) (fun string m₁ _ hgrows _ => ?_) hm
    exact (setStatic_follows _ _).weaken fun m' _ h name hready =>
      h name (hready.grows hm.sound hgrows fun _ h => h)
  · exact .fail _

theorem outcome_inheritedSlots : outcome (inheritedSlots id) m = (.ok (m.inherited id), m) := by
  unfold inheritedSlots Machine.inherited
  rw [outcome_bind_of_ok (VM.outcome_cls id)]
  cases (m.cls id).superClass <;> rfl

theorem prepare_follows (hload : Faithful load) (h : m.Attached id) :
    Follows (· = id) m (prepare load id) fun m' _ => m'.Ready id (m.cls id).name := by
  intro hm
  obtain ⟨hplaced, hready⟩ := hm.layOut h rfl
  have hlaidOut : Follows (· = id) m (VM.modifyClass id (·.layOut (m.inherited id)))
      fun m' _ => m'.Ready id (m.cls id).name :=
    .modifyClass rfl hplaced rfl rfl rfl hready
  refine Follows.reads outcome_inheritedSlots ?_ hm
  refine hlaidOut.bind (fun _ h => h) fun _ m₁ _ _ hready => .reads (VM.outcome_cls id) ?_
  exact .forM (p := fun m' => m'.Ready id (m.cls id).name) (fun ⟨field, index⟩ m₁ _ hready =>
    (initializeField_follows hload field index).weaken fun _ _ h => h _ hready) _ hready

/-! ### Definition -/

theorem loadLinked_follows (hload : Faithful load) (className name : String) :
    Follows (fun _ => False) m (loadLinked load className name) fun m' k =>
      (m'.cls k).linked = true ∧ m'.Answers name k := by
  refine hload.bind fun k m₁ _ hgrows hfound => .reads (VM.outcome_cls k) ?_
  split
  · rename_i hlinked
    exact .pure ⟨hlinked, hfound.answers hgrows.directories⟩
  · exact .raise _ _

/-- A class that is being defined comes to extend a linked class or linked interfaces. -/
theorem extend_follows {change : Class → Class} (h : m.Opened id)
    (hchange : ∀ c : Class, ∃ superClass interfaces, change c = { c with superClass, interfaces })
    (hsuper : ∀ k, (change (m.cls id)).superClass = some k →
      (m.cls id).superClass = some k ∨ (m.cls k).linked = true)
    (hinterfaces : ∀ k ∈ (change (m.cls id)).interfaces, k ∈ (m.cls id).interfaces ∨
      (m.cls k).linked = true) (hlineage : m.Lineage (m.cls id) → m.Lineage (change (m.cls id))) :
    Follows (· = id) m (VM.modifyClass id change) fun m' _ => m' = m.changeClass id change ∧
      m'.Opened id := by
  intro hm
  have hself := Machine.cls_changeClass_self change h.there
  have habove : ∀ k, (change (m.cls id)).Below k → (m.cls id).Below k ∨ (m.cls k).linked = true := by
    rintro k (hk | hk)
    · exact (hsuper k hk).imp_left .inl
    · exact (hinterfaces k hk).imp_left .inr
  obtain ⟨superClass, interfaces, heq⟩ := hchange (m.cls id)
  rw [heq] at hsuper habove hself hlineage
  have hunlinked : ∀ {p : Prop}, (m.cls id).linked = true → p := fun hl => by
    rw [h.unlinked] at hl; cases hl
  refine Follows.modifyClass rfl ?_ (by rw [heq]) (by rw [heq]) (by rw [heq]) ⟨rfl, ?_⟩ hm
  · refine hm.changeClass (hm.sound.changeClass ?_ ?_ ?_)
      ?_ ?_ ?_ ?_ ?_ ?_ hunlinked ?_ ?_ ?_ ?_ <;> rw [heq]
    · rfl
    · exact hunlinked
    · exact habove
    · exact ⟨rfl, rfl, rfl, rfl, rfl⟩
    · exact hlineage
    · exact hunlinked
    · exact fun hs => hs
    · exact hsuper
    · exact hunlinked
    · exact hm.statics id
    · exact fun _ => .inl
    · exact .inl rfl
  · refine ⟨by rw [Machine.size_changeClass]; exact h.there, ?_, ?_, ?_, ?_⟩ <;> rw [hself]
    · exact h.unlinked
    · exact h.empty
    · exact h.known
    · exact h.orphan

theorem attachSuper_follows (hload : Faithful load) (h : m.Opened id) :
    Follows (· = id) m (attachSuper load id) fun m' _ => m'.Attached id := by
  refine .reads (VM.outcome_cls id) ?_
  split
  · rename_i hnone
    exact .pure ⟨h, fun _ => h.orphan hnone ▸ h.known⟩
  · rename_i name hname
    refine Follows.bind (loadLinked_follows hload _ name) (fun _ h => h.elim)
      fun superClass m₁ _ hgrows ⟨hlinked, hanswers⟩ => ?_
    refine .reads (VM.outcome_cls superClass) ?_
    dsimp only
    split
    · exact .raise_bind _ _
    · have h₁ := h.grows hgrows fun h => h
      have hname₁ : (m₁.cls id).superName = some name := by
        rw [hgrows.same id h.there fun h => h]; exact hname
      have hextends : Follows (· = id) m₁
            (VM.modifyClass id ({ · with superClass := some superClass })) fun m' _ =>
          m' = m₁.changeClass id ({ · with superClass := some superClass }) ∧ m'.Opened id :=
        extend_follows h₁ (fun c => ⟨_, _, rfl⟩) (fun k hk => .inr (Option.some.inj hk ▸ hlinked))
          (fun k hk => .inl hk)
          fun hl => ⟨fun k hk => ⟨name, hname₁, Option.some.inj hk ▸ hanswers⟩, hl.interfaces,
              hl.declared, fun hpool =>
            (hl.array hpool).trans ⟨rfl, rfl, rfl, rfl, rfl⟩⟩
      refine hextends.weaken fun m' _ ⟨heq, h'⟩ => ⟨h', fun hsuper => ?_⟩
      rw [heq, Machine.cls_changeClass_self _ h₁.there] at hsuper
      cases hsuper

theorem loadInterface_follows (hload : Faithful load) (className name : String) :
    Follows (fun _ => False) m (loadInterface load className name) fun m' k =>
      (m'.cls k).linked = true ∧ (m'.cls k).isInterface = true ∧ m'.Answers name k := by
  refine Follows.bind (loadLinked_follows hload className name) (fun _ h => h)
    fun k m₁ _ _ ⟨hlinked, hanswers⟩ => ?_
  refine .reads (VM.outcome_cls k) ?_
  split
  · rename_i hinterface
    exact .pure ⟨hlinked, hinterface, hanswers⟩
  · exact .raise _ _

theorem attachInterfaces_follows (hload : Faithful load) (h : m.Attached id) :
    Follows (· = id) m (attachInterfaces load id) fun m' _ => m'.Attached id := by
  refine .reads (VM.outcome_cls id) ?_
  have hall : Follows (fun _ => False) m
      ((m.cls id).interfaceNames.mapM (loadInterface load (m.cls id).name))
      fun m' ks => ∀ k ∈ ks, (m'.cls k).linked = true ∧ (m'.cls k).isInterface = true ∧
        ∃ name ∈ (m.cls id).interfaceNames, m'.Answers name k := by
    refine Follows.mapM (fun k m₁ m₂ _ hgrows ⟨hlinked, hinterface, name, hname, hanswers⟩ => ?_)
        _ fun name hname m₁ =>
      (loadInterface_follows hload _ name).weaken fun _ _ hk => ⟨hk.1, hk.2.1, name, hname, hk.2.2⟩
    have hk := hgrows.same k (Machine.lt_of_linked hlinked) fun h => h
    rw [hk]
    exact ⟨hlinked, hinterface, name, hname, hanswers.keep hgrows.directories (congrArg Class.name hk)⟩
  refine Follows.bind hall (fun _ h => h.elim) fun interfaces m₁ _ hgrows hinterfaces => ?_
  have h₁ := h.grows hgrows fun h => h
  have hnames : (m₁.cls id).interfaceNames = (m.cls id).interfaceNames := by
    rw [hgrows.same id h.there fun h => h]
  have hextends : Follows (· = id) m₁ (VM.modifyClass id ({ · with interfaces })) fun m' _ =>
      m' = m₁.changeClass id ({ · with interfaces }) ∧ m'.Opened id :=
    extend_follows h₁.toOpened (fun c => ⟨_, _, rfl⟩) (fun k hk => .inl hk)
      (fun k hk => .inr (hinterfaces k hk).1)
      fun hl => ⟨hl.super, fun k hk => hnames ▸ (hinterfaces k hk).2.2,
          fun _ k hk => (hinterfaces k hk).2.1, fun hpool =>
        (hl.array hpool).trans ⟨rfl, rfl, rfl, rfl, rfl⟩⟩
  refine hextends.weaken fun m' _ ⟨heq, h'⟩ => ⟨h', ?_⟩
  rw [heq, Machine.cls_changeClass_self _ h₁.there]
  exact h₁.root

theorem attach_follows (hload : Faithful load) (h : m.Opened id) :
    Follows (· = id) m (attach load id) fun m' _ => ∃ name, m'.Ready id name :=
  Follows.bind (attachSuper_follows hload h) (fun _ h => h) fun _ _ _ _ h =>
    Follows.bind (attachInterfaces_follows hload h) (fun _ h => h) fun _ _ _ _ h =>
      (prepare_follows hload h).weaken fun _ _ hready => ⟨_, hready⟩

theorem memberRef_within {pool : Pool} {owner nameAndType : UInt16} {ref : MemberRef α}
    (h : Definition.memberRef pool owner nameAndType = .ok ref) : ref.owner.resolved = none ∧
      ref.resolved = none := by
  unfold Definition.memberRef at h
  split at h
  · obtain ⟨name, -, h⟩ := checked_bind_ok.mp h
    obtain ⟨descriptor, -, h⟩ := checked_bind_ok.mp h
    obtain ⟨ownerName, -, h⟩ := checked_bind_ok.mp h
    cases h
    exact ⟨rfl, rfl⟩
  · cases h

/-- The constants of a class file are unresolved. -/
theorem constant_within {pool : Pool} {entry : PoolEntry} {constant : Constant}
    (h : Definition.constant pool entry = .ok constant) : constant.Within 0 := by
  have hnone : ∀ {γ : Type} {ref : MemberRef γ} {n : Nat} {index : γ → Nat},
      ref.owner.resolved = none ∧ ref.resolved = none →
        ref.owner.Within n ∧ ∀ member, ref.resolved = some member → index member < n := by
    rintro γ ref n index ⟨howner, hmember⟩
    exact ⟨fun id hid => (by rw [howner] at hid; cases hid), fun member hm => by
      rw [hmember] at hm; cases hm⟩
  cases entry with
  | unusable | utf8 _ | nameAndType _ _ | integer _ | float _ | long _ | double _ => cases h; trivial
  | string index =>
    dsimp only [Definition.constant] at h
    split at h <;> cases h
    trivial
  | classRef index =>
    obtain ⟨name, -, h⟩ := checked_bind_ok.mp h
    cases h
    exact fun id hid => by cases hid
  | fieldRef owner nameAndType | methodRef owner nameAndType | interfaceMethodRef owner nameAndType =>
    obtain ⟨ref, href, h⟩ := checked_bind_ok.mp h
    cases h
    exact hnone (memberRef_within href)

theorem checked_mapM_array_ok {ε : Type} {f : α → Except ε β} {p : β → Prop}
    (h : ∀ a b, f a = .ok b → p b)
    {as : Array α} {bs : Array β} (hbs : as.mapM f = .ok bs) : ∀ b ∈ bs, p b := by
  rw [Array.mapM_eq_mapM_toList] at hbs
  rcases hlist : as.toList.mapM f with e | list <;> rw [hlist] at hbs <;> cases hbs
  exact fun b hb => checked_mapM_ok h hlist b (by simpa using hb)

/-- The definition of a class begins on a coherent machine, with a class that has no slots yet. -/
theorem begun_opens {file : ClassFile} {c : Class}
    (hread : Definition.ofClassFile m.nextClassId file = .ok c)
    (hfree : m.lookup? c.name = none) (hm : m.Coherent) :
    (m.begun c).Coherent ∧ (m.begun c).Opened m.nextClassId := by
  have hdefined := ofClassFile_defines hread
  have howners := checked_mapM_array_ok (fun _ _ hmethod => (method_defines hmethod).owned)
    hdefined.methods
  have hconstants := checked_mapM_array_ok (fun _ _ => constant_within) hdefined.pool
  have hstatics : c.statics.size = c.staticSlots := by
    rw [hdefined.statics, hdefined.staticSlots]
    rfl
  refine ⟨hm.begun hfree hdefined.not_below hdefined.unlinked hdefined.pool_size howners
    hstatics hconstants,
    by rw [Machine.size_begun]; exact Nat.lt_succ_self _, ?_, ?_, ?_, ?_⟩ <;>
    rw [Machine.cls_begun_self]
  · exact hdefined.unlinked
  · exact hdefined.instanceSlots
  · exact .inr Machine.lookup?_begun_self
  · exact hdefined.root

/-- The definition of a class ends when its parents are attached. -/
theorem Leaves.linked {c : Class} (hfree : m.lookup? c.name = none) (hquiet : m.Quiet (m.begun c))
    (hopened : (m.begun c).Opened m.nextClassId)
    (h : Leaves (· = m.nextClassId) (m.begun c) (fun m' _ => ∃ name, m'.Ready m.nextClassId name)
      (.ok ()) m₁) :
    Leaves own m (fun m' id => (m'.cls id).name = c.name ∧ m'.lookup? (m'.cls id).name = some id)
      (.ok m.nextClassId) (m₁.changeClass m.nextClassId ({ · with linked := true })) := by
  obtain ⟨_, hready⟩ := h.given _ rfl
  have hself := Machine.cls_changeClass_self ({ · with linked := true }) hready.there
  have hstill := (h.grows.linked m.nextClassId hopened.there).trans hopened.unlinked
  have hbound := h.grows.bound _ _ Machine.lookup?_begun_self
  have hmarked : ((m₁.changeClass m.nextClassId ({ · with linked := true })).cls
      m.nextClassId).linked = true :=
    congrArg Class.linked hself
  refine ⟨h.coherent.link hready hstill, ?_, (hquiet.trans h.quiet).trans (.changeClass rfl rfl),
    fun id hid => ?_⟩
  · exact ((h.grows.undone hfree).changeClass (Nat.le_refl _) fun _ => rfl).named hfree
      (Nat.le_refl _) hmarked
      hbound (fun other hother => (Machine.lookup?_withoutName_ne hother).symm) rfl rfl rfl rfl
  · cases hid
    have hcalled : ((m₁.changeClass m.nextClassId ({ · with linked := true })).cls
        m.nextClassId).name = c.name :=
      (congrArg Class.name hself).trans (h.coherent.named _ _ hbound)
    refine ⟨hcalled, ?_⟩
    rw [hcalled]
    exact hbound

/-- The class that a definition gives has the name of the class file, and is bound to it. -/
theorem define_follows {file : ClassFile} (hload : Faithful load) :
    Follows own m (define load file) fun m' id =>
      file.name? = some (m'.cls id).name ∧ m'.lookup? (m'.cls id).name = some id := by
  intro hm r m' hrun hr
  rcases define_runs load file m with ⟨fault, hrefused⟩ | ⟨c, hread, hfree, hdefined⟩
  · rw [hrefused] at hrun
    cases hrun
    exact ⟨hm, .refl m, .refl m, fun _ h => by cases h⟩
  · have hfile := ofClassFile_defines hread
    obtain ⟨hbegun, hopened⟩ := begun_opens hread hfree hm
    have hquiet : m.Quiet (m.begun c) :=
      (Machine.Quiet.withClass fun h => by rw [hfile.notStarted] at h; cases h).trans (.of_eq rfl)
    rcases hstep : outcome (attach load m.nextClassId) (m.begun c) with ⟨r₁, m₁⟩
    have hattach := attach_follows hload hopened hbegun r₁ m₁ hstep
    rw [hdefined, hstep] at hrun
    rcases r₁ with (fault | _ | _ | _) | _ <;> cases hrun
    · have hleft := hattach trivial
      refine ⟨hleft.coherent.withoutName fun id hid => ?_, hleft.grows.undone hfree,
        (hquiet.trans hleft.quiet).trans (.of_eq rfl), fun _ h => by cases h⟩
      cases (hleft.grows.bound _ _ Machine.lookup?_begun_self).symm.trans hid
      exact (hleft.grows.linked m.nextClassId hopened.there).trans hopened.unlinked
    · exact hr.elim
    · exact hr.elim
    · exact hr.elim
    · have hlinked : Leaves own m _ _ _ := (hattach trivial).linked hfree hquiet hopened
      refine ⟨hlinked.coherent, hlinked.grows, hlinked.quiet, fun id hid => ?_⟩
      obtain ⟨hcalled, hbound⟩ := hlinked.given id hid
      exact ⟨hfile.name.trans (congrArg some hcalled.symm), hbound⟩

/-! ### Array classes -/

/-- What array classes extend and implement is there, and is what they name. -/
structure ArrayParents (m : Machine) (parents : ClassId × List ClassId) : Prop where
  there : ∀ k, k = parents.1 ∨ k ∈ parents.2 → k.index < m.classes.size
  super : m.Answers ClassName.object parents.1
  interfaces : ∀ k ∈ parents.2, ∃ name ∈ [ClassName.cloneable, ClassName.serializable], m.Answers name k

theorem arrayParents_follows (hload : Faithful load) :
    Follows (fun _ => False) m (arrayParents load) fun m' parents => ArrayParents m' parents := by
  have hfound : ∀ m name, Follows (fun _ => False) m (load name) fun m' id =>
      id.index < m'.classes.size ∧ m'.Answers name id := fun m name hm r m' hrun hr =>
    have hleft := hload m name hm r m' hrun hr
    ⟨hleft.coherent, hleft.grows, hleft.quiet, fun id hid =>
      ⟨hleft.coherent.sound.bound _ _ (hleft.given id hid).bound,
        (hleft.given id hid).answers hleft.grows.directories⟩⟩
  have hstays : ∀ {m₁ m₂ : Machine} {k : ClassId} {name : String}, m₁.Grows (fun _ => False) m₂ →
      k.index < m₁.classes.size → m₁.Answers name k → m₂.Answers name k := fun hgrows hk hanswers =>
    hanswers.keep hgrows.directories (congrArg Class.name (hgrows.same _ hk fun h => h))
  refine Follows.bind (hfound m _) (fun _ h => h) fun superClass m₁ _ _ ⟨hsuper, hroot⟩ => ?_
  have hall : Follows (fun _ => False) m₁ ([ClassName.cloneable, ClassName.serializable].mapM load)
        fun m' ks =>
      ∀ k ∈ ks, k.index < m'.classes.size ∧ ∃ name ∈ [ClassName.cloneable, ClassName.serializable],
        m'.Answers name k :=
    Follows.mapM (fun k _ _ _ hgrows ⟨hk, name, hname, hanswers⟩ =>
        ⟨Nat.lt_of_lt_of_le hk hgrows.classes, name, hname, hstays hgrows hk hanswers⟩)
          _ fun name hname m =>
      (hfound m name).weaken fun _ _ h => ⟨h.1, name, hname, h.2⟩
  refine Follows.bind hall (fun _ h => h) fun interfaces m₂ _ hgrows hall =>
    .pure ⟨fun k hk => ?_, ?_, fun k hk => ?_⟩
  · rcases hk with rfl | hk
    · exact Nat.lt_of_lt_of_le hsuper hgrows.classes
    · exact (hall k hk).1
  · exact hstays hgrows hsuper hroot
  · exact (hall k hk).2

/-- A new array class is linked, and is not known by its name yet. -/
theorem arrayClass_follows {name : String} {parents : ClassId × List ClassId} (hload : Faithful load)
    (harray : ArrayName.isArray name = true) (hparents : ArrayParents m parents) :
    Follows (fun _ => False) m (arrayClass load name parents) fun m' id =>
      m.classes.size ≤ id.index ∧ (m'.cls id).linked = true ∧ (m'.cls id).name = name := by
  intro hm r m' hrun hr
  have hthere : ∀ k, (arrayBelow name parents).Below k → k.index < m.classes.size := fun k hk =>
    hparents.there k (hk.imp_left fun hk => (Option.some.inj hk).symm)
  have hsound : (m.withClass (arrayBelow name parents)).Sound := by
    refine hm.sound.withClass hthere fun hnot => ?_
    cases harray.symm.trans hnot
  have hlineage : m.Lineage (arrayBelow name parents) :=
    ⟨fun k hk => ⟨ClassName.object, rfl, Option.some.inj hk ▸ hparents.super⟩, hparents.interfaces,
      fun hpool => absurd rfl hpool, fun _ => ⟨rfl, rfl, rfl, rfl, rfl⟩⟩
  have hcoherent : (m.withClass (arrayBelow name parents)).Coherent := by
    refine hm.withClass hsound rfl hlineage hthere (fun method hmethod => ?_)
      (fun _ _ => .inr ⟨harray, rfl⟩) rfl
      fun constant hconstant => ?_
    · simp [arrayBelow, Definition.arrayClass] at hmethod
    · simp [arrayBelow, Definition.arrayClass] at hconstant
  have hopened : (m.withClass (arrayBelow name parents)).Attached m.nextClassId := by
    refine ⟨⟨by rw [Machine.size_withClass]; exact Nat.lt_succ_self _, ?_, ?_, .inl ?_,
      fun h => ?_⟩, fun h => ?_⟩
    all_goals rw [Machine.cls_withClass_new] at *
    · rfl
    · rfl
    · exact harray
    · cases h
    · cases h
  have hadded : m.Quiet (m.withClass (arrayBelow name parents)) := .withClass fun _ => rfl
  have hforget : ∀ {m₁ : Machine},
      (m.withClass (arrayBelow name parents)).Grows (· = m.nextClassId) m₁ →
      m.Grows (fun _ => False) m₁ :=
    fun hgrows => ((Machine.grows_withClass _).trans hsound hgrows).forget fun id hid => by
      rw [hid]; exact Nat.le_refl _
  unfold arrayClass at hrun
  rw [outcome_bind_of_ok (VM.outcome_addClass _), link_eq, bind_assoc] at hrun
  obtain ⟨fault, hstep, rfl⟩ | ⟨_, m₁, hstep, hrun⟩ := outcome_bind_completes hrun hr
  · have hleft := prepare_follows hload hopened hcoherent _ _ hstep trivial
    exact ⟨hleft.coherent, hforget hleft.grows, hadded.trans hleft.quiet, fun _ h => by cases h⟩
  · cases hrun
    have hleft := prepare_follows hload hopened hcoherent _ _ hstep trivial
    have hready := hleft.given _ rfl
    have hstill := (hleft.grows.linked m.nextClassId hopened.there).trans hopened.unlinked
    refine ⟨hleft.coherent.link hready hstill, (hforget hleft.grows).changeClass
      (Nat.le_refl _) fun _ => rfl,
      (hadded.trans hleft.quiet).trans (.changeClass rfl rfl), fun id hid => ?_⟩
    cases hid
    have hself := Machine.cls_changeClass_self ({ · with linked := true }) hready.there
    refine ⟨Nat.le_refl _, congrArg Class.linked hself, (congrArg Class.name hself).trans
      (hready.called.trans ?_)⟩
    rw [Machine.cls_withClass_new]
    rfl

theorem defineArray_follows {name : String} (hload : Faithful load)
    (harray : ArrayName.isArray name = true)
    (hfree : m.lookup? name = none) :
    Follows (fun _ => False) m (defineArray load name) (m.Finds name) := by
  rw [defineArray_eq]
  split
  · exact .raise _ _
  · intro hm r m' hrun hr
    have hfollows : Follows (fun _ => False) m
        (arrayParents load >>= fun parents => arrayClass load name parents) fun m' id =>
          m.classes.size ≤ id.index ∧ (m'.cls id).linked = true ∧ (m'.cls id).name = name :=
      Follows.bind (arrayParents_follows hload) (fun _ h => h) fun parents m₁ _ hgrows hparents =>
        (arrayClass_follows hload harray hparents).weaken fun _ _ h =>
          ⟨Nat.le_trans hgrows.classes h.1, h.2⟩
    rw [← bind_assoc] at hrun
    obtain ⟨fault, hstep, rfl⟩ | ⟨id, m₁, hstep, hrun⟩ := outcome_bind_completes hrun hr
    · have hleft := hfollows hm _ _ hstep trivial
      exact ⟨hleft.coherent, hleft.grows, hleft.quiet, fun _ h => by cases h⟩
    · cases hrun
      have hleft := hfollows hm _ _ hstep trivial
      obtain ⟨hnew, hlinked, hname⟩ := hleft.given _ rfl
      have hthere := Machine.lt_of_linked hlinked
      have hcalled : (m₁.cls id).isArray = true := by rw [Class.isArray, hname]; exact harray
      have hcoherent : (m₁.withName name id).Coherent := by
        rw [← hname]
        exact hleft.coherent.withName hthere (.inr hcalled) (.inl hcalled)
      refine ⟨hcoherent, hleft.grows.named hfree hnew hlinked Machine.lookup?_withName_self
        (fun other hother => Machine.lookup?_withName_ne hother) rfl rfl rfl rfl,
        hleft.quiet.trans (.of_eq rfl), fun other h => ?_⟩
      cases h
      exact ⟨(congrArg (m₁.withName name id).lookup? hname).trans Machine.lookup?_withName_self,
        .inl hname⟩

/-! ### The loader -/

/-- The files of the library are called what they are found by. -/
theorem library_name {name : String} {file : ClassFile} (h : Library.find? name = some file) :
    file.name? = some name := by
  obtain ⟨superName, steps, rfl, hsteps⟩ := Library.built_of_find? h
  exact Builder.name_build name superName hsteps

/-- Loads are faithful, however deep they may be inside of each other. -/
theorem loadWithin_faithful : ∀ nesting, Faithful (loadWithin nesting)
  | 0 => fun m name _ r m' hrun hr => by
    cases hrun
    exact hr.elim
  | nesting + 1 => fun m name hm => by
    have hload := loadWithin_faithful nesting
    refine Follows.reads (outcome_get m) ?_ hm
    split
    · rename_i id hbound
      have hname := hm.named name id hbound
      exact .pure ⟨by rw [hname]; exact hbound, .inl hname⟩
    · rename_i hfree
      split
      · rename_i harray
        exact defineArray_follows hload harray hfree
      · rename_i harray
        split
        · rename_i bytes hfound
          refine .ofFormat fun file hdecode =>
            (define_follows hload).weaken fun m' id ⟨hname, hbound⟩ => ⟨hbound, ?_⟩
          by_cases hsame : (m'.cls id).name = name
          · exact .inl hsame
          · exact .inr ⟨hfree, by simpa using harray, ⟨bytes, file, hfound, hdecode, hname⟩, hsame⟩
        · split
          · rename_i file hfound
            refine (define_follows hload).weaken fun m' id ⟨hname, hbound⟩ => ⟨hbound, .inl ?_⟩
            rw [library_name hfound] at hname
            exact (Option.some.inj hname).symm
          · exact .raise _ _

end Loader

namespace VM

open Loader

variable {m : Machine} {own : ClassId → Prop}

theorem load_faithful : Faithful load := fun m name =>
  Follows.reads (outcome_get m) (loadWithin_faithful m.nesting m name)

end VM

end JavaMachine
