import JavaMachine.Proofs.Searching
import JavaMachine.Proofs.StaticConstants

/-!
What linking stores in the static fields of classes.

`Accounts` follows the loader and says three things. A slot is only out of range if a constant is
wider than its field, or if strings have no room for their units (`Machine.Misfit`). Only the search
for the field of these units may have no end (`Machine.UnitsEndless`). And every class that comes to
be linked has its constants in the right fields (`Machine.Furnished`). A string literal is looked up
while the class is being linked, and bound to its string from then on. If the classes of strings
have yet to be loaded for that, classes may be linked before the literal is bound: so what is said
of the strings of other classes is said for a machine that knows these two classes (`StringsKnown`).
-/

namespace JavaMachine

namespace Machine

variable {m m₁ m' : Machine} {id : ClassId} {known : Prop} {c₀ : Class} {name : String}
  {entries done : List (Field × UInt16)}

/-- What stands in the way of linking a class: one that is being defined has a constant that is
wider than its field, or the class for strings has instances that end before the field for the
units. -/
inductive Misfit (m : Machine) : Prop where
  | constant {name : String} {id : ClassId} (bound : m.lookup? name = some id)
      (unlinked : (m.cls id).linked = false)
      (wide : ¬ (m.cls id).ConstantsFit) : Misfit m
  | units {id : ClassId} {field : FieldId} (string : m.Answers ClassName.string id)
      (found : m.field? id "value" "[C" = some field)
      (outside : (m.cls id).instanceSlots ≤ (m.fieldAt field).slot) :
      Misfit m

/-- The search for the field that holds the units of strings never ends, however far it goes. -/
def UnitsEndless (m : Machine) : Prop :=
  ∃ id, m.Answers ClassName.string id ∧ ∀ depth, Search.walk (m.declaredField? · "value" "[C")
    m.parents depth id = .endless

/-- The classes that strings are made of are loaded. -/
def StringsKnown (m : Machine) : Prop := m.isLoaded ClassName.string = true ∧ m.isLoaded "[C" = true

/-- Of these fields, those that start with a string literal hold the string that the literal is
bound to. -/
def Seeded (m : Machine) (id : ClassId) (entries : List (Field × UInt16)) : Prop :=
  ∀ entry ∈ entries, ∀ units, (m.cls id).constantAt entry.2 = .ok (.string units) →
    ∃ string, m.literals.lookup units = some string ∧ (m.cls id).StartsWith entry string

/-- The static fields of a class are as linking leaves them. -/
structure Furnished (known : Prop) (m : Machine) (id : ClassId) : Prop where
  tidy : (m.cls id).ConstantsFit → (m.cls id).Tidy
  seeded : known → (m.cls id).ConstantsFit → m.Seeded id (m.cls id).constantFields

/-- Linked classes and bound literals stay, and the classes that come to be linked are furnished. -/
structure Furnishes (known : Prop) (m m' : Machine) : Prop where
  same : ∀ id, (m.cls id).linked = true → m'.cls id = m.cls id
  literals : ∀ units string, m.literals.lookup units = some string →
    m'.literals.lookup units = some string
  furnished : ∀ id, (m'.cls id).linked = true → (m.cls id).linked = true ∨ m'.Furnished known id

theorem StringsKnown.grows {own : ClassId → Prop} (h : m.StringsKnown) (hgrows : m.Grows own m') :
    m'.StringsKnown :=
  ⟨hgrows.isLoaded h.1, hgrows.isLoaded h.2⟩

theorem StringsKnown.begun {c : Class} (h : m.StringsKnown) : (m.begun c).StringsKnown := by
  have hkeep : ∀ name, m.isLoaded name = true → (m.begun c).isLoaded name = true := by
    intro name hname
    unfold isLoaded at hname ⊢
    by_cases heq : name = c.name
    · rw [heq, lookup?_begun_self]
      rfl
    · rwa [lookup?_begun_ne heq]
  exact ⟨hkeep _ h.1, hkeep _ h.2⟩

theorem Seeded.keep (h : m.Seeded id entries) (hcls : m'.cls id = m.cls id)
    (hliterals : ∀ units string, m.literals.lookup units = some string →
      m'.literals.lookup units = some string) :
    m'.Seeded id entries := by
  intro entry hentry units hconstant
  rw [hcls] at hconstant ⊢
  obtain ⟨string, hbound, hstarts⟩ := h entry hentry units hconstant
  exact ⟨string, hliterals units string hbound, hstarts⟩

namespace Furnishes

theorem of_eq (hclasses : m'.classes = m.classes) (hliterals : m'.literals = m.literals) :
    m.Furnishes known m' :=
  ⟨fun id _ => cls_congr hclasses id, fun _ _ h => by
    rwa [hliterals], fun id h => .inl (by rwa [cls_congr hclasses] at h)⟩

theorem refl (m : Machine) : m.Furnishes known m := of_eq rfl rfl

theorem trans (h : m.Furnishes known m₁) (h' : m₁.Furnishes known m') : m.Furnishes known m' where
  same id hid := (h'.same id ((congrArg Class.linked (h.same id hid)).trans hid)).trans (h.same id hid)
  literals units string hunits := h'.literals units string (h.literals units string hunits)
  furnished id hid := by
    rcases h'.furnished id hid with hid | hfurnished
    · refine (h.furnished id hid).imp_right fun hfurnished => ?_
      have hcls := h'.same id hid
      constructor <;> rw [hcls]
      · exact hfurnished.tidy
      · exact fun hknown hfit => (hfurnished.seeded hknown hfit).keep hcls h'.literals
    · exact .inr hfurnished

/-- A class changes that is not linked, and is not linked by that. -/
theorem changeClass {change : Class → Class} (hunlinked : (m.cls id).linked = false)
    (hchange : (change (m.cls id)).linked = false) : m.Furnishes known (m.changeClass id change) := by
  refine ⟨fun other hother => ?_, fun _ _ h => h, fun other hother => .inl ?_⟩ <;>
    rcases cls_changeClass m id change other with heq | ⟨rfl, heq⟩
  · exact heq
  · rw [hunlinked] at hother; cases hother
  · rwa [heq] at hother
  · rw [heq, hchange] at hother; cases hother

/-- A class is linked whose static fields are furnished. -/
theorem link (hunlinked : (m.cls id).linked = false)
    (h : (m.changeClass id ({ · with linked := true })).Furnished known id) :
    m.Furnishes known (m.changeClass id ({ · with linked := true })) := by
  refine ⟨fun other hother => ?_, fun _ _ h => h, fun other hother => ?_⟩ <;>
    rcases cls_changeClass m id ({ · with linked := true }) other with heq | ⟨rfl, heq⟩
  · exact heq
  · rw [hunlinked] at hother; cases hother
  · exact .inl (by rwa [heq] at hother)
  · exact .inr h

theorem withClass {c : Class} (hunlinked : c.linked = false) : m.Furnishes known (m.withClass c) := by
  refine ⟨fun id hid => ?_, fun _ _ h => h, fun id hid => .inl ?_⟩
  · exact cls_withClass_ne (by rintro rfl; exact Nat.lt_irrefl _ (lt_of_linked hid))
  · by_cases hnew : id = m.nextClassId
    · subst hnew
      rw [cls_withClass_new, hunlinked] at hid
      cases hid
    · rwa [cls_withClass_ne hnew] at hid

end Furnishes

/-- A class that is being linked: its fields are placed, and some of them have got their constants. -/
structure Prepared (m : Machine) (id : ClassId) (c₀ : Class) (done : List (Field × UInt16)) : Prop where
  there : id.index < m.classes.size
  unlinked : c₀.linked = false
  placed : c₀.StaticsPlaced
  started : c₀.StartedFrom (m.cls id)
  seeded : c₀.ConstantsFit → m.Seeded id done

theorem prepared_layOut (hthere : id.index < m.classes.size) (hunlinked : (m.cls id).linked = false)
    (inherited : Nat) :
    (m.changeClass id (·.layOut inherited)).Prepared id ((m.cls id).layOut inherited) [] := by
  refine ⟨by rwa [size_changeClass], hunlinked, Class.staticsPlaced_layOut _ _, ?_,
    fun _ _ h => by cases h⟩
  rw [cls_changeClass_self _ hthere]
  exact Class.startedFrom_layOut _ _

namespace Prepared

theorem cls (h : m.Prepared id c₀ done) : ∃ statics, m.cls id = { c₀ with statics } := h.started.same

theorem linked (h : m.Prepared id c₀ done) : (m.cls id).linked = false := by
  obtain ⟨statics, heq⟩ := h.cls
  rw [heq]
  exact h.unlinked

/-- What classes are loaded in the meantime does not matter. -/
theorem grows {own : ClassId → Prop} (h : m.Prepared id c₀ done) (hgrows : m.Grows own m')
    (hown : ¬ own id) :
    m'.Prepared id c₀ done := by
  have hcls := hgrows.same id h.there hown
  refine ⟨Nat.lt_of_lt_of_le h.there hgrows.classes, h.unlinked, h.placed, ?_, fun hfit => ?_⟩
  · rw [hcls]
    exact h.started
  · exact (h.seeded hfit).keep hcls hgrows.recalls.kept

/-- Once all constants are in their fields, the class may be linked. -/
theorem furnished (h : m.Prepared id c₀ c₀.constantFields) :
    (m.changeClass id ({ · with linked := true })).Furnished known id := by
  obtain ⟨statics, heq⟩ := h.cls
  have hself := cls_changeClass_self ({ · with linked := true }) h.there
  have htidy := h.started.tidy
  have hseeded := h.seeded
  rw [heq] at hself htidy
  constructor <;> rw [hself]
  · exact htidy
  · intro _ hfit entry hentry units hconstant
    rw [hself] at hconstant ⊢
    have hfound := hseeded hfit entry hentry units
    rw [heq] at hfound
    exact hfound hconstant

end Prepared

end Machine

namespace Loader

variable {α β : Type} {known : Prop} {own : ClassId → Prop} {m m₁ m' : Machine} {id : ClassId}
  {load : Load} {c₀ : Class}
  {entry : Field × UInt16} {done rest : List (Field × UInt16)} {name : String}

/-- What is known of how a step has ended. -/
structure Accounted (known : Prop) (m : Machine) (gives : Machine → α → Prop)
    (r : Except Failure α) (m' : Machine) :
    Prop where
  misfit : r = .error .outOfRange → m'.Misfit
  endless : r = .error .endless → m'.UnitsEndless
  furnishes : Completes r → m.Furnishes known m'
  given : ∀ a, r = .ok a → gives m' a

theorem Accounted.of_completes {gives : Machine → α → Prop} {r : Except Failure α} (hr : Completes r)
    (hfurnishes : m.Furnishes known m') (hgives : ∀ a, r = .ok a → gives m' a) :
    Accounted known m gives r m' :=
  ⟨fun h => by rw [h] at hr; exact hr.elim,
    fun h => by rw [h] at hr; exact hr.elim, fun _ => hfurnishes, hgives⟩

/-- What is known of how a step ends on a coherent machine. -/
def Accounts (known : Prop) (m : Machine) (x : VM α) (gives : Machine → α → Prop) : Prop :=
  m.Coherent → (known → m.StringsKnown) → ∀ r m', outcome x m = (r, m') → Accounted known m gives r m'

/-- A load of a name that is bound does nothing, and any other load gives a class with its constants. -/
structure Accountable (known : Prop) (load : Load) : Prop where
  faithful : Faithful load
  looks : ∀ m name r m', m.isLoaded name = true → outcome (load name) m = (r, m') → Completes r → m' = m
  accounts : ∀ m name, Accounts known m (load name) fun m' id => m.isLoaded name = true ∨
    m'.Furnished True id

/-! ### Sequences of steps -/

namespace Accounts

variable {x : VM α} {gives gives' : Machine → α → Prop} {then' : Machine → β → Prop}

theorem pure {a : α} (h : gives m a) : Accounts known m (pure a) gives := by
  intro _ _ r m' hrun
  cases hrun
  exact .of_completes trivial (.refl m) fun b hb => by cases hb; exact h

theorem fail (fault : Fault) : Accounts known m (VM.fail fault) gives := by
  intro _ _ r m' hrun
  cases hrun
  exact .of_completes trivial (.refl m) fun b hb => by cases hb

theorem raise (className message : String) : Accounts known m (VM.raise className message) gives :=
  fail _

/-- Nothing comes after an exception. -/
theorem raise_bind {f : α → VM β} (className message : String) :
    Accounts known m (VM.raise className message >>= f) then' :=
  fail (.exception className message)

/-- The first step leaves a coherent machine for the second one. -/
theorem bind {f : α → VM β} (first : Accounts known m x gives) (hfollows : Follows own m x gives')
    (second : ∀ a m₁, m₁.Coherent → m.Grows own m₁ → gives m₁ a → gives' m₁ a →
      Accounts known m₁ (f a) then') :
    Accounts known m (x >>= f) then' := by
  intro hm hknown r m' hrun
  rw [outcome_bind] at hrun
  rcases hx : outcome x m with ⟨e | a, m₁⟩ <;> rw [hx] at hrun
  · cases hrun
    have hfirst := first hm hknown _ _ hx
    refine ⟨fun h => hfirst.misfit (by cases h; rfl), fun h => hfirst.endless (by cases h; rfl),
      fun h => ?_, fun b hb => by cases hb⟩
    obtain ⟨fault, rfl⟩ := completes_error h
    exact hfirst.furnishes trivial
  · have hfirst := first hm hknown _ _ hx
    have hleft := hfollows hm _ _ hx trivial
    have hrest := second a m₁ hleft.coherent hleft.grows (hfirst.given a rfl)
      (hleft.given a rfl) hleft.coherent
      (fun h => (hknown h).grows hleft.grows) r m' hrun
    exact ⟨hrest.misfit, hrest.endless, fun h => (hfirst.furnishes trivial).trans
      (hrest.furnishes h), hrest.given⟩

/-- What a step reads of the machine is not asked for again. -/
theorem reads {f : α → VM β} {a : α} (hread : outcome x m = (.ok a, m))
    (second : Accounts known m (f a) then') :
    Accounts known m (x >>= f) then' := by
  intro hm hknown r m' hrun
  rw [outcome_bind_of_ok hread] at hrun
  exact second hm hknown r m' hrun

theorem ofFormat {f : α → VM β} {checked : Except FormatError α}
    (second : ∀ a, checked = .ok a → Accounts known m (f a) then') :
    Accounts known m (VM.ofFormat checked >>= f) then' := by
  cases checked with
  | ok a => exact reads (VM.outcome_ofFormat_ok a) (second a rfl)
  | error e => exact fail (.classFormat e)

theorem ofSearch {f : Option α → VM β} {search : Search α}
    (hendless : search = .endless → m.UnitsEndless)
    (second : ∀ found, search.found? = found → Accounts known m (f found) then') :
    Accounts known m (VM.ofSearch search >>= f) then' := by
  cases search with
  | found a => exact reads (a := some a) rfl (second _ rfl)
  | absent => exact reads (a := none) rfl (second _ rfl)
  | endless =>
    intro _ _ r m' hrun
    cases hrun
    exact ⟨fun h => (by cases h), fun _ => hendless rfl, fun h => h.elim, fun _ h => by cases h⟩

theorem weaken {gives' : Machine → α → Prop} (h : Accounts known m x gives)
    (hgives : ∀ m' a, gives m' a → gives' m' a) :
    Accounts known m x gives' := fun hm hknown r m' hrun =>
  let accounted := h hm hknown r m' hrun
  ⟨accounted.misfit, accounted.endless, accounted.furnishes, fun a ha => hgives m' a
    (accounted.given a ha)⟩

/-- A class that is not linked changes, and is not linked by that. -/
theorem modifyClass {change : Class → Class} {gives : Machine → Unit → Prop}
    (hunlinked : (m.cls id).linked = false)
    (hchange : (change (m.cls id)).linked = false) (h : gives (m.changeClass id change) ⟨⟩) :
    Accounts known m (VM.modifyClass id change) gives := by
  intro _ _ r m' hrun
  cases hrun
  exact .of_completes trivial (.changeClass hunlinked hchange) fun _ _ => h

theorem mapM {f : α → VM β} {p : Machine → β → Prop}
    (hf : ∀ a m, Accounts known m (f a) fun _ _ => True) (hfollows : ∀ a m, Follows own m (f a) p) :
    ∀ (as : List α) {m : Machine}, Accounts known m (as.mapM f) fun _ _ => True
  | [], _ => pure trivial
  | a :: as, m => by
    rw [List.mapM_cons]
    refine (hf a m).bind (hfollows a m) fun b m₁ _ _ _ _ => ?_
    have hrest : Follows own m₁ (as.mapM f) _ := Follows.mapM (p := fun _ _ => True)
      (fun _ _ _ _ _ _ => trivial) as
      fun a _ m => (hfollows a m).weaken fun _ _ _ => trivial
    exact (mapM hf hfollows as).bind hrest fun bs m₂ _ _ _ _ => pure trivial

end Accounts

theorem Accountable.bind {f : ClassId → VM β} {then' : Machine → β → Prop}
    (hload : Accountable known load)
    (second : ∀ id m₁, m₁.Coherent → m.Grows (fun _ => False) m₁ → m.Finds name m₁ id →
      Accounts known m₁ (f id) then') :
    Accounts known m (load name >>= f) then' :=
  (hload.accounts m name).bind (hload.faithful m name) fun id m₁ hm₁ hgrows _ => second id m₁ hm₁ hgrows

/-! ### Strings -/

/-- If the classes of strings are loaded, a string is made without a load. -/
theorem stringOfUnits_looks (hload : Accountable known load) (hm : m.StringsKnown) {units : Text.Units}
    {r : Except Failure Address} (hrun : outcome (stringOfUnits load units) m = (r, m'))
    (hr : Completes r) :
    m'.classes = m.classes := by
  have hlooks : ∀ {β : Type} {name : String} {f : ClassId → VM β} {r : Except Failure β},
      m.isLoaded name = true → outcome (load name >>= f) m = (r, m') → Completes r →
        m' = m ∨ ∃ id, outcome (f id) m = (r, m') := by
    intro β name f r₁ hloaded hstep hr₁
    obtain ⟨fault, hfirst, rfl⟩ | ⟨id, m₁, hfirst, hstep⟩ := outcome_bind_completes hstep hr₁
    · exact .inl (hload.looks m name _ _ hloaded hfirst trivial)
    · cases hload.looks m name _ _ hloaded hfirst trivial
      exact .inr ⟨id, hstep⟩
  rcases hlooks hm.1 hrun hr with rfl | ⟨stringClass, hrun⟩
  · rfl
  rcases hlooks hm.2 hrun hr with rfl | ⟨charsClass, hrun⟩
  · rfl
  rw [outcome_bind_of_ok (outcome_get m), VM.outcome_ofSearch_bind] at hrun
  split at hrun
  · obtain ⟨fields, -, -, rfl⟩ := VM.string_made hrun hr
    rfl
  · cases hrun
    rfl
  · cases hrun
    exact hr.elim

/-- A string is made, unless the instances of the class for strings end before the field. -/
theorem newString_accounts {stringClass charsClass : ClassId} {field : FieldId} {units : Text.Units}
    (hanswers : m.Answers ClassName.string stringClass)
    (hfield : m.field? stringClass "value" "[C" = some field) :
    Accounts known m (do
      let chars ← VM.allocate ⟨charsClass, .chars units.toArray⟩
      let string ← VM.newObject stringClass
      VM.setField string (m.fieldAt field).slot (.ref (some chars))
      return string) fun _ _ => True := by
  intro _ _ r m' hrun
  have hcompletes : Completes r → Accounted known m (fun _ _ => True) r m' := fun hr => by
    obtain ⟨fields, -, -, rfl⟩ := VM.string_made hrun hr
    exact .of_completes hr (.of_eq rfl rfl) fun _ _ => trivial
  have hmade := hrun
  rw [outcome_bind_of_ok (VM.outcome_allocate _), outcome_bind_of_ok (VM.outcome_newObject _),
    outcome_bind, VM.outcome_setField (Machine.object_withObject_new _)] at hmade
  split at hmade <;> rename_i hstored <;> split at hstored <;> cases hstored <;> cases hmade
  · exact hcompletes trivial
  · rename_i hset
    refine ⟨fun _ => ?_, fun h => (by cases h), fun h => h.elim, fun _ h => by cases h⟩
    have hgrows : m.Grows (fun _ => False) ((m.withObject ⟨charsClass, .chars units.toArray⟩).withObject
        ⟨stringClass, .fields (.zeros (m.cls stringClass).instanceSlots)⟩) :=
      Machine.grows_of_eq rfl rfl rfl rfl (by simp; omega) fun a ha => by
        rw [Machine.object_withObject_of_lt (by simp; omega), Machine.object_withObject_of_lt ha]
    have hname := congrArg Class.name (Machine.cls_congr (m := m) (by rfl) stringClass)
    have hfield' := (congrArg Search.found? (Machine.fieldSearch_congr (by rfl) ..)).trans hfield
    refine .units (hanswers.keep hgrows.directories hname) hfield' (Nat.le_of_not_lt fun hlt => ?_)
    have hsize : (m.fieldAt field).slot <
        (SlotTable.zeros (m.cls stringClass).instanceSlots).slots.size :=
      Nat.lt_of_lt_of_eq hlt (SlotTable.size_zeros _).symm
    exact absurd (hset.symm.trans (dif_pos hsize)) (by simp)

theorem stringOfUnits_accounts (hload : Accountable known load) (units : Text.Units) :
    Accounts known m (stringOfUnits load units) fun _ _ => True := by
  refine hload.bind fun stringClass m₁ hm₁ hgrows₁ hfinds =>
    hload.bind fun charsClass m₂ hm₂ hgrows₂ _ => ?_
  have hanswers : m₂.Answers ClassName.string stringClass :=
    (hfinds.answers hgrows₁.directories).keep hgrows₂.directories
      (congrArg Class.name (hgrows₂.same _ (hm₁.sound.bound _ _ hfinds.bound) fun h => h))
  refine .reads (outcome_get m₂)
    (.ofSearch (fun h => ⟨_, hanswers, hm₂.sound.fieldSearch_endless h⟩) fun found hfield => ?_)
  split
  · exact .raise _ _
  · exact newString_accounts hanswers hfield

theorem intern_accounts (hload : Accountable known load) (units : Text.Units) :
    Accounts known m (intern load units) fun m' string => m'.literals.lookup units = some string := by
  intro hm hknown r m' hrun
  have hfollows := intern_follows hload.faithful units hm r m' hrun
  rw [intern, outcome_bind_of_ok (outcome_get m)] at hrun
  split at hrun
  · cases hrun
    exact .of_completes trivial (.refl m) (hfollows trivial).given
  have hmade := fun r₁ m₁ => stringOfUnits_accounts hload units hm hknown r₁ m₁
  refine ⟨fun hr => ?_, fun hr => ?_, fun hr => ?_,
    fun a ha => (hfollows (by rw [ha]; trivial)).given a ha⟩
  · rw [outcome_bind] at hrun
    rcases hstring : outcome (stringOfUnits load units) m with ⟨e | string, m₁⟩ <;>
      rw [hstring] at hrun <;> cases hrun
    · exact (hmade _ _ hstring).misfit (by cases hr; rfl)
    · cases hr
  · rw [outcome_bind] at hrun
    rcases hstring : outcome (stringOfUnits load units) m with ⟨e | string, m₁⟩ <;>
      rw [hstring] at hrun <;> cases hrun
    · exact (hmade _ _ hstring).endless (by cases hr; rfl)
    · cases hr
  · -- A class that was linked while the string was made may have another string for the literal.
    -- If the classes of strings are known, no class is.
    have hrecalls := (hfollows hr).grows.recalls.kept
    have hclasses : ∃ r₁ m₁, outcome (stringOfUnits load units) m = (r₁, m₁) ∧ Completes r₁ ∧
        m'.classes = m₁.classes := by
      obtain ⟨fault, hmade, rfl⟩ | ⟨string, m₁, hmade, hrun⟩ := outcome_bind_completes hrun hr
      · exact ⟨_, _, hmade, trivial, rfl⟩
      · cases hrun
        exact ⟨_, _, hmade, trivial, rfl⟩
    obtain ⟨r₁, m₁, hmade, hr₁, hclasses⟩ := hclasses
    have hfurnishes := (stringOfUnits_accounts hload units hm hknown _ _ hmade).furnishes hr₁
    have hcls := Machine.cls_congr hclasses
    refine ⟨fun id hid => (hcls id).trans (hfurnishes.same id hid), hrecalls, fun id hid => ?_⟩
    by_cases hbefore : (m.cls id).linked = true
    · exact .inl hbefore
    · rw [hcls] at hid
      refine .inr ⟨?_, fun hstrings => ?_⟩
      · rw [hcls]
        exact ((hfurnishes.furnished id hid).resolve_left hbefore).tidy
      · rw [Machine.cls_congr (stringOfUnits_looks hload (hknown hstrings) hmade hr₁)] at hid
        exact absurd hid hbefore

/-! ### Linking -/

/-- The field of the next entry gets its constant. -/
theorem setStatic_accounts {value : Value} (hbound : m.lookup? name = some id)
    (h : m.Prepared id c₀ done) (hsplit : c₀.constantFields = done ++ entry :: rest)
    (hvalue : c₀.ConstantsFit → value.size ≤ entry.1.width)
    (hstring : ∀ units, c₀.constantAt entry.2 = .ok (.string units) →
      ∃ string, m.literals.lookup units = some string ∧ value = .reference (some string)) :
    Accounts known m (setStatic id entry.1.slot value) fun m' _ =>
      m'.Prepared id c₀ (done ++ [entry]) := by
  have hentry : entry ∈ c₀.constantFields := by simp [hsplit]
  refine .reads (VM.outcome_cls id) ?_
  rcases hset : (m.cls id).statics.setValue? entry.1.slot value with _ | statics
  · intro _ _ r m' hrun
    cases hrun
    refine ⟨fun _ => ?_, fun h => (by cases h), fun h => h.elim, fun _ h => by cases h⟩
    obtain ⟨before, heq⟩ := h.cls
    refine .constant hbound h.linked fun hfit => ?_
    rw [heq] at hfit
    obtain ⟨statics, hstored⟩ := h.started.stores (h.placed.inside hentry) (hvalue hfit)
    rw [hset] at hstored
    cases hstored
  · refine .reads (a := statics) rfl (.modifyClass h.linked h.linked ?_)
    have hself := Machine.cls_changeClass_self ({ · with statics }) h.there
    have hstarted := h.started.store hentry hvalue hset
    refine ⟨by rw [Machine.size_changeClass]; exact h.there, h.unlinked, h.placed,
      by rwa [hself], fun hfit => ?_⟩
    have hordered := h.placed.ordered
    rw [hsplit, List.pairwise_append] at hordered
    intro other hother units hconstant
    rw [hself] at hconstant ⊢
    rcases List.mem_append.mp hother with hdone | hlast
    · obtain ⟨string, hbound, hstarts⟩ := h.seeded hfit other hdone units hconstant
      have hbefore := hordered.2.2 other hdone entry (List.mem_cons_self ..)
      have hwidth : 0 < other.1.width := by unfold Field.width; split <;> decide
      exact ⟨string, hbound, (SlotTable.slot?_setAll? hset (.inl (by omega))).trans hstarts⟩
    · cases List.mem_singleton.mp hlast
      obtain ⟨before, heq⟩ := h.cls
      rw [heq] at hconstant
      obtain ⟨string, hbound, rfl⟩ := hstring units hconstant
      obtain ⟨stored, hstored, hrest⟩ := Option.bind_eq_some_iff.mp hset
      cases hrest
      exact ⟨string, hbound, (SlotTable.slot?_set? hstored _).trans (if_pos rfl)⟩

theorem initializeField_accounts (hload : Accountable known load) (hbound : m.lookup? name = some id)
    (h : m.Prepared id c₀ done) (hsplit : c₀.constantFields = done ++ entry :: rest) :
    Accounts known m (initializeField load id entry.1 entry.2) fun m' _ =>
      m'.Prepared id c₀ (done ++ [entry]) := by
  have hentry : entry ∈ c₀.constantFields := by simp [hsplit]
  have hsame : (m.cls id).constantAt entry.2 = c₀.constantAt entry.2 := by
    obtain ⟨statics, heq⟩ := h.cls
    rw [heq]
    rfl
  refine .reads (VM.outcome_cls id) (.ofFormat fun constant hconstant => ?_)
  rw [hsame] at hconstant
  have hfits : c₀.ConstantsFit → constant.width ≤ entry.1.width := fun hfit => by
    have hwidth := hfit entry hentry
    rwa [Class.constantWidth, hconstant] at hwidth
  have hother : ∀ {value : Value}, (∀ units, constant ≠ .string units) → ∀ units,
      c₀.constantAt entry.2 = .ok (.string units) →
        ∃ string, m.literals.lookup units = some string ∧ value = .reference (some string) := by
    intro value hnot units hfound
    cases hconstant.symm.trans hfound
    exact absurd rfl (hnot units)
  split
  · exact setStatic_accounts hbound h hsplit hfits (hother fun _ h => by cases h)
  · exact setStatic_accounts hbound h hsplit hfits (hother fun _ h => by cases h)
  · exact setStatic_accounts hbound h hsplit hfits (hother fun _ h => by cases h)
  · exact setStatic_accounts hbound h hsplit hfits (hother fun _ h => by cases h)
  · refine (intern_accounts hload _).bind (intern_follows hload.faithful _)
      fun string m₁ _ hgrows hstring _ => ?_
    refine setStatic_accounts (hgrows.bound _ _ hbound) (h.grows hgrows fun h => h)
      hsplit hfits fun units hfound => ?_
    cases hconstant.symm.trans hfound
    exact ⟨string, hstring, rfl⟩
  · exact .fail _

theorem initializeFields_accounts (hload : Accountable known load) :
    ∀ (rest done : List (Field × UInt16)) {m : Machine},
    m.lookup? name = some id → c₀.constantFields = done ++ rest → m.Prepared id c₀ done →
      Accounts known m (rest.forM fun (field, index) => initializeField load id field index) fun m' _ =>
        m'.Prepared id c₀ c₀.constantFields
  | [], done, m, _, hsplit, h => .pure (by rw [hsplit, List.append_nil]; exact h)
  | entry :: rest, done, m, hbound, hsplit, h => by
    rw [List.forM]
    refine (initializeField_accounts hload hbound h hsplit).bind
      (initializeField_follows hload.faithful entry.1 entry.2)
      fun _ m₁ _ hgrows h₁ _ => ?_
    exact initializeFields_accounts hload rest (done ++ [entry]) (hgrows.bound _ _ hbound)
      (by rw [hsplit]; simp) h₁

theorem prepare_accounts (hload : Accountable known load) (hbound : m.lookup? name = some id)
    (h : m.Attached id) :
    Accounts known m (prepare load id) fun m' _ => ∃ c₀, m'.Prepared id c₀ c₀.constantFields := by
  intro hm
  have hplaced := (hm.layOut h rfl).1
  have hself := Machine.cls_changeClass_self (·.layOut (m.inherited id)) h.there
  have hlaidOut : Follows (· = id) m (VM.modifyClass id (·.layOut (m.inherited id))) fun _ _ => True :=
    .modifyClass rfl hplaced rfl rfl rfl trivial
  have hprepared : Accounts known m (VM.modifyClass id (·.layOut (m.inherited id))) fun m' _ =>
      m'.Prepared id ((m.cls id).layOut (m.inherited id)) [] :=
    .modifyClass h.unlinked h.unlinked (Machine.prepared_layOut h.there h.unlinked _)
  refine Accounts.reads outcome_inheritedSlots ?_ hm
  refine hprepared.bind hlaidOut fun _ m₁ _ hgrows h₁ _ => .reads (VM.outcome_cls id) ?_
  obtain ⟨statics, heq⟩ := h₁.cls
  rw [heq]
  exact (initializeFields_accounts hload _ [] (hgrows.bound _ _ hbound) rfl h₁).weaken fun _ _ h =>
    ⟨_, h⟩

/-! ### Definition -/

theorem loadLinked_accounts (hload : Accountable known load) (className name : String) :
    Accounts known m (loadLinked load className name) fun _ _ => True := by
  refine hload.bind fun k m₁ _ _ _ => .reads (VM.outcome_cls k) ?_
  split
  · exact .pure trivial
  · exact .raise _ _

theorem attachSuper_accounts (hload : Accountable known load) (h : m.Opened id) :
    Accounts known m (attachSuper load id) fun _ _ => True := by
  refine .reads (VM.outcome_cls id) ?_
  split
  · exact .pure trivial
  · rename_i name _
    refine (loadLinked_accounts hload _ name).bind (loadLinked_follows hload.faithful _ name)
      fun superClass m₁ _ hgrows _ _ => .reads (VM.outcome_cls superClass) ?_
    have hunlinked := (h.grows hgrows fun h => h).unlinked
    dsimp only
    split
    · exact .raise_bind _ _
    · exact .modifyClass hunlinked hunlinked trivial

theorem loadInterface_accounts (hload : Accountable known load) (className name : String) :
    Accounts known m (loadInterface load className name) fun _ _ => True := by
  refine (loadLinked_accounts hload className name).bind
    (loadLinked_follows hload.faithful className name)
    fun k m₁ _ _ _ _ => .reads (VM.outcome_cls k) ?_
  split
  · exact .pure trivial
  · exact .raise _ _

theorem attachInterfaces_accounts (hload : Accountable known load) (h : m.Attached id) :
    Accounts known m (attachInterfaces load id) fun _ _ => True := by
  refine .reads (VM.outcome_cls id) ?_
  have hinterfaces : Follows (fun _ => False) m
      ((m.cls id).interfaceNames.mapM (loadInterface load (m.cls id).name)) _ :=
    Follows.mapM (p := fun _ _ => True) (fun _ _ _ _ _ _ => trivial) _ fun name _ m =>
      (loadInterface_follows hload.faithful _ name).weaken fun _ _ _ => trivial
  refine (Accounts.mapM (fun name _ => loadInterface_accounts hload _ name) (fun name _ =>
    (loadInterface_follows hload.faithful _ name).weaken fun _ _ _ => trivial) _).bind hinterfaces
      fun interfaces m₁ _ hgrows _ _ => ?_
  have hunlinked := (h.grows hgrows fun h => h).unlinked
  exact .modifyClass hunlinked hunlinked trivial

theorem attach_accounts (hload : Accountable known load) (hbound : m.lookup? name = some id)
    (h : m.Opened id) :
    Accounts known m (attach load id) fun m' _ => ∃ c₀, m'.Prepared id c₀ c₀.constantFields :=
  (attachSuper_accounts hload h).bind (attachSuper_follows hload.faithful h) fun _ _ _ hgrows _ h =>
    (attachInterfaces_accounts hload h).bind (attachInterfaces_follows hload.faithful h)
        fun _ _ _ hgrows' _ h =>
      prepare_accounts hload (hgrows'.bound _ _ (hgrows.bound _ _ hbound)) h

/-- The constants of a class that is defined are in its fields, and its strings are those of the
literals. -/
theorem define_accounts (hload : Accountable known load) (file : ClassFile) :
    Accounts known m (define load file) fun m' id => m'.Furnished True id := by
  intro hm hknown r m' hrun
  rcases define_runs load file m with ⟨fault, hrefused⟩ | ⟨c, hread, hfree, hdefined⟩
  · rw [hrefused] at hrun
    cases hrun
    exact .of_completes trivial (.refl m) fun _ h => by cases h
  · obtain ⟨hbegun, hopened⟩ := begun_opens hread hfree hm
    have hbegins : m.Furnishes known (m.begun c) :=
      (Machine.Furnishes.withClass (ofClassFile_defines hread).unlinked).trans (.of_eq rfl rfl)
    rcases hstep : outcome (attach load m.nextClassId) (m.begun c) with ⟨r₁, m₁⟩
    have hattach := attach_accounts hload Machine.lookup?_begun_self hopened hbegun
      (fun h => (hknown h).begun) r₁ m₁ hstep
    rw [hdefined, hstep] at hrun
    rcases r₁ with (fault | _ | _ | _) | _ <;> cases hrun
    · exact .of_completes trivial ((hbegins.trans (hattach.furnishes trivial)).trans
        (.of_eq rfl rfl)) fun _ h => by cases h
    · exact ⟨fun _ => hattach.misfit rfl, fun h => (by cases h), fun h => h.elim, fun _ h => by cases h⟩
    · exact ⟨fun h => (by cases h), fun h => (by cases h), fun h => h.elim, fun _ h => by cases h⟩
    · exact ⟨fun h => (by cases h), fun _ => hattach.endless rfl, fun h => h.elim,
        fun _ h => by cases h⟩
    · obtain ⟨c₀, hprepared⟩ := hattach.given _ rfl
      exact .of_completes trivial
        ((hbegins.trans (hattach.furnishes trivial)).trans (.link hprepared.linked hprepared.furnished))
        fun _ h => by cases h; exact hprepared.furnished

/-! ### Array classes -/

theorem arrayParents_accounts (hload : Accountable known load) :
    Accounts known m (arrayParents load) fun _ _ => True := by
  refine hload.bind fun superClass m₁ _ _ _ => ?_
  have hinterfaces : Follows (fun _ => False) m₁
      ([ClassName.cloneable, ClassName.serializable].mapM load) _ :=
    Follows.mapM (p := fun _ _ => True) (fun _ _ _ _ _ _ => trivial) _ fun name _ m =>
      (hload.faithful m name).weaken fun _ _ _ => trivial
  exact (Accounts.mapM (fun name m => (hload.accounts m name).weaken fun _ _ _ => trivial)
      (fun name m =>
    (hload.faithful m name).weaken fun _ _ _ => trivial) _).bind hinterfaces fun _ _ _ _ _ _ =>
      .pure trivial

/-- An array class has no static fields. -/
theorem arrayClass_accounts {parents : ClassId × List ClassId} :
    Accounts known m (arrayClass load name parents) fun m' id => m'.Furnished True id := by
  intro _ _ r m' hrun
  obtain ⟨inherited, hmade⟩ := outcome_arrayClass load name parents m
  rw [hmade] at hrun
  cases hrun
  have hthere : m.nextClassId.index < (m.withClass (arrayBelow name parents)).classes.size := by
    rw [Machine.size_withClass]
    exact Nat.lt_succ_self _
  have hunlinked : ((m.withClass (arrayBelow name parents)).cls m.nextClassId).linked = false := by
    rw [Machine.cls_withClass_new]
    rfl
  have hprepared := Machine.prepared_layOut hthere hunlinked inherited
  rw [Machine.cls_withClass_new] at hprepared
  have hadded : m.Furnishes known (m.withClass (arrayBelow name parents)) := .withClass rfl
  refine .of_completes trivial ?_ fun id hid => ?_
  · exact (hadded.trans (.changeClass hunlinked hunlinked)).trans
      (.link hprepared.linked hprepared.furnished)
  · cases hid
    exact hprepared.furnished

theorem defineArray_accounts (hload : Accountable known load) (harray : ArrayName.isArray name = true) :
    Accounts known m (defineArray load name) fun m' id => m'.Furnished True id := by
  rw [defineArray_eq]
  split
  · exact .raise _ _
  · refine (arrayParents_accounts hload).bind (arrayParents_follows hload.faithful)
      fun parents m₁ _ _ _ hparents => ?_
    refine arrayClass_accounts.bind (arrayClass_follows hload.faithful harray hparents)
      fun id m₂ _ _ hfurnished _ => ?_
    intro _ _ r m' hrun
    cases hrun
    exact .of_completes trivial (.of_eq rfl rfl) fun _ h => by
      cases h; exact ⟨hfurnished.tidy, hfurnished.seeded⟩

/-! ### The loader -/

/-- Loads are accounted for, however deep they may be inside of each other. -/
theorem loadWithin_accountable : ∀ nesting, Accountable known (loadWithin nesting)
  | 0 => ⟨loadWithin_faithful 0, fun m name r m' _ hrun hr => by cases hrun; exact hr.elim,
      fun m name _ _ r m' hrun => by
        cases hrun
        exact ⟨fun h => (by cases h), fun h => (by cases h), fun h => h.elim, fun _ h => by cases h⟩⟩
  | nesting + 1 => by
    have hload : Accountable known (loadWithin nesting) := loadWithin_accountable nesting
    refine ⟨loadWithin_faithful (nesting + 1), fun m name r m' hloaded hrun _ => ?_, fun m name => ?_⟩
    · obtain ⟨id, hid⟩ := Option.isSome_iff_exists.mp hloaded
      rw [loadWithin, outcome_bind_of_ok (outcome_get m), hid] at hrun
      cases hrun
      rfl
    · refine .reads (outcome_get m) ?_
      split
      · rename_i id hbound
        exact .pure (.inl (Option.isSome_iff_exists.mpr ⟨id, hbound⟩))
      · split
        · rename_i harray
          exact (defineArray_accounts hload harray).weaken fun _ _ => .inr
        · split
          · exact .ofFormat fun file _ => (define_accounts hload file).weaken fun _ _ => .inr
          · split
            · exact (define_accounts hload _).weaken fun _ _ => .inr
            · exact .raise _ _

end Loader

namespace VM

open Loader

theorem load_accountable {known : Prop} : Accountable known load where
  faithful := load_faithful
  looks m name r m' hloaded hrun hr := by
    rw [load, outcome_bind_of_ok (outcome_get m)] at hrun
    have haccountable : Accountable known (loadWithin m.nesting) := loadWithin_accountable m.nesting
    exact haccountable.looks m name r m' hloaded hrun hr
  accounts m name := .reads (outcome_get m) ((loadWithin_accountable m.nesting).accounts m name)

end VM

namespace Session

variable {natives : Natives} {directories : List Directory} {es : List Event} {S : Session}
  {file : ClassFile} {r : Except Failure ClassId} {m' : Machine}

/-- At any time of a run a definition completes, unless something is misfit. The constants of the
class that it gives, and of those that are loaded for it, are in the slots of their own fields, as
long as none is wider than its field. -/
theorem linking_accounted (hnatives : natives.Orderly) (hrun : Run natives (.start directories) es S)
    (hdefine : outcome (VM.define file) S.machine = (r, m')) :
    (Completes r ∨ r = .error .outOfRange ∧ m'.Misfit ∨ r = .error .endless ∧ m'.UnitsEndless) ∧
    (∀ id, r = .ok id → (m'.cls id).ConstantsFit → (m'.cls id).Tidy) ∧
    (Completes r → ∀ id, (m'.cls id).linked = true →
      (S.machine.cls id).linked = true ∨ ((m'.cls id).ConstantsFit → (m'.cls id).Tidy)) := by
  have hm := (hrun.regular hnatives).coherent
  have haccounts : Loader.Accounts False S.machine (VM.define file) fun m' id => m'.Furnished True id :=
    Loader.define_accounts VM.load_accountable file
  have haccounted := haccounts hm False.elim r m' hdefine
  refine ⟨?_, fun id hid => (haccounted.given id hid).tidy, fun hr id hid =>
    ((haccounted.furnishes hr).furnished id hid).imp_right (·.tidy)⟩
  have hloads : Loader.Loads (2 * S.machine.pending) (fun _ => False) S.machine (VM.define file) _ :=
    Loader.define_loads (VM.lawfulFor_load file S.machine)
  cases hloads hm.sound (Nat.le_refl _) r m' hdefine with
  | ok => exact .inl trivial
  | fault => exact .inl trivial
  | outOfRange => exact .inr (.inl ⟨rfl, haccounted.misfit rfl⟩)
  | endless => exact .inr (.inr ⟨rfl, haccounted.endless rfl⟩)

/-! ### A constant and the field next to it -/

/-- A session in which only the root of the hierarchy is defined. -/
def rootedSession : Session :=
  { Session.start [] with
    machine := (outcome (VM.define (.build ClassName.object none (pure ()))) (.start [])).2 }

theorem run_rooted : Run .standard (.start []) [] rootedSession :=
  .host .start (.define _) rfl (by decide +kernel)

/-- A class with a `long` constant for a field of some type, and whatever `others` adds. -/
def longConstant (descriptor : String) (others : Builder Unit) : ClassFile :=
  .build "A" (some ClassName.object) do
    let index ← Builder.long 4294967301
    Builder.addConstantField "X" descriptor index
    others

/-- A static `int` field after it. -/
def intField : Builder Unit := Builder.addField ⟨AccessFlags.staticBit⟩ "Y" "I"

/-- The machine after the definition of the class. -/
def linkedMachine (descriptor : String) : Machine :=
  (outcome (VM.define (longConstant descriptor intField)) rootedSession.machine).2

theorem define_longConstant {descriptor : String}
    (h : (outcome (VM.define (longConstant descriptor intField)) rootedSession.machine).1.toOption =
      some ⟨1⟩) :
    outcome (VM.define (longConstant descriptor intField)) rootedSession.machine =
      (.ok ⟨1⟩, linkedMachine descriptor) :=
  outcome_of_toOption h

theorem linking_accounted_wide : ((linkedMachine "J").cls ⟨1⟩).statics = ⟨#[.num 5, .num 1, .num 0]⟩ ∧
    ((linkedMachine "J").cls ⟨1⟩).Tidy :=
  ⟨by decide +kernel, (linking_accounted Natives.standard_orderly run_rooted
    (define_longConstant (by decide +kernel))).2.1
    ⟨1⟩ rfl (by decide +kernel)⟩

/-- A wide constant of a narrow field is stored in the slot of the field after it as well, or is out
of range. -/
theorem not_always_tidy : Run .standard (.start []) [] rootedSession ∧
    (¬ ∀ file id m', outcome (VM.define file) rootedSession.machine = (.ok id, m') → (m'.cls id).Tidy) ∧
    ¬ ∀ file r m', outcome (VM.define file) rootedSession.machine = (r, m') → Completes r := by
  refine ⟨run_rooted, fun h => ?_, fun h => ?_⟩
  · have hfirst : (outcome (VM.define (longConstant "I" intField))
        rootedSession.machine).1.toOption = some ⟨1⟩ := by
      decide +kernel
    exact absurd (h _ _ _ (define_longConstant hfirst)) (by decide +kernel)
  · exact absurd (h (longConstant "I" (pure ())) _ _ (Prod.eta _).symm) (by decide +kernel)

end Session

end JavaMachine
