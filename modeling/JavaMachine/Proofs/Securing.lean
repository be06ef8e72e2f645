import JavaMachine.Native.ArrayCopy
import JavaMachine.Proofs.Discreet
import JavaMachine.Proofs.Natives

/-!
Steps that keep a machine safe.

Whatever is stored in a reference array was found to be storable as its component class
(`isInstance_secure`), was made of that class, or comes from an array of the same class. So arrays
that are filled element by element, copied into or made with all their elements hold only what fits.
-/

namespace JavaMachine

namespace Machine

variable {m m' : Machine} {id component : ClassId} {a b : Address} {name : String}

theorem classId_lt_of_componentName? (h : (m.cls id).componentName? = some name) :
    id.index < m.classes.size :=
  lt_of_isArray (Class.isArray_of_componentName? h)

theorem assignabilityBound_pos (m : Machine) (target source : ClassId) :
    ∃ steps, m.assignabilityBound target source = steps + 1 := by
  refine Nat.exists_eq_succ_of_ne_zero ?_
  unfold assignabilityBound componentBound
  dsimp only
  split <;> omega

/-- An array without a component class may hold anything that is there. -/
theorem fits_of_plain (h : (m.cls (m.classOf a)).componentName? = none)
    (hb : b.index < m.heap.size) : m.Fits a b :=
  ⟨hb, fun name hname => by rw [h] at hname; cases hname⟩

/-- An array may hold what can be stored as its component class. -/
theorem fits_of_stores (h : m.HasComponent (m.classOf a) component) (hb : b.index < m.heap.size)
    (hstores : m.Stores (m.assignabilityBound component (m.classOf b)) component (m.classOf b)) :
    m.Fits a b := by
  refine ⟨hb, fun name hname => ?_⟩
  obtain ⟨name', hname', hbound⟩ := h
  cases hname.symm.trans hname'
  exact ⟨component, hbound, hstores⟩

/-- An array may hold instances of its component class. -/
theorem fits_of_instance (h : m.HasComponent (m.classOf a) (m.classOf b))
    (hb : b.index < m.heap.size) : m.Fits a b := by
  obtain ⟨steps, hsteps⟩ := m.assignabilityBound_pos (m.classOf b) (m.classOf b)
  exact fits_of_stores h hb (hsteps ▸ .same)

/-- The component class of a class is kept once it is loaded. -/
theorem Safe.setComponent (hm : m.Safe) (hname : (m.cls id).componentName? = some name)
    (hbound : m.lookup? name = some component) :
    (m.changeClass id ({ · with component := some component })).Safe ∧
      m.Evolves (m.changeClass id ({ · with component := some component })) := by
  have hlater : (m.cls id).Later { m.cls id with component := some component } :=
    .withComponent fun k hk => Option.some.inj ((hm.cached id k name hk hname).symm.trans hbound)
  have hnamed := hm.regular.coherent.named name component hbound
  have hcomponent : m.ComponentOf component id :=
    ⟨by rw [hnamed]; exact hbound, name, hname, .inl hnamed⟩
  have hevolves : m.Evolves (m.changeClass id ({ · with component := some component })) :=
    .changeClass hlater
  have hregular : (m.changeClass id ({ · with component := some component })).Regular :=
    hm.regular.changeClass hlater rfl (fun _ => .inl) fun k hk => .inr (Option.some.inj hk ▸ hcomponent)
  refine ⟨⟨hregular, hm.grounded.changeClass (hm.grounded.statics id), hm.files,
    fun other k other' hk hother => ?_, fun a elements b helements hb => ?_⟩, hevolves⟩
  · rcases cls_changeClass m id ({ · with component := some component }) other with heq | ⟨rfl, heq⟩ <;>
      rw [heq] at hk hother
    · exact hm.cached other k other' hk hother
    · cases hk
      cases hname.symm.trans hother
      exact hbound
  · exact (hm.fits a elements b helements hb).evolves hm.regular ⟨hevolves, rfl⟩
      (lt_of_elements helements)

/-- The elements of an array are replaced by others that fit. -/
theorem Safe.withElements {elements : Array (Option Address)} (hm : m.Safe)
    (ha : m.Accepts a (.references elements))
    (h : ∀ b, some b ∈ elements → m.Fits a b) : (m.withData a (.references elements)).Safe := by
  have hevolves : m.Remembers (m.withData a (.references elements)) :=
    ⟨.withData fun _ => ha.shape, rfl⟩
  have hthere : extent elements ≤ m.heap.size := extent_array.mpr fun r hr => by
    cases r with
    | none => exact Nat.zero_le _
    | some b => exact (h b hr).there
  have hregular : (m.withData a (.references elements)).Regular :=
    hm.regular.withData (fun _ => ha.shape) fun _ => ha.suits
  refine ⟨hregular, hm.grounded.withData hthere, hm.files, hm.cached,
    fun other elements' b helements hb => ?_⟩
  by_cases hother : other = a
  · subst hother
    rw [object_withData_self ha.there] at helements
    cases helements
    exact (h b hb).evolves hm.regular hevolves ha.there
  · rw [object_withData_ne hother] at helements
    exact (hm.fits other elements' b helements hb).evolves hm.regular hevolves
      (lt_of_elements helements)

end Machine

namespace VM

open Machine

variable {α β : Type} [References α] [References β] {n : Nat} {m m' : Machine}

/-- What is left of a safe machine, and given, by a step that ends. -/
structure Secured (m : Machine) (gives : Machine → α → Prop) (r : Except Failure α)
    (m' : Machine) : Prop where
  safe : m'.Safe
  remembers : m.Remembers m'
  there : extent r ≤ m'.heap.size
  given : ∀ a, r = .ok a → gives m' a

/-- A step on `m` that keeps it safe, with what its result is said to be. -/
def SecureTo (m : Machine) (x : VM α) (gives : Machine → α → Prop) : Prop :=
  m.Safe → ∀ r m', outcome x m = (r, m') → Completes r → Secured m gives r m'

/-- A step on `m` that keeps it safe. -/
abbrev SecureOn (m : Machine) (x : VM α) : Prop := SecureTo m x fun _ _ => True

namespace SecureTo

variable {x : VM α} {gives gives' : Machine → α → Prop} {then' : Machine → β → Prop}

theorem pure {a : α} (hthere : extent a ≤ m.heap.size) (h : m.Safe → gives m a) :
    SecureTo m (pure a) gives :=
  fun hm r m' hrun _ => by
    cases hrun
    exact ⟨hm, .refl m, hthere, fun b hb => by cases hb; exact h hm⟩

theorem throw {e : Failure} (h : extent e ≤ m.heap.size) : SecureTo m (throw e) gives :=
    fun hm r m' hrun _ => by
  cases hrun
  exact ⟨hm, .refl m, h, fun b hb => by cases hb⟩

theorem raise (className message : String) : SecureTo m (raise className message) gives :=
  throw (Nat.zero_le _)

theorem inRange {a? : Option α} (h : ∀ a, a? = some a → extent a ≤ m.heap.size) :
    SecureOn m (VM.inRange a?) := by
  cases a? with
  | none => exact throw (Nat.zero_le _)
  | some a => exact pure (h a rfl) fun _ => trivial

theorem bind {f : α → VM β} (first : SecureTo m x gives)
    (second : ∀ a m₁, m₁.Safe → m.Remembers m₁ → extent a ≤ m₁.heap.size → gives m₁ a →
      SecureTo m₁ (f a) then') :
    SecureTo m (x >>= f) then' := by
  intro hm r m' hrun hr
  obtain ⟨fault, hx, rfl⟩ | ⟨a, m₁, hx, hrun⟩ := outcome_bind_completes hrun hr
  · have hfirst := first hm _ _ hx trivial
    exact ⟨hfirst.safe, hfirst.remembers, hfirst.there, fun b hb => by cases hb⟩
  · have hfirst := first hm _ _ hx trivial
    have hsecond := second a m₁ hfirst.safe hfirst.remembers hfirst.there (hfirst.given a rfl)
      hfirst.safe r m' hrun hr
    exact ⟨hsecond.safe, hfirst.remembers.trans hsecond.remembers, hsecond.there, hsecond.given⟩

omit [References α] in
/-- What a step reads of the machine is not asked for again. -/
theorem reads {f : α → VM β} {a : α} (hread : outcome x m = (.ok a, m))
    (second : SecureTo m (f a) then') :
    SecureTo m (x >>= f) then' := by
  intro hm r m' hrun hr
  rw [outcome_bind_of_ok hread] at hrun
  exact second hm r m' hrun hr

omit [References α] in
theorem ofSearch {search : Search α} {f : Option α → VM β}
    (second : ∀ found, search.found? = found → SecureTo m (f found) then') :
    SecureTo m (VM.ofSearch search >>= f) then' := by
  cases search with
  | found a => exact reads (a := some a) rfl (second _ rfl)
  | absent => exact reads (a := none) rfl (second _ rfl)
  | endless => exact throw (Nat.zero_le _)

/-- Only the outcome of a step matters. -/
theorem congr {y : VM α} (hsame : outcome y m = outcome x m) (h : SecureTo m x gives) :
    SecureTo m y gives :=
  fun hm r m' hrun => h hm r m' (hsame ▸ hrun)

/-- The machine is safe at first. -/
theorem assuming (h : m.Safe → SecureTo m x gives) : SecureTo m x gives := fun hm => h hm hm

theorem weaken (h : SecureTo m x gives) (hgives : ∀ m' a, gives m' a → gives' m' a) :
    SecureTo m x gives' :=
  fun hm r m' hrun hr =>
    have hsecured := h hm r m' hrun hr
    ⟨hsecured.safe, hsecured.remembers, hsecured.there, fun a ha => hgives m' a (hsecured.given a ha)⟩

/-- What is given is the result of the step. -/
theorem ran (h : SecureTo m x gives) :
    SecureTo m x fun m' a => outcome x m = (.ok a, m') ∧ gives m' a :=
  fun hm r m' hrun hr =>
    have hsecured := h hm r m' hrun hr
    ⟨hsecured.safe, hsecured.remembers, hsecured.there, fun a ha => ⟨ha ▸ hrun, hsecured.given a ha⟩⟩

theorem secureOn (h : SecureTo m x gives) : SecureOn m x := h.weaken fun _ _ _ => trivial

/-- What is attempted gives what it is said to give, if it gives something. -/
theorem attempt (h : SecureTo m x gives) :
    SecureTo m (attempt x) fun m' result => ∀ a, result = .ok a → gives m' a := by
  intro hm r m' hrun hr
  obtain ⟨fault, hx, rfl⟩ | ⟨a, hx, rfl⟩ := outcome_vm_attempt_completes hrun hr
  · have hsecured := h hm _ _ hx trivial
    exact ⟨hsecured.safe, hsecured.remembers, hsecured.there, fun _ hb _ ha => by cases hb; cases ha⟩
  · have hsecured := h hm _ _ hx trivial
    exact ⟨hsecured.safe, hsecured.remembers, hsecured.there, fun _ hb _ ha => by
      cases hb
      cases ha
      exact hsecured.given _ rfl⟩

/-- A steady step that leaves arrays alone keeps a machine safe. -/
theorem of_discreet (hsteady : SteadyOn m x) (hdiscreet : Discreet n x) (hn : n ≤ m.heap.size)
    (h : ∀ a m', m.Safe → m'.Safe → outcome x m = (.ok a, m') → gives m' a) : SecureTo m x gives := by
  intro hm r m' hrun hr
  obtain ⟨hregular, hevolves, -⟩ := hsteady r m' hm.regular hrun hr
  obtain ⟨-, hgrounded, hundisturbed, hthere⟩ :=
    hdiscreet.leaves m r m' hn hm.regular.coherent.sound hm.grounded hrun hr
  have hm' := hm.undisturbed hundisturbed hregular hgrounded hevolves
  exact ⟨hm', ⟨hevolves, hundisturbed.directories⟩, hthere, fun a ha => h a m' hm hm'
    (by rw [hrun, ha])⟩

/-- An array comes to hold other elements. -/
theorem setElements {a : Address} {elements : Array (Option Address)}
    (ha : m.Accepts a (.references elements))
    (h : m.Safe → ∀ b, some b ∈ elements → m.Fits a b) :
    SecureOn m (setData a (.references elements)) :=
  fun hm r m' hrun _ => by
    cases hrun
    exact ⟨hm.withElements ha (h hm), ⟨.withData fun _ => ha.shape, rfl⟩, Nat.zero_le _,
      fun _ _ => trivial⟩

/-- What an object holds is replaced by something that refers to no objects. -/
theorem setPlain {a : Address} {data : ObjectData} (ha : m.Accepts a data) (hdata : extent data = 0) :
    SecureOn m (setData a data) := fun hm r m' hrun _ => by
  cases hrun
  have hregular : (m.withData a data).Regular :=
    hm.regular.withData (fun _ => ha.shape) fun _ => ha.suits
  have hgrounded : (m.withData a data).Grounded := hm.grounded.withData (extent_le_of_zero hdata)
  have hundisturbed : m.Undisturbed (m.withData a data) := .withData fun elements b helements hb => by
    rw [helements] at hdata
    exact absurd (extent_array.mp (Nat.le_of_eq hdata) _ hb) (Nat.not_succ_le_zero _)
  have hevolves : m.Evolves (m.withData a data) := .withData fun _ => ha.shape
  exact ⟨hm.undisturbed hundisturbed hregular hgrounded hevolves, ⟨hevolves, rfl⟩, Nat.zero_le _,
    fun _ _ => trivial⟩

/-- The beginning of an initialization leaves arrays alone. -/
theorem startInitialization (id : ClassId) :
    SecureOn m (modifyClass id ({ · with initStarted := true })) :=
  fun hm r m' hrun _ => by
    cases hrun
    obtain ⟨hregular, hevolves⟩ := hm.regular.startInitialization id
    exact ⟨hm.undisturbed (.changeClass rfl) hregular
      (hm.grounded.changeClass (hm.grounded.statics id)) hevolves,
      ⟨hevolves, rfl⟩, Nat.zero_le _, fun _ _ => trivial⟩

/-- A property of each result that lasts holds of all of them at the end. -/
theorem mapM {γ : Type} {f : γ → VM β} {p : Machine → β → Prop}
    (hlasts : ∀ (m₁ m₂ : Machine) b, m₁.Safe → m₁.Remembers m₂ → p m₁ b → p m₂ b)
    (h : ∀ m₁ c, SecureTo m₁ (f c) p) : ∀ (cs : List γ) {m : Machine},
      SecureTo m (cs.mapM f) fun m' bs => ∀ b ∈ bs, p m' b
  | [], _ => pure (Nat.zero_le _) fun _ b hb => by cases hb
  | c :: cs, m => by
    rw [List.mapM_cons]
    refine bind (h m c) fun b m₁ hm₁ _ hb hgiven => bind (mapM hlasts h cs)
      fun bs m₂ hm₂ hremembers hbs hall => ?_
    refine pure (extent_list.mpr
      (List.forall_mem_cons.mpr ⟨Nat.le_trans hb hremembers.heap, extent_list.mp hbs⟩))
      fun _ => ?_
    exact List.forall_mem_cons.mpr ⟨hlasts m₁ m₂ b hm₁ hremembers hgiven, hall⟩

end SecureTo

/-! ### Component classes and assignability -/

/-- A class is loaded by its name if the files are named after their classes. -/
theorem load_secure (name : String) : SecureTo m (load name) fun m' id =>
    m'.lookup? name = some id ∧ (m'.cls id).name = name := by
  refine .of_discreet (n := 0) (Steady.load name m) (.load name) (Nat.zero_le _)
    fun id m' hm _ hrun => ?_
  obtain ⟨hbound, hnamed⟩ := (load_faithful m name hm.regular.coherent _ _ hrun trivial).given id rfl
  rcases hnamed with hname | ⟨-, -, ⟨bytes, file, hfile, hdecode, hother⟩, hdifferent⟩
  · exact ⟨by rwa [hname] at hbound, hname⟩
  · rw [hm.files name bytes file hfile hdecode] at hother
    exact absurd (Option.some.inj hother).symm hdifferent

theorem setComponent_secure {id component : ClassId} {name : String}
    (hname : (m.cls id).componentName? = some name) (hbound : m.lookup? name = some component) :
    SecureTo m (modifyClass id ({ · with component := some component })) fun m' _ =>
      m'.HasComponent id component :=
  fun hm r m' hrun _ => by
    cases hrun
    obtain ⟨hsafe, hevolves⟩ := hm.setComponent hname hbound
    exact ⟨hsafe, ⟨hevolves, rfl⟩, Nat.zero_le _, fun _ _ =>
      HasComponent.evolves ⟨name, hname, hbound⟩ hm.regular.coherent.sound hevolves⟩

/-- What the component class of a class is said to be once it was asked for. -/
def IsComponent (id : ClassId) (m : Machine) : Option ClassId → Prop
  | some component => m.HasComponent id component
  | none => (m.cls id).componentName? = none

theorem component?_secure (id : ClassId) : SecureTo m (component? id) (IsComponent id) := by
  rw [component?_eq]
  refine .reads (outcome_cls id) ?_
  rcases hname : (m.cls id).componentName? with _ | name
  · exact .pure (Nat.zero_le _) fun _ => hname
  · dsimp only
    rcases hkept : (m.cls id).component with _ | component
    · refine .bind (load_secure name) fun component m₁ hm₁ hremembers _ hloaded => ?_
      have hid := classId_lt_of_componentName? hname
      have hname₁ := (hremembers.later id hid).componentName?.trans hname
      exact .bind (setComponent_secure hname₁ hloaded.1) fun _ m₂ _ _ _ hfound =>
        .pure (Nat.zero_le _) fun _ => hfound
    · exact .pure (Nat.zero_le _) fun hm => ⟨name, hname, hm.cached id component name hkept hname⟩

/-- What is found to be assignable can be stored. -/
theorem isAssignableWithin_secure : ∀ (steps : Nat) (target source : ClassId) {m : Machine},
    SecureTo m (isAssignableWithin steps target source) fun m' answer => answer = true →
      m'.Stores steps target source
  | 0, _, _, _ => .throw (Nat.zero_le _)
  | steps + 1, target, source, m => by
    refine .reads (outcome_get m) ?_
    split
    · rename_i heq
      cases heq
      exact .pure (Nat.zero_le _) fun _ _ => .same
    · split
      · rename_i hsource
        refine .ofSearch fun found hfound => .pure (Nat.zero_le _) fun _ h =>
          .object (by simpa using hsource) ?_
        rwa [isObjectAssignable, hfound]
      · rename_i hsource
        split
        · rename_i htarget
          exact .pure (Nat.zero_le _) fun _ h => .array (by simpa using hsource)
            (by simpa using htarget) h
        · rename_i htarget
          have harrays : (m.cls target).isArray = true ∧ (m.cls source).isArray = true :=
            ⟨by simpa using htarget, by simpa using hsource⟩
          refine .bind (component?_secure target).attempt fun ofTarget m₁ hm₁ hfirst _ htarget => ?_
          refine .bind (component?_secure source).attempt fun ofSource m₂ hm₂ hsecond _ hsource => ?_
          split
          · rename_i targetComponent sourceComponent _ _
            have ht : m₁.HasComponent target targetComponent := htarget _ rfl
            have hs : m₂.HasComponent source sourceComponent := hsource _ rfl
            intro hm r m' hrun hr
            have hrest := isAssignableWithin_secure steps targetComponent
              sourceComponent hm r m' hrun hr
            have ht₂ := ht.evolves hm₁.regular.coherent.sound hsecond.toEvolves
            exact ⟨hrest.safe, hrest.remembers, hrest.there, fun answer hanswer htrue =>
              .components (ht₂.evolves hm₂.regular.coherent.sound hrest.remembers.toEvolves)
                (hs.evolves hm₂.regular.coherent.sound hrest.remembers.toEvolves)
                (hrest.given answer hanswer htrue)⟩
          · have hboth := hfirst.trans hsecond
            have hlater₁ := hsecond.later target
              (Nat.lt_of_lt_of_le (lt_of_isArray harrays.1) hfirst.classes)
            have htlater := hboth.later target (lt_of_isArray harrays.1)
            have hslater := hboth.later source (lt_of_isArray harrays.2)
            refine .pure (Nat.zero_le _) fun _ h => .primitives (htlater.isArray.trans harrays.1)
              (hslater.isArray.trans harrays.2) (hlater₁.componentName?.trans (htarget _ rfl))
              (hsource _ rfl) ?_
            rw [htlater.name, hslater.name]
            exact of_decide_eq_true h
          · exact .pure (Nat.zero_le _) fun _ h => by cases h

/-- What is found to be an instance of the component class of an array may be an element of the
array. -/
theorem isInstance_secure {a b : Address} {component : ClassId}
    (hcomponent : m.HasComponent (m.classOf a) component)
    (ha : a.index < m.heap.size) (hb : b.index < m.heap.size) :
    SecureTo m (isInstance b component) fun m' answer => answer = true → m'.Fits a b := by
  refine .reads (outcome_get m) (.reads (outcome_get m) ?_)
  intro hm r m' hrun hr
  have hsecured := isAssignableWithin_secure _ component (m.classOf b) hm r m' hrun hr
  have hremembers := hsecured.remembers
  have hsound := hm.regular.coherent.sound
  have hsource := hm.regular.coherent.there b hb
  refine ⟨hsecured.safe, hremembers, hsecured.there, fun answer hanswer htrue => ?_⟩
  have hcomponent' : m'.HasComponent (m'.classOf a) component := by
    rw [hremembers.classOf a ha]
    exact hcomponent.evolves hsound hremembers.toEvolves
  refine fits_of_stores hcomponent' (Nat.lt_of_lt_of_le hb hremembers.heap) ?_
  rw [hremembers.classOf b hb,
    assignabilityBound_evolves hremembers.toEvolves hremembers.directories
    (hcomponent.lt hsound).2 hsource]
  exact hsecured.given answer hanswer htrue

theorem isAssignable_secure (target source : ClassId) : SecureOn m (isAssignable target source) :=
  .reads (outcome_get m) (isAssignableWithin_secure _ target source).secureOn

end VM

end JavaMachine
