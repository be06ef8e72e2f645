import JavaMachine.Proofs.Defining
import JavaMachine.Proofs.Invariants

/-!
Machines between operations, and definitions that fail on them.

Whatever is run on a machine, between two operations every bound name is bound to a linked class
(`Machine.Reachable.settled`). A definition that fails leaves it so and gives nothing up that was
there before (`definitions_undone`).
-/

namespace JavaMachine

/-- Programs keep what loads and definitions keep, if it is about the places of classes, their
methods, and the names. -/
theorem VM.KeptByPrograms.of_lawful {natives : Natives} {p : Machine → Prop} (hnatives : natives.Lawful)
    (hload : ∀ name, VM.Keeps p (load name)) (hdefine : ∀ file, VM.Keeps p (define file))
    (hchange : ∀ m id change, p m → (∀ c : Class, c.SamePlace (change c)) →
      (∀ c, (change c).methods = c.methods) → p (m.changeClass id change))
    (hsame : ∀ m m' : Machine, p m → m'.classes = m.classes → m'.names = m.names → p m') :
    KeptByPrograms natives p := by
  intro α x hx
  replace hx := hx.withoutNatives hnatives
  induction hx with
  | pure a => exact .pure a
  | throw e => exact .throw e
  | get => exact .get
  | bind _ _ hx hf => exact hx.bind hf
  | attempt _ hx => exact hx.attempt
  | load name => exact hload name
  | define file => exact hdefine file
  | setStatics | startInitialization | setConstant | setComponent =>
    exact .modifyGet fun m hm => hchange m _ _ hm (fun _ => ⟨rfl, rfl, rfl, rfl⟩) fun _ => rfl
  | modifyData | allocate | bindLiteral => exact .modifyGet fun m hm => hsame m _ hm rfl rfl
  | native registered => cases registered

namespace Machine

variable {m m' : Machine} {own : ClassId → Prop} {natives : Natives}

/-- A machine on which no definition is going on. -/
structure Settled (m : Machine) : Prop where
  sound : m.Sound
  linked : ∀ name id, m.lookup? name = some id → (m.cls id).linked = true

/-- The machines that can be reached from an empty one by whole operations: programs, steps of
threads, and calls from outside. An operation that ends in a fault is over as well. -/
inductive Reachable : Machine → Prop where
  | start (directories : List Directory) : Reachable (.start directories)
  | program {α : Type} {x : VM α} {natives : Natives} {m m' : Machine} {r : Except Failure α}
      (before : Reachable m)
      (lawful : natives.Lawful) (program : VM.Program natives x) (run : outcome x m = (r, m'))
      (completes : Completes r) : Reachable m'
  | step {natives : Natives} {s t : Running} {r : Except Failure Unit} (before : Reachable s.machine)
      (lawful : natives.Lawful) (run : outcome (Exec.step natives) s = (r, t))
      (completes : Completes r) :
      Reachable t.machine
  | invoke {natives : Natives} {fuel : Nat} {method : Method} {arguments : List Value} {s t : Running}
      {r : Except Failure (Option Value)} (before : Reachable s.machine) (lawful : natives.Lawful)
      (run : outcome (Exec.invoke natives fuel method arguments) s = (r, t)) (completes : Completes r) :
      Reachable t.machine
  | main {natives : Natives} {fuel : Nat} {name : String} {arguments : List String} {s t : Running}
      {r : Except Failure Unit} (before : Reachable s.machine) (lawful : natives.Lawful)
      (run : outcome (Exec.runMain natives fuel name arguments) s = (r, t)) (completes : Completes r) :
      Reachable t.machine

/-! ### Settled machines -/

theorem settled_start (directories : List Directory) : (start directories).Settled := by
  have hcls : ∀ id, (start directories).cls id = default := fun id => cls_of_size_le (Nat.zero_le _)
  refine ⟨⟨fun name id h => (by cases h), fun id k h => ?_, fun id k _ h => ?_⟩,
    fun name id h => (by cases h)⟩
  · rw [hcls] at h
    exact absurd h (Class.not_below_default k)
  · rw [hcls] at h
    exact absurd h (Class.not_below_default k)

namespace Settled

theorem of_eq (hm : m.Settled) (hclasses : m'.classes = m.classes)
    (hnames : m'.names = m.names) : m'.Settled := by
  refine ⟨hm.sound.of_eq hclasses hnames, fun name id h => ?_⟩
  rw [cls_congr hclasses]
  exact hm.linked name id (by rwa [lookup?, hnames] at h)

theorem changePlaced (hm : m.Settled) {id : ClassId} {change : Class → Class}
    (hplace : ∀ c : Class, c.SamePlace (change c)) : (m.changeClass id change).Settled := by
  refine ⟨hm.sound.changePlaced (hplace _), fun name k h => ?_⟩
  rcases m.cls_changeClass id change k with heq | ⟨rfl, heq⟩ <;> rw [heq]
  · exact hm.linked name k h
  · exact (hplace _).linked.trans (hm.linked name k h)

/-- Names that are bound while the machine grows are bound to linked classes. -/
theorem grows (hm : m.Settled) (hm' : m'.Sound) (h : m.Grows own m') : m'.Settled := by
  refine ⟨hm', fun name id hid => ?_⟩
  rcases h.added name id hid with hold | ⟨-, hlinked⟩
  · exact (h.linked id (hm.sound.bound name id hold)).trans (hm.linked name id hold)
  · exact hlinked

theorem loads {α : Type} {x : VM α} {gives : Machine → α → Prop}
    (h : ∀ m room, Loader.Loads room (fun _ => False) m x gives) : VM.Keeps Settled x := by
  intro m r m' hm hrun hr
  cases h m (2 * m.pending) hm.sound (Nat.le_refl _) r m' hrun with
  | ok hm' hgrows => exact hm.grows hm' hgrows
  | fault hm' hgrows => exact hm.grows hm' hgrows
  | outOfRange => exact hr.elim
  | endless => exact hr.elim

/-- Programs keep machines settled. -/
theorem keptByPrograms (hnatives : natives.Lawful) : VM.KeptByPrograms natives Settled :=
  VM.KeptByPrograms.of_lawful hnatives (fun name => loads fun m room => VM.load_lawful room m name)
    (fun file => loads fun m _ => Loader.define_loads (VM.lawfulFor_load file m))
    (fun _ _ _ hm hplace _ => hm.changePlaced hplace) fun _ _ hm => hm.of_eq

end Settled

/-- What holds of the empty machines and is kept by programs holds of all machines that can be
reached. -/
theorem Reachable.keeps {p : Machine → Prop} (h : m.Reachable) (hstart : ∀ directories,
      p (.start directories))
    (hp : ∀ natives : Natives, natives.Lawful → VM.KeptByPrograms natives p) : p m := by
  induction h with
  | start directories => exact hstart directories
  | program _ lawful hx run completes ih => exact hp _ lawful hx _ _ _ ih run completes
  | step _ lawful run completes ih => exact Exec.Keeps.step (hp _ lawful) _ _ _ ih run completes
  | invoke _ lawful run completes ih =>
      exact Exec.Keeps.invoke (hp _ lawful) _ _ _ _ _ _ ih run completes
  | main _ lawful run completes ih =>
      exact Exec.Keeps.runMain (hp _ lawful) _ _ _ _ _ _ ih run completes

/-- Between operations every bound name is bound to a linked class. -/
theorem Reachable.settled (h : m.Reachable) : m.Settled :=
  h.keeps settled_start fun _ hnatives => Settled.keptByPrograms hnatives

/-! ### Failed definitions -/

/-- What a failed definition of a class file on `m` leaves: everything that was bound, its own name
as it was, only linked classes, and no class but array classes that extends the failed one, which
had the next id of `m`. -/
structure Undone (file : ClassFile) (m m' : Machine) : Prop where
  bound : ∀ name id, m.lookup? name = some id → m'.lookup? name = some id
  own : ∀ name, file.name? = some name → ((m'.lookup? name).isSome ↔ (m.lookup? name).isSome)
  linked : ∀ name id, m'.lookup? name = some id → (m'.cls id).linked = true
  apart : ∀ name id, m'.lookup? name = some id → (m'.cls id).isArray = false →
    ¬ (m'.cls id).Below m.nextClassId

theorem cls_nextClassId (m : Machine) : m.cls m.nextClassId = default := cls_of_size_le (Nat.le_refl _)

/-- The class of a failed definition is never linked, and its name not bound. -/
theorem undone_of_defines {file : ClassFile} {fault : Fault} (hm : m.Settled)
    (h : Loader.Defines file m (.error (.fault fault)) m') : m.Undone file m' := by
  have hends : Loader.Ends (fun _ => False) m _ _ m' := h.ends hm.sound
  obtain ⟨hm', hgrows⟩ : m'.Sound ∧ m.Grows (fun _ => False) m' := by
    cases hends with
    | fault hm' hgrows => exact ⟨hm', hgrows⟩
  have hunlinked : (m'.cls m.nextClassId).linked = false := by
    cases h with
    | refused => rw [cls_nextClassId]; rfl
    | undone hread hfree hm₁ hbegun =>
      have hlast := hbegun.linked m.nextClassId (by rw [size_begun]; exact Nat.lt_succ_self _)
      rw [cls_begun_self, (Loader.ofClassFile_defines hread).unlinked] at hlast
      exact hlast
  refine ⟨hgrows.bound, fun name hname => ⟨fun hafter => ?_, fun hbefore => ?_⟩,
    (hm.grows hm' hgrows).linked, fun name id hid harray hbelow => ?_⟩
  · cases h with
    | refused => exact hafter
    | undone hread hfree hm₁ hbegun =>
      have hown := (Loader.ofClassFile_defines hread).name
      rw [hname] at hown
      cases hown
      rw [lookup?_withoutName_self] at hafter
      cases hafter
  · obtain ⟨id, hid⟩ := Option.isSome_iff_exists.mp hbefore
    exact Option.isSome_iff_exists.mpr ⟨id, hgrows.bound name id hid⟩
  · have hlinked := hm'.linked id m.nextClassId harray hbelow
    rw [hunlinked] at hlinked
    cases hlinked

end Machine

namespace VM

/-- Failed definitions are undone. A definition never unbinds or replaces a class that was bound
before, and the bound on the nesting of loads is not what it fails from. -/
theorem definitions_undone {m m' : Machine} {file : ClassFile} {x : VM ClassId}
    {r : Except Failure ClassId} (hm : m.Reachable)
    (hx : x = define file ∨ ∃ bytes, ClassFile.decode bytes = .ok file ∧ x = defineBytes bytes)
    (hrun : outcome x m = (r, m')) :
    r ≠ .error .outOfFuel ∧ (Completes r → ∀ name id, m.lookup? name = some id →
      m'.lookup? name = some id) ∧
      ∀ fault, r = .error (.fault fault) → m.Undone file m' := by
  have hrun : outcome (define file) m = (r, m') := by
    rcases hx with rfl | ⟨bytes, hdecode, rfl⟩
    · exact hrun
    · unfold defineBytes Loader.defineBytes at hrun
      rwa [hdecode, outcome_bind_of_ok (outcome_ofFormat_ok file)] at hrun
  have hdefines := Loader.define_cases (lawfulFor_load file m) hm.settled.sound hrun
  have hends : Loader.Ends (fun _ => False) m _ r m' := hdefines.ends hm.settled.sound
  refine ⟨?_, fun hr => ?_, fun fault hr => ?_⟩
  · cases hends <;> simp
  · cases hends with
    | ok _ hgrows => exact hgrows.bound
    | fault _ hgrows => exact hgrows.bound
    | outOfRange => exact hr.elim
    | endless => exact hr.elim
  · subst hr
    exact Machine.undone_of_defines hm.settled hdefines

/-- A class that extends itself. -/
def selfExtending : ClassFile where
  magic := ClassFile.expectedMagic
  minorVersion := 0
  majorVersion := 52
  pool := #[.unusable, .utf8 [65], .classRef 1]
  flags := ⟨0x21⟩
  thisClass := 2
  superClass := 2
  interfaces := []
  fields := []
  methods := []
  attributes := []

theorem definitions_undone_selfExtending : ∃ fault m',
    outcome (define selfExtending) (.start []) = (.error (.fault fault), m') ∧
      (Machine.start []).Undone selfExtending m' := by
  have hfails : Completes (outcome (define selfExtending) (.start [])).1 ∧
      (outcome (define selfExtending) (.start [])).1.isOk = false := by
    decide +kernel
  rcases hrun : outcome (define selfExtending) (.start []) with ⟨e | id, m'⟩ <;> rw [hrun] at hfails
  · obtain ⟨fault, rfl⟩ := completes_error hfails.1
    exact ⟨fault, m', rfl, (definitions_undone (.start []) (.inl rfl) hrun).2.2 fault rfl⟩
  · cases hfails.2

end VM

end JavaMachine
