import JavaMachine.ClassFile.Encode
import JavaMachine.Proofs.FilePaths
import JavaMachine.Proofs.Linking

/-!
Equal literals are one string.

A literal that has been interned is interned as the same string for the rest of a run, and no other
literal is (`Session.Interns`). A class that is loaded or defined has these strings in the static
fields that start with a string literal. The exception is a class that is loaded while a string is
made: if it interns the same literal, its field has a string of its own (`Session.not_always_once`).
Once the classes of strings are known, no class is loaded for a string.
-/

namespace JavaMachine

/-- The steps that define a class, unless they fail. -/
inductive Machine.Defining (m : Machine) : VM ClassId → Prop where
  | define (file : ClassFile) : Defining m (VM.define file)
  | load {name : String} (free : m.isLoaded name = false) : Defining m (VM.load name)

/-- What such a step leaves in the static fields of classes. -/
theorem Machine.Defining.accounts {known : Prop} {m : Machine} {x : VM ClassId} (h : m.Defining x) :
    Loader.Accounts known m x fun m' id => m'.Furnished True id := by
  cases h with
  | define file => exact Loader.define_accounts VM.load_accountable file
  | load free =>
    refine (VM.load_accountable.accounts m _).weaken fun m' id hgiven => hgiven.resolve_left ?_
    rw [free]
    exact Bool.false_ne_true

theorem Machine.Defining.orderly {m : Machine} {x : VM ClassId} (h : m.Defining x) : VM.Orderly x := by
  cases h with
  | define file => exact .define file
  | load => exact .load _

namespace Session

variable {natives : Natives} {directories : List Directory} {es : List Event} {S : Session}
  {units : Text.Units} {string : Address} {m : Machine}

/-- From now on, the literal is interned as the string, and other literals are interned as others. -/
def Interns (natives : Natives) (S : Session) (units : Text.Units) (string : Address) : Prop :=
  ∀ es' S' other a m, Run natives S es' S' → outcome (VM.intern other) S'.machine = (.ok a, m) →
    (a = string ↔ other = units)

/-- The static fields of the class that start with a string literal have the string that the literal
is interned as. -/
def HasInterned (natives : Natives) (S : Session) (id : ClassId) : Prop :=
  (S.machine.cls id).ConstantsFit → ∀ entry ∈ (S.machine.cls id).constantFields, ∀ units,
    (S.machine.cls id).constantAt entry.2 = .ok (.string units) →
      ∃ string, (S.machine.cls id).StartsWith entry string ∧ Interns natives S units string

/-- Two literals are never bound to one string. -/
theorem literals_injective (hnatives : natives.Orderly) (hrun : Run natives (.start directories) es S)
    {other : Text.Units} (hunits : S.machine.literals.lookup units = some string)
    (hother : S.machine.literals.lookup other = some string) : other = units := by
  have hrecalls := (hrun.advances hnatives (Machine.regular_start directories)).evolves.recalls
  rcases hrecalls.single units other string hunits hother with heq | hstart | hstart
  · exact heq.symm
  · cases hstart
  · cases hstart

/-- A literal is bound to the string that it is interned as. -/
theorem lookup_of_intern (hm : S.machine.Regular)
    (hintern : outcome (VM.intern units) S.machine = (.ok string, m)) :
    m.literals.lookup units = some string :=
  (Loader.intern_follows VM.load_faithful units hm.coherent _ _ hintern trivial).given string rfl

theorem interns_of_lookup (hnatives : natives.Orderly) (hrun : Run natives (.start directories) es S)
    (hbound : S.machine.literals.lookup units = some string) : Interns natives S units string := by
  intro es' S' other a m hrest hintern
  have hS' := (hrun.trans hrest).host (.intern other) hintern trivial
  have hother := lookup_of_intern ((hrun.trans hrest).regular hnatives) hintern
  have hunits : m.literals.lookup units = some string :=
    (((hrest.host (.intern other) hintern trivial).advances hnatives
      (hrun.regular hnatives)).evolves.recalls).kept
      units string hbound
  constructor
  · rintro rfl
    exact literals_injective hnatives hS' hunits hother
  · rintro rfl
    exact Option.some.inj (hother.symm.trans hunits)

theorem hasInterned_of_furnished (hnatives : natives.Orderly)
    (hrun : Run natives (.start directories) es S) {id : ClassId}
    (h : S.machine.Furnished True id) : HasInterned natives S id := by
  intro hfit entry hentry units hconstant
  obtain ⟨string, hbound, hstarts⟩ := h.seeded trivial hfit entry hentry units hconstant
  exact ⟨string, hstarts, interns_of_lookup hnatives hrun hbound⟩

/-- A literal is interned once. Classes have the interned strings in their static fields, those that
are loaded or defined by themselves, and also those that are loaded for them, if the classes of
strings are known. -/
theorem interned_once (hnatives : natives.Orderly) (hrun : Run natives (.start directories) es S) :
    (∀ units string m, outcome (VM.intern units) S.machine = (.ok string, m) →
      Interns natives { S with machine := m } units string) ∧
    ∀ x r m, S.machine.Defining x → outcome x S.machine = (r, m) → Completes r →
      (∀ id, r = .ok id → HasInterned natives { S with machine := m } id) ∧
      (S.machine.StringsKnown → ∀ id, (m.cls id).linked = true →
        (S.machine.cls id).linked = true ∨ HasInterned natives { S with machine := m } id) := by
  refine ⟨fun units string m hintern => ?_, fun x r m hx hdefine hr => ?_⟩
  · have hinterned := hrun.host (.intern units) hintern trivial
    exact interns_of_lookup hnatives hinterned (lookup_of_intern (hrun.regular hnatives) hintern)
  · have hdefined := hrun.host hx.orderly hdefine hr
    have hm := (hrun.regular hnatives).coherent
    refine ⟨fun id hid => ?_, fun hknown id hid => ?_⟩
    · have haccounts : Loader.Accounts False S.machine x _ := hx.accounts
      exact hasInterned_of_furnished hnatives hdefined
        ((haccounts hm False.elim r m hdefine).given id hid)
    · have haccounts : Loader.Accounts True S.machine x _ := hx.accounts
      exact (((haccounts hm (fun _ => hknown) r m hdefine).furnishes hr).furnished id hid).imp_right
        (hasInterned_of_furnished hnatives hdefined)

/-! ### A string class with a string literal -/

/-- The class files that arrays need. -/
def defineArrayParents : VM Unit := do
  let _ ← VM.define (.build ClassName.object none (pure ()))
  let _ ← VM.define (Library.markerInterface ClassName.cloneable)
  let _ ← VM.define (Library.markerInterface ClassName.serializable)

def arraysSession (directories : List Directory) : Session :=
  { Session.start directories with machine := (outcome defineArrayParents (.start directories)).2 }

theorem run_arrays {directories : List Directory}
    (h : Completes (outcome defineArrayParents (.start directories)).1) :
    Run .standard (.start directories) [] (arraysSession directories) :=
  .host .start (.bind (.define _) fun _ => .bind (.define _) fun _ => .bind (.define _)
    fun _ => .pure ()) rfl h

/-- A class for strings with a static field that starts with the literal `a`. -/
def literalFile : ClassFile :=
  .build ClassName.string (some ClassName.object) do
    let index ← Builder.string "a"
    Builder.addField ⟨AccessFlags.privateBit⟩ "value" "[C"
    Builder.addConstantField "K" "Ljava/lang/String;" index

/-- The machine in which it is defined by itself. -/
def literalMachine : Machine := (outcome (VM.define literalFile) (arraysSession []).machine).2

theorem interned_once_literal : (literalMachine.cls ⟨3⟩).statics = ⟨#[.ref (some ⟨1⟩)]⟩ ∧
    HasInterned .standard { arraysSession [] with machine := literalMachine } ⟨3⟩ := by
  have hdefine : outcome (VM.define literalFile) (arraysSession []).machine =
      (.ok ⟨3⟩, literalMachine) := outcome_of_toOption (by decide +kernel)
  exact ⟨by decide +kernel,
    ((interned_once Natives.standard_orderly (run_arrays (by decide +kernel))).2 _ _ _ (.define _)
      hdefine trivial).1 _ rfl⟩

/-- A directory that has the class instead of the built-in one. -/
def overriding : Directory := { files := [(["java", "lang", "String.class"], literalFile.encode)] }

theorem directories_arrays : (arraysSession [overriding]).machine.directories = [overriding] := by
  decide +kernel

theorem classFile?_overriding : (arraysSession [overriding]).machine.classFile? ClassName.string =
    some literalFile.encode := by
  have hcut : Path.cutWithin ClassName.string 17 0 0 [] = some (["java", "lang"] ++ ["String"]) := by
    decide +kernel
  rw [Machine.classFile?_of_cutWithin _ hcut (by decide), directories_arrays, overriding]
  generalize literalFile.encode = bytes
  rfl

theorem decode_literalFile : ClassFile.decode literalFile.encode = .ok literalFile := by decide +kernel

/-- The machine in which it is loaded from there. -/
def overriddenMachine : Machine :=
  (outcome (Loader.define (Loader.loadWithin ((arraysSession [overriding]).machine.nesting - 1))
    literalFile)
    (arraysSession [overriding]).machine).2

theorem load_overriding : outcome (VM.load ClassName.string) (arraysSession [overriding]).machine =
    (.ok ⟨3⟩, overriddenMachine) := by
  rw [VM.outcome_load_of_file (by decide +kernel) (by decide) classFile?_overriding decode_literalFile]
  exact outcome_of_toOption (by decide +kernel)

/-- The machine after the literal is interned. -/
def internedMachine : Machine :=
  (outcome (VM.stringOfUnits (Text.units "a")) overriddenMachine).2.withLiteral (Text.units "a") ⟨3⟩

theorem intern_overriding : outcome (VM.intern (Text.units "a")) (arraysSession [overriding]).machine =
    (.ok ⟨3⟩, internedMachine) := by
  have hfree : (arraysSession [overriding]).machine.literals.lookup (Text.units "a") = none := by
    decide +kernel
  have hloaded : outcome (VM.load ClassName.string) overriddenMachine = (.ok ⟨3⟩, overriddenMachine) :=
    VM.outcome_load_of_bound (by decide +kernel)
  have hstring : outcome (VM.stringOfUnits (Text.units "a")) (arraysSession [overriding]).machine =
      outcome (VM.stringOfUnits (Text.units "a")) overriddenMachine := by
    unfold VM.stringOfUnits Loader.stringOfUnits
    rw [outcome_bind_of_ok load_overriding, outcome_bind_of_ok hloaded]
  have hmade : outcome (VM.stringOfUnits (Text.units "a")) overriddenMachine = (.ok ⟨3⟩, _) :=
    outcome_of_toOption (by decide +kernel)
  unfold VM.intern Loader.intern internedMachine
  rw [outcome_bind_of_ok (outcome_get _), hfree, ← VM.stringOfUnits,
    outcome_bind_of_ok (hstring.trans hmade)]
  rfl

/-- A class that is loaded while a literal is interned may have another string for the literal. -/
theorem not_always_once : ∃ S m string, Run .standard (.start [overriding]) [] S ∧
    outcome (VM.intern (Text.units "a")) S.machine = (.ok string, m) ∧
    (m.cls ⟨3⟩).linked = true ∧ ¬ HasInterned .standard { S with machine := m } ⟨3⟩ := by
  refine ⟨_, _, _, run_arrays (by decide +kernel), intern_overriding, by decide +kernel, fun h => ?_⟩
  have hfield : ∃ entry ∈ (internedMachine.cls ⟨3⟩).constantFields,
      ((internedMachine.cls ⟨3⟩).constantAt entry.2).toOption = some (.string (Text.units "a")) ∧
        (internedMachine.cls ⟨3⟩).statics.slot? entry.1.slot = some (.ref (some ⟨1⟩)) := by
        decide +kernel
  obtain ⟨entry, hentry, hconstant, hother⟩ := hfield
  have hconstant : (internedMachine.cls ⟨3⟩).constantAt entry.2 = .ok (.string (Text.units "a")) := by
    generalize (internedMachine.cls ⟨3⟩).constantAt entry.2 = found at hconstant
    cases found <;> cases hconstant
    rfl
  obtain ⟨string, hstarts, hinterns⟩ := h (by decide +kernel) entry hentry _ hconstant
  have hagain : outcome (VM.intern (Text.units "a")) internedMachine = (.ok ⟨3⟩, internedMachine) := by
    unfold VM.intern Loader.intern internedMachine
    rw [outcome_bind_of_ok (outcome_get _), Machine.lookup_withLiteral_self]
    rfl
  cases (hinterns _ _ _ _ _ .start hagain).mpr rfl
  cases hstarts.symm.trans hother

end Session

end JavaMachine
