import Mathlib.Data.List.Chain
import Mathlib.Data.List.Perm.Subperm
import JavaMachine.ClassFile.Builder
import JavaMachine.ClassFile.Encode
import JavaMachine.Proofs.Defining
import JavaMachine.Proofs.FilePaths

/-!
Classes that extend each other in a circle.

While a class is being defined its name is bound, but the class is not linked. So a chain of class
files that leads back to one of its own classes ends there: the load finds this class unlinked and
is refused, and all the definitions that were begun on the way are undone
(`Loader.load_fails_of_chain`). Nothing stays loaded, and trying again ends in the same way
(`VM.circularity_detected`).
-/

namespace JavaMachine

namespace Machine

variable {m m' : Machine} {name superName back : String} {names : List String} {c : Class}

/-- What the directories have for the name is the file of a class of this name that extends the
other class. -/
def FileExtends (m : Machine) (name superName : String) : Prop :=
  ∃ bytes file id c, m.classFile? name = some bytes ∧ ClassFile.decode bytes = .ok file ∧
    file.name? = some name ∧
    file.superName? = some superName ∧ Definition.ofClassFile id file = .ok c

/-- Names that are not loaded, each with the file of a class that extends the class of the next
name. The last one extends `back`. -/
structure UnloadedChain (m : Machine) (names : List String) (back : String) : Prop where
  files : List.IsChain m.FileExtends (names ++ [back])
  distinct : names.Nodup
  noArray : ∀ name ∈ names, ArrayName.isArray name = false
  free : ∀ name ∈ names, m.lookup? name = none

theorem FileExtends.of_directories (h : m.FileExtends name superName)
    (hdirectories : m'.directories = m.directories) :
    m'.FileExtends name superName := by
  unfold FileExtends classFile? at *
  rwa [hdirectories]

namespace UnloadedChain

theorem of_eq (h : m.UnloadedChain names back) (hdirectories : m'.directories = m.directories)
    (hnames : m'.names = m.names) : m'.UnloadedChain names back where
  files := h.files.imp fun _ _ hfile => hfile.of_directories hdirectories
  distinct := h.distinct
  noArray := h.noArray
  free name hname := by rw [lookup?, hnames]; exact h.free name hname

/-- While the first class is being defined, the others are not loaded yet. -/
theorem begun (h : m.UnloadedChain (c.name :: names) back) : (m.begun c).UnloadedChain names back where
  files := (List.isChain_cons.mp h.files).2.imp fun _ _ hfile => hfile.of_directories rfl
  distinct := (List.nodup_cons.mp h.distinct).2
  noArray name hname := h.noArray name (List.mem_cons_of_mem _ hname)
  free name hname := by
    have hne : name ≠ c.name := fun heq => (List.nodup_cons.mp h.distinct).1 (heq ▸ hname)
    rw [lookup?_begun_ne hne]
    exact h.free name (List.mem_cons_of_mem _ hname)

/-- Each class extends that of the next name. -/
theorem firstExtends (h : m.UnloadedChain (name :: names) back) :
    m.FileExtends name (names.headD back) := by
  refine (List.isChain_cons.mp h.files).1 _ ?_
  cases names <;> rfl

theorem not_isLoaded (h : m.UnloadedChain names back) : ∀ name ∈ names, m.isLoaded name = false := by
  intro name hname
  rw [isLoaded, h.free name hname]
  rfl

theorem mem_fileNames (h : m.UnloadedChain names back) (hname : name ∈ names) : name ∈ m.fileNames := by
  obtain ⟨before, after, rfl⟩ := List.append_of_mem hname
  have hfiles := h.files
  rw [List.append_assoc] at hfiles
  have htail : List.IsChain m.FileExtends (name :: after ++ [back]) :=
    (List.isChain_append.mp hfiles).2.1
  obtain ⟨bytes, file, id, c, hfound, hdecode, hown, -⟩ :=
    (List.isChain_cons.mp htail).1 (after.headD back) (by cases after <;> rfl)
  exact classFile?_pending hfound hdecode hown

/-- The names have files of their own, so there are enough loads for all of them. -/
theorem length_lt_nesting (h : m.UnloadedChain names back) : names.length < m.nesting := by
  have hpending : names ⊆ (m.fileNames ++ libraryNames).filter fun name => !m.isLoaded name := by
    intro name hname
    refine List.mem_filter.mpr ⟨List.mem_append_left _ (h.mem_fileNames hname), ?_⟩
    rw [h.not_isLoaded name hname]
    rfl
  have hlength : names.length ≤ m.pending := by
    rw [pending, List.countP_eq_length_filter]
    exact (List.subperm_of_subset h.distinct hpending).length_le
  have hnesting := m.pending_nesting
  omega

end UnloadedChain

/-- A name that is bound to a class which is not linked, as it is while the class is being defined. -/
def BoundUnlinked (m : Machine) (name : String) : Prop :=
  ∃ id, m.lookup? name = some id ∧ id.index < m.classes.size ∧ (m.cls id).linked = false

theorem boundUnlinked_begun (hunlinked : c.linked = false) : (m.begun c).BoundUnlinked c.name :=
  ⟨m.nextClassId, lookup?_begun_self,
    by rw [size_begun]; exact Nat.lt_succ_self _, by rwa [cls_begun_self]⟩

/-- A further definition leaves the classes as they are that are being defined. -/
theorem BoundUnlinked.begun (h : m.BoundUnlinked name) (hfree : m.lookup? c.name = none) :
    (m.begun c).BoundUnlinked name := by
  obtain ⟨id, hbound, hthere, hunlinked⟩ := h
  have hne : name ≠ c.name := by
    rintro rfl
    rw [hfree] at hbound
    cases hbound
  refine ⟨id, by rwa [lookup?_begun_ne hne], ?_, by rwa [cls_begun_of_lt hthere]⟩
  rw [size_begun]
  exact Nat.lt_succ_of_lt hthere

/-- The class that a chain leads back to is one of the chain or is being defined. That stays so
while the first class of the chain is being defined. -/
theorem UnloadedChain.back_begun (h : m.UnloadedChain (c.name :: names) back)
    (hunlinked : c.linked = false)
    (hback : back ∈ c.name :: names ∨ m.BoundUnlinked back) : back ∈ names ∨
      (m.begun c).BoundUnlinked back := by
  rcases hback with hback | hunderway
  · rcases List.mem_cons.mp hback with rfl | hback
    · exact .inr (boundUnlinked_begun hunlinked)
    · exact .inl hback
  · exact .inr (hunderway.begun (h.free c.name List.mem_cons_self))

theorem names_withoutName_of_free (hfree : m.lookup? name = none) :
    (m.withoutName name).names = m.names := by
  refine List.filter_eq_self.mpr fun entry hentry => ?_
  have hne : (name == entry.1) = false := by simpa using List.lookup_eq_none_iff.mp hfree entry hentry
  exact decide_eq_true (Ne.symm (ne_of_beq_false hne))

/-- The names are the same as before the definition once its name is unbound again. -/
theorem names_undone (hfree : m.lookup? c.name = none) :
    ((m.begun c).withoutName c.name).names = m.names := by
  have hnames : ((m.begun c).withoutName c.name).names =
      ((m.withoutName c.name).withoutName c.name).names := by
    simp only [Machine.begun, withName, withoutName, withClass, List.filter_cons, ne_eq,
      not_true_eq_false, decide_false, Bool.false_eq_true, if_false]
  rw [hnames, names_withoutName_of_free lookup?_withoutName_self, names_withoutName_of_free hfree]

end Machine

namespace Loader

open Machine

variable {m m₁ : Machine} {id : ClassId} {load : Load} {name superName back : String}
  {names : List String} {fault : Fault}

/-- A class that extends one which is still being defined. -/
def circularity (className superName : String) : Fault :=
  .exception ExceptionName.classCircularity s!"{className} reaches itself through {superName}"

theorem outcome_loadLinked_of_unlinked {className : String}
    (hload : outcome (load name) m = (.ok id, m₁)) (hunlinked : (m₁.cls id).linked = false) :
    outcome (loadLinked load className name) m =
      (.error (.fault (circularity className name)), m₁) := by
  rw [loadLinked, outcome_bind_of_ok hload, outcome_bind_of_ok (VM.outcome_cls id), hunlinked]
  rfl

/-- A class whose super class cannot be loaded is not defined, and its name is unbound again. -/
theorem load_fails_of_super {nesting : Nat} (hfile : m.FileExtends name superName)
    (hfree : m.lookup? name = none) (harray : ArrayName.isArray name = false)
    (hsuper : ∀ c : Class, c.name = name → c.linked = false → ∃ m₁,
      outcome (loadLinked (loadWithin nesting) name superName) (m.begun c) =
        (.error (.fault fault), m₁) ∧
        m₁.names = (m.begun c).names ∧ m₁.directories = m.directories) :
    ∃ m', outcome (loadWithin (nesting + 1) name) m = (.error (.fault fault), m') ∧ m'.names = m.names ∧
      m'.directories = m.directories := by
  obtain ⟨bytes, file, id, c, hfound, hdecode, hname, hsuperName, hread⟩ := hfile
  obtain ⟨c, hread⟩ := exists_ofClassFile hread m.nextClassId
  have hdefined := ofClassFile_defines hread
  obtain rfl : c.name = name := Option.some.inj (hdefined.name.symm.trans hname)
  have hextends : c.superName = some superName := hdefined.superName_eq.trans hsuperName
  obtain ⟨m₁, hfails, hnames, hdirectories⟩ := hsuper c rfl hdefined.unlinked
  have hattach : outcome (attach (loadWithin nesting) m.nextClassId) (m.begun c) =
      (.error (.fault fault), m₁) := by
    refine outcome_bind_of_error ?_
    rw [attachSuper, outcome_bind_of_ok (VM.outcome_cls _), cls_begun_self, hextends]
    exact outcome_bind_of_error hfails
  refine ⟨m₁.withoutName c.name, ?_, ?_, hdirectories⟩
  · rw [outcome_loadWithin_of_file hfree harray hfound hdecode, outcome_define hread hfree, hattach]
  · rw [← names_undone hfree, withoutName, hnames, withoutName]

/-- The load of a chain of classes that leads back to one of them, or to a class that is being
defined, is refused at the end of the chain. The names that were bound on the way are unbound again.
-/
theorem load_fails_of_chain {nesting : Nat} (h : m.UnloadedChain (name :: names) back)
    (hback : back ∈ name :: names ∨ m.BoundUnlinked back) (hnesting : names.length + 1 < nesting) :
    ∃ m', outcome (loadWithin nesting name) m =
      (.error (.fault (circularity (names.getLastD name) back)), m') ∧
      m'.names = m.names ∧ m'.directories = m.directories := by
  induction names generalizing m name nesting with
  | nil =>
    obtain ⟨nesting, rfl⟩ := Nat.exists_eq_add_of_le' (show 2 ≤ nesting from hnesting)
    refine load_fails_of_super h.firstExtends (h.free name List.mem_cons_self)
      (h.noArray name List.mem_cons_self) ?_
    rintro c rfl hunlinked
    -- The chain ends here, so the class that it leads back to is one of those that are being defined.
    obtain ⟨id, hbound, -, hopen⟩ := (h.back_begun hunlinked hback).resolve_left List.not_mem_nil
    exact ⟨m.begun c, outcome_loadLinked_of_unlinked (outcome_loadWithin_of_bound hbound) hopen,
      rfl, rfl⟩
  | cons next names ih =>
    obtain ⟨nesting, rfl⟩ := Nat.exists_eq_add_one_of_ne_zero (Nat.ne_zero_of_lt hnesting)
    refine load_fails_of_super h.firstExtends (h.free name List.mem_cons_self)
      (h.noArray name List.mem_cons_self) ?_
    rintro c rfl hunlinked
    obtain ⟨m', hfails, hkept⟩ := ih h.begun (h.back_begun hunlinked hback)
      (Nat.lt_of_succ_lt_succ hnesting)
    rw [List.getLastD_cons]
    exact ⟨m', outcome_bind_of_error hfails, hkept⟩

end Loader

namespace VM

open Loader

variable {m : Machine} {first back : String} {rest : List String}

/-- There are always enough loads for a chain of classes. -/
theorem load_fails_of_chain (h : m.UnloadedChain (first :: rest) back) (hback : back ∈ first :: rest) :
    ∃ m', outcome (load first) m = (.error (.fault (circularity (rest.getLastD first) back)), m') ∧
      m'.names = m.names ∧ m'.directories = m.directories := by
  rw [load, outcome_bind_of_ok (outcome_get m)]
  exact Loader.load_fails_of_chain h (.inl hback) h.length_lt_nesting

/-- Classes whose files name each other as super classes, the last of them one of those before,
cannot be loaded: the load of the first is refused with a circularity error. None of them is loaded
after it, and another attempt is refused with the same error. -/
theorem circularity_detected (h : m.UnloadedChain (first :: rest) back) (hback : back ∈ first :: rest) :
    ∃ m₁ m₂, outcome (load first) m = (.error (.fault (circularity (rest.getLastD first) back)), m₁) ∧
      (∀ name ∈ first :: rest, m₁.isLoaded name = false) ∧
      outcome (load first) m₁ = (.error (.fault (circularity (rest.getLastD first) back)), m₂) ∧
      ∀ name ∈ first :: rest, m₂.isLoaded name = false := by
  obtain ⟨m₁, hfirst, hnames₁, hdirectories₁⟩ := load_fails_of_chain h hback
  have h₁ : m₁.UnloadedChain (first :: rest) back := h.of_eq hdirectories₁ hnames₁
  obtain ⟨m₂, hsecond, hnames₂, hdirectories₂⟩ := load_fails_of_chain h₁ hback
  have h₂ : m₂.UnloadedChain (first :: rest) back := h₁.of_eq hdirectories₂ hnames₂
  exact ⟨m₁, m₂, hfirst, h₁.not_isLoaded, hsecond, h₂.not_isLoaded⟩

/-- The file of a class without members. -/
def memberless (name superName : String) : ClassFile := .build name (some superName) (pure ())

/-- A machine with the files of a class `A` that extends `B`, and of `B` and `C`, which extend each
other. -/
def circling : Machine := .start [{ files := [(["A.class"], (memberless "A" "B").encode),
  (["B.class"], (memberless "B" "C").encode), (["C.class"], (memberless "C" "B").encode)] }]

theorem fileExtends_circling {name superName : String}
    (h : (name, superName) ∈ [("A", "B"), ("B", "C"), ("C", "B")]) :
    circling.FileExtends name superName := by
  have hfiles : ∀ names ∈ [("A", "B"), ("B", "C"), ("C", "B")],
      Path.cutWithin names.1 2 0 0 [] = some ([] ++ [names.1]) ∧
      (∀ part ∈ [] ++ [names.1], part ≠ "" ∧ part ≠ "." ∧ part ≠ "..") ∧
      (circling.directories.findSome? fun directory =>
        directory.read? ([] ++ [String.ofList (ClassPath.stem names.1.toList) ++ ".class"])) =
          some (memberless names.1 names.2).encode := by
    decide +kernel
  have hclasses : ∀ names ∈ [("A", "B"), ("B", "C"), ("C", "B")],
      ClassFile.decode (memberless names.1 names.2).encode = .ok (memberless names.1 names.2) ∧
      (memberless names.1 names.2).name? = some names.1 ∧
      (memberless names.1 names.2).superName? = some names.2 ∧
      (Definition.ofClassFile ⟨0⟩ (memberless names.1 names.2)).toOption.isSome := by
    decide +kernel
  obtain ⟨hcut, hplain, hfound⟩ := hfiles _ h
  obtain ⟨hdecode, hname, hsuperName, hread⟩ := hclasses _ h
  rcases hclass : Definition.ofClassFile ⟨0⟩ (memberless name superName) with error | c
  · rw [hclass] at hread
    cases hread
  · exact ⟨_, _, ⟨0⟩, c, (circling.classFile?_of_cutWithin hcut hplain).trans hfound, hdecode, hname,
      hsuperName, hclass⟩

theorem unloadedChain_circling : circling.UnloadedChain ["A", "B", "C"] "B" where
  files := .cons_cons (fileExtends_circling (by decide)) (.cons_cons (fileExtends_circling (by decide))
    (.cons_cons (fileExtends_circling (by decide)) (.singleton "B")))
  distinct := by decide
  noArray := by decide
  free := by decide

/-- The class `C` closes the circle, which `A` only leads to. -/
theorem circularity_detected_circling : ∃ m₁ m₂,
    outcome (load "A") circling = (.error (.fault (circularity "C" "B")), m₁) ∧
      (∀ name ∈ ["A", "B", "C"], m₁.isLoaded name = false) ∧
      outcome (load "A") m₁ = (.error (.fault (circularity "C" "B")), m₂) ∧
      ∀ name ∈ ["A", "B", "C"], m₂.isLoaded name = false :=
  circularity_detected unloadedChain_circling (by decide)

end VM

end JavaMachine
