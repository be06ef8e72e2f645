import JavaMachine.ClassFile.Encode
import JavaMachine.Proofs.FilePaths
import JavaMachine.Proofs.Sessions

/-!
The names of loaded classes.

What a load gives is bound under its own name from then on, and further loads of that name do
nothing (`loaded_by_name`). That is the name that was asked for, unless a directory has the file of
another class in its place. Such a file is not refused at first: the load gives the other class. As
the name that was asked for stays unbound, the next load of it defines the other class once more,
and that is refused (`Machine.Misnames.refused`).
-/

namespace JavaMachine

namespace VM

/-- A class of a name that is bound is not defined again. -/
theorem outcome_define_bound {load : Loader.Load} {m : Machine} {file : ClassFile}
    {name : String} {id : ClassId}
    (hname : file.name? = some name) (hbound : m.lookup? name = some id) :
    ∃ fault, outcome (Loader.define load file) m = (.error (.fault fault), m) := by
  rcases Loader.define_runs load file m with hrefused | ⟨c, hread, hfree, -⟩
  · exact hrefused
  · rw [(Loader.ofClassFile_defines hread).name] at hname
    cases hname
    rw [hfree] at hbound
    cases hbound

end VM

/-- A misnamed file is refused once the class that it holds is loaded. -/
theorem Machine.Misnames.refused {m : Machine} {name other : String} {id : ClassId}
    (h : m.Misnames name other)
    (hbound : m.lookup? other = some id) : ∃ fault,
      outcome (VM.load name) m = (.error (.fault fault), m) := by
  obtain ⟨bytes, file, hfile, hdecode, hname⟩ := h.file
  rw [VM.outcome_load_of_file h.unbound h.noArray hfile hdecode]
  exact VM.outcome_define_bound hname hbound

namespace Session

variable {natives : Natives} {directories : List Directory} {es : List Event} {S : Session}

/-- A class that a load gives keeps its name for the rest of the run, and loads of that name do
nothing. It is the name of the load, unless the directories have the file of a class that is called
otherwise; then the same load fails when it is tried once more. -/
theorem loaded_by_name {name : String} {id : ClassId} {m : Machine} (hnatives : natives.Orderly)
    (hrun : Run natives (.start directories) es S)
    (hload : outcome (VM.load name) S.machine = (.ok id, m)) :
    (∀ es' S', Run natives { S with machine := m } es' S' →
        (S'.machine.cls id).name = (m.cls id).name ∧ S'.machine.lookup? (m.cls id).name = some id ∧
          outcome (VM.load (m.cls id).name) S'.machine = (.ok id, S'.machine)) ∧
      ((m.cls id).name = name ∨ S.machine.Misnames name (m.cls id).name ∧
        (m.lookup? name = none → ∃ fault, outcome (VM.load name) m = (.error (.fault fault), m))) := by
  have hS := hrun.regular hnatives
  have hm : m.Regular := (VM.Steady.load name _ _ _ hS hload trivial).1
  have hleft := VM.load_faithful S.machine name hS.coherent _ _ hload trivial
  obtain ⟨hbound, hnamed⟩ := hleft.given id rfl
  refine ⟨fun es' S' hrest => ?_, hnamed.imp_right fun hmisnames => ⟨hmisnames, fun hfree => ?_⟩⟩
  · have hevolves := (hrest.advances hnatives hm).evolves
    have hlater := hevolves.bound _ _ hbound
    exact ⟨(hevolves.later id (hm.coherent.sound.bound _ _ hbound)).name, hlater,
      VM.outcome_load_of_bound hlater⟩
  · -- The directories are the same as before, so the file is still there.
    have hagain : m.Misnames name (m.cls id).name := by
      obtain ⟨-, harray, hfile, hdifferent⟩ := hmisnames
      refine ⟨hfree, harray, ?_, hdifferent⟩
      rwa [Machine.classFile?, hleft.grows.directories]
    exact hagain.refused hbound

/-! ### A misnamed file -/

/-- The file of the root of the hierarchy. -/
def rootFile : ClassFile := .build ClassName.object none (pure ())

/-- A directory that has it as the file of a class `A`. -/
def misfiled : Directory := { files := [(["A.class"], rootFile.encode)] }

theorem classFile?_misfiled : (Machine.start [misfiled]).classFile? "A" = some rootFile.encode := by
  have hcut : Path.cutWithin "A" 2 0 0 [] = some ([] ++ ["A"]) := by decide +kernel
  rw [Machine.classFile?_of_cutWithin _ hcut (by decide)]
  decide +kernel

theorem decode_rootFile : ClassFile.decode rootFile.encode = .ok rootFile :=
  eq_ok_of_toOption (by decide +kernel)

/-- The root is loaded as `A`, under its own name, and `A` stays unbound. -/
theorem load_misfiled : ∃ m, outcome (VM.load "A") (.start [misfiled]) = (.ok ⟨0⟩, m) ∧
    (m.cls ⟨0⟩).name = ClassName.object ∧ m.lookup? "A" = none := by
  rw [VM.outcome_load_of_file rfl (by decide) classFile?_misfiled decode_rootFile]
  exact ⟨_, outcome_of_toOption (by decide +kernel), by decide +kernel, by decide +kernel⟩

theorem loaded_by_name_misfiled : ∃ m fault, outcome (VM.load "A") (.start [misfiled]) = (.ok ⟨0⟩, m) ∧
    outcome (VM.load ClassName.object) m = (.ok ⟨0⟩, m) ∧
      outcome (VM.load "A") m = (.error (.fault fault), m) := by
  obtain ⟨m, hload, hname, hfree⟩ := load_misfiled
  obtain ⟨hlater, hnamed⟩ :=
    loaded_by_name (S := .start [misfiled]) Natives.standard_orderly .start hload
  obtain ⟨-, -, hagain⟩ := hlater _ _ .start
  rw [hname] at hagain hnamed
  obtain ⟨-, hfails⟩ := hnamed.resolve_left (by decide)
  obtain ⟨fault, hfault⟩ := hfails hfree
  exact ⟨m, fault, hload, hagain, hfault⟩

/-- So a load may give a class of another name. -/
theorem not_always_by_name :
    ¬ ∀ (directories : List Directory) (es : List Event) (S : Session) (name : String)
    (id : ClassId) (m : Machine), Run .standard (.start directories) es S →
      outcome (VM.load name) S.machine = (.ok id, m) → (m.cls id).name = name ∧
        m.lookup? name = some id := by
  intro h
  obtain ⟨m, hload, hname, -⟩ := load_misfiled
  have hsame := (h _ _ (.start [misfiled]) _ _ _ .start hload).1
  rw [hname] at hsame
  exact absurd hsame (by decide)

end Session

end JavaMachine
