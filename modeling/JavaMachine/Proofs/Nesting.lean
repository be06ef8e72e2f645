import JavaMachine.Proofs.Growth

/-!
How deep loads can be inside of each other.

The classes that loads define come from the files of the directories and from the library, and each
of them is defined under a name that is not bound yet. `Machine.pending` counts the names that are
left; it drops when a definition begins (`pending_begun_lt`), never rises while the machine grows
(`Grows.pending_le`), and `Machine.nesting` is more than twice as much (`pending_nesting`).
-/

namespace JavaMachine

namespace Machine

variable {m m' : Machine} {own : ClassId → Prop} {name : String} {file : ClassFile} {bytes : List UInt8}

/-- The names of the class files in the directories. -/
def fileNames (m : Machine) : List String :=
  (m.directories.flatMap (·.files)).filterMap fun (_, bytes) =>
    (ClassFile.decode bytes).toOption.bind (·.name?)

/-- The names of the class files of the library. -/
def libraryNames : List String :=
  Library.names.filterMap fun name => (Library.find? name).bind (·.name?)

/-- The names of classes that loads may still define. -/
def pending (m : Machine) : Nat := (m.fileNames ++ libraryNames).countP fun name => !m.isLoaded name

/-! ### What loads define -/

theorem read?_mem {d : Directory} {path : Path} (h : d.read? path = some bytes) :
    ∃ path, (path, bytes) ∈ d.files := by
  have hlookup : ∀ {path : Path}, d.files.lookup path = some bytes →
      ∃ path, (path, bytes) ∈ d.files := by
    intro path h
    obtain ⟨before, after, hfiles, -⟩ := List.lookup_eq_some_iff.mp h
    exact ⟨path, by rw [hfiles]; exact List.mem_append_right _ (List.mem_cons_self ..)⟩
  unfold Directory.read? at h
  cases hlisted : d.files.lookup (d.location ++ path) with
  | some other =>
    rw [hlisted] at h
    cases h
    exact hlookup hlisted
  | none =>
    rw [hlisted] at h
    obtain ⟨path, -, h⟩ := Option.bind_eq_some_iff.mp h
    exact hlookup h

/-- The class file found for a name has one of the counted names itself. -/
theorem classFile?_pending (hfound : m.classFile? name = some bytes)
    (hdecode : ClassFile.decode bytes = .ok file)
    {own : String} (hname : file.name? = some own) : own ∈ m.fileNames := by
  obtain ⟨path, -, hread⟩ := Option.bind_eq_some_iff.mp hfound
  obtain ⟨d, hd, hread⟩ := List.exists_of_findSome?_eq_some hread
  obtain ⟨path, hfile⟩ := read?_mem hread
  refine List.mem_filterMap.mpr ⟨(path, bytes), List.mem_flatMap.mpr ⟨d, hd, hfile⟩, ?_⟩
  dsimp only
  rw [hdecode]
  exact hname

theorem library_mem (h : Library.find? name = some file) : name ∈ Library.names := by
  refine List.mem_append.mpr ?_
  by_cases hmem : name ∈ [ClassName.object, ClassName.string, ClassName.throwable, ClassName.cloneable,
    ClassName.serializable, ClassName.system, ClassName.float, ClassName.double]
  · exact .inl hmem
  · simp only [List.mem_cons, List.not_mem_nil, or_false, not_or] at hmem
    obtain ⟨h₁, h₂, h₃, h₄, h₅, h₆, h₇, h₈⟩ := hmem
    simp only [Library.find?, h₁, h₂, h₃, h₄, h₅, h₆, h₇, h₈, if_false, decide_false, Bool.or_self,
      Bool.false_eq_true] at h
    obtain ⟨superName, hlookup, -⟩ := Option.map_eq_some_iff.mp h
    obtain ⟨before, after, hthrowables, -⟩ := List.lookup_eq_some_iff.mp hlookup
    exact .inr (List.mem_map.mpr ⟨(name, superName), by rw [hthrowables]; simp, rfl⟩)

theorem library_pending (h : Library.find? name = some file) {own : String}
    (hname : file.name? = some own) :
    own ∈ libraryNames :=
  List.mem_filterMap.mpr ⟨name, library_mem h, by rw [h]; exact hname⟩

/-! ### The count -/

theorem pending_nesting (m : Machine) : 2 * m.pending + 4 ≤ m.nesting := by
  have hfiles : (m.directories.flatMap (·.files)).length =
      m.directories.foldr (fun d count => d.files.length + count) 0 := by
    induction m.directories with
    | nil => rfl
    | cons d ds ih => rw [List.flatMap_cons, List.length_append, ih]; rfl
  have hnames : m.fileNames.length ≤ _ := List.length_filterMap_le _ (m.directories.flatMap (·.files))
  have hlibrary : libraryNames.length ≤ Library.names.length := List.length_filterMap_le ..
  have hpending : m.pending ≤ (m.fileNames ++ libraryNames).length := List.countP_le_length
  rw [List.length_append] at hpending
  unfold nesting
  dsimp only
  omega

theorem Grows.fileNames (h : m.Grows own m') : m'.fileNames = m.fileNames := by
  unfold Machine.fileNames
  rw [h.directories]

theorem Grows.isLoaded (h : m.Grows own m') (hloaded : m.isLoaded name = true) :
    m'.isLoaded name = true := by
  obtain ⟨id, hid⟩ := Option.isSome_iff_exists.mp hloaded
  exact Option.isSome_iff_exists.mpr ⟨id, h.bound name id hid⟩

theorem Grows.pending_le (h : m.Grows own m') : m'.pending ≤ m.pending := by
  unfold pending
  rw [h.fileNames]
  refine List.countP_mono_left fun name _ hfree => ?_
  rcases hloaded : m.isLoaded name with _ | _
  · rfl
  · rw [h.isLoaded hloaded] at hfree
    exact hfree

/-- The count drops by the name of the class that is being defined. -/
theorem pending_begun_lt {c : Class} (hname : c.name ∈ m.fileNames ++ libraryNames)
    (hfree : m.lookup? c.name = none) : (m.begun c).pending < m.pending := by
  have hbefore : m.isLoaded c.name = false := by simp [isLoaded, hfree]
  have hafter : (m.begun c).isLoaded c.name = true := by simp [isLoaded, lookup?_begun_self]
  have hmono : ∀ names : List String, names.countP (fun name => !(m.begun c).isLoaded name) ≤
      names.countP fun name => !m.isLoaded name := by
    refine fun names => List.countP_mono_left fun name _ h => ?_
    by_cases hne : name = c.name
    · rw [hne, hafter] at h
      cases h
    · rwa [isLoaded, lookup?_begun_ne hne] at h
  obtain ⟨before, after, hsplit⟩ := List.append_of_mem hname
  have hfiles : (m.begun c).fileNames = m.fileNames := rfl
  unfold pending
  rw [hfiles, hsplit, List.countP_append, List.countP_append, List.countP_cons,
    List.countP_cons, hbefore, hafter]
  have h₁ := hmono before
  have h₂ := hmono after
  simp only [Bool.not_true, Bool.not_false, if_true, Bool.false_eq_true, if_false]
  omega

end Machine

end JavaMachine
