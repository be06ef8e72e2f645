import Mathlib.Order.WellFounded
import JavaMachine.Proofs.LoadSteps
import JavaMachine.Proofs.Searching
import JavaMachine.Proofs.Undoing

/-!
The hierarchy of classes is well-founded, as far as it does not lead through array classes.

A class is linked after all that it extends, so no class reaches itself through classes that are
linked one after the other. An array class is the exception: it is linked although its super class
and interfaces may still be in the course of being defined. One of these that extends the array
class is not refused, and then reaches itself (`not_always_wellFounded`). Every cycle is of this
kind: `hierarchy_wellFounded` says that there are none without array classes as parents, and that
all walks come to their end in a hierarchy in which nothing above array classes extends an array
class.
-/

namespace JavaMachine

theorem findSome?_congr {α β : Type} {as : List α} {f g : α → Option β} (h : ∀ a ∈ as, f a = g a) :
    as.findSome? f = as.findSome? g := by
  rw [← List.head?_filterMap, ← List.head?_filterMap, List.filterMap_congr h]

namespace Machine

variable {m m' : Machine} {id k : ClassId} {base : Nat} {natives : Natives}

/-- `k` is the super class or an interface of `id`, and no array class. -/
def ProperParent (m : Machine) (k id : ClassId) : Prop := (m.cls id).Below k ∧ (m.cls k).isArray = false

/-- A settled machine on which no linked class is above itself. -/
structure Ordered (m : Machine) : Prop extends m.Settled where
  rooted : ∀ id, (m.cls id).linked = true → (m.cls id).isArray = false → Acc m.ProperParent id

/-! ### Steps that keep the order -/

/-- What is above a linked class stays there, if linked classes keep their place. -/
theorem Sound.acc_properParent (hm : m.Sound)
    (hkeep : ∀ id, (m.cls id).linked = true → (m.cls id).SamePlace (m'.cls id))
    (hlinked : (m.cls id).linked = true) (hproper : (m.cls id).isArray = false)
    (h : Acc m.ProperParent id) :
    Acc m'.ProperParent id := by
  induction h with
  | intro id _ ih =>
    refine .intro id fun k ⟨hbelow, hk⟩ => ?_
    rw [(hkeep id hlinked).below] at hbelow
    have hk' := hm.linked id k hproper hbelow
    rw [(hkeep k hk').isArray] at hk
    exact ih k ⟨hbelow, hk⟩ hk' hk

/-- A class may be linked once all that it extends is. -/
theorem rooted_of_keep (hm : m.Sound)
    (h : ∀ id, (m.cls id).linked = true → (m.cls id).isArray = false → Acc m.ProperParent id)
    (hkeep : ∀ id, (m.cls id).linked = true → (m.cls id).SamePlace (m'.cls id))
    (hnew : ∀ id, (m'.cls id).linked = true →
      (m.cls id).linked = true ∨ m'.cls id = { m.cls id with linked := true })
    (hlinked : (m'.cls id).linked = true) (hproper : (m'.cls id).isArray = false) :
    Acc m'.ProperParent id := by
  rcases hnew id hlinked with hold | heq
  · rw [(hkeep id hold).isArray] at hproper
    exact hm.acc_properParent hkeep hold hproper (h id hold hproper)
  · refine .intro id fun k ⟨hbelow, hk⟩ => ?_
    rw [heq] at hbelow hproper
    have hk' := hm.linked id k hproper hbelow
    rw [(hkeep k hk').isArray] at hk
    exact hm.acc_properParent hkeep hk' hk (h k hk' hk)

/-- A change of the loader links a class as it is, if it links one. -/
theorem LoadStep.newly_linked (h : m.LoadStep base m') (hlinked : (m'.cls id).linked = true) :
    (m.cls id).linked = true ∨ m'.cls id = { m.cls id with linked := true } := by
  have hadded : ∀ {c : Class}, c.linked = false → ((m.withClass c).cls id).linked = true →
      (m.cls id).linked = true := by
    intro c hc hl
    by_cases hnew : id = m.nextClassId
    · subst hnew
      rw [cls_withClass_new, hc] at hl
      cases hl
    · rwa [cls_withClass_ne hnew] at hl
  have hchanged : ∀ {other : ClassId} {change : Class → Class},
      (change (m.cls other)).linked = (m.cls other).linked →
      ((m.changeClass other change).cls id).linked = true → (m.cls id).linked = true := by
    intro other change hsame hl
    rcases cls_changeClass m other change id with heq | ⟨rfl, heq⟩ <;> rw [heq] at hl
    · exact hl
    · exact hsame.symm.trans hl
  cases h with
  | beginDefinition read => exact .inl (hadded (Loader.ofClassFile_defines read).unlinked hlinked)
  | addArray => exact .inl (hadded rfl hlinked)
  | attachSuper | attachInterfaces | layOut | setStatics => exact .inl (hchanged (by rfl) hlinked)
  | @link other =>
    rcases cls_changeClass m other ({ · with linked := true }) id with heq | ⟨rfl, heq⟩
    · exact .inl (by rwa [heq] at hlinked)
    · exact .inr heq
  | unbind | bind | allocate | keepLiteral => exact .inl hlinked

namespace Ordered

/-- What loads and definitions do. -/
theorem traced {α : Type} {x : VM α} {gives : Machine → Machine → α → Prop}
    (hsettled : VM.Keeps Settled x)
    (h : ∀ m, Loader.Traced m.classes.size m x (gives m)) : VM.Keeps Ordered x := by
  intro m r m' hm hrun hr
  have hloading := (h m hm.sound (Nat.le_refl _) r m' hrun hr).1
  refine ⟨hsettled m r m' hm.toSettled hrun hr, fun id => ?_⟩
  refine (hloading.keeps (p := fun m => ∀ id, (m.cls id).linked = true → (m.cls id).isArray = false →
    Acc m.ProperParent id) (fun m m' hstep hsound hrooted id => ?_) hm.sound hm.rooted).2 id
  exact rooted_of_keep hsound hrooted (fun k hk => hstep.linked hk ▸ ⟨rfl, rfl, rfl, rfl⟩) fun k =>
    hstep.newly_linked

theorem of_eq (hm : m.Ordered) (hclasses : m'.classes = m.classes)
    (hnames : m'.names = m.names) : m'.Ordered := by
  have hcls := cls_congr hclasses
  refine ⟨hm.toSettled.of_eq hclasses hnames, fun id => rooted_of_keep hm.sound hm.rooted
    (fun k _ => ?_) fun k hk => ?_⟩
  · exact hcls k ▸ ⟨rfl, rfl, rfl, rfl⟩
  · exact .inl (hcls k ▸ hk)

theorem changePlaced (hm : m.Ordered) {change : Class → Class}
    (hplace : ∀ c : Class, c.SamePlace (change c)) :
    (m.changeClass id change).Ordered := by
  refine ⟨hm.toSettled.changePlaced hplace, fun other => rooted_of_keep hm.sound hm.rooted
    (fun k _ => ?_) fun k hk => ?_⟩
  · rcases m.cls_changeClass id change k with heq | ⟨rfl, heq⟩ <;> rw [heq]
    · exact ⟨rfl, rfl, rfl, rfl⟩
    · exact hplace _
  · rcases m.cls_changeClass id change k with heq | ⟨rfl, heq⟩ <;> rw [heq] at hk
    · exact .inl hk
    · exact .inl ((hplace _).linked.symm.trans hk)

/-- Programs keep machines ordered. -/
theorem keptByPrograms (hnatives : natives.Lawful) : VM.KeptByPrograms natives Ordered :=
  VM.KeptByPrograms.of_lawful hnatives
    (fun name => traced (Settled.keptByPrograms hnatives (.load name)) fun m => VM.load_tracing m name)
    (fun file => traced (Settled.keptByPrograms hnatives (.define file)) fun _ =>
      Loader.define_traced VM.load_tracing file)
    (fun _ _ _ hm hplace _ => hm.changePlaced hplace) fun _ _ hm => hm.of_eq

theorem start (directories : List Directory) : (start directories).Ordered := by
  refine ⟨settled_start directories, fun id h => ?_⟩
  rw [cls_of_size_le (Nat.zero_le _)] at h
  cases h

/-- No class reaches itself without array classes in between, be it linked or not. -/
theorem acc (hm : m.Ordered) (id : ClassId) : Acc m.ProperParent id := by
  have hproper : ∀ id, (m.cls id).isArray = false → Acc m.ProperParent id := fun id hid =>
    .intro id fun k ⟨hbelow, hk⟩ => hm.rooted k (hm.sound.linked id k hid hbelow) hk
  exact .intro id fun k ⟨_, hk⟩ => hproper k hk

end Ordered

/-! ### Walks up the hierarchy -/

/-- The searches from a class come to an end, and each walk is put together from the walks from its
super class and its interfaces. So none of them is cut short. -/
structure WalksEnd (m : Machine) (id : ClassId) : Prop where
  chain : ∀ (α : Type) (find : ClassId → Option α), m.searchChain id find ≠ .endless
  supers : ∀ (α : Type) (find : ClassId → Option α), m.searchSupers id find ≠ .endless
  fields : ∀ name descriptor, m.fieldSearch id name descriptor ≠ .endless
  subclass : ∀ other, m.isSubclass id other = (m.cls id).superClass.any fun k => k = other ||
    m.isSubclass k other
  subInterface : ∀ interface, m.isSubInterface id interface =
    (m.cls id).interfaces.any fun k => k = interface || m.isSubInterface k interface
  implementing : ∀ interface, m.isImplementing id interface =
    (m.isSubInterface id interface || (m.cls id).superClass.any (m.isImplementing · interface))
  method : ∀ name descriptor, m.method? id name descriptor =
    ((m.cls id).method? name descriptor).or ((m.cls id).superClass.bind (m.method? · name descriptor))
  interfaceMethod : ∀ name descriptor, m.interfaceMethod? id name descriptor =
    (m.cls id).interfaces.findSome? fun k =>
      ((m.cls k).method? name descriptor).or (m.interfaceMethod? k name descriptor)
  field : ∀ name descriptor, m.field? id name descriptor =
    (m.declaredField? id name descriptor).or
      (((m.cls id).interfaces.findSome? (m.field? · name descriptor)).or
        ((m.cls id).superClass.bind (m.field? · name descriptor)))

open Classical in
/-- Classes can be numbered below the size of the machine such that each has a greater number than
those right above. -/
theorem exists_rank (hm : m.Sound) (hwf : WellFounded fun k id => (m.cls id).Below k) :
    ∃ rank : ClassId → Nat, (∀ id k, (m.cls id).Below k → rank k < rank id) ∧
      ∀ id : ClassId, id.index < m.classes.size → rank id < m.classes.size := by
  -- the number of a class is the number of classes above it
  let above (id : ClassId) : Finset Nat :=
    (Finset.range m.classes.size).filter fun i => Relation.TransGen
      (fun k id => (m.cls id).Below k) ⟨i⟩ id
  have hself : ∀ id : ClassId, id.index ∉ above id := fun id h =>
    let hcycle := (Finset.mem_filter.mp h).2
    hwf.transGen.asymmetric _ _ hcycle hcycle
  refine ⟨fun id => (above id).card, fun id k hbelow => Finset.card_lt_card ?_, fun id hid => ?_⟩
  · refine Finset.ssubset_iff_subset_ne.mpr ⟨fun i hi => ?_, fun heq => hself k ?_⟩
    · obtain ⟨hsize, habove⟩ := Finset.mem_filter.mp hi
      exact Finset.mem_filter.mpr ⟨hsize, habove.tail hbelow⟩
    · rw [heq]
      exact Finset.mem_filter.mpr ⟨Finset.mem_range.mpr (hm.above id k hbelow), .single hbelow⟩
  · have hsub : above id ⊂ Finset.range m.classes.size := by
      refine Finset.ssubset_iff_subset_ne.mpr ⟨Finset.filter_subset _ _, fun heq => hself id ?_⟩
      rw [heq]
      exact Finset.mem_range.mpr hid
    simpa using Finset.card_lt_card hsub

section

variable {rank : ClassId → Nat} (hrank : ∀ id k, (m.cls id).Below k → rank k < rank id)

include hrank

theorem interfacesWithin_stable : ∀ {depth depth' : Nat} {ids : List ClassId},
      (∀ id ∈ ids, rank id < depth) →
    (∀ id ∈ ids, rank id < depth') → m.interfacesWithin depth ids = m.interfacesWithin depth' ids
  | depth, depth', [], _, _ => by cases depth <;> cases depth' <;> rfl
  | 0, _, id :: ids, h, _ => absurd (h id (List.mem_cons_self ..)) (Nat.not_lt_zero _)
  | _, 0, id :: ids, _, h' => absurd (h' id (List.mem_cons_self ..)) (Nat.not_lt_zero _)
  | depth + 1, depth' + 1, id :: ids, h, h' => by
    simp only [interfacesWithin]
    refine List.flatMap_congr fun k hk => congrArg (k :: ·)
      (interfacesWithin_stable (fun i hi => ?_) fun i hi => ?_)
    · have := hrank k i (.inr hi); have := h k hk; omega
    · have := hrank k i (.inr hi); have := h' k hk; omega

variable (hsize : ∀ id : ClassId, id.index < m.classes.size → rank id < m.classes.size)
  (hid : id.index < m.classes.size)

include hsize hid

theorem searchInterfaces_cons {α : Type} (find : ClassId → Option α) : m.searchInterfaces id find =
    (m.cls id).interfaces.findSome? fun k => (find k).or (m.searchInterfaces k find) := by
  obtain ⟨bound, hbound⟩ := Nat.exists_eq_add_one.mpr (Nat.zero_lt_of_lt hid)
  have hlt := hsize id hid
  unfold searchInterfaces
  rw [hbound, searchWithin]
  refine findSome?_congr fun k hk => ?_
  have hk' := hrank id k (.inr hk)
  have hstable : m.interfacesWithin bound (m.cls k).interfaces = m.interfacesWithin (bound + 1)
      (m.cls k).interfaces :=
    interfacesWithin_stable hrank (fun i hi => (by have := hrank k i (.inr hi); omega))
      fun i hi => (by have := hrank k i (.inr hi); omega)
  rw [searchWithin_eq, searchWithin_eq, hstable]
  cases find k <;> rfl

end

/-- On a well-founded hierarchy all walks come to their end. -/
theorem walksEnd_of_wellFounded (hm : m.Sound) (hwf : WellFounded fun k id => (m.cls id).Below k)
    (hid : id.index < m.classes.size) : m.WalksEnd id := by
  obtain ⟨rank, hrank, hsize⟩ := exists_rank hm hwf
  have hfields : ∀ name descriptor, m.fieldSearch id name descriptor ≠ .endless := fun _ _ =>
    hm.fieldSearch_ends (hwf.apply id)
  constructor
  case chain => exact fun _ _ => hm.searchChain_ends (hwf.apply id)
  case supers =>
    intro α find hendless
    obtain ⟨k, -, h⟩ := Search.exists_of_first_eq hendless (by simp)
    exact hm.searchChain_ends (hwf.apply k) h
  case fields => exact hfields
  case subclass =>
    intro other
    rw [isSubclass, subclassSearch, found?_searchSupers]
    rcases hk : (m.cls id).superClass with _ | k
    · rfl
    · rw [Option.bind_some, hm.searchChain_cons, Search.found?_orElse, Option.any_some]
      by_cases heq : k = other <;> simp [heq, isSubclass, subclassSearch]
  case subInterface =>
    intro interface
    rw [isSubInterface, searchInterfaces_cons hrank hsize hid, Bool.eq_iff_iff,
      List.findSome?_isSome_iff, List.any_eq_true]
    refine exists_congr fun k => and_congr_right fun _ => ?_
    by_cases hk : k = interface <;> simp [hk, isSubInterface]
  case implementing =>
    intro interface
    rw [isImplementing, implementingSearch, hm.searchChain_cons, Search.found?_orElse,
      found?_searchSupers]
    rcases (m.cls id).superClass with _ | k <;> cases m.isSubInterface id interface <;> rfl
  case method =>
    intro name descriptor
    rw [method?, methodSearch, hm.searchChain_cons, Search.found?_orElse, found?_searchSupers]
    rfl
  case interfaceMethod => exact fun name descriptor => searchInterfaces_cons hrank hsize hid _
  case field =>
    intro name descriptor
    rw [hm.field?_cons (hfields name descriptor), parents, List.findSome?_append, supers]
    cases (m.cls id).superClass <;> simp

/-- `k` is the class `id`, or a class or interface that it extends over any number of steps. -/
def Above (m : Machine) (k id : ClassId) : Prop :=
  Relation.ReflTransGen (fun k id => (m.cls id).Below k) k id

/-- If nothing above array classes extends an array class, there is no cycle at all. -/
theorem wellFounded_below (hproper : WellFounded m.ProperParent)
    (hnone : ∀ a id k, (m.cls a).isArray = true → m.Above id a → (m.cls id).Below k →
      (m.cls k).isArray = false) :
    WellFounded fun k id => (m.cls id).Below k := by
  have harray : ∀ id a, (m.cls a).isArray = true → m.Above id a →
      Acc (fun k id => (m.cls id).Below k) id := by
    intro id
    induction id using hproper.induction with
    | _ id ih =>
      intro a ha habove
      exact .intro id fun k hk => ih k ⟨hk, hnone a id k ha habove hk⟩ a ha (.head hk habove)
  refine ⟨fun id => ?_⟩
  induction id using hproper.induction with
  | _ id ih =>
    refine .intro id fun k hk => ?_
    rcases hkind : (m.cls k).isArray with _ | _
    · exact ih k ⟨hk, hkind⟩
    · exact harray k k hkind .refl

/-- No class reaches itself without array classes among its parents. If nothing above array classes
extends an array class, no class reaches itself at all, and all walks up the hierarchy come to their
end. -/
theorem hierarchy_wellFounded (hm : m.Reachable) :
    WellFounded (fun k id => (m.cls id).Below k ∧ (m.cls k).isArray = false) ∧
      ((∀ a id k, (m.cls a).isArray = true → m.Above id a → (m.cls id).Below k →
        (m.cls k).isArray = false) →
        WellFounded (fun k id => (m.cls id).Below k) ∧ ∀ id : ClassId, id.index < m.classes.size →
          m.WalksEnd id) := by
  have hordered : m.Ordered := hm.keeps Ordered.start fun _ hnatives => Ordered.keptByPrograms hnatives
  have hproper : WellFounded m.ProperParent := ⟨hordered.acc⟩
  refine ⟨hproper, fun hnone => ?_⟩
  have hwf := wellFounded_below hproper hnone
  exact ⟨hwf, fun id => walksEnd_of_wellFounded hordered.sound hwf⟩

/-- The machine after a few classes were defined and `[I` was loaded. The one in the place of
`Cloneable` extends `cloneableSuper`. -/
def smallLibrary (cloneableSuper : String) : Except Failure ClassId × Machine :=
  outcome (do
    let _ ← VM.define (.build ClassName.object none (pure ()))
    let _ ← VM.define (.build ClassName.serializable (some ClassName.object) (pure ()))
    let _ ← VM.define (.build ClassName.cloneable (some cloneableSuper) (pure ()))
    VM.load "[I") (.start [])

theorem reachable_smallLibrary (name : String) (h : Completes (smallLibrary name).1) :
    (smallLibrary name).2.Reachable :=
  have hprogram : VM.Program .none _ :=
    .bind (.define _) fun _ => .bind (.define _) fun _ => .bind (.define _) fun _ => .load "[I"
  .program (.start []) Natives.Lawful.none hprogram (Prod.eta _).symm h

theorem hierarchy_wellFounded_smallLibrary :
    WellFounded (fun k id => ((smallLibrary ClassName.object).2.cls id).Below k) ∧
      (smallLibrary ClassName.object).2.WalksEnd ⟨3⟩ := by
  have hclasses : ∀ c ∈ (smallLibrary ClassName.object).2.classes.toList,
      ∀ k ∈ c.superClass.toList ++ c.interfaces,
      ((smallLibrary ClassName.object).2.cls k).isArray = false := by
    decide +kernel
  have hnone : ∀ id k, ((smallLibrary ClassName.object).2.cls id).Below k →
      ((smallLibrary ClassName.object).2.cls k).isArray = false := by
    intro id k hbelow
    rcases Nat.lt_or_ge id.index (smallLibrary ClassName.object).2.classes.size with hlt | hge
    · rw [cls, Array.getD, dif_pos hlt] at hbelow
      exact hclasses _ (Array.getElem_mem_toList hlt) k (by simpa [Class.Below] using hbelow)
    · rw [cls_of_size_le hge] at hbelow
      exact absurd hbelow (Class.not_below_default k)
  obtain ⟨-, hall⟩ := hierarchy_wellFounded
    (reachable_smallLibrary ClassName.object (by decide +kernel))
  obtain ⟨hwf, hwalks⟩ := hall fun _ id k _ _ => hnone id k
  exact ⟨hwf, hwalks ⟨3⟩ (by decide +kernel)⟩

/-- The class in the place of `Cloneable` may extend an array class, which implements it, and so
reach itself. -/
theorem not_always_wellFounded :
    ¬ ∀ m : Machine, m.Reachable → WellFounded fun k id => (m.cls id).Below k := by
  intro h
  have hsuper : ((smallLibrary "[I").2.cls ⟨2⟩).superClass = some ⟨3⟩ := by decide +kernel
  have hinterface : ⟨2⟩ ∈ ((smallLibrary "[I").2.cls ⟨3⟩).interfaces := by decide +kernel
  exact (h _ (reachable_smallLibrary "[I" (by decide +kernel))).asymmetric _ _
    (.inl hsuper) (.inr hinterface)

end Machine

end JavaMachine
