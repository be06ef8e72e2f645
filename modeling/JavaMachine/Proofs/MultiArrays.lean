import JavaMachine.Proofs.ArrayClasses
import JavaMachine.Proofs.ArrayTrees
import JavaMachine.Proofs.StackContents

/-!
Arrays of arrays.

A multianewarray pops a count for each dimension. If none is negative, and the array classes below
its class load, it pushes the first array of a new tree (`Exec.multianewarray_newTree`). The classes
are loaded one by one while the tree grows, so a class that loads at first has to load between new
arrays too (`Machine.Provides`).
-/

namespace JavaMachine

/-! ### Names of arrays of arrays -/

/-- The name of a primitive type is not that of an array class. -/
theorem ArrayName.isPrimitive_of_isArray {name : String} (h : isArray name = true) :
    isPrimitive name = false := by
  refine Bool.eq_false_iff.mpr fun hprimitive => ?_
  have hname : name ∈ ["Z", "B", "C", "S", "I", "J", "F", "D"] := List.contains_iff_mem.mp hprimitive
  simp only [List.mem_cons, List.not_mem_nil, or_false] at hname
  rcases hname with rfl | rfl | rfl | rfl | rfl | rfl | rfl | rfl <;> exact absurd h (by decide)

namespace FieldType

theorem isArray_text_array (t : FieldType) : ArrayName.isArray t.array.text = true := by
  rw [ArrayName.isArray, text, String.toList_ofList]
  rfl

/-- Arrays of arrays have a component class that is an array class. -/
theorem component?_text_array_array (t : FieldType) :
    (ArrayName.component? t.array.array.text).filter (!ArrayName.isPrimitive ·) =
    some t.array.text := by
  have hname : ArrayName.component? t.array.array.text = some t.array.text := by
    rw [ArrayName.component?, text, String.toList_ofList]
    rfl
  rw [hname, Option.filter_some, ArrayName.isPrimitive_of_isArray t.isArray_text_array]
  rfl

/-- There are arrays of every type. -/
theorem newArray?_text_array (t : FieldType) (length : Nat) :
    ∃ data, ObjectData.newArray? t.array.text length = some data := by
  rw [ObjectData.newArray?, text, String.toList_ofList]
  cases t <;> exact ⟨_, rfl⟩

/-- Arrays of arrays hold references. -/
theorem newArray?_text_array_array (t : FieldType) (length : Nat) :
    ObjectData.newArray? t.array.array.text length =
      some (.references (Array.replicate length none)) := by
  rw [ObjectData.newArray?, text, String.toList_ofList]
  rfl

end FieldType

namespace ArrayName

/-- The names of the classes of the arrays in arrays, for so many dimensions below the first one. -/
def inside (name : String) (depth : Nat) : List String :=
  (List.range depth).map fun d => String.ofList (name.toList.drop (d + 1))

theorem inside_succ (t : FieldType) (depth : Nat) :
    inside t.array.array.text (depth + 1) = t.array.text :: inside t.array.text depth := by
  simp [inside, List.range_succ_eq_map, FieldType.text, FieldType.chars, Function.comp_def]

theorem isArray_of_mem_inside : ∀ {depth : Nat} {t : FieldType}, depth ≤ t.dimensions →
    ∀ name ∈ inside t.array.text depth, isArray name = true
  | 0, _, _, _, hname => by cases hname
  | depth + 1, .array t, hle, name, hname => by
    rw [inside_succ] at hname
    rcases List.mem_cons.mp hname with rfl | hname
    · exact t.isArray_text_array
    · exact isArray_of_mem_inside (Nat.le_of_succ_le_succ hle) name hname

end ArrayName

/-! ### Array classes that load -/

namespace Machine

variable {m m' : Machine} {names : List String} {name : String} {id k : ClassId}

/-- The array classes of these names load, one after the other. -/
structure Provides (m : Machine) (names : List String) : Prop where
  regular : m.Regular
  array : ∀ name ∈ names, ArrayName.isArray name = true
  load : ∃ ids m', outcome (names.mapM VM.load) m = (.ok ids, m')

namespace Resembles

theorem withComponent (m : Machine) (id k : ClassId) :
    m.Resembles (fun _ => False) (m.withComponent id k) := by
  refine ⟨rfl, rfl, size_changeClass, fun other => ?_, rfl, fun _ h => h.elim⟩
  rcases m.cls_changeClass id ({ · with component := some k }) other with heq | ⟨rfl, heq⟩ <;>
    rw [Machine.withComponent, heq]
  · exact .refl _
  · exact ⟨rfl, rfl⟩

end Resembles

namespace Provides

/-- Other objects and kept component classes make no difference. -/
theorem of_resembles (h : m.Provides names) (hm' : m'.Regular)
    (hsame : m.Resembles (fun _ => False) m') :
    m'.Provides names := by
  obtain ⟨ids, m₁, hload⟩ := h.load
  obtain ⟨ids', m₁', hload', -⟩ := VM.Repeats.mapM VM.load_repeats names hsame hload
  exact ⟨hm', h.array, ids', m₁', hload'⟩

theorem of_heap {heap : Array Object} (h : m.Provides names) (hm : Machine.Regular { m with heap }) :
    Provides { m with heap } names :=
  h.of_resembles hm ⟨rfl, rfl, rfl, fun _ => .refl _, rfl, fun _ h => h.elim⟩

/-- The first class loads, is called by its name, and leaves the machine able to load the others. -/
theorem first (h : m.Provides (name :: names)) :
    ∃ id m', outcome (VM.load name) m = (.ok id, m') ∧ m'.Provides names ∧
      m'.lookup? name = some id := by
  obtain ⟨harray, harrays⟩ := List.forall_mem_cons.mp h.array
  obtain ⟨ids, m₂, hall⟩ := h.load
  rw [List.mapM_cons] at hall
  obtain ⟨id, m₁, hload, hall⟩ := outcome_bind_ok.mp hall
  obtain ⟨others, _, hothers, -⟩ := outcome_bind_ok.mp hall
  obtain ⟨hm₁, -⟩ := VM.Steady.load name m _ _ h.regular hload trivial
  have hbound := ((VM.load_faithful m name h.regular.coherent _ _ hload trivial).given id rfl).bound
  rw [VM.name_of_load_array h.regular harray hload] at hbound
  exact ⟨id, m₁, hload, ⟨hm₁, harrays, others, _, hothers⟩, hbound⟩

/-- A class that has been loaded loads again. -/
theorem cons (h : m.Provides names) (harray : ArrayName.isArray name = true)
    (hbound : m.lookup? name = some id) :
    m.Provides (name :: names) := by
  obtain ⟨ids, m', hload⟩ := h.load
  refine ⟨h.regular, List.forall_mem_cons.mpr ⟨harray, h.array⟩, id :: ids, m', ?_⟩
  rw [List.mapM_cons, outcome_bind_of_ok (VM.outcome_load_of_bound hbound), outcome_bind_of_ok hload]
  rfl

end Provides

/-- No array is made when a component class is kept. -/
theorem Adds.withComponent (hnone : (m.cls id).component = none) :
    m.Adds [] (m.withComponent id k) := by
  have hlater : (m.cls id).Later { m.cls id with component := some k } :=
    .withComponent fun other hother => by rw [hnone] at hother; cases hother
  exact .plain (.changeClass hlater) (fun _ _ => rfl)
    (fun b _ a hread => lt_of_referenceAt? (m := m) hread)
    (fun hm => hm.changeClass (hm.statics id)) (fun a ha => ha.changeClass (ha.statics id))
    (fun a ha => by cases ha) .nil
    fun _ a ha => by cases ha

end Machine

namespace VM

open Machine

variable {m m' : Machine} {names : List String} {name : String} {id k : ClassId}

/-- A load makes no arrays of references. -/
theorem load_adds (hm : m.Regular) (hload : outcome (load name) m = (.ok id, m')) : m.Adds [] m' := by
  have hgrows := (load_faithful m name hm.coherent _ _ hload trivial).grows
  have hloading := (load_tracing m name hm.coherent.sound (Nat.le_refl _) _ _ hload trivial).1
  refine .plain (Steady.load name m _ _ hm hload trivial).2.1 hgrows.object
    (fun b index a hread => ?_) hloading.grounded
    (fun a ha => load_hides ha hload) (fun a ha => by cases ha) .nil fun _ a ha => by cases ha
  obtain ⟨elements, hdata, hget⟩ := referenceAt?_element.mp hread
  obtain ⟨before, hbefore, -⟩ := hloading.undisturbed.elements b elements a hdata
    (Array.mem_of_getElem? hget)
  exact lt_of_elements hbefore

/-- The component class of an array of arrays is the class that loads. -/
theorem component?_provided (h : m.Provides (name :: names))
    (hname : (m.cls id).componentName? = some name) :
    ∃ k m', outcome (component? id) m = (.ok (some k), m') ∧ m'.Provides names ∧ m.Adds [] m' ∧
      m'.lookup? name = some k := by
  obtain ⟨k, m₁, hload, hprovides, hbound⟩ := h.first
  rcases hkept : (m.cls id).component with _ | other
  · have hrun : outcome (component? id) m = (.ok (some k), m₁.withComponent id k) := by
      rw [component?_eq, outcome_bind_of_ok (outcome_cls id), hname]
      dsimp only
      rw [hkept]
      dsimp only
      rw [outcome_bind_of_ok hload, outcome_bind_of_ok (outcome_modifyClass ..)]
      rfl
    have hnone : (m₁.cls id).component = none :=
        Option.eq_none_iff_forall_ne_some.mpr fun other hother => by
      have hold := (load_tracing m name h.regular.coherent.sound (Nat.le_refl _)
        _ _ hload trivial).1.component hother
      rw [hkept] at hold
      cases hold
    exact ⟨k, _, hrun, hprovides.of_resembles (Steady.component? id m _ _ h.regular hrun trivial).1
      (.withComponent m₁ id k), (load_adds h.regular hload).trans (.withComponent hnone), hbound⟩
  · obtain ⟨hloaded, name', hname', hanswers⟩ := h.regular.component id other hkept
    cases hname.symm.trans hname'
    have hcalled : (m.cls other).name = name := by
      rcases hanswers with hcalled | ⟨hnot, -⟩
      · exact hcalled
      · cases (h.array name List.mem_cons_self).symm.trans hnot
    rw [hcalled] at hloaded
    rw [outcome_load_of_bound hloaded] at hload
    cases hload
    refine ⟨k, m, ?_, hprovides, .refl m, hloaded⟩
    rw [component?_eq, outcome_bind_of_ok (outcome_cls id), hname]
    dsimp only
    rw [hkept]
    rfl

/-! ### Trees that are made -/

/-- A tree of arrays was made, of which `a` is the first. -/
structure MakesTree (m m' : Machine) (names : List String) (id : ClassId) (type : FieldType)
    (counts : List Nat) (a : Address) : Prop where
  provides : m'.Provides names
  adds : m.Adds [a] m'
  classOf : m'.classOf a = id
  tree : m'.Tree m.heap.size type counts a

variable {type : FieldType} {counts : List Nat}

/-- Trees are made one after the other. -/
theorem mapM_makesTree {x : VM Address} (hx : ∀ m, m.Provides names → (m.cls id).name = type.text →
      ∃ a m', outcome x m = (.ok a, m') ∧ MakesTree m m' names id type counts a) :
    ∀ (count : Nat) {m : Machine}, m.Provides names → (m.cls id).name = type.text →
      id.index < m.classes.size →
      ∃ children m', outcome ((List.replicate count ()).mapM fun _ => x) m = (.ok children, m') ∧
        children.length = count ∧
        m'.Provides names ∧ m.Adds children m' ∧ ∀ child ∈ children, m'.classOf child = id ∧
          m'.Tree m.heap.size type counts child
  | 0, m, hm, _, _ => ⟨[], m, rfl, rfl, hm, .refl m, fun _ h => by cases h⟩
  | count + 1, m, hm, hname, hid => by
    obtain ⟨a, m₁, hfirst, hmakes⟩ := hx m hm hname
    obtain ⟨children, m', hrest, hlength, hm', hadds, hchildren⟩ :=
      mapM_makesTree hx count hmakes.provides
      ((hmakes.adds.later id hid).name.trans hname) (Nat.lt_of_lt_of_le hid hmakes.adds.classes)
    refine ⟨a :: children, m', ?_, congrArg Nat.succ hlength, hm', hmakes.adds.trans hadds,
      List.forall_mem_cons.mpr ⟨⟨?_, ?_⟩, fun child hchild => ?_⟩⟩
    · rw [List.replicate_succ, List.mapM_cons, outcome_bind_of_ok hfirst, outcome_bind_of_ok hrest]
      rfl
    · rw [hadds.classOf a hmakes.tree.there, hmakes.classOf]
    · exact hmakes.tree.keep hmakes.provides.regular.coherent hadds.toEvolves
        (fun b _ hb => hadds.old b hb) (Nat.le_refl _)
    · obtain ⟨hclassOf, htree⟩ := hchildren child hchild
      exact ⟨hclassOf, htree.keep hm'.regular.coherent (.refl m') (fun _ _ _ => rfl) hmakes.adds.heap⟩

/-- A new array whose elements are zero is a tree of one array. -/
theorem newArray_makesTree (hm : m.Provides names) (hname : (m.cls id).name = type.array.text)
    (count : Nat) :
    ∃ a m', outcome (newArray id count) m = (.ok a, m') ∧
      MakesTree m m' names id type.array [count] a := by
  obtain ⟨data, hdata⟩ := type.newArray?_text_array count
  have hrun : outcome (newArray id count) m = (.ok ⟨m.heap.size⟩, m.withObject ⟨id, data⟩) := by
    rw [newArray, outcome_bind_of_ok (outcome_cls id)]
    dsimp only
    rw [hname, hdata]
    rfl
  have hclassOf := Steady.newArray_classOf hrun
  refine ⟨_, _, hrun, ⟨hm.of_heap (Steady.newArray id count m _ _ hm.regular hrun trivial).1,
    .newArray hdata, hclassOf, ?_⟩⟩
  refine .last (Nat.le_refl _) ?_ (by rw [object_withObject_new]; exact hdata)
  rw [className, hclassOf]
  exact hname

/-- An array gets trees as its elements that were made after it. -/
theorem MakesTree.nest {m₁ m₂ m₃ : Machine} {t : FieldType} {a : Address}
    {children : List Address} {next : Nat}
    {needed : List String} (hfirst : MakesTree m m₁ needed id t.array.array [children.length] a)
    (hsecond : m₁.Adds [] m₂)
    (hbound : m₂.lookup? t.array.text = some k) (hthird : m₂.Adds children m₃) (hm₃ : m₃.Provides names)
    (htrees : ∀ child ∈ children, m₃.classOf child = k ∧
      m₃.Tree m₂.heap.size t.array (next :: counts) child)
    (haccepts : m₃.Accepts a (.references (children.map some).toArray)) :
    MakesTree m (m₃.withData a (.references (children.map some).toArray))
      (t.array.text :: names) id t.array.array
      (children.length :: next :: counts) a := by
  have hlater := hsecond.trans hthird
  have hm₄ := hm₃.regular.withData (fun _ => haccepts.shape) fun _ => haccepts.suits
  have hevolves : m₃.Evolves (m₃.withData a (.references (children.map some).toArray)) :=
    .withData fun _ => haccepts.shape
  have hclassOf : m₃.classOf a = id := (hlater.classOf a hfirst.tree.there).trans hfirst.classOf
  refine ⟨(hm₃.of_heap hm₄).cons t.isArray_text_array (hthird.bound _ _ hbound),
    ((hfirst.adds.trans hsecond).trans hthird).fill haccepts, ?_, ?_⟩
  · rw [Evolves.classOf_withData, hclassOf]
  · have hthere : a.index < m₂.heap.size := Nat.lt_of_lt_of_le hfirst.tree.there hsecond.heap
    refine .nest hfirst.tree.placed ?_ ?_ (fun child hchild => ?_) fun child hchild => ?_
    · rw [className, Evolves.classOf_withData, hclassOf, ← hfirst.tree.named, className, hfirst.classOf]
      exact (hlater.later id
        (hfirst.classOf ▸ hfirst.provides.regular.coherent.there a hfirst.tree.there)).name
    · rw [object_withData_self haccepts.there]
    · rw [Evolves.classOf_withData, (htrees child hchild).1]
      exact hthird.bound _ _ hbound
    · refine (htrees child hchild).2.keep hm₃.regular.coherent hevolves (fun b hb _ => ?_)
        (Nat.le_trans hfirst.adds.heap hsecond.heap)
      exact object_withData_ne fun heq => Nat.not_lt_of_le hb (heq ▸ hthere)

/-- Where the classes of the arrays load, a tree of arrays is made. -/
theorem multiArray_makesTree :
    ∀ {inner : List Nat} {type : FieldType} {id : ClassId} {m : Machine} (count : Nat),
    m.Provides (ArrayName.inside type.array.text inner.length) → (m.cls id).name = type.array.text →
      inner.length ≤ type.dimensions → ∃ a m', outcome (multiArray id count inner) m = (.ok a, m') ∧
        MakesTree m m' (ArrayName.inside type.array.text inner.length) id type.array (count :: inner) a
  | [], type, id, m, count, hm, hname, _ => newArray_makesTree hm hname count
  | next :: inner, .array t, id, m, count, hm, hname, hle => by
    rw [List.length_cons, ArrayName.inside_succ] at hm ⊢
    obtain ⟨a, m₁, hnew, hfirst⟩ := newArray_makesTree hm hname count
    have hcomponentName : (m.cls id).componentName? = some t.array.text := by
      rw [Class.componentName?, hname]
      exact t.component?_text_array_array
    have hid := lt_of_isArray (Class.isArray_of_componentName? hcomponentName)
    obtain ⟨k, m₂, hcomponent, hm₂, hsecond, hbound⟩ :=
      component?_provided hfirst.provides
        ((hfirst.adds.later id hid).componentName?.trans hcomponentName)
    obtain ⟨children, m₃, hchildren, rfl, hm₃, hthird, htrees⟩ :=
      mapM_makesTree (fun m hm hname => multiArray_makesTree next hm hname
        (Nat.le_of_succ_le_succ hle)) count hm₂
        (hm₂.regular.coherent.named _ _ hbound) (hm₂.regular.coherent.sound.bound _ _ hbound)
    have hzeroed : (m₂.object a).data = .references (Array.replicate children.length none) := by
      rw [hsecond.old a hfirst.tree.there]
      exact Option.some.inj
        (hfirst.tree.zeroed.symm.trans (t.newArray?_text_array_array children.length))
    have haccepts : m₃.Accepts a (.references (children.map some).toArray) :=
      (hm₂.regular.accepts_references hzeroed (by simp)).evolves hm₂.regular.coherent hthird.toEvolves
    have hkind : (m₂.object a).data.elementKind? = some .reference := by rw [hzeroed]; rfl
    refine ⟨a, _, ?_, hfirst.nest hsecond hbound hthird hm₃ htrees haccepts⟩
    rw [multiArray, outcome_bind_of_ok hnew, outcome_bind_of_ok hcomponent]
    dsimp only
    rw [outcome_bind_of_ok (outcome_object a), if_pos hkind, outcome_bind_of_ok hchildren]
    rfl

end VM

/-! ### The instruction -/

namespace Exec

variable {natives : Natives} {s : Running} {top : Frame} {callers : List Frame} {slots : List Slot}
  {below : OperandStack}
  {n : Nat} {index : UInt16} {dimensions : UInt8} {id : ClassId} {m : Machine}

/-- What was popped leaves room for a slot. -/
theorem exists_push?_of_popMany? : ∀ {n : Nat} {stack below : OperandStack} {slots : List Slot},
    stack.popMany? (n + 1) = some (slots, below) → ∀ slot, ∃ above, below.push? slot = some above
  | 0, stack, below, slots, h, slot => by
    obtain ⟨⟨first, u⟩, hpop, hrest⟩ := Option.bind_eq_some_iff.mp h
    cases hrest
    exact exists_push?_of_popInt? (by rw [OperandStack.popInt?, hpop]; rfl) slot
  | n + 1, stack, below, slots, h, slot => by
    obtain ⟨⟨first, u⟩, hpop, hrest⟩ := Option.bind_eq_some_iff.mp h
    obtain ⟨⟨others, v⟩, hmany, hrest⟩ := Option.bind_eq_some_iff.mp hrest
    cases hrest
    exact exists_push?_of_popMany? hmany slot

/-- Counts are popped as long as none is negative. -/
theorem outcome_popCounts : ∀ {n : Nat} {s : Running} {top : Frame} {slots : List Slot},
    s.thread.frames = top :: callers → top.stack.popMany? n = some (slots, below) →
      (∀ slot ∈ slots, ¬ slot.number < 0) →
      outcome (popCounts n) s = (.ok (slots.map (·.number.toInt.toNat)),
        ⟨s.machine, { s.thread with frames := { top with stack := below } :: callers }⟩)
  | 0, s, top, slots, hframes, hpop, _ => by
    cases hpop
    rw [← hframes]
    rfl
  | n + 1, s, top, slots, hframes, hpop, hnonnegative => by
    obtain ⟨⟨slot, u⟩, hfirst, hrest⟩ := Option.bind_eq_some_iff.mp hpop
    obtain ⟨⟨others, v⟩, hmany, hrest⟩ := Option.bind_eq_some_iff.mp hrest
    cases hrest
    obtain ⟨hothers, hslot⟩ := List.forall_mem_append.mp hnonnegative
    have hint : top.stack.popInt? = some (slot.number, u) := by rw [OperandStack.popInt?, hfirst]; rfl
    have hcount := outcome_popCount hframes hint
    rw [if_neg (hslot slot (List.mem_singleton_self slot))] at hcount
    rw [popCounts, outcome_bind_of_ok hcount,
      outcome_bind_of_ok (outcome_popCounts rfl hmany hothers), List.map_append]
    rfl

/-- The last negative count is refused. -/
theorem outcome_popCounts_negative : ∀ {n : Nat} {s : Running} {top : Frame} {slots : List Slot},
    s.thread.frames = top :: callers → top.stack.popMany? n = some (slots, below) →
      (∃ slot ∈ slots, slot.number < 0) →
      ∃ before slot after rest, slots = before ++ slot :: after ∧ slot.number < 0 ∧
        (∀ later ∈ after, ¬ later.number < 0) ∧ outcome (popCounts n) s =
          (.error (.fault (.exception ExceptionName.negativeArraySize (toString slot.number))),
            ⟨s.machine, rest⟩)
  | 0, s, top, slots, hframes, hpop, hnegative => by
    cases hpop
    obtain ⟨_, hmem, -⟩ := hnegative
    cases hmem
  | n + 1, s, top, slots, hframes, hpop, hnegative => by
    obtain ⟨⟨slot, u⟩, hfirst, hrest⟩ := Option.bind_eq_some_iff.mp hpop
    obtain ⟨⟨others, v⟩, hmany, hrest⟩ := Option.bind_eq_some_iff.mp hrest
    cases hrest
    have hint : top.stack.popInt? = some (slot.number, u) := by rw [OperandStack.popInt?, hfirst]; rfl
    have hcount := outcome_popCount hframes hint
    by_cases hslot : slot.number < 0
    · rw [if_pos hslot] at hcount
      exact ⟨others, slot, [], _, rfl, hslot, fun _ h => (by cases h), outcome_bind_of_error hcount⟩
    · rw [if_neg hslot] at hcount
      have hothers : ∃ slot ∈ others, slot.number < 0 := by
        obtain ⟨found, hfound, hless⟩ := hnegative
        rcases List.mem_append.mp hfound with hfound | hfound
        · exact ⟨found, hfound, hless⟩
        · exact absurd (List.mem_singleton.mp hfound ▸ hless) hslot
      let t : Running := ⟨s.machine, { s.thread with frames := { top with stack := u } :: callers }⟩
      have hframes' : t.thread.frames = { top with stack := u } :: callers := rfl
      obtain ⟨before, found, after, rest, rfl, hless, hafter, hrun⟩ :=
        outcome_popCounts_negative hframes' hmany hothers
      refine ⟨before, found, after ++ [slot], rest, by simp, hless, ?_, ?_⟩
      · exact List.forall_mem_append.mpr ⟨hafter, List.forall_mem_singleton.mpr hslot⟩
      · rw [popCounts, outcome_bind_of_ok hcount, outcome_bind_of_error hrun]

/-- What a multianewarray does once it has its counts. -/
def pushTreeOf (id : ClassId) : (counts : List Nat) → Exec Unit
  | [] => fail (.internal .zeroDimensions)
  | count :: inner => do pushReference (some (← VM.multiArray id count inner))

/-- A multianewarray pops as many counts as it has dimensions, once its class reference is resolved. -/
theorem outcome_multianewarray (hframes : s.thread.frames = top :: callers)
    (hresolve : outcome (VM.resolveClass top.owner index) s.machine = (.ok id, m))
    (hpositive : dimensions ≠ 0) :
    outcome (execute natives ⟨.multianewarray, .multiArray index dimensions⟩) s =
      outcome (popCounts dimensions.toNat >>= pushTreeOf id) ⟨m, s.thread⟩ := by
  have howner : outcome owner s = (.ok top.owner, s) := outcome_bind_of_ok (outcome_frame hframes)
  change outcome (newMultiArray ⟨.multianewarray, .multiArray index dimensions⟩) s = _
  unfold newMultiArray
  dsimp only
  rw [if_neg hpositive, outcome_bind_of_ok howner, outcome_bind_of_ok (outcome_lift_of_ok hresolve)]
  rfl

/-- A multianewarray raises an exception if a count is negative, and makes no array. Otherwise, if
its class has as many dimensions as there are counts and the classes of the arrays below the first
one load, it pushes the first array of a new tree, which has as many elements at each depth as the
counts say. -/
theorem multianewarray_newTree (natives : Natives) (hm : s.machine.Regular)
    (hframes : s.thread.frames = top :: callers)
    (hresolve : outcome (VM.resolveClass top.owner index) s.machine = (.ok id, m))
    (hpositive : dimensions ≠ 0)
    (hpop : top.stack.popMany? dimensions.toNat = some (slots, below)) :
    ((∃ slot ∈ slots, slot.number < 0) →
      ∃ before slot after rest, slots = before ++ slot :: after ∧ slot.number < 0 ∧
        (∀ later ∈ after, ¬ later.number < 0) ∧
        outcome (execute natives ⟨.multianewarray, .multiArray index dimensions⟩) s =
          (.error (.fault (.exception ExceptionName.negativeArraySize (toString slot.number))),
            ⟨m, rest⟩)) ∧
    ((∀ slot ∈ slots, ¬ slot.number < 0) → ∀ type, FieldType.parse (m.cls id).name = some type →
      dimensions.toNat ≤ type.dimensions →
      (∃ ids m',
        outcome ((ArrayName.inside (m.cls id).name (dimensions.toNat - 1)).mapM VM.load) m =
          (.ok ids, m')) →
        ∃ root m' stack, m.NewTree m' id (slots.map (·.number.toInt.toNat)) root ∧
          below.push? (.ref (some root)) = some stack ∧
          outcome (execute natives ⟨.multianewarray, .multiArray index dimensions⟩) s =
            (.ok ⟨⟩, ⟨m', { s.thread with frames := { top with stack } :: callers }⟩)) := by
  have hm₁ : m.Regular :=
    ((VM.Tame.resolveClass top.owner index).steady Natives.Orderly.none _ _ _ hm hresolve trivial).1
  obtain ⟨n, hn⟩ : ∃ n, dimensions.toNat = n + 1 :=
    Nat.exists_eq_succ_of_ne_zero fun hzero => hpositive (UInt8.toNat_inj.mp hzero)
  have hlength := OperandStack.length_popMany? hpop
  rw [outcome_multianewarray hframes hresolve hpositive]
  refine ⟨fun hnegative => ?_, fun hnonnegative type hparse hle hload => ?_⟩
  · obtain ⟨before, slot, after, rest, hslots, hless, hafter, hrun⟩ :=
      outcome_popCounts_negative (s := ⟨m, s.thread⟩) hframes hpop hnegative
    exact ⟨before, slot, after, rest, hslots, hless, hafter, outcome_bind_of_error hrun⟩
  · rw [outcome_bind_of_ok (outcome_popCounts (s := ⟨m, s.thread⟩) hframes hpop hnonnegative)]
    rw [hn] at hlength hle hpop hload
    obtain ⟨first, others, rfl⟩ := List.exists_cons_of_length_eq_add_one hlength
    obtain ⟨-, hname⟩ := FieldType.parse_eq_some_iff.mp hparse
    cases type with
    | array t =>
      rw [List.length_cons, Nat.add_right_cancel_iff] at hlength
      have hinner : (others.map (·.number.toInt.toNat)).length = n := by rw [List.length_map, hlength]
      have hdeep : (others.map (·.number.toInt.toNat)).length ≤ t.dimensions :=
        hinner ▸ Nat.le_of_succ_le_succ hle
      have hprovides : m.Provides
          (ArrayName.inside t.array.text (others.map (·.number.toInt.toNat)).length) := by
        refine ⟨hm₁, ArrayName.isArray_of_mem_inside hdeep, ?_⟩
        rw [hinner, hname]
        exact hload
      obtain ⟨root, m', hrun, hmakes⟩ :=
        VM.multiArray_makesTree first.number.toInt.toNat hprovides hname.symm hdeep
      obtain ⟨stack, hpush⟩ := exists_push?_of_popMany? hpop (.ref (some root))
      refine ⟨root, m', stack, hmakes.adds.newTree hmakes.tree hmakes.classOf hname.symm, hpush, ?_⟩
      let r : Running := ⟨m, { s.thread with frames := { top with stack := below } :: callers }⟩
      have hframes' : r.thread.frames = { top with stack := below } :: callers := rfl
      have hpushed := outcome_pushReference (s := ⟨m', r.thread⟩) hframes' hpush
      exact (outcome_bind_of_ok (outcome_lift_of_ok (s := r) hrun)).trans hpushed
    | _ => exact absurd hle (Nat.not_succ_le_zero n)

/-- The class files that arrays need, and a class with a method that makes an `int[2][3]`. -/
def defineTreeMaker : VM ClassId := do
  let _ ← VM.define (.build ClassName.object none (pure ()))
  let _ ← VM.define (Library.markerInterface ClassName.cloneable)
  let _ ← VM.define (Library.markerInterface ClassName.serializable)
  VM.define <| .build "Main" (some ClassName.object) do
    let index ← Builder.classRef "[[I"
    Builder.addMethod ⟨AccessFlags.staticBit⟩ "run" "()Ljava/lang/Object;" 2 0
      ([0x05, 0x06, 0xC5] ++ Library.operand index ++ [0x02, 0xB0]) []

def treeMaker : Machine := (outcome defineTreeMaker (.start [])).2

/-- A frame of the method that has pushed two counts. -/
def treeFrame (first second : Int32) : Frame :=
  { Frame.start ((treeMaker.cls ⟨3⟩).methods.getD 0 default) with
    stack := ⟨#[.num first, .num second], 2⟩ }

def asksTree (first second : Int32) : Running := ⟨treeMaker, ⟨3, 8, [treeFrame first second], none⟩⟩

/-- The machine after the reference to the class has been resolved. -/
def treeReady : Machine := (outcome (VM.resolveClass ⟨3⟩ 6) treeMaker).2

theorem regular_treeMaker : treeMaker.Regular := by
  have horderly : VM.Orderly defineTreeMaker :=
    .bind (.define _) fun _ => .bind (.define _) fun _ => .bind (.define _) fun _ => .define _
  have hrun : Session.Run .standard (.start []) [] ⟨treeMaker, []⟩ :=
    .host .start horderly rfl (by decide +kernel)
  exact hrun.regular Natives.standard_orderly

/-- Two arrays of three zeros are made. Only the first array refers to them, and nothing refers to
it. No array is made if one of the counts is negative. -/
theorem multianewarray_newTree_twoByThree :
    (∃ root m' stack, treeReady.NewTree m' ⟨4⟩ [2, 3] root ∧
      (∀ place, m'.referenceAt? place ≠ some root) ∧
      stack.toList = [.ref (some root)] ∧
        outcome (execute .standard ⟨.multianewarray, .multiArray 6 2⟩) (asksTree 2 3) =
        (.ok ⟨⟩, ⟨m', ⟨3, 8, [{ treeFrame 2 3 with stack }], none⟩⟩)) ∧
    ∃ rest, outcome (execute .standard ⟨.multianewarray, .multiArray 6 2⟩) (asksTree 2 (-3)) =
      (.error (.fault (.exception ExceptionName.negativeArraySize "-3")), ⟨treeReady, rest⟩) := by
  have howner : ∀ first second, (treeFrame first second).owner = ⟨3⟩ := fun _ _ => by
    change ((treeMaker.cls ⟨3⟩).methods.getD 0 default).owner = ⟨3⟩
    decide +kernel
  have hfirst : (outcome (VM.resolveClass ⟨3⟩ 6) treeMaker).1 = .ok ⟨4⟩ := by decide +kernel
  have hresolve : ∀ first second,
      outcome (VM.resolveClass (treeFrame first second).owner 6) treeMaker = (.ok ⟨4⟩, treeReady) :=
      fun first second => by
    rw [howner]
    exact Prod.ext hfirst rfl
  have hasks := fun first second => multianewarray_newTree .standard (s := asksTree first second)
    regular_treeMaker rfl
    (hresolve first second) (by decide : (2 : UInt8) ≠ 0)
    (by rfl : (treeFrame first second).stack.popMany? 2 = some ([.num first, .num second], _))
  constructor
  · have hparse : FieldType.parse (treeReady.cls ⟨4⟩).name = some (.array (.array .int)) := by
      decide +kernel
    have hloads : (outcome ((ArrayName.inside (treeReady.cls ⟨4⟩).name 1).mapM VM.load)
        treeReady).1 = .ok [⟨5⟩] := by
      decide +kernel
    have hgrounded : treeReady.Grounded := by
      unfold Machine.Grounded
      decide +kernel
    obtain ⟨root, m', stack, htree, hpush, hrun⟩ :=
      (hasks 2 3).2 (by decide) _ hparse (by decide) ⟨_, _, Prod.ext hloads rfl⟩
    exact ⟨root, m', stack, htree, htree.alone hgrounded, OperandStack.toList_push? hpush, hrun⟩
  · obtain ⟨before, slot, after, rest, hslots, hless, -, hrun⟩ :=
      (hasks 2 (-3)).1 ⟨.num (-3), by decide, by decide⟩
    obtain rfl : slot = .num (-3) := by
      have hmem : slot ∈ [Slot.num 2, .num (-3)] := hslots ▸ List.mem_append_right _ List.mem_cons_self
      rcases List.mem_pair.mp hmem with rfl | rfl
      · exact absurd hless (by decide)
      · rfl
    exact ⟨rest, hrun⟩

end Exec

end JavaMachine
