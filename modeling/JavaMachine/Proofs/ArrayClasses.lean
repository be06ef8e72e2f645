import JavaMachine.Proofs.Casts
import JavaMachine.Proofs.Descriptors
import JavaMachine.Proofs.FieldStorage
import JavaMachine.Proofs.Unfolding

/-!
The array class of a class.

The array class of a class is found by a name that is made of the name of the class, and finds the
class by taking its own name apart. So it has the class as its component class, its arrays hold
references, and they take null and the instances of the class (`Session.array_class`). A class that
is called like a primitive type is mistaken for it: the array class of a class `I` is that of arrays
of ints (`Session.not_always_component`).
-/

namespace JavaMachine

/-! ### Names of array classes -/

namespace ArrayName

variable {name : String}

theorem isArray_ofComponent (component : String) : isArray (ofComponent component) = true := by
  unfold ofComponent
  split <;> simp [isArray]

theorem toList_ofComponent (harray : isArray name = false) (hletter : isPrimitive name = false) :
    (ofComponent name).toList = '[' :: 'L' :: (name.toList ++ [';']) := by
  simp [ofComponent, harray, hletter]

theorem component?_ofComponent (harray : isArray name = false) (hletter : isPrimitive name = false) :
    component? (ofComponent name) = some name := by
  unfold component?
  rw [toList_ofComponent harray hletter]
  simp

theorem parse_ofComponent (harray : isArray name = false) (hletter : isPrimitive name = false) :
    (FieldType.parse (ofComponent name)).isSome = true ↔ Describable name := by
  have htext : (FieldType.array (.object name)).text = ofComponent name := by
    rw [← String.toList_inj, toList_ofComponent harray hletter, FieldType.text, String.toList_ofList]
    rfl
  constructor
  · intro hparse
    obtain ⟨t, hread⟩ := Option.isSome_iff_exists.mp hparse
    obtain ⟨hwell, hsame⟩ := FieldType.parse_eq_some_iff.mp hread
    rw [← htext, FieldType.text, FieldType.text, String.ofList_inj] at hsame
    obtain rfl : t = .array (.object name) := by
      cases t with
      | array component =>
        cases component with
        | object other => simpa [FieldType.chars, String.toList_inj] using hsame
        | _ => simp [FieldType.chars] at hsame
      | _ => simp [FieldType.chars] at hsame
    exact hwell
  · intro h
    have hwell : (FieldType.array (.object name)).WellFormed := h
    rw [FieldType.parse_eq_some_iff.mpr ⟨hwell, htext⟩]
    rfl

theorem newArray?_ofComponent (harray : isArray name = false) (hletter : isPrimitive name = false)
    (length : Nat) :
    ObjectData.newArray? (ofComponent name) length =
      some (.references (Array.replicate length none)) := by
  unfold ObjectData.newArray?
  rw [toList_ofComponent harray hletter]
  rfl

/-- A name that is a primitive letter makes the name of an array type of this primitive type. -/
theorem primitive_ofComponent (h : isPrimitive name = true) :
    (component? (ofComponent name)).filter (!isPrimitive ·) = none ∧ ∀ length data,
      ObjectData.newArray? (ofComponent name) length = some data →
        data.elementKind? ≠ some .reference := by
  have hname : name ∈ ["Z", "B", "C", "S", "I", "J", "F", "D"] := List.contains_iff_mem.mp h
  simp only [List.mem_cons, List.not_mem_nil, or_false] at hname
  unfold ObjectData.newArray?
  rcases hname with rfl | rfl | rfl | rfl | rfl | rfl | rfl | rfl
  all_goals
    refine ⟨by decide, ?_⟩
    rintro length data ⟨⟩
    simp [ObjectData.elementKind?]

end ArrayName

namespace Machine

variable {m m' : Machine} {id k : ClassId}

/-! ### Component classes that are kept -/

/-- The machine on which the component class of an array class is kept. -/
def withComponent (m : Machine) (id component : ClassId) : Machine :=
  m.changeClass id ({ · with component := some component })

/-- A component class that is kept already is kept. -/
theorem withComponent_self (h : (m.cls id).component = some k) : m.withComponent id k = m := by
  have hclasses : (m.withComponent id k).classes = m.classes := by
    refine Array.ext size_changeClass fun i hi hi' => ?_
    by_cases hid : id.index = i
    · subst hid
      simp only [cls, Array.getD, hi', ↓reduceDIte] at h
      simp [withComponent, changeClass, Array.getElem_modify, ← h]
    · simp [withComponent, changeClass, Array.getElem_modify, hid]
  exact congrArg (fun classes => { m with classes }) hclasses

/-- Two machines with the same classes above and below each other. -/
structure SameHierarchy (m m' : Machine) : Prop where
  size : m'.classes.size = m.classes.size
  flags : ∀ id, (m'.cls id).flags = (m.cls id).flags
  name : ∀ id, (m'.cls id).name = (m.cls id).name
  superClass : ∀ id, (m'.cls id).superClass = (m.cls id).superClass
  interfaces : ∀ id, (m'.cls id).interfaces = (m.cls id).interfaces

namespace SameHierarchy

theorem withComponent (m : Machine) (id component : ClassId) :
    m.SameHierarchy (m.withComponent id component) := by
  constructor
  case size => exact size_changeClass
  all_goals
    intro other
    rcases m.cls_changeClass id ({ · with component := some component }) other with heq | ⟨rfl, heq⟩ <;>
      rw [Machine.withComponent, heq]

theorem supers (h : m.SameHierarchy m') (id : ClassId) : m'.supers id = m.supers id :=
  congrArg Option.toList (h.superClass id)

theorem searchChain {α : Type} (h : m.SameHierarchy m') (id : ClassId) (find : ClassId → Option α) :
    m'.searchChain id find = m.searchChain id find := by
  rw [Machine.searchChain, h.size, funext h.supers]
  rfl

theorem searchSupers {α : Type} (h : m.SameHierarchy m') (id : ClassId) (find : ClassId → Option α) :
    m'.searchSupers id find = m.searchSupers id find := by
  simp only [Machine.searchSupers, h.searchChain, h.supers]

theorem searchWithin {α : Type} (h : m.SameHierarchy m') (find : ClassId → Option α) :
    ∀ depth ids, m'.searchWithin find depth ids = m.searchWithin find depth ids
  | 0, _ => rfl
  | depth + 1, ids => by simp only [Machine.searchWithin, h.interfaces, h.searchWithin find depth]

theorem isSubInterface (h : m.SameHierarchy m') (id interface : ClassId) :
    m'.isSubInterface id interface = m.isSubInterface id interface := by
  rw [Machine.isSubInterface, Machine.searchInterfaces, h.size, h.interfaces, h.searchWithin]
  rfl

theorem assignableSearch (h : m.SameHierarchy m') (target source : ClassId) :
    m'.assignableSearch target source = m.assignableSearch target source := by
  simp only [Machine.assignableSearch, Class.isInterface, subclassSearch,
    implementingSearch, h.flags, h.name, h.searchSupers, h.searchChain, h.isSubInterface]

theorem isArraySupertype (h : m.SameHierarchy m') (target : ClassId) :
    m'.isArraySupertype target = m.isArraySupertype target := by
  rw [Machine.isArraySupertype, Class.isInterface, h.flags, h.name]
  rfl

end SameHierarchy

/-- Whether an object is an instance of a class that is no array class. -/
def instanceSearch (m : Machine) (a : Address) (id : ClassId) : Search Unit :=
  if id = m.classOf a then .found ()
  else if (m.cls (m.classOf a)).isArray then .ofBool (m.isArraySupertype id)
  else m.assignableSearch id (m.classOf a)

theorem instanceSearch_withComponent (m : Machine) (id k : ClassId) (b : Address)
    (component : ClassId) :
    (m.withComponent id k).instanceSearch b component = m.instanceSearch b component := by
  have hsame := SameHierarchy.withComponent m id k
  have hclassOf : (m.withComponent id k).classOf b = m.classOf b := rfl
  have harray : ((m.withComponent id k).cls (m.classOf b)).isArray = (m.cls (m.classOf b)).isArray := by
    rw [Class.isArray, hsame.name]
    rfl
  rw [instanceSearch, hsame.isArraySupertype, hsame.assignableSearch, hclassOf, harray]
  rfl

/-- Whether an object is an instance of a class that is no array class, if this comes to an end. -/
def isInstanceOf (m : Machine) (a : Address) (id : ClassId) : Bool :=
  id = m.classOf a ||
    if (m.cls (m.classOf a)).isArray then m.isArraySupertype id
      else m.isObjectAssignable id (m.classOf a)

theorem isInstanceOf_eq (m : Machine) (a : Address) (id : ClassId) :
    m.isInstanceOf a id = (m.instanceSearch a id).found?.isSome := by
  rw [isInstanceOf, instanceSearch]
  by_cases hsame : id = m.classOf a
  · rw [decide_eq_true hsame, if_pos hsame]
    rfl
  rw [decide_eq_false hsame, Bool.false_or, if_neg hsame]
  split
  · rw [Search.found?_ofBool]
  · rfl

theorem className_withComponent (m : Machine) (id k : ClassId) (b : Address) :
    (m.withComponent id k).className b = m.className b :=
  (SameHierarchy.withComponent m id k).name _

/-- The directories have no file of another class under the name. -/
def FileNamed (m : Machine) (name : String) : Prop := ∀ bytes file, m.classFile? name = some bytes →
  ClassFile.decode bytes = .ok file → file.name? = some name

/-- `id` is the array class of the class `component`. -/
structure IsArrayClassOf (m : Machine) (id component : ClassId) : Prop where
  name : (m.cls id).name = ArrayName.ofComponent (m.cls component).name
  component : outcome (VM.component? id) m = (.ok (some component), m.withComponent id component)
  storage : ∀ length,
    ObjectData.newArray? (m.cls id).name length = some (.references (Array.replicate length none))

/-- An array class whose arrays hold no references. -/
structure IsPrimitiveArrayClass (m : Machine) (id : ClassId) : Prop where
  component : outcome (VM.component? id) m = (.ok none, m)
  storage : ∀ length data, ObjectData.newArray? (m.cls id).name length = some data →
    data.elementKind? ≠ some .reference

end Machine

namespace VM

open Machine

variable {m m' : Machine} {id component : ClassId} {name : String}

theorem outcome_isInstance_of_noArray (h : (m.cls id).isArray = false) (a : Address) :
    outcome (isInstance a id) m = match m.instanceSearch a id with
      | .found _ => (.ok true, m)
      | .absent => (.ok false, m)
      | .endless => (.error .endless, m) := by
  rw [outcome_isInstance, isAssignable, outcome_bind_of_ok (outcome_get m), assignabilityBound, h]
  rw [Bool.false_and, if_neg Bool.false_ne_true, isAssignableWithin,
    outcome_bind_of_ok (outcome_get m), instanceSearch, h]
  by_cases hsame : id = m.classOf a
  · rw [if_pos hsame, if_pos hsame]
    rfl
  rw [if_neg hsame, if_neg hsame]
  cases (m.cls (m.classOf a)).isArray with
  | true => cases m.isArraySupertype id <;> rfl
  | false =>
    change outcome (ofSearch (m.assignableSearch id (m.classOf a)) >>= fun found =>
      pure found.isSome) m = _
    cases m.assignableSearch id (m.classOf a) <;> rfl

/-- The component class of an array class is the class that has the name of its components. -/
theorem outcome_component?_of_name (hm : m.Regular) (hname : (m.cls id).componentName? = some name)
    (hbound : m.lookup? name = some component) (hfile : m.FileNamed name) :
    outcome (component? id) m = (.ok (some component), m.withComponent id component) := by
  rw [component?_eq, outcome_bind_of_ok (outcome_cls id), hname]
  dsimp only
  rcases hkept : (m.cls id).component with _ | k <;> dsimp only
  · rw [outcome_bind_of_ok (outcome_load_of_bound hbound), outcome_bind_of_ok (outcome_modifyClass ..)]
    rfl
  · obtain ⟨hloaded, name', hname', hanswers⟩ := hm.component id k hkept
    cases hname.symm.trans hname'
    have hcalled : (m.cls k).name = name := by
      rcases hanswers with hcalled | ⟨-, bytes, file, hfound, hdecode, hother⟩
      · exact hcalled
      · exact Option.some.inj (hother.symm.trans (hfile bytes file hfound hdecode))
    rw [hcalled, hbound] at hloaded
    cases hloaded
    rw [withComponent_self hkept]
    rfl

/-! ### Loads of array classes -/

/-- A load of the name of an array class gives a class of this name. -/
theorem name_of_load_array (hm : m.Regular) (harray : ArrayName.isArray name = true)
    (hload : outcome (load name) m = (.ok id, m')) : (m'.cls id).name = name := by
  rcases (load_faithful m name hm.coherent _ _ hload trivial).given id rfl with ⟨-, hcalled | hmisnamed⟩
  · exact hcalled
  · cases hmisnamed.noArray.symm.trans harray

/-- An array class loads if its name is that of a type, and the classes above all array classes load. -/
theorem load_array_iff (hm : m.Regular) (harray : ArrayName.isArray name = true) :
    (∃ id m', outcome (load name) m = (.ok id, m')) ↔ m.isLoaded name = true ∨
      (FieldType.parse name).isSome = true ∧
        ∃ parents m', outcome (Loader.arrayParents load) m = (.ok parents, m') := by
  rw [Machine.isLoaded]
  rcases hbound : m.lookup? name with _ | id
  · rw [outcome_load_of_array hm.coherent.sound hbound harray, Loader.defineArray_eq]
    rcases hparse : FieldType.parse name with _ | type
    · simp [outcome_raise]
    · rcases hparents : outcome (Loader.arrayParents load) m with ⟨e | parents, m₁⟩
      · simp [outcome_bind_of_error hparents]
      · obtain ⟨inherited, hmade⟩ := Loader.outcome_arrayClass load name parents m₁
        refine iff_of_true ?_ (.inr ⟨rfl, parents, m₁, rfl⟩)
        rw [if_neg (by simp), outcome_bind_of_ok hparents, outcome_bind_of_ok hmade]
        exact ⟨_, _, rfl⟩
  · simp [outcome_load_of_bound hbound]

end VM

namespace Machine

variable {m m' : Machine} {id component : ClassId} {name : String}

/-! ### Classes that are found by their array classes -/

/-- A loaded class that is found by taking apart the name of its array class. -/
structure NamesArrays (m : Machine) (component : ClassId) : Prop where
  loaded : m.Loaded component
  noArray : (m.cls component).isArray = false
  noLetter : ArrayName.isPrimitive (m.cls component).name = false
  fileNamed : m.FileNamed (m.cls component).name

namespace NamesArrays

/-- A class that has the name of the array class is the array class. -/
theorem isArrayClassOf (h : m.NamesArrays component) (hm : m.Regular)
    (hname : (m.cls id).name = ArrayName.ofComponent (m.cls component).name) :
    m.IsArrayClassOf id component := by
  have hcomponent : (m.cls id).componentName? = some (m.cls component).name := by
    rw [Class.componentName?, hname, ArrayName.component?_ofComponent h.noArray h.noLetter]
    simp [h.noLetter]
  refine ⟨hname, VM.outcome_component?_of_name hm hcomponent h.loaded h.fileNamed, fun length => ?_⟩
  rw [hname]
  exact ArrayName.newArray?_ofComponent h.noArray h.noLetter length

/-- Classes that are loaded later do not change what the class is called. -/
theorem of_load (h : m.NamesArrays component) (hm : m.Regular)
    (hload : outcome (VM.load name) m = (.ok id, m')) :
    m'.NamesArrays component ∧ (m'.cls component).name = (m.cls component).name := by
  have hgrows := (VM.load_faithful m name hm.coherent _ _ hload trivial).grows
  obtain ⟨-, hevolves, -⟩ := VM.Steady.load name m _ _ hm hload trivial
  have hname := (hevolves.later component (h.loaded.lt hm.coherent.sound)).name
  refine ⟨⟨?_, ?_, hname ▸ h.noLetter, ?_⟩, hname⟩
  · rw [Loaded, hname]
    exact hevolves.bound _ _ h.loaded
  · rw [Class.isArray, hname]
    exact h.noArray
  · rw [hname, FileNamed, classFile?, hgrows.directories]
    exact h.fileNamed

/-- What a load of the name of the array class gives is the array class. -/
theorem found (h : m.NamesArrays component) (hm : m.Regular)
    (hload : outcome (VM.load (ArrayName.ofComponent (m.cls component).name)) m = (.ok id, m')) :
    m'.IsArrayClassOf id component := by
  obtain ⟨hm', -⟩ := VM.Steady.load _ m _ _ hm hload trivial
  obtain ⟨h', hname⟩ := h.of_load hm hload
  refine h'.isArrayClassOf hm' ?_
  rw [hname, VM.name_of_load_array hm (ArrayName.isArray_ofComponent _) hload]

end NamesArrays

end Machine

namespace Exec

variable {natives : Natives} {operands : Operands} {s t : Running} {a : Address}
  {component id : ClassId} {count : Nat}
  {index : Int32} {value : Option Address} {rest : Thread} {m m' : Machine}

/-! ### Making an array -/

/-- What was popped leaves room for a slot. -/
theorem exists_push?_of_popInt? {stack below : OperandStack} {n : Int32}
    (h : stack.popInt? = some (n, below))
    (slot : Slot) : ∃ above, below.push? slot = some above := by
  obtain ⟨⟨_, _⟩, hpop, hrest⟩ := Option.bind_eq_some_iff.mp h
  cases hrest
  unfold OperandStack.pop? at hpop
  split at hpop <;> cases hpop
  rename_i hused
  exact ⟨_, dif_pos (by simp only [Array.size_set]; omega)⟩

/-- A count is popped, and refused if it is negative. -/
theorem outcome_popCount {top : Frame} {callers : List Frame} {stack : OperandStack} {n : Int32}
    (hframes : s.thread.frames = top :: callers) (hpop : top.stack.popInt? = some (n, stack)) :
    outcome popCount s =
      (if n < 0 then .error (.fault (.exception ExceptionName.negativeArraySize (toString n)))
        else .ok n.toInt.toNat,
        ⟨s.machine, { s.thread with frames := { top with stack } :: callers }⟩) := by
  unfold popCount popInt
  rw [outcome_bind_of_ok (outcome_onStack hframes hpop)]
  dsimp only
  split <;> rfl

theorem outcome_pushReference {top : Frame} {callers : List Frame} {stack : OperandStack}
    {r : Option Address}
    (hframes : s.thread.frames = top :: callers) (hpush : top.stack.push? (.ref r) = some stack) :
    outcome (pushReference r) s =
      (.ok ⟨⟩, ⟨s.machine, { s.thread with frames := { top with stack } :: callers }⟩) := by
  have hpushed : top.stack.pushValue? (.reference r) = some stack := by
    rw [OperandStack.pushValue?, Value.slots, OperandStack.pushAll?, hpush]
    rfl
  rw [pushReference, outcome_push hframes]
  dsimp only
  rw [hpushed]

/-- An anewarray of a class: its class reference has been resolved and the count popped. -/
inductive AsksArray (operands : Operands) (s : Running) (component : ClassId) : (count : Nat) →
      Running → Prop where
  | mk {top : Frame} {callers : List Frame} {stack : OperandStack} {index : UInt16}
      {m : Machine} {n : Int32}
      (frames : s.thread.frames = top :: callers) (operand : operands.poolIndex? = some index)
      (resolves : outcome (VM.resolveClass top.owner index) s.machine = (.ok component, m))
      (pops : top.stack.popInt? = some (n, stack)) (nonnegative : ¬ n < 0) :
      AsksArray operands s component n.toInt.toNat
        ⟨m, { s.thread with frames := { top with stack } :: callers }⟩

/-- What an anewarray does once it has its operands. -/
def pushArrayOf (component : ClassId) (count : Nat) : Exec Unit := do
  let id ← VM.load (ArrayName.ofComponent ((← machine).cls component).name)
  pushReference (some (← VM.newArray id count))

theorem outcome_anewarray (h : AsksArray operands s component count t) :
    outcome (execute natives ⟨.anewarray, operands⟩) s = outcome (pushArrayOf component count) t := by
  cases h with
  | @mk top callers stack index m n frames operand resolves pops nonnegative =>
    have howner : outcome owner s = (.ok top.owner, s) := by
      unfold owner
      rw [outcome_bind_of_ok (outcome_frame frames)]
      rfl
    have hindex : outcome (poolIndex ⟨.anewarray, operands⟩) s = (.ok index, s) := by
      rw [poolIndex, operand]
      rfl
    have hcount : outcome popCount ⟨m, s.thread⟩ =
        (.ok n.toInt.toNat, ⟨m, { s.thread with frames := { top with stack } :: callers }⟩) := by
      rw [outcome_popCount (s := ⟨m, s.thread⟩) frames pops, if_neg nonnegative]
    change outcome (newReferenceArray ⟨.anewarray, operands⟩) s = _
    unfold newReferenceArray
    rw [outcome_bind_of_ok howner, outcome_bind_of_ok hindex,
      outcome_bind_of_ok (outcome_lift_of_ok resolves), outcome_bind_of_ok hcount]
    rfl

/-- There is room for the array where the count was. -/
theorem AsksArray.pushes (h : AsksArray operands s component count t) (m : Machine)
    (r : Option Address) :
    ∃ u, outcome (pushReference r) ⟨m, t.thread⟩ = (.ok ⟨⟩, u) := by
  cases h with
  | @mk top callers stack index m' n frames operand resolves pops nonnegative =>
    obtain ⟨above, hpush⟩ := exists_push?_of_popInt? pops (.ref r)
    exact ⟨_, outcome_pushReference rfl hpush⟩

/-- The array that an anewarray makes is of the array class of the class that it refers to. -/
theorem anewarray_makes {data : ObjectData} (h : AsksArray operands s component count t)
    (hload : outcome (VM.load (ArrayName.ofComponent (t.machine.cls component).name)) t.machine =
      (.ok id, m')) (hnew : ObjectData.newArray? (m'.cls id).name count = some data) :
    ∃ u, outcome (execute natives ⟨.anewarray, operands⟩) s = (.ok ⟨⟩, u) ∧
      outcome (pushReference (some ⟨m'.heap.size⟩)) ⟨m'.withObject ⟨id, data⟩, t.thread⟩ =
        (.ok ⟨⟩, u) := by
  have hmade : outcome (VM.newArray id count) m' = (.ok ⟨m'.heap.size⟩, m'.withObject ⟨id, data⟩) := by
    unfold VM.newArray
    rw [outcome_bind_of_ok (VM.outcome_cls id)]
    dsimp only
    rw [hnew]
    rfl
  obtain ⟨u, hpush⟩ := h.pushes (m'.withObject ⟨id, data⟩) (some ⟨m'.heap.size⟩)
  refine ⟨u, ?_, hpush⟩
  rw [outcome_anewarray h, pushArrayOf, outcome_bind_of_ok outcome_machine,
    outcome_bind_of_ok (outcome_lift_of_ok hload), outcome_bind_of_ok (outcome_lift_of_ok hmade)]
  exact hpush

/-! ### Storing into an array -/

/-- The operands of an aastore, which are popped. -/
inductive StoresIn (s : Running) (a : Address) (index : Int32) (value : Option Address) :
    Thread → Prop where
  | mk {top : Frame} {callers : List Frame} {above between below : OperandStack}
      (frames : s.thread.frames = top :: callers) (popsValue : top.stack.popReference? =
        some (value, above))
      (popsIndex : above.popInt? = some (index, between)) (popsArray : between.popReference? =
        some (some a, below)) :
      StoresIn s a index value { s.thread with frames := { top with stack := below } :: callers }

/-- An aastore checks the value first. -/
theorem outcome_aastore (h : StoresIn s a index value rest) :
    outcome (execute natives ⟨.aastore, operands⟩) s =
    outcome (do
      checkStorable a (.reference value)
      let index ← elementIndex a index
      let isBoolean := (← machine).className a = "[Z"
      if ((← machine).object a).data.elementKind? = some .reference then
        VM.modifyData a (·.store isBoolean index (.reference value))
      else wrongArray ⟨.aastore, operands⟩ a) ⟨s.machine, rest⟩ := by
  cases h with
  | @mk top callers above between below frames hvalue hindex harray =>
    have hfirst : outcome (popElement .reference) s =
        (.ok (.reference value),
          ⟨s.machine, { s.thread with frames := { top with stack := above } :: callers }⟩) := by
      change outcome (popReference >>= fun r => pure (Value.reference r)) s = _
      unfold popReference
      rw [outcome_bind_of_ok (outcome_onStack frames hvalue)]
      rfl
    let t : Running := ⟨s.machine, { s.thread with frames := { top with stack := above } :: callers }⟩
    have hframes : t.thread.frames = { top with stack := above } :: callers := rfl
    have hsecond : outcome popInt t =
        (.ok index, ⟨s.machine,
          { s.thread with frames := { top with stack := between } :: callers }⟩) :=
      (outcome_onStack hframes hindex :)
    change outcome (storeElement ⟨.aastore, operands⟩ .reference) s = _
    unfold storeElement
    rw [outcome_bind_of_ok hfirst, outcome_bind_of_ok hsecond,
      outcome_bind_of_ok (outcome_popObject rfl harray)]
    rfl

/-- Refuses objects that are no instances of the component class. -/
def requireInstance (component : ClassId) (b : Address) : Exec Unit := do
  if !(← VM.isInstance b component) then raise ExceptionName.arrayStore ((← machine).className b)

theorem outcome_requireInstance_of_error {b : Address} {e : Failure}
    (h : outcome (VM.isInstance b component) m = (.error e, m')) :
    outcome (requireInstance component b) ⟨m, rest⟩ = (.error e, ⟨m', rest⟩) := by
  exact outcome_bind_of_error (by rw [outcome_lift, h])

theorem outcome_requireInstance {b : Address} {holds : Bool}
    (h : outcome (VM.isInstance b component) m = (.ok holds, m)) :
    outcome (requireInstance component b) ⟨m, rest⟩ =
      (if holds then .ok ⟨⟩
        else .error (.fault (.exception ExceptionName.arrayStore (m.className b))), ⟨m, rest⟩) := by
  rw [requireInstance, outcome_bind_of_ok (outcome_lift_of_ok h)]
  cases holds <;> rfl

/-- Only objects are refused. -/
theorem outcome_checkStorable (hcomponent : outcome (VM.component? (m.classOf a)) m =
      (.ok (some component), m')) :
    outcome (checkStorable a (.reference value)) ⟨m, rest⟩ =
      outcome (forM value (requireInstance component)) ⟨m', rest⟩ := by
  unfold checkStorable
  rw [outcome_bind_of_ok outcome_machine, outcome_bind_of_ok (outcome_lift_of_ok hcomponent)]
  cases value <;> rfl

/-- An aastore takes what is null or an instance of the component class. -/
theorem aastore_accepts {elements : Array (Option Address)} (h : StoresIn s a index value rest)
    (hcomponent : outcome (VM.component? (s.machine.classOf a)) s.machine = (.ok (some component), m))
    (hdata : (m.object a).data = .references elements)
    (hindex : 0 ≤ index ∧ index.toInt < elements.size)
    (hvalue : ∀ b, value = some b → outcome (VM.isInstance b component) m = (.ok true, m)) :
    outcome (execute natives ⟨.aastore, operands⟩) s =
      (.ok ⟨⟩, ⟨m.withData a (.references (elements.setIfInBounds index.toInt.toNat value)),
        rest⟩) := by
  have hcheck : outcome (checkStorable a (.reference value)) ⟨s.machine, rest⟩ =
      (.ok ⟨⟩, ⟨m, rest⟩) := by
    rw [outcome_checkStorable hcomponent]
    cases value with
    | none => rfl
    | some b =>
      rw [Option.forM_some, outcome_requireInstance (hvalue b rfl)]
      rfl
  have helement : outcome (elementIndex a index) ⟨m, rest⟩ = (.ok index.toInt.toNat, ⟨m, rest⟩) := by
    have hinside : 0 ≤ index ∧
        index.toInt < ((ObjectData.references elements).length?.getD 0 : Nat) := hindex
    unfold elementIndex
    rw [outcome_bind_of_ok outcome_machine]
    dsimp only
    rw [hdata, checkIndex, if_pos hinside]
    rfl
  have hkind : (ObjectData.references elements).elementKind? = some .reference := rfl
  rw [outcome_aastore h, outcome_bind_of_ok hcheck, outcome_bind_of_ok helement,
    outcome_bind_of_ok outcome_machine, outcome_bind_of_ok outcome_machine]
  dsimp only
  rw [hdata, if_pos hkind, outcome_lift, VM.outcome_modifyData, hdata]
  rfl

/-- An aastore refuses what is no instance of the component class. -/
theorem aastore_refuses {b : Address} (h : StoresIn s a index (some b) rest)
    (hcomponent : outcome (VM.component? (s.machine.classOf a)) s.machine = (.ok (some component), m))
    (hvalue : outcome (VM.isInstance b component) m = (.ok false, m)) :
    outcome (execute natives ⟨.aastore, operands⟩) s =
      (.error (.fault (.exception ExceptionName.arrayStore (m.className b))), ⟨m, rest⟩) := by
  refine (outcome_aastore h).trans (outcome_bind_of_error ?_)
  rw [outcome_checkStorable hcomponent, Option.forM_some, outcome_requireInstance hvalue]
  rfl

/-- An aastore has no end if the question about its value has none. -/
theorem aastore_endless {b : Address} (h : StoresIn s a index (some b) rest)
    (hcomponent : outcome (VM.component? (s.machine.classOf a)) s.machine = (.ok (some component), m))
    (hvalue : outcome (VM.isInstance b component) m = (.error .endless, m')) :
    outcome (execute natives ⟨.aastore, operands⟩) s = (.error .endless, ⟨m', rest⟩) := by
  refine (outcome_aastore h).trans (outcome_bind_of_error ?_)
  rw [outcome_checkStorable hcomponent, Option.forM_some, outcome_requireInstance_of_error hvalue]

end Exec

namespace Machine

/-! ### Array classes of classes -/

open Exec in
/-- A class has an array class, arrays of which are made and stored into. -/
structure HasArrayClass (natives : Natives) (m : Machine) (component : ClassId) : Prop where
  /-- It loads if its name is that of a type, and the classes above all array classes load. -/
  loads : (∃ id m', outcome (VM.load (ArrayName.ofComponent (m.cls component).name)) m = (.ok id, m')) ↔
    m.isLoaded (ArrayName.ofComponent (m.cls component).name) = true ∨
    ArrayName.Describable (m.cls component).name ∧
      ∃ parents m', outcome (Loader.arrayParents VM.load) m = (.ok parents, m')
  found : ∀ id m', outcome (VM.load (ArrayName.ofComponent (m.cls component).name)) m = (.ok id, m') →
    m'.IsArrayClassOf id component
  makes : ∀ operands s count t id m', AsksArray operands s component count t → t.machine = m →
    outcome (VM.load (ArrayName.ofComponent (m.cls component).name)) m = (.ok id, m') →
      ∃ u, outcome (execute natives ⟨.anewarray, operands⟩) s = (.ok ⟨⟩, u) ∧
        outcome (pushReference (some ⟨m'.heap.size⟩))
          ⟨m'.withObject ⟨id, .references (Array.replicate count none)⟩, t.thread⟩ = (.ok ⟨⟩, u)
  /-- Whether an object is an instance of the class can be told at once, unless its super classes
  have no end. -/
  instances : ∀ b, m.instanceSearch b component ≠ .endless →
    outcome (VM.isInstance b component) m = (.ok (m.isInstanceOf b component), m)
  accepts : ∀ operands s a elements index value rest, s.machine = m → StoresIn s a index value rest →
    m.lookup? (ArrayName.ofComponent (m.cls component).name) = some (m.classOf a) →
      (m.object a).data = .references elements → 0 ≤ index ∧ index.toInt < elements.size →
        (∀ b, value = some b → m.isInstanceOf b component = true) →
          outcome (execute natives ⟨.aastore, operands⟩) s = (.ok ⟨⟩,
            ⟨(m.withComponent (m.classOf a) component).withData a
              (.references (elements.setIfInBounds index.toInt.toNat value)), rest⟩)
  refuses : ∀ operands s a index b rest, s.machine = m → StoresIn s a index (some b) rest →
    m.lookup? (ArrayName.ofComponent (m.cls component).name) = some (m.classOf a) →
      m.instanceSearch b component = .absent →
        outcome (execute natives ⟨.aastore, operands⟩) s =
          (.error (.fault (.exception ExceptionName.arrayStore (m.className b))),
            ⟨m.withComponent (m.classOf a) component, rest⟩)
  /-- The super classes of an object may run in a circle. -/
  endless : ∀ operands s a index b rest, s.machine = m → StoresIn s a index (some b) rest →
    m.lookup? (ArrayName.ofComponent (m.cls component).name) = some (m.classOf a) →
      m.instanceSearch b component = .endless →
        outcome (execute natives ⟨.aastore, operands⟩) s =
          (.error .endless, ⟨m.withComponent (m.classOf a) component, rest⟩)

variable {natives : Natives} {m : Machine} {id component : ClassId}

theorem NamesArrays.hasArrayClass (h : m.NamesArrays component) (hm : m.Regular) :
    m.HasArrayClass natives component := by
  have hkept : ∀ a, m.lookup? (ArrayName.ofComponent (m.cls component).name) = some (m.classOf a) →
      outcome (VM.component? (m.classOf a)) m =
      (.ok (some component), m.withComponent (m.classOf a) component) :=
    fun a ha => (h.isArrayClassOf hm (hm.coherent.named _ _ ha)).component
  -- That the component class is kept makes no difference to what is an instance.
  have hinstances : ∀ a b, outcome (VM.isInstance b component)
      (m.withComponent (m.classOf a) component) =
      match m.instanceSearch b component with
      | .found _ => (.ok true, m.withComponent (m.classOf a) component)
      | .absent => (.ok false, m.withComponent (m.classOf a) component)
      | .endless => (.error .endless, m.withComponent (m.classOf a) component) := by
    intro a b
    rw [VM.outcome_isInstance_of_noArray, instanceSearch_withComponent]
    rw [Class.isArray, (SameHierarchy.withComponent m (m.classOf a) component).name]
    exact h.noArray
  constructor
  case loads =>
    rw [VM.load_array_iff hm (ArrayName.isArray_ofComponent _),
      ArrayName.parse_ofComponent h.noArray h.noLetter]
  case found => exact fun id m' hload => h.found hm hload
  case makes =>
    rintro operands s count t id m' hasks rfl hload
    exact Exec.anewarray_makes hasks hload ((h.found hm hload).storage count)
  case instances =>
    intro b hends
    rw [VM.outcome_isInstance_of_noArray h.noArray, isInstanceOf_eq]
    cases hsearch : m.instanceSearch b component with
    | found => rfl
    | absent => rfl
    | endless => exact absurd hsearch hends
  case accepts =>
    rintro operands s a elements index value rest rfl hstores ha hdata hindex hvalue
    refine Exec.aastore_accepts hstores (hkept a ha) hdata hindex fun b hb => ?_
    have hfound := Search.found?_isSome.mp ((isInstanceOf_eq ..).symm.trans (hvalue b hb))
    rw [hinstances, hfound]
  case refuses =>
    rintro operands s a index b rest rfl hstores ha hvalue
    rw [Exec.aastore_refuses hstores (hkept a ha) (by rw [hinstances, hvalue]), className_withComponent]
  case endless =>
    rintro operands s a index b rest rfl hstores ha hvalue
    exact Exec.aastore_endless hstores (hkept a ha) (by rw [hinstances, hvalue])

/-- A class that has the name that a primitive letter makes is the array class of a primitive type. -/
theorem isPrimitiveArrayClass {name : String} (hletter : ArrayName.isPrimitive name = true)
    (hname : (m.cls id).name = ArrayName.ofComponent name) : m.IsPrimitiveArrayClass id := by
  obtain ⟨hnone, hkinds⟩ := ArrayName.primitive_ofComponent hletter
  refine ⟨?_, by rw [hname]; exact hkinds⟩
  rw [VM.component?_eq, outcome_bind_of_ok (VM.outcome_cls id), Class.componentName?, hname, hnone]
  rfl

end Machine

namespace Session

open Machine

variable {natives : Natives} {directories : List Directory} {es : List Event} {S : Session}
  {component : ClassId}

/-- A loaded class that is no array class has an array class, unless it is called like a primitive
type. -/
theorem array_class (hnatives : natives.Orderly) (hrun : Run natives (.start directories) es S)
    (hloaded : S.machine.Loaded component) (hclass : (S.machine.cls component).isArray = false)
    (hfile : S.machine.FileNamed (S.machine.cls component).name) :
    (ArrayName.isPrimitive (S.machine.cls component).name = false →
      S.machine.HasArrayClass natives component) ∧
      (ArrayName.isPrimitive (S.machine.cls component).name = true → ∀ id m',
        outcome (VM.load (ArrayName.ofComponent (S.machine.cls component).name)) S.machine =
          (.ok id, m') → m'.IsPrimitiveArrayClass id) := by
  have hm := hrun.regular hnatives
  refine ⟨fun hletter => ?_, fun hletter id m' hload => ?_⟩
  · have hnames : S.machine.NamesArrays component := ⟨hloaded, hclass, hletter, hfile⟩
    exact hnames.hasArrayClass hm
  · have hname := VM.name_of_load_array hm (ArrayName.isArray_ofComponent _) hload
    exact isPrimitiveArrayClass hletter hname

/-! ### Classes with names of one letter -/

/-- The class files that arrays need, and a class with a name. -/
def defineNamed (name : String) : VM ClassId := do
  let _ ← VM.define (.build ClassName.object none (pure ()))
  let _ ← VM.define (Library.markerInterface ClassName.cloneable)
  let _ ← VM.define (Library.markerInterface ClassName.serializable)
  VM.define (.build name (some ClassName.object) (pure ()))

def knowing (name : String) : Session := ⟨(outcome (defineNamed name) (.start [])).2, []⟩

theorem run_knowing {name : String} (h : Completes (outcome (defineNamed name) (.start [])).1) :
    Run .standard (.start []) [] (knowing name) := by
  have horderly : VM.Orderly (defineNamed name) :=
    .bind (.define _) fun _ => .bind (.define _) fun _ => .bind (.define _) fun _ => .define _
  exact .host .start horderly rfl h

theorem array_class_A : (knowing "A").machine.HasArrayClass .standard ⟨3⟩ ∧
    ∃ m', outcome (VM.load "[LA;") (knowing "A").machine = (.ok ⟨4⟩, m') := by
  have hdirectories : (knowing "A").machine.directories.isEmpty = true := by decide +kernel
  have hfile : (knowing "A").machine.FileNamed ((knowing "A").machine.cls ⟨3⟩).name := by
    intro bytes file hfound
    obtain ⟨path, -, hread⟩ := Option.bind_eq_some_iff.mp hfound
    rw [List.isEmpty_iff.mp hdirectories] at hread
    cases hread
  have hloaded : (knowing "A").machine.lookup? ((knowing "A").machine.cls ⟨3⟩).name = some ⟨3⟩ := by
    decide +kernel
  have hnamed : ((knowing "A").machine.cls ⟨3⟩).isArray = false ∧
      ArrayName.isPrimitive ((knowing "A").machine.cls ⟨3⟩).name = false := by decide +kernel
  have hrun : Run .standard (.start []) [] (knowing "A") := run_knowing (by decide +kernel)
  exact ⟨(array_class Natives.standard_orderly hrun hloaded hnamed.1 hfile).1 hnamed.2, _,
    outcome_of_toOption (by decide +kernel)⟩

/-- The array class of a class `I` has no component class. -/
theorem not_always_component : ¬ ∀ (directories : List Directory) (es : List Event) (S : Session)
      (component : ClassId)
    (found : Option ClassId), Run .standard (.start directories) es S → S.machine.Loaded component →
      (S.machine.cls component).isArray = false →
        (outcome (VM.load (ArrayName.ofComponent (S.machine.cls component).name) >>= VM.component?)
          S.machine).1.toOption = some found → found = some component := by
  intro h
  have hloaded : (knowing "I").machine.lookup? ((knowing "I").machine.cls ⟨3⟩).name = some ⟨3⟩ := by
    decide +kernel
  have hcomponent := h [] [] (knowing "I") ⟨3⟩ none (run_knowing (by decide +kernel)) hloaded
    (by decide +kernel)
    (by decide +kernel)
  cases hcomponent

end Session

end JavaMachine
