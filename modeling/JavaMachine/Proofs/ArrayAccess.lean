import JavaMachine.Proofs.ArrayClasses
import JavaMachine.Proofs.ArrayCopying
import JavaMachine.Proofs.StackContents

/-!
Array accesses and their errors.

A load looks at the array, then at the index; so does a store of a number (`array_errors_ordered`).
An aastore checks its value in between, so that a value of a wrong class is reported although the
index is out of bounds (`not_always_bounds_first`).
-/

namespace JavaMachine

/-! ### Instructions and operands -/

namespace ElementKind

def load : ElementKind → Opcode
  | int => .iaload
  | long => .laload
  | float => .faload
  | double => .daload
  | reference => .aaload
  | byte => .baload
  | char => .caload
  | short => .saload

def store : ElementKind → Opcode
  | int => .iastore
  | long => .lastore
  | float => .fastore
  | double => .dastore
  | reference => .aastore
  | byte => .bastore
  | char => .castore
  | short => .sastore

end ElementKind

/-- Pops a value of the type that the instructions for a kind of elements handle. -/
def OperandStack.popElement? (s : OperandStack) : ElementKind → Option (Value × OperandStack)
  | .long => s.popLong?.map fun (v, s) => (.long v, s)
  | .float => s.popFloat?.map fun (v, s) => (.float v, s)
  | .double => s.popDouble?.map fun (v, s) => (.double v, s)
  | .reference => s.popReference?.map fun (v, s) => (.reference v, s)
  | .int | .byte | .char | .short => s.popInt?.map fun (v, s) => (.int v, s)

/-- Every index inside of an array; what holds no elements has none. -/
def ObjectData.InBounds (data : ObjectData) (index : Int32) : Prop :=
  0 ≤ index ∧ index.toInt < data.length?.getD 0

instance (data : ObjectData) (index : Int32) : Decidable (data.InBounds index) :=
  inferInstanceAs (Decidable (_ ∧ _))

/-- The exception for an index that is out of bounds. -/
def Fault.outOfBounds (data : ObjectData) (index : Int32) : Fault :=
  .exception ExceptionName.arrayIndexOutOfBounds
    s!"Index {index} out of bounds for length {data.length?.getD 0}"

namespace Exec

variable {s t : Running} {kind : ElementKind} {array : Option Address} {a : Address} {index : Int32}
  {value : Value} {rest : Thread} {i : Instruction}

/-- The operands of an array load, which are popped. -/
inductive LoadsFrom (s : Running) (array : Option Address) (index : Int32) : Thread → Prop where
  | mk {top : Frame} {callers : List Frame} {above below : OperandStack}
      (frames : s.thread.frames = top :: callers)
      (popsIndex : top.stack.popInt? = some (index, above)) (popsArray : above.popReference? =
        some (array, below)) :
      LoadsFrom s array index { s.thread with frames := { top with stack := below } :: callers }

/-- The operands of an array store, which are popped. -/
inductive StoresTo (s : Running) (kind : ElementKind) (array : Option Address)
    (index : Int32) (value : Value) :
    Thread → Prop where
  | mk {top : Frame} {callers : List Frame} {above between below : OperandStack}
      (frames : s.thread.frames = top :: callers) (popsValue : top.stack.popElement? kind =
        some (value, above))
      (popsIndex : above.popInt? = some (index, between)) (popsArray : between.popReference? =
        some (array, below)) :
      StoresTo s kind array index value
        { s.thread with frames := { top with stack := below } :: callers }

/-! ### What is left after the operands -/

/-- The object of a reference that must not be null. -/
def dereference (problem : String) : Option Address → Exec Address
  | some a => return a
  | none => nullPointer problem

/-- Pushes the element of an array. -/
def loadAt (i : Instruction) (kind : ElementKind) (index : Int32) (a : Address) : Exec Unit := do
  let index ← elementIndex a index
  let data := ((← machine).object a).data
  if data.elementKind? = some kind then push (← VM.inRange (data.element? index)) else wrongArray i a

/-- Sets the element of an array. -/
def storeAt (i : Instruction) (kind : ElementKind) (index : Int32) (value : Value)
    (a : Address) : Exec Unit := do
  let index ← elementIndex a index
  let isBoolean := (← machine).className a = "[Z"
  if ((← machine).object a).data.elementKind? =
    some kind then VM.modifyData a (·.store isBoolean index value)
  else wrongArray i a

/-- Stores into an array, references after a check. -/
def checkAndStore (i : Instruction) (kind : ElementKind) (index : Int32) (value : Value)
    (a : Address) : Exec Unit := do
  if kind = .reference then checkStorable a value
  storeAt i kind index value a

theorem outcome_popElement {top : Frame} {callers : List Frame} {stack : OperandStack}
    (hframes : s.thread.frames = top :: callers)
    (hpop : top.stack.popElement? kind = some (value, stack)) :
    outcome (popElement kind) s =
      (.ok value, ⟨s.machine, { s.thread with frames := { top with stack } :: callers }⟩) := by
  cases kind
  all_goals
    obtain ⟨⟨v, stack⟩, hv, heq⟩ := Option.map_eq_some_iff.mp hpop
    cases heq
    exact outcome_bind_of_ok (outcome_onStack hframes hv)

theorem outcome_popNullable (problem : String) {top : Frame} {callers : List Frame}
    {stack : OperandStack}
    (hframes : s.thread.frames = top :: callers)
    (hpop : top.stack.popReference? = some (array, stack)) :
    outcome (popObject problem) s =
      outcome (dereference problem array) ⟨s.machine,
        { s.thread with frames := { top with stack } :: callers }⟩ := by
  unfold popObject popReference
  rw [outcome_bind_of_ok (outcome_onStack hframes hpop)]
  cases array <;> rfl

/-- A load goes on with the array, if there is one. -/
theorem outcome_load (natives : Natives) (operands : Operands) (h : LoadsFrom s array index rest) :
    outcome (execute natives ⟨kind.load, operands⟩) s =
      outcome (dereference "cannot load from a null array" array >>= loadAt ⟨kind.load,
        operands⟩ kind index)
        ⟨s.machine, rest⟩ := by
  cases h with
  | @mk top callers above below frames hindex harray =>
    have hperform : execute natives ⟨kind.load, operands⟩ = loadElement ⟨kind.load, operands⟩
        kind := by cases kind <;> rfl
    have hfirst : outcome popInt s =
        (.ok index, ⟨s.machine, { s.thread with frames := { top with stack := above } :: callers }⟩) :=
      outcome_onStack frames hindex
    let t : Running := ⟨s.machine, { s.thread with frames := { top with stack := above } :: callers }⟩
    have hobject := outcome_popNullable (s := t) "cannot load from a null array" rfl harray
    rw [hperform, loadElement, outcome_bind_of_ok hfirst, outcome_bind, hobject, outcome_bind]
    rfl

/-- A store goes on with the array, if there is one. -/
theorem outcome_store (natives : Natives) (operands : Operands)
    (h : StoresTo s kind array index value rest) :
    outcome (execute natives ⟨kind.store, operands⟩) s =
      outcome (dereference "cannot store to a null array" array >>=
      checkAndStore ⟨kind.store, operands⟩ kind index value) ⟨s.machine, rest⟩ := by
  cases h with
  | @mk top callers above between below frames hvalue hindex harray =>
    have hperform : execute natives ⟨kind.store, operands⟩ = storeElement
        ⟨kind.store, operands⟩ kind := by
      cases kind <;> rfl
    let t : Running := ⟨s.machine, { s.thread with frames := { top with stack := above } :: callers }⟩
    let u : Running := ⟨s.machine, { s.thread with frames := { top with stack := between } :: callers }⟩
    have hframes : t.thread.frames = { top with stack := above } :: callers := rfl
    have hsecond : outcome popInt t = (.ok index, u) := (outcome_onStack hframes hindex :)
    have hobject := outcome_popNullable (s := u) "cannot store to a null array" rfl harray
    rw [hperform, storeElement,
      outcome_bind_of_ok (outcome_popElement frames hvalue), outcome_bind_of_ok hsecond,
      outcome_bind, hobject, outcome_bind]
    rfl

/-! ### Bounds -/

/-- A step that succeeds exactly if an index is in bounds, and ends with the exception for the index
otherwise. -/
structure Bounded (step : Exec Unit) (s : Running) (data : ObjectData) (index : Int32)
    (t : Running) : Prop where
  outside : ¬ data.InBounds index → outcome step s = (.error (.fault (.outOfBounds data index)), t)
  inside : data.InBounds index → ∃ u, outcome step s = (.ok ⟨⟩, u)

theorem Bounded.congr {step step' : Exec Unit} {s s' t : Running} {data : ObjectData} {index : Int32}
    (h : Bounded step s data index t) (hrun : outcome step' s' = outcome step s) :
    Bounded step' s' data index t where
  outside hout := hrun.trans (h.outside hout)
  inside hin := by
    rw [hrun]
    exact h.inside hin

theorem outcome_elementIndex_inside (h : (s.machine.object a).data.InBounds index) :
    outcome (elementIndex a index) s = (.ok index.toInt.toNat, s) := by
  unfold ObjectData.InBounds at h
  unfold elementIndex
  rw [outcome_bind_of_ok outcome_machine, checkIndex, if_pos h]
  rfl

theorem outcome_elementIndex_outside (h : ¬ (s.machine.object a).data.InBounds index) :
    outcome (elementIndex a index) s =
      (.error (.fault (.outOfBounds (s.machine.object a).data index)), s) := by
  unfold ObjectData.InBounds at h
  unfold elementIndex
  rw [outcome_bind_of_ok outcome_machine, checkIndex, if_neg h]
  rfl

/-- An array has elements exactly in bounds. -/
theorem exists_element? {data : ObjectData} (h : data.InBounds index) :
    ∃ value, data.element? index.toInt.toNat = some value := by
  obtain ⟨hzero, hlt⟩ := h
  have hnonneg : 0 ≤ index.toInt := Int32.le_iff_toInt_le.mp hzero
  have hinside : index.toInt.toNat < data.length?.getD 0 := by omega
  cases data with
  | fields slots => exact absurd hinside (Nat.not_lt_zero _)
  | bytes elements | chars elements | shorts elements | ints elements | longs elements | floats elements
  | doubles elements | references elements =>
    have hlt : index.toInt.toNat < elements.size := hinside
    exact ⟨_, by rw [ObjectData.element?, Array.getElem?_eq_getElem hlt]; rfl⟩

theorem outcome_loadAt {value : Value} (hkind : (s.machine.object a).data.elementKind? = some kind)
    (hinside : (s.machine.object a).data.InBounds index)
    (helement : (s.machine.object a).data.element? index.toInt.toNat = some value) :
    outcome (loadAt i kind index a) s = outcome (push value) s := by
  unfold loadAt
  rw [outcome_bind_of_ok (outcome_elementIndex_inside hinside), outcome_bind_of_ok outcome_machine]
  dsimp only
  rw [if_pos hkind, helement]
  rfl

theorem outcome_storeAt (hkind : (s.machine.object a).data.elementKind? = some kind)
    (hinside : (s.machine.object a).data.InBounds index) :
    outcome (storeAt i kind index value a) s = (.ok ⟨⟩, ⟨s.machine.withData a
      ((s.machine.object a).data.store (s.machine.className a = "[Z") index.toInt.toNat value),
        s.thread⟩) := by
  unfold storeAt
  rw [outcome_bind_of_ok (outcome_elementIndex_inside hinside), outcome_bind_of_ok outcome_machine,
    outcome_bind_of_ok outcome_machine, if_pos hkind, outcome_lift, VM.outcome_modifyData]

theorem loadAt_bounded (hkind : (s.machine.object a).data.elementKind? = some kind)
    (hroom : ∀ value, ∃ t, outcome (push value) s = (.ok ⟨⟩, t)) :
    Bounded (loadAt i kind index a) s (s.machine.object a).data index s where
  outside h := outcome_bind_of_error (outcome_elementIndex_outside h)
  inside h := by
    obtain ⟨value, helement⟩ := exists_element? h
    rw [outcome_loadAt hkind h helement]
    exact hroom value

theorem storeAt_bounded (hkind : (s.machine.object a).data.elementKind? = some kind) :
    Bounded (storeAt i kind index value a) s (s.machine.object a).data index s where
  outside h := outcome_bind_of_error (outcome_elementIndex_outside h)
  inside h := ⟨_, outcome_storeAt hkind h⟩

/-! ### Room for what is loaded -/

theorem size_pop? {stack below : OperandStack} {slot : Slot} (h : stack.pop? = some (slot, below)) :
    below.size + 1 = stack.size ∧ stack.size ≤ stack.capacity ∧ below.capacity = stack.capacity := by
  have hcapacity := (OperandStack.keeps_pop? h).capacity
  unfold OperandStack.pop? at h
  split at h <;> cases h
  rename_i hused
  exact ⟨Nat.sub_add_cancel hused.1, hused.2, hcapacity⟩

/-- There is room for every value where the operands of a load were. -/
theorem LoadsFrom.pushes (h : LoadsFrom s array index rest) (m : Machine) (value : Value) :
    ∃ t, outcome (push value) ⟨m, rest⟩ = (.ok ⟨⟩, t) := by
  cases h with
  | @mk top callers above below frames hindex harray =>
    obtain ⟨⟨_, _⟩, hfirst, heq⟩ := Option.bind_eq_some_iff.mp hindex
    cases heq
    obtain ⟨⟨_, _⟩, hsecond, heq⟩ := Option.bind_eq_some_iff.mp harray
    cases heq
    have hroom : below.size + value.slots.length ≤ below.capacity := by
      have hslots : value.slots.length ≤ 2 := by cases value <;> simp [Value.slots]
      have habove := size_pop? hfirst
      have hbelow := size_pop? hsecond
      omega
    obtain ⟨stack, hpush⟩ := OperandStack.exists_pushAll? hroom
    rw [outcome_push rfl]
    dsimp only
    rw [OperandStack.pushValue?, hpush]
    exact ⟨_, rfl⟩

/-! ### Checking what is stored -/

/-- What an aastore into `a` finds out about a reference, before it looks at the index. -/
inductive Checks (m : Machine) (a : Address) : Option Address → Except Failure Unit →
      Machine → Prop where
  | noComponent {value : Option Address} {e : Failure} {m' : Machine}
      (component : outcome (VM.component? (m.classOf a)) m = (.error e, m')) :
      Checks m a value (.error e) m'
  | unrestricted {value : Option Address} {m' : Machine}
      (component : outcome (VM.component? (m.classOf a)) m = (.ok none, m')) :
      Checks m a value (.ok ⟨⟩) m'
  | null {class' : ClassId} {m' : Machine}
      (component : outcome (VM.component? (m.classOf a)) m = (.ok (some class'), m')) :
      Checks m a none (.ok ⟨⟩) m'
  | fits {class' : ClassId} {b : Address} {m₁ m' : Machine}
      (component : outcome (VM.component? (m.classOf a)) m = (.ok (some class'), m₁))
      (answer : outcome (VM.isInstance b class') m₁ = (.ok true, m')) : Checks m a (some b) (.ok ⟨⟩) m'
  | misfit {class' : ClassId} {b : Address} {m₁ m' : Machine}
      (component : outcome (VM.component? (m.classOf a)) m = (.ok (some class'), m₁))
      (answer : outcome (VM.isInstance b class') m₁ = (.ok false, m')) :
      Checks m a (some b) (.error (.fault (.exception ExceptionName.arrayStore (m'.className b)))) m'
  | undecided {class' : ClassId} {b : Address} {e : Failure} {m₁ m' : Machine}
      (component : outcome (VM.component? (m.classOf a)) m = (.ok (some class'), m₁))
      (answer : outcome (VM.isInstance b class') m₁ = (.error e, m')) :
      Checks m a (some b) (.error e) m'

variable {reference : Option Address} {r : Except Failure Unit} {m m' : Machine}

theorem Checks.outcome_eq (h : Checks m a reference r m') :
    outcome (checkStorable a (.reference reference)) ⟨m, rest⟩ = (r, ⟨m', rest⟩) := by
  have hinstance : ∀ {class' b m₁}, outcome (VM.component? (m.classOf a)) m = (.ok (some class'), m₁) →
      outcome (checkStorable a (.reference (some b))) ⟨m, rest⟩ =
      outcome (requireInstance class' b) ⟨m₁, rest⟩ :=
    fun hcomponent => (outcome_checkStorable hcomponent).trans rfl
  cases h with
  | noComponent component =>
    unfold checkStorable
    rw [outcome_bind_of_ok outcome_machine]
    exact outcome_bind_of_error (by rw [outcome_lift, component])
  | unrestricted component =>
    unfold checkStorable
    rw [outcome_bind_of_ok outcome_machine, outcome_bind_of_ok (outcome_lift_of_ok component)]
    cases reference <;> rfl
  | null component => rw [outcome_checkStorable component]; rfl
  | fits component answer =>
    rw [hinstance component, requireInstance, outcome_bind_of_ok (outcome_lift_of_ok answer)]
    rfl
  | misfit component answer =>
    rw [hinstance component, requireInstance, outcome_bind_of_ok (outcome_lift_of_ok answer)]
    rfl
  | undecided component answer =>
    exact (hinstance component).trans (outcome_requireInstance_of_error answer)

/-- Every reference is checked. -/
theorem exists_checks (m : Machine) (a : Address) (reference : Option Address) :
    ∃ r m', Checks m a reference r m' := by
  rcases hcomponent : outcome (VM.component? (m.classOf a)) m with ⟨e | _ | class', m₁⟩
  · exact ⟨_, _, .noComponent hcomponent⟩
  · exact ⟨_, _, .unrestricted hcomponent⟩
  · rcases reference with _ | b
    · exact ⟨_, _, .null hcomponent⟩
    · rcases hanswer : outcome (VM.isInstance b class') m₁ with ⟨e | _ | _, m'⟩
      · exact ⟨_, _, .undecided hcomponent hanswer⟩
      · exact ⟨_, _, .misfit hcomponent hanswer⟩
      · exact ⟨_, _, .fits hcomponent hanswer⟩

/-- Checking a reference stores nothing. -/
theorem Checks.retains (h : Checks m a reference r m') (hm : m.Sound) (hr : Completes r) :
    m.Retains m' := by
  have hfirst : ∀ {found m₁}, outcome (VM.component? (m.classOf a)) m = (found, m₁) →
      Completes found → m.Retains m₁ :=
    fun hrun => VM.Retains.component? _ _ _ _ hm hrun
  have hsecond : ∀ {class' b found m₁}, m.Retains m₁ →
      outcome (VM.isInstance b class') m₁ = (found, m') →
      Completes found → m.Retains m' :=
    fun hm₁ hrun hfound => hm₁.trans (VM.Retains.isInstance _ _ _ _ _ hm₁.sound hrun hfound)
  cases h with
  | noComponent component => exact hfirst component (by obtain ⟨f, rfl⟩ := completes_error hr; trivial)
  | unrestricted component => exact hfirst component trivial
  | null component => exact hfirst component trivial
  | fits component answer => exact hsecond (hfirst component trivial) answer trivial
  | misfit component answer => exact hsecond (hfirst component trivial) answer trivial
  | undecided component answer =>
    exact hsecond (hfirst component trivial) answer (by obtain ⟨f, rfl⟩ := completes_error hr; trivial)

/-! ### Errors -/

theorem lt_of_elementKind (h : (m.object a).data.elementKind? = some kind) : a.index < m.heap.size := by
  refine Nat.lt_of_not_le fun hle => ?_
  rw [show m.object a = default by simp [Machine.object, Array.getD, Nat.not_lt_of_le hle]] at h
  cases h

/-- What is stored into an array of references is a reference. -/
theorem StoresTo.eq_reference (h : StoresTo s .reference array index value rest) :
    value = .reference value.reference? := by
  cases h with
  | mk _ hvalue _ _ =>
    obtain ⟨_, -, heq⟩ := Option.map_eq_some_iff.mp hvalue
    cases heq
    rfl

theorem checkAndStore_of_ne (hkind : kind ≠ .reference) :
    checkAndStore i kind index value a = storeAt i kind index value a := by
  rw [checkAndStore, if_neg hkind]

/-- A store of a reference goes on after a check that succeeds. -/
theorem Checks.store_ok (h : Checks m a reference (.ok ⟨⟩) m') :
    outcome (checkAndStore i .reference index (.reference reference) a) ⟨m, rest⟩ =
      outcome (storeAt i .reference index (.reference reference) a) ⟨m', rest⟩ := by
  rw [checkAndStore, if_pos rfl, outcome_bind_of_ok h.outcome_eq]

theorem Checks.store_error {e : Failure} (h : Checks m a reference (.error e) m') :
    outcome (checkAndStore i .reference index (.reference reference) a) ⟨m, rest⟩ =
      (.error e, ⟨m', rest⟩) := by
  rw [checkAndStore, if_pos rfl, outcome_bind_of_error h.outcome_eq]

theorem LoadsFrom.bounded (h : LoadsFrom s (some a) index rest) (natives : Natives)
    (operands : Operands) (hkind : (s.machine.object a).data.elementKind? = some kind) :
    Bounded (execute natives ⟨kind.load, operands⟩) s (s.machine.object a).data index
      ⟨s.machine, rest⟩ := by
  have hbounded : Bounded (loadAt ⟨kind.load, operands⟩ kind index a) ⟨s.machine, rest⟩
      (s.machine.object a).data index
    ⟨s.machine, rest⟩ := loadAt_bounded hkind (h.pushes s.machine)
  exact hbounded.congr (outcome_load natives operands h)

/-- The index decides about a store of a number. -/
theorem StoresTo.bounded_of_ne (h : StoresTo s kind (some a) index value rest) (natives : Natives)
    (operands : Operands)
    (hkind : (s.machine.object a).data.elementKind? = some kind) (hne : kind ≠ .reference) :
    Bounded (execute natives ⟨kind.store, operands⟩) s (s.machine.object a).data index
      ⟨s.machine, rest⟩ := by
  have hbounded : Bounded (storeAt ⟨kind.store, operands⟩ kind index value a) ⟨s.machine, rest⟩
    (s.machine.object a).data index ⟨s.machine, rest⟩ := storeAt_bounded hkind
  rw [← checkAndStore_of_ne hne] at hbounded
  exact hbounded.congr (outcome_store natives operands h)

/-- The index decides about a store of a reference that has been checked. -/
theorem StoresTo.bounded_of_checks (h : StoresTo s .reference (some a) index value rest)
    (natives : Natives)
    (operands : Operands) (hs : s.machine.Sound)
    (hkind : (s.machine.object a).data.elementKind? = some .reference)
    (hchecks : Checks s.machine a value.reference? (.ok ⟨⟩) m') :
    Bounded (execute natives ⟨.aastore, operands⟩) s (s.machine.object a).data index ⟨m', rest⟩ := by
  have hrun := outcome_store natives operands h
  rw [h.eq_reference] at hrun
  -- Loading the component class leaves the array as it is.
  have hsame : m'.object a = s.machine.object a := (hchecks.retains hs trivial).object a
    (lt_of_elementKind hkind)
  rw [← hsame] at hkind ⊢
  have hbounded : Bounded (storeAt ⟨.aastore, operands⟩ .reference index
      (.reference value.reference?) a) ⟨m', rest⟩
    (m'.object a).data index ⟨m', rest⟩ := storeAt_bounded hkind
  exact hbounded.congr (hrun.trans hchecks.store_ok)

theorem StoresTo.refused (h : StoresTo s .reference (some a) index value rest) (natives : Natives)
    (operands : Operands)
    {e : Failure} (hchecks : Checks s.machine a value.reference? (.error e) m') :
    outcome (execute natives ⟨.aastore, operands⟩) s = (.error e, ⟨m', rest⟩) := by
  have hrun := outcome_store natives operands h
  rw [h.eq_reference] at hrun
  exact hrun.trans hchecks.store_error

/-- The errors of array accesses. A null array comes first. Then the index decides whether a load or
a store of a number succeeds. A store of a reference is checked in between: what the check fails
with comes before the index. -/
theorem array_errors_ordered (hs : s.machine.Reachable) (natives : Natives) (kind : ElementKind)
    (operands : Operands) :
    (∀ array index rest, LoadsFrom s array index rest →
      (array = none → outcome (execute natives ⟨kind.load, operands⟩) s =
        (.error (.fault (.exception ExceptionName.nullPointer "cannot load from a null array")),
          ⟨s.machine, rest⟩)) ∧
      ∀ a, array = some a → (s.machine.object a).data.elementKind? = some kind →
        Bounded (execute natives ⟨kind.load, operands⟩) s (s.machine.object a).data index
          ⟨s.machine, rest⟩) ∧
    ∀ array index value rest, StoresTo s kind array index value rest →
      (array = none → outcome (execute natives ⟨kind.store, operands⟩) s =
        (.error (.fault (.exception ExceptionName.nullPointer "cannot store to a null array")),
          ⟨s.machine, rest⟩)) ∧
      ∀ a, array = some a → (s.machine.object a).data.elementKind? = some kind →
        (kind ≠ .reference →
          Bounded (execute natives ⟨kind.store, operands⟩) s (s.machine.object a).data index
            ⟨s.machine, rest⟩) ∧
        (kind = .reference → ∃ r m', Checks s.machine a value.reference? r m' ∧
          (∀ e, r = .error e →
            outcome (execute natives ⟨kind.store, operands⟩) s = (.error e, ⟨m', rest⟩)) ∧
          (r = .ok ⟨⟩ →
            Bounded (execute natives ⟨kind.store, operands⟩) s (s.machine.object a).data index
              ⟨m', rest⟩)) := by
  refine ⟨fun array index rest h => ⟨?_, ?_⟩, fun array index value rest h => ⟨?_, ?_⟩⟩
  · rintro rfl
    exact outcome_load natives operands h
  · rintro a rfl hkind
    exact h.bounded natives operands hkind
  · rintro rfl
    exact outcome_store natives operands h
  · rintro a rfl hkind
    refine ⟨h.bounded_of_ne natives operands hkind, ?_⟩
    rintro rfl
    obtain ⟨r, m', hchecks⟩ := exists_checks s.machine a value.reference?
    refine ⟨r, m', hchecks, ?_, ?_⟩
    · rintro e rfl
      exact h.refused natives operands hchecks
    · rintro rfl
      exact h.bounded_of_checks natives operands hs.settled.sound hkind hchecks

/-- The class files that arrays need, and an array with two elements. -/
def defineArrayOf (name : String) : VM Unit := do
  let _ ← VM.define (.build ClassName.object none (pure ()))
  let _ ← VM.define (Library.markerInterface ClassName.cloneable)
  let _ ← VM.define (Library.markerInterface ClassName.serializable)
  let _ ← VM.newArray (← VM.load name) 2

def arrayOf (name : String) : Machine := (outcome (defineArrayOf name) (.start [])).2

theorem reachable_arrayOf {name : String} (h : Completes (outcome (defineArrayOf name) (.start [])).1) :
    (arrayOf name).Reachable :=
  have hprogram : VM.Program .none (defineArrayOf name) :=
    .bind (.define _) fun _ => .bind (.define _) fun _ => .bind (.define _) fun _ =>
        .bind (.load _) fun _ =>
      .bind (VM.Program.newArray _ _) fun _ => .pure _
  .program (.start []) Natives.Lawful.none hprogram (Prod.eta _).symm h

/-- A thread with these operands. -/
def holding (slots : Array Slot) : Thread :=
  { (default : Thread) with frames := [{ Frame.start default with stack := ⟨slots, slots.size⟩ }] }

/-- An array of rows is about to be stored as the sixth row of itself. -/
def misplaced : Running := ⟨arrayOf "[[I", holding #[.ref (some ⟨0⟩), .num 5, .ref (some ⟨0⟩)]⟩

/-- The array is no row, so it is refused at any index. -/
theorem array_errors_ordered_rows : ∃ t, outcome (execute .standard ⟨.aastore, .none⟩) misplaced =
    (.error (.fault (.exception ExceptionName.arrayStore "[[I")), t) := by
  have hstores : StoresTo misplaced .reference (some ⟨0⟩) 5 (.reference (some ⟨0⟩)) _ :=
    .mk rfl rfl rfl rfl
  have hkind : (misplaced.machine.object ⟨0⟩).data.elementKind? = some .reference := by decide +kernel
  have hreachable : misplaced.machine.Reachable := reachable_arrayOf (by decide +kernel)
  obtain ⟨r, m', hchecks, herror, -⟩ :=
    (((array_errors_ordered hreachable .standard .reference .none).2 _ _ _ _
    hstores).2 ⟨0⟩ rfl hkind).2 rfl
  have hchecked : outcome (checkStorable ⟨0⟩ (.reference (some ⟨0⟩))) ⟨misplaced.machine, default⟩ =
    (r, ⟨m', default⟩) := hchecks.outcome_eq
  have hr : r = .error (.fault (.exception ExceptionName.arrayStore "[[I")) :=
    (congrArg Prod.fst hchecked).symm.trans (by decide +kernel)
  exact ⟨_, herror _ hr⟩

/-- An index that is out of bounds is not always reported. -/
theorem not_always_bounds_first :
    ¬ ∀ (s : Running) (a : Address) (index : Int32) (value : Value) (rest : Thread),
    s.machine.Reachable → StoresTo s .reference (some a) index value rest →
      (s.machine.object a).data.elementKind? = some .reference →
    ¬ (s.machine.object a).data.InBounds index →
        (outcome (execute .standard ⟨.aastore, .none⟩) s).1 =
          .error (.fault (.outOfBounds (s.machine.object a).data index)) := by
  intro h
  have hraised := h misplaced ⟨0⟩ 5 (.reference (some ⟨0⟩)) _ (reachable_arrayOf (by decide +kernel))
    (.mk rfl rfl rfl rfl) (by decide +kernel) (by decide +kernel)
  revert hraised
  decide +kernel

end Exec

end JavaMachine
