import JavaMachine.Proofs.ArrayAccess

/-!
Elements that are stored into arrays.

What has been stored is loaded again as far as the elements of the array can hold it, and nothing
else is touched; a store that fails touches nothing at all (`array_elements_kept`).
-/

namespace JavaMachine

/-! ### Values as elements -/

namespace ElementKind

variable {kind : ElementKind} {value : Value} {v : Int32}

/-- Values of the type that the instructions for the kind handle. -/
def Handles : ElementKind → Value → Prop
  | .int, .int _ | .byte, .int _ | .char, .int _ | .short, .int _ => True
  | .long, .long _ | .float, .float _ | .double, .double _ | .reference, .reference _ => True
  | _, _ => False

/-- The lowest bits of an int, without a sign. -/
def lowest (bits : Nat) (v : Int32) : Int32 := .ofBitVec ((v.toBitVec.setWidth bits).setWidth 32)

/-- The lowest bits of an int, the highest of them being their sign. -/
def signedLowest (bits : Nat) (v : Int32) : Int32 :=
  .ofBitVec ((v.toBitVec.setWidth bits).signExtend 32)

/-- What an element of the kind keeps of a value: one bit if it is a boolean, 8 or 16 bits if it is
smaller than an int, everything otherwise. -/
def kept (kind : ElementKind) (isBoolean : Bool) (value : Value) : Value :=
  match kind, value with
  | .byte, .int v => .int (if isBoolean then lowest 1 v else signedLowest 8 v)
  | .char, .int v => .int (lowest 16 v)
  | .short, .int v => .int (signedLowest 16 v)
  | _, value => value

theorem toInt32_toInt8 (v : Int32) : v.toInt8.toInt32 = signedLowest 8 v := by
  have hcut : v.toBitVec.signExtend 8 = v.toBitVec.setWidth 8 :=
    BitVec.signExtend_eq_setWidth_of_le _ (by decide)
  rw [← Int32.toBitVec_inj, Int8.toBitVec_toInt32, Int32.toBitVec_toInt8, hcut]
  rfl

theorem toInt32_toInt16 (v : Int32) : v.toInt16.toInt32 = signedLowest 16 v := by
  have hcut : v.toBitVec.signExtend 16 = v.toBitVec.setWidth 16 :=
    BitVec.signExtend_eq_setWidth_of_le _ (by decide)
  rw [← Int32.toBitVec_inj, Int16.toBitVec_toInt32, Int32.toBitVec_toInt16, hcut]
  rfl

theorem toInt32_and_one (v : Int32) : (v &&& 1).toInt8.toInt32 = lowest 1 v := by
  have hbit : ((v.toBitVec &&& 1#32).setWidth 8).signExtend 32 =
      (v.toBitVec.setWidth 1).setWidth 32 := by
    rw [BitVec.and_one_eq_setWidth_ofBool_getLsbD, BitVec.setWidth_one]
    cases v.toBitVec.getLsbD 0 <;> rfl
  rw [toInt32_toInt8, ← Int32.toBitVec_inj]
  exact hbit

/-- What is loaded of a byte that was stored. -/
theorem kept_byte (isBoolean : Bool) (v : Int32) :
    .int ((if isBoolean then v &&& 1 else v).toInt8.toInt32) =
      ElementKind.byte.kept isBoolean (.int v) := by
  cases isBoolean
  · exact congrArg Value.int (toInt32_toInt8 v)
  · exact congrArg Value.int (toInt32_and_one v)

theorem kept_short (isBoolean : Bool) (v : Int32) :
    .int v.toInt16.toInt32 = ElementKind.short.kept isBoolean (.int v) :=
  congrArg Value.int (toInt32_toInt16 v)

end ElementKind

namespace ObjectData

theorem InBounds.toNat_lt {data : ObjectData} {index : Int32} (h : data.InBounds index) :
    index.toInt.toNat < data.length?.getD 0 := by
  have hnonneg : 0 ≤ index.toInt := Int32.le_iff_toInt_le.mp h.1
  have hlt := h.2
  omega

variable {data : ObjectData} {kind : ElementKind} {value : Value} {index : Nat}

theorem length?_store (isBoolean : Bool) (index : Nat) (value : Value) :
    (data.store isBoolean index value).length? = data.length? := by
  cases data <;> cases value <;> simp [store, length?]

/-- Whether elements are booleans makes no difference to arrays of references. -/
theorem store_references (h : data.elementKind? = some .reference)
    (isBoolean isBoolean' : Bool) (index : Nat)
    (value : Value) : data.store isBoolean index value = data.store isBoolean' index value := by
  obtain ⟨elements, rfl⟩ := references_of_kind h
  cases value <;> rfl

theorem getElem?_set_map {α : Type} {elements : Array α} (hindex : index < elements.size)
    (read : α → Value) (element : α)
    (j : Nat) : (elements.setIfInBounds index element)[j]?.map read =
      if index = j then some (read element) else elements[j]?.map read := by
  rw [Array.getElem?_setIfInBounds]
  by_cases hj : index = j
  · rw [if_pos hj, if_pos hj, if_pos hindex]
    rfl
  · rw [if_neg hj, if_neg hj]

/-- A value that is stored is kept as far as an element can, and no other element changes. -/
theorem element?_store (hkind : data.elementKind? = some kind) (hvalue : kind.Handles value)
    (hindex : index < data.length?.getD 0) (isBoolean : Bool) (j : Nat) :
    (data.store isBoolean index value).element? j =
      if index = j then some (kind.kept isBoolean value) else data.element? j := by
  cases data with
  | fields => cases hkind
  | bytes elements =>
    cases hkind
    cases value with
    | int v => rw [← ElementKind.kept_byte]; exact getElem?_set_map hindex _ _ j
    | _ => exact hvalue.elim
  | shorts elements =>
    cases hkind
    cases value with
    | int v => rw [← ElementKind.kept_short]; exact getElem?_set_map hindex _ _ j
    | _ => exact hvalue.elim
  | chars elements | ints elements | longs elements | floats elements | doubles elements
      | references elements =>
    cases hkind
    cases value <;> first
      | exact getElem?_set_map hindex _ _ j
      | exact hvalue.elim

end ObjectData

namespace Exec

variable {natives : Natives} {s t : Running} {kind : ElementKind} {array : Option Address}
  {a : Address} {index : Int32}
  {value : Value} {rest : Thread} {i : Instruction} {operands : Operands} {m m₁ : Machine}

/-! ### Stores that go through -/

theorem StoresTo.handles (h : StoresTo s kind array index value rest) : kind.Handles value := by
  cases h with
  | mk _ hvalue _ _ =>
    cases kind
    all_goals
      obtain ⟨_, -, heq⟩ := Option.map_eq_some_iff.mp hvalue
      cases heq
      trivial

/-- A store goes through in bounds of an array of its kind, and leaves everything as it is otherwise. -/
theorem storeAt_cases (i : Instruction) (kind : ElementKind) (index : Int32) (value : Value)
    (a : Address) (s : Running) :
    ((s.machine.object a).data.elementKind? = some kind ∧ (s.machine.object a).data.InBounds index ∧
      outcome (storeAt i kind index value a) s = (.ok ⟨⟩, ⟨s.machine.withData a
        ((s.machine.object a).data.store (s.machine.className a = "[Z") index.toInt.toNat value),
          s.thread⟩)) ∨
      ∃ f, outcome (storeAt i kind index value a) s = (.error (.fault f), s) := by
  by_cases hin : (s.machine.object a).data.InBounds index
  · by_cases hkind : (s.machine.object a).data.elementKind? = some kind
    · exact .inl ⟨hkind, hin, outcome_storeAt hkind hin⟩
    · right
      unfold storeAt
      rw [outcome_bind_of_ok (outcome_elementIndex_inside hin), outcome_bind_of_ok outcome_machine,
        outcome_bind_of_ok outcome_machine, if_neg hkind]
      exact ⟨_, rfl⟩
  · exact .inr ⟨_, outcome_bind_of_error (outcome_elementIndex_outside hin)⟩

/-- What a store that has gone through leaves: the element holds what it can keep of the value, and
nothing else that was there has changed. -/
structure Stored (kind : ElementKind) (a : Address) (index : Int32) (value : Value)
    (m m' : Machine) : Prop where
  inside : (m.object a).data.InBounds index
  sameClass : m'.classOf a = m.classOf a
  sameKind : (m'.object a).data.elementKind? = some kind
  length : (m'.object a).data.length? = (m.object a).data.length?
  element : (m'.object a).data.element? index.toInt.toNat =
    some (kind.kept (m.className a = "[Z") value)
  others : ∀ j, j ≠ index.toInt.toNat → (m'.object a).data.element? j = (m.object a).data.element? j
  objects : ∀ b, b ≠ a → b.index < m.heap.size → m'.object b = m.object b

theorem stored_of_retains (hretains : m.Retains m₁) (hkind : (m.object a).data.elementKind? = some kind)
    (hin : (m.object a).data.InBounds index) (hvalue : kind.Handles value) : Stored kind a index value m
      (m₁.withData a ((m.object a).data.store (m.className a = "[Z") index.toInt.toNat value)) := by
  have ha := lt_of_elementKind hkind
  have hobject : ∀ data, (m₁.withData a data).object a = ⟨m.classOf a, data⟩ := fun data => by
    rw [Machine.object_withData_self (Nat.lt_of_lt_of_le ha hretains.heap), Machine.classOf,
      hretains.object a ha, Machine.classOf]
  have helement := ObjectData.element?_store hkind hvalue hin.toNat_lt (m.className a = "[Z")
  constructor
  case inside => exact hin
  case sameClass => rw [Machine.classOf, hobject]
  case sameKind => rw [hobject, (ObjectData.store_shape _ _ _ _).2, hkind]
  case length => rw [hobject, ObjectData.length?_store]
  case element => rw [hobject, helement, if_pos rfl]
  case others =>
    intro j hj
    rw [hobject, helement, if_neg hj.symm]
  case objects =>
    intro b hb hthere
    rw [Machine.object_withData_ne hb, hretains.object b hthere]

/-- What a store leaves if it goes through. -/
theorem StoresTo.stored (h : StoresTo s kind (some a) index value rest) (hs : s.machine.Sound)
    (ha : a.index < s.machine.heap.size)
    (hdone : outcome (execute natives ⟨kind.store, operands⟩) s = (.ok ⟨⟩, t)) :
    t.thread = rest ∧ Stored kind a index value s.machine t.machine := by
  rw [outcome_store natives operands h] at hdone
  change outcome (checkAndStore _ kind index value a) ⟨s.machine, rest⟩ = (.ok ⟨⟩, t) at hdone
  by_cases hreference : kind = .reference
  · subst hreference
    obtain ⟨r, m', hchecks⟩ := exists_checks s.machine a value.reference?
    rw [h.eq_reference] at hdone
    cases r with
    | error e => cases hchecks.store_error.symm.trans hdone
    | ok =>
      rw [hchecks.store_ok, ← h.eq_reference] at hdone
      have hretains := hchecks.retains hs trivial
      rcases storeAt_cases _ .reference index value a ⟨m', rest⟩ with ⟨hkind, hin, hstore⟩ | ⟨f, hfail⟩
      · cases hstore.symm.trans hdone
        dsimp only at hkind hin ⊢
        rw [hretains.object a ha] at hkind hin ⊢
        rw [ObjectData.store_references hkind _ (s.machine.className a = "[Z")]
        exact ⟨rfl, stored_of_retains hretains hkind hin h.handles⟩
      · cases hfail.symm.trans hdone
  · rw [checkAndStore_of_ne hreference] at hdone
    rcases storeAt_cases _ kind index value a ⟨s.machine, rest⟩ with ⟨hkind, hin, hstore⟩ | ⟨f, hfail⟩
    · cases hstore.symm.trans hdone
      exact ⟨rfl, stored_of_retains (.refl hs) hkind hin h.handles⟩
    · cases hfail.symm.trans hdone

/-- What has been stored is loaded. -/
theorem Stored.loaded (h : Stored kind a index value m s.machine)
    (hload : LoadsFrom s (some a) index rest) (natives : Natives) (operands : Operands) :
    ∃ t, outcome (execute natives ⟨kind.load, operands⟩) s = (.ok ⟨⟩, t) ∧
      outcome (push (kind.kept (m.className a = "[Z") value)) ⟨s.machine, rest⟩ = (.ok ⟨⟩, t) := by
  have hin : (s.machine.object a).data.InBounds index := by
    unfold ObjectData.InBounds
    rw [h.length]
    exact h.inside
  obtain ⟨t, hpush⟩ := hload.pushes s.machine (kind.kept (m.className a = "[Z") value)
  refine ⟨t, (outcome_load natives operands hload).trans ?_, hpush⟩
  have hloadAt : outcome (loadAt ⟨kind.load, operands⟩ kind index a) ⟨s.machine, rest⟩ = _ :=
    outcome_loadAt h.sameKind hin h.element
  exact hloadAt.trans hpush

/-! ### Stores that fail -/

/-- A step that leaves a machine with the property if it fails on one. -/
def FailsKeeping {α : Type} (p : Machine → Prop) (x : Exec α) : Prop :=
  ∀ s f t, p s.machine → outcome x s = (.error (.fault f), t) → p t.machine

theorem Keeps.failsKeeping {α β : Type} {p : Machine → Prop} {x : Exec α}
    {f : α → Exec β} (hx : Keeps p x)
    (hf : ∀ a, FailsKeeping p (f a)) : FailsKeeping p (x >>= f) := fun s e t hs hrun => by
  rcases outcome_bind_error.mp hrun with hfirst | ⟨a, u, hfirst, hrest⟩
  · exact hx s _ t hs hfirst trivial
  · exact hf a u e t (hx s _ u hs hfirst trivial) hrest

theorem keeps_popElement {p : Machine → Prop} (kind : ElementKind) : Keeps p (popElement kind) := by
  cases kind
  all_goals exact (Keeps.onFrame _).bind fun _ => .pure _

theorem keeps_popObject {p : Machine → Prop} (problem : String) : Keeps p (popObject problem) :=
  (Keeps.onFrame _).bind fun
    | some a => .pure a
    | none => .throw _

theorem keeps_checkStorable (m : Machine) (a : Address) (value : Value) :
    Keeps m.Retains (checkStorable a value) := by
  have hlift : ∀ {α : Type} {x : VM α}, VM.Retains x → Keeps m.Retains (liftM x : Exec α) := fun hx =>
    .lift fun m₁ r m₂ hm₁ hrun hr => hm₁.trans (hx m₁ r m₂ hm₁.sound hrun hr)
  refine Keeps.bind (.of_same fun _ => rfl) fun m₁ => (hlift (.component? _)).bind fun component => ?_
  split
  · refine (hlift (.isInstance _ _)).bind fun answer => ?_
    split
    · exact .bind (.of_same fun _ => rfl) fun _ => .throw _
    · exact .pure _
  · exact .pure _

/-- A store that fails stores nothing. -/
theorem failsKeeping_store (m : Machine) (natives : Natives) (kind : ElementKind)
    (operands : Operands) :
    FailsKeeping m.Retains (execute natives ⟨kind.store, operands⟩) := by
  have hperform : execute natives ⟨kind.store, operands⟩ = storeElement
      ⟨kind.store, operands⟩ kind := by
    cases kind <;> rfl
  have hstoreAt : ∀ index value a, FailsKeeping m.Retains
      (storeAt ⟨kind.store, operands⟩ kind index value a) := by
    intro index value a s f t hs hrun
    rcases storeAt_cases ⟨kind.store, operands⟩ kind index value a s with ⟨-, -, hstore⟩ | ⟨f', hfail⟩
    · cases hstore.symm.trans hrun
    · cases hfail.symm.trans hrun
      exact hs
  rw [hperform]
  refine (keeps_popElement kind).failsKeeping fun value => Keeps.failsKeeping (.onFrame _) fun index =>
    (keeps_popObject _).failsKeeping fun a => ?_
  change FailsKeeping m.Retains (checkAndStore ⟨kind.store, operands⟩ kind index value a)
  by_cases hreference : kind = .reference
  · rw [checkAndStore, if_pos hreference]
    exact (keeps_checkStorable m a value).failsKeeping fun _ => hstoreAt index value a
  · rw [checkAndStore_of_ne hreference]
    exact hstoreAt index value a

/-! ### Elements -/

/-- What array instructions do to elements. A store that goes through changes one element and
nothing else that was there, and a load of this element gives what the array can keep of the value.
A store goes through if the index is in bounds of an array of its kind and the check of a reference
succeeds. If it fails, nothing that was there has changed. -/
theorem array_elements_kept (hs : s.machine.Reachable) (natives : Natives) (kind : ElementKind)
    (operands : Operands) :
    (∀ a index value rest t, a.index < s.machine.heap.size → StoresTo s kind (some a) index value rest →
      outcome (execute natives ⟨kind.store, operands⟩) s = (.ok ⟨⟩, t) →
        t.thread = rest ∧ Stored kind a index value s.machine t.machine ∧
        ∀ u rest' operands', u.machine = t.machine → LoadsFrom u (some a) index rest' →
          ∃ v, outcome (execute natives ⟨kind.load, operands'⟩) u = (.ok ⟨⟩, v) ∧
            outcome (push (kind.kept (s.machine.className a = "[Z") value)) ⟨u.machine, rest'⟩ =
              (.ok ⟨⟩, v)) ∧
    (∀ a index value rest, StoresTo s kind (some a) index value rest →
      (s.machine.object a).data.elementKind? = some kind → (s.machine.object a).data.InBounds index →
        (kind = .reference → ∃ m', Checks s.machine a value.reference? (.ok ⟨⟩) m') →
          ∃ t, outcome (execute natives ⟨kind.store, operands⟩) s = (.ok ⟨⟩, t)) ∧
    ∀ f t, outcome (execute natives ⟨kind.store, operands⟩) s = (.error (.fault f), t) →
      ∀ b, b.index < s.machine.heap.size → t.machine.object b = s.machine.object b := by
  have hsound := hs.settled.sound
  refine ⟨fun a index value rest t ha h hdone => ?_, fun a index value rest h hkind hin hcheck => ?_,
    fun f t hrun b hb => ?_⟩
  · obtain ⟨hthread, hstored⟩ := h.stored hsound ha hdone
    refine ⟨hthread, hstored, fun u rest' operands' hu hload => ?_⟩
    rw [← hu] at hstored
    exact hstored.loaded hload natives operands'
  · by_cases hreference : kind = .reference
    · subst hreference
      obtain ⟨m', hchecks⟩ := hcheck rfl
      exact (h.bounded_of_checks natives operands hsound hkind hchecks).inside hin
    · exact (h.bounded_of_ne natives operands hkind hreference).inside hin
  · exact (failsKeeping_store s.machine natives kind operands s f t (.refl hsound) hrun).object b hb

/-- A boolean keeps the lowest bit of what is stored. -/
theorem array_elements_kept_boolean : ∃ t rest v,
    outcome (execute .standard ⟨.bastore, .none⟩) ⟨arrayOf "[Z",
      holding #[.ref (some ⟨0⟩), .num 1, .num 7]⟩ = (.ok ⟨⟩, t) ∧
      (t.machine.object ⟨0⟩).data.element? 0 = some (.int 0) ∧
      LoadsFrom ⟨t.machine, holding #[.ref (some ⟨0⟩), .num 1]⟩ (some ⟨0⟩) 1 rest ∧
      outcome (execute .standard ⟨.baload, .none⟩) ⟨t.machine, holding #[.ref (some ⟨0⟩), .num 1]⟩ =
        (.ok ⟨⟩, v) ∧
      outcome (push (.int 1)) ⟨t.machine, rest⟩ = (.ok ⟨⟩, v) := by
  let s : Running := ⟨arrayOf "[Z", holding #[.ref (some ⟨0⟩), .num 1, .num 7]⟩
  have hreachable : s.machine.Reachable := reachable_arrayOf (by decide +kernel)
  have hstores : StoresTo s .byte (some ⟨0⟩) 1 (.int 7) _ := .mk rfl rfl rfl rfl
  have hdata : (s.machine.object ⟨0⟩).data = .bytes #[0, 0] := by decide +kernel
  have hname : s.machine.className ⟨0⟩ = "[Z" := by decide +kernel
  obtain ⟨hkept, hdone, -⟩ := array_elements_kept hreachable .standard .byte .none
  obtain ⟨t, hstore⟩ := hdone ⟨0⟩ 1 (.int 7) _ hstores (by rw [hdata]; rfl)
    (by rw [hdata]; decide) nofun
  obtain ⟨-, hstored, hload⟩ := hkept ⟨0⟩ 1 (.int 7) _ t (by decide +kernel) hstores hstore
  obtain ⟨v, hrun, hpush⟩ := hload ⟨t.machine, holding #[.ref (some ⟨0⟩), .num 1]⟩
    _ .none rfl (.mk rfl rfl rfl)
  rw [hname] at hpush
  refine ⟨t, _, v, hstore, ?_, .mk rfl rfl rfl, hrun, hpush⟩
  rw [hstored.others 0 (by decide), hdata]
  rfl

end Exec

end JavaMachine
