import JavaMachine.Proofs.FieldLayout
import JavaMachine.Proofs.Sessions

/-!
What is stored in fields.

A field is read and written in the slots that its class gave it, in an object or in the static
fields of the class. As no two fields share a slot, a write to a field is what later reads of it
find, and reads of all others find what they found before (`Session.fields_never_alias`). A
reference to a field is resolved first, which may load classes but stores nothing in the ones that
are there (`VM.Retains`). If the search for the field has no end, nothing is read or written.
-/

namespace JavaMachine

/-! ### Slots of a table -/

namespace SlotTable

/-- The slots from `index` on, `width` of them. -/
def range? (t : SlotTable) (index width : Nat) : Option (List Slot) :=
  (List.range' index width).mapM t.slot?

variable {t u : SlotTable} {index width : Nat} {slots : List Slot}

theorem range?_succ : t.range? index (width + 1) = do
    return (← t.slot? index) :: (← t.range? (index + 1) width) := by
  rw [range?, List.range'_succ, List.mapM_cons]
  rfl

theorem exists_range? (h : index + width ≤ t.size) :
    ∃ slots, slots.length = width ∧ t.range? index width = some slots := by
  induction width generalizing index with
  | zero => exact ⟨[], rfl, rfl⟩
  | succ width ih =>
    obtain ⟨slots, hlength, hslots⟩ := ih (show index + 1 + width ≤ t.size by omega)
    have hlt : index < t.slots.size := Nat.lt_of_lt_of_le (by omega) h
    refine ⟨t.slots[index] :: slots, congrArg Nat.succ hlength, ?_⟩
    rw [range?_succ, hslots, slot?, Array.getElem?_eq_getElem hlt]
    rfl

theorem range?_congr (h : ∀ i, index ≤ i → i < index + width → u.slot? i = t.slot? i) :
    u.range? index width = t.range? index width := by
  induction width generalizing index with
  | zero => rfl
  | succ width ih =>
    rw [range?_succ, range?_succ, h index (Nat.le_refl _) (by omega), ih fun i hfirst hlast => h i
      (by omega) (by omega)]

theorem slot?_set? {slot : Slot} (h : t.set? index slot = some u) (i : Nat) :
    u.slot? i = if i = index then some slot else t.slot? i := by
  unfold set? at h
  split at h
  · rename_i hlt
    cases h
    by_cases hi : i = index
    · subst hi
      simp [slot?, hlt]
    · simp [slot?, hi, Ne.symm hi]
  · cases h

theorem exists_setAll? : ∀ {slots : List Slot} {t : SlotTable} {index : Nat},
      index + slots.length ≤ t.size → ∃ u, t.setAll? index slots = some u
  | [], t, _, _ => ⟨t, rfl⟩
  | slot :: slots, t, index, h => by
    rw [List.length_cons] at h
    have hlt : index < t.slots.size := Nat.lt_of_lt_of_le (by omega) h
    obtain ⟨v, hset⟩ : ∃ v, t.set? index slot = some v := ⟨_, dif_pos hlt⟩
    have hroom : index + 1 + slots.length ≤ v.size := by rw [size_set? hset]; omega
    obtain ⟨u, hrest⟩ := exists_setAll? hroom
    exact ⟨u, by rw [setAll?, hset]; exact hrest⟩

/-- Slots outside of the range that is written stay. -/
theorem slot?_setAll? : ∀ {slots : List Slot} {t u : SlotTable} {index : Nat},
      t.setAll? index slots = some u →
    ∀ {i : Nat}, i < index ∨ index + slots.length ≤ i → u.slot? i = t.slot? i
  | [], _, _, _, h, _, _ => by cases h; rfl
  | slot :: slots, t, u, index, h, i, hi => by
    rw [List.length_cons] at hi
    obtain ⟨v, hset, hrest⟩ := Option.bind_eq_some_iff.mp h
    rw [slot?_setAll? hrest (by omega), slot?_set? hset, if_neg (by omega)]

/-- What is written is read. -/
theorem range?_setAll? : ∀ {slots : List Slot} {t u : SlotTable} {index : Nat},
      t.setAll? index slots = some u → u.range? index slots.length = some slots
  | [], _, _, _, _ => rfl
  | slot :: slots, t, u, index, h => by
    obtain ⟨v, hset, hrest⟩ := Option.bind_eq_some_iff.mp h
    rw [List.length_cons, range?_succ, range?_setAll? hrest,
      slot?_setAll? hrest (.inl (Nat.lt_succ_self _)), slot?_set? hset, if_pos rfl]
    rfl

/-- A range is read as before if it does not overlap with the one that is written. -/
theorem range?_setAll?_of_disjoint {other : Nat} (h : t.setAll? index slots = some u)
    (hdisjoint : index + slots.length ≤ other ∨ other + width ≤ index) : u.range? other width =
      t.range? other width :=
  range?_congr fun i hfirst hlast => slot?_setAll? h (by omega)

end SlotTable

/-! ### Fields of an object or of a class -/

namespace Machine

variable {m m' : Machine} {id : ClassId} {f g : FieldId} {holder : Option Address}
  {table : SlotTable} {slots : List Slot}

/-- The table that holds a field: that of an object, or that of the field's class if there is no
object. -/
def table? (m : Machine) (f : FieldId) : Option Address → Option SlotTable
  | some a => (m.object a).data.fields?
  | none => some (m.cls f.owner).statics

/-- The slots that are stored in a field. -/
def stored? (m : Machine) (f : FieldId) (holder : Option Address) : Option (List Slot) :=
  (m.table? f holder).bind fun table => table.range? (m.fieldAt f).slot (m.fieldAt f).width

/-- Static fields are held together only with fields of the same class. -/
theorem table?_congr (h : holder = none → g.owner = f.owner) :
    m.table? g holder = m.table? f holder := by
  cases holder with
  | some a => rfl
  | none => rw [table?, table?, h rfl]

/-- The machine with another table in place of the one that holds a field. -/
def withTable (m : Machine) (f : FieldId) (table : SlotTable) : Option Address → Machine
  | some a => m.withData a (.fields table)
  | none => m.changeClass f.owner ({ · with statics := table })

/-- The fields that an instance of a class holds are those on its super chain; the class itself
holds its static fields. -/
inductive Holds (m : Machine) (id : ClassId) : Option Address → (FieldId → Prop) → Prop where
  | object {a : Address} (there : a.index < m.heap.size) (class' : m.classOf a = id) :
      Holds m id (some a) (m.InstanceField id)
  | statics : Holds m id none (m.Declared true id)

/-- Nothing that is there is stored to. -/
structure Retains (m m' : Machine) : Prop where
  sound : m'.Sound
  classes : m.classes.size ≤ m'.classes.size
  heap : m.heap.size ≤ m'.heap.size
  fields : ∀ id, id.index < m.classes.size → (m'.cls id).fields = (m.cls id).fields
  statics : ∀ id, id.index < m.classes.size → (m'.cls id).statics = (m.cls id).statics
  object : ∀ a, a.index < m.heap.size → m'.object a = m.object a

namespace Retains

theorem refl (hm : m.Sound) : m.Retains m :=
  ⟨hm, Nat.le_refl _, Nat.le_refl _, fun _ _ => rfl, fun _ _ => rfl, fun _ _ => rfl⟩

theorem trans {m₁ : Machine} (h : m.Retains m₁) (h' : m₁.Retains m') : m.Retains m' where
  sound := h'.sound
  classes := Nat.le_trans h.classes h'.classes
  heap := Nat.le_trans h.heap h'.heap
  fields id hid := (h'.fields id (Nat.lt_of_lt_of_le hid h.classes)).trans (h.fields id hid)
  statics id hid := (h'.statics id (Nat.lt_of_lt_of_le hid h.classes)).trans (h.statics id hid)
  object a ha := (h'.object a (Nat.lt_of_lt_of_le ha h.heap)).trans (h.object a ha)

theorem fieldAt (h : m.Retains m') (hf : f.owner.index < m.classes.size) :
    m'.fieldAt f = m.fieldAt f := by
  rw [Machine.fieldAt, Machine.fieldAt, h.fields _ hf]

theorem table? (h : m.Retains m') (hf : f.owner.index < m.classes.size)
    (hholder : ∀ a, holder = some a → a.index < m.heap.size) : m'.table? f holder =
      m.table? f holder := by
  cases holder with
  | some a => rw [Machine.table?, Machine.table?, h.object a (hholder a rfl)]
  | none => rw [Machine.table?, Machine.table?, h.statics _ hf]

theorem stored? (h : m.Retains m') (hf : f.owner.index < m.classes.size)
    (hholder : ∀ a, holder = some a → a.index < m.heap.size) : m'.stored? f holder =
      m.stored? f holder := by
  rw [Machine.stored?, Machine.stored?, h.table? hf hholder, h.fieldAt hf]

end Retains

/-! ### One table -/

namespace Holds

variable {p : FieldId → Prop}

theorem there (h : m.Holds id holder p) : ∀ a, holder = some a → a.index < m.heap.size := by
  cases h with
  | object there _ =>
    rintro a ⟨⟩
    exact there
  | statics =>
    rintro a ⟨⟩

theorem owner_lt (h : m.Holds id holder p) (hm : m.Sound) (hid : id.index < m.classes.size) (hf : p f) :
    f.owner.index < m.classes.size := by
  cases h with
  | object _ _ => exact hf.1.lt hm hid
  | statics => exact hf.owner ▸ hid

/-- The fields that are held tile the table that holds them. -/
theorem tiles (h : m.Holds id holder p) (hm : m.Coherent) (hlinked : (m.cls id).linked = true)
    (harray : m.ArrayFree id)
    (hf : p f) : ∃ table, m.table? f holder = some table ∧ m.Tiles p 0 table.size := by
  obtain ⟨hstatics, hstorage, hinstances⟩ := hm.fieldsTile hlinked harray
  cases h with
  | @object a there class' =>
    have hnone : (m.cls (m.classOf a)).isArray = false := by rw [class']; exact harray id (.refl id)
    obtain ⟨fields, hdata, hsize⟩ := hm.instances a there hnone
    refine ⟨fields, by rw [table?, hdata]; rfl, ?_⟩
    rw [hsize, class']
    exact hinstances
  | statics =>
    refine ⟨(m.cls f.owner).statics, rfl, ?_⟩
    rw [hf.owner, hstorage]
    exact hstatics

/-- Static fields that are held together are fields of one class. -/
theorem owner_eq (h : m.Holds id holder p) (hf : p f) (hg : p g) :
    holder = none → g.owner = f.owner := by
  cases h with
  | object _ _ => rintro ⟨⟩
  | statics => exact fun _ => hg.owner.trans hf.owner.symm

end Holds

/-- A table that is replaced is the one that holds the field, and the others of its holder. -/
theorem table?_withTable (hthere : ∀ a, holder = some a → a.index < m.heap.size)
    (hf : f.owner.index < m.classes.size)
    (hsame : holder = none → g.owner = f.owner) :
    (m.withTable f table holder).table? g holder = some table := by
  rw [table?_congr hsame]
  cases holder with
  | some a => rw [withTable, table?, object_withData_self (hthere a rfl)]; rfl
  | none => rw [withTable, table?, cls_changeClass_self _ hf]

theorem classes_withTable : (m.withTable f table holder).classes.size = m.classes.size := by
  cases holder with
  | some a => rfl
  | none => exact size_changeClass

theorem heap_withTable : (m.withTable f table holder).heap.size = m.heap.size := by
  cases holder with
  | some a => exact heap_size_withData _
  | none => rfl

theorem fieldAt_withTable : (m.withTable f table holder).fieldAt g = m.fieldAt g := by
  cases holder with
  | some a => rfl
  | none =>
    rw [withTable, fieldAt, fieldAt]
    rcases cls_changeClass m f.owner ({ · with statics := table }) g.owner with
      heq | ⟨hsame, heq⟩ <;> rw [heq]
    rw [hsame]

theorem Sound.withTable (hm : m.Sound) : (m.withTable f table holder).Sound := by
  cases holder with
  | some a => exact hm.of_eq rfl rfl
  | none => exact hm.changePlaced ⟨rfl, rfl, rfl, rfl⟩

end Machine

/-! ### Resolution stores nothing -/

namespace VM

open Machine

variable {α β : Type}

/-- A step that stores nothing in what is there, if it completes. -/
def Retains (x : VM α) : Prop :=
  ∀ m r m', m.Sound → outcome x m = (r, m') → Completes r → m.Retains m'

namespace Retains

theorem of_same {x : VM α} (h : ∀ m, (outcome x m).2 = m) : Retains x := fun m r m' hm hrun _ => by
  have hsame := h m
  rw [hrun] at hsame
  cases hsame
  exact .refl hm

theorem pure (a : α) : Retains (pure a : VM α) := of_same fun _ => rfl

theorem fail (fault : Fault) : Retains (fail fault : VM α) := of_same fun _ => rfl

theorem raise (className message : String) : Retains (raise className message : VM α) :=
  of_same fun _ => rfl

theorem ofSearch (search : Search α) : Retains (ofSearch search) :=
  of_same fun _ => by cases search <;> rfl

theorem bind {x : VM α} {f : α → VM β} (hx : Retains x) (hf : ∀ a, Retains (f a)) :
    Retains (x >>= f) := by
  intro m r m' hm hrun hr
  obtain ⟨fault, hfirst, rfl⟩ | ⟨a, m₁, hfirst, hrun⟩ := outcome_bind_completes hrun hr
  · exact hx m _ _ hm hfirst trivial
  · have hm₁ := hx m _ m₁ hm hfirst trivial
    exact hm₁.trans (hf a m₁ r m' hm₁.sound hrun hr)

theorem load (name : String) : Retains (load name) := by
  intro m r m' hm hrun hr
  have hgrows : ∀ {m' : Machine}, m'.Sound → m.Grows (fun _ => False) m' → m.Retains m' := fun hm' h =>
    ⟨hm', h.classes, h.heap, fun id hid => by rw [h.same id hid fun hfalse => hfalse],
      fun id hid => by rw [h.same id hid fun hfalse => hfalse], h.object⟩
  cases load_lawful (2 * m.pending) m name hm (Nat.le_refl _) r m' hrun with
  | ok hm' h _ => exact hgrows hm' h
  | fault hm' h => exact hgrows hm' h
  | outOfRange => exact hr.elim
  | endless => exact hr.elim

/-- A change of a class that leaves its fields alone. -/
theorem modifyClass {id : ClassId} {change : Class → Class}
    (hplace : ∀ c : Class, c.SamePlace (change c))
    (hfields : ∀ c, (change c).fields = c.fields) (hstatics : ∀ c, (change c).statics = c.statics) :
    Retains (modifyClass id change) := by
  intro m r m' hm hrun _
  rw [outcome_modifyClass] at hrun
  cases hrun
  refine ⟨hm.changePlaced (hplace _), Nat.le_of_eq size_changeClass.symm, Nat.le_refl _,
    fun other _ => ?_, fun other _ => ?_, fun _ _ => rfl⟩
  · rcases cls_changeClass m id change other with heq | ⟨rfl, heq⟩ <;> rw [heq]
    exact hfields _
  · rcases cls_changeClass m id change other with heq | ⟨rfl, heq⟩ <;> rw [heq]
    exact hstatics _

theorem setConstant (owner : ClassId) (index : UInt16) (constant : Constant) :
    Retains (setConstant owner index constant) :=
  modifyClass (fun _ => ⟨rfl, rfl, rfl, rfl⟩) (fun _ => rfl) fun _ => rfl

theorem target (ref : ClassRef) : Retains (target ref) := by
  unfold VM.target
  split
  · exact .pure _
  · exact .load _

theorem resolveField (owner : ClassId) (index : UInt16) : Retains (resolveField owner index) := by
  have hconstant : Retains (constantAt owner index) := of_same fun m => by
    unfold constantAt
    rw [outcome_bind_of_ok (outcome_cls owner)]
    cases (m.cls owner).constantAt index <;> rfl
  refine hconstant.bind fun constant => ?_
  split
  · refine .bind (.bind (target _) fun id => .bind (setConstant _ _ _) fun _ => ?_) fun _ => .pure _
    dsimp only
    split
    · exact .pure _
    · refine .bind (of_same fun _ => rfl) fun m => .bind ?_ fun _ =>
        .bind (setConstant _ _ _) fun _ => .pure _
      refine .bind (ofSearch _) fun _ => ?_
      split
      · exact .pure _
      · exact .raise _ _
  · exact .fail _

end Retains

end VM

/-! ### Field instructions -/

namespace Exec

open Machine

variable {i j : Instruction} {s t u : Running} {f g : FieldId} {holder : Option Address}
  {slots : List Slot} {table : SlotTable}

/-- The instruction that reads fields of objects, or static fields. -/
def getOf : Option Address → Instruction → Exec Unit
  | some _ => getField
  | none => getStatic

/-- The instruction that writes fields of objects, or static fields. -/
def putOf : Option Address → Instruction → Exec Unit
  | some _ => putField
  | none => putStatic

/-- A field instruction that refers to the field `f` and finds its operands: it pops `slots`, and
the object that holds the field unless the field is static. The class of a static field does not
have to be waited for. -/
inductive Takes (i : Instruction) (slots : List Slot) (s : Running) : FieldId → Option Address →
      Running → Prop where
  | object {f : FieldId} {a : Address} {m : Machine} {top : Frame} {callers : List Frame}
      {rest stack : OperandStack}
      (refers : outcome (resolveField i false) s = (.ok f, ⟨m, s.thread⟩))
      (frames : s.thread.frames = top :: callers)
      (value : top.stack.popMany? slots.length = some (slots, rest))
      (pops : rest.popReference? = some (some a, stack)) :
      Takes i slots s f (some a) ⟨m, { s.thread with frames := { top with stack } :: callers }⟩
  | static {f : FieldId} {m : Machine} {top : Frame} {callers : List Frame} {stack : OperandStack}
      (refers : outcome (resolveField i true) s = (.ok f, ⟨m, s.thread⟩))
      (frames : s.thread.frames = top :: callers)
      (started : (m.cls f.owner).initStarted = true) (value : top.stack.popMany? slots.length =
        some (slots, stack)) :
      Takes i slots s f none ⟨m, { s.thread with frames := { top with stack } :: callers }⟩

/-- What a field instruction refers to is resolved without storing anything. -/
theorem Takes.retains (h : Takes i slots s f holder t) (hs : s.machine.Sound) :
    s.machine.Retains t.machine := by
  have hresolve : ∀ {isStatic m}, outcome (resolveField i isStatic) s = (.ok f, ⟨m, s.thread⟩) →
      s.machine.Retains m := by
    intro isStatic m hrefers
    obtain ⟨owner, index, hrefers⟩ := outcome_poolIndex_ok hrefers
    obtain ⟨found, v, hfound, hrefers⟩ := outcome_bind_ok.mp hrefers
    have hv := VM.Retains.resolveField owner index _ _ _ hs (outcome_lift_ok hfound) trivial
    rw [outcome_bind_of_ok outcome_machine] at hrefers
    dsimp only at hrefers
    split at hrefers <;> cases hrefers
    exact hv
  cases h with
  | object refers _ _ _ => exact hresolve refers
  | static refers _ _ _ => exact hresolve refers

theorem outcome_fieldSlots (table : SlotTable) (field : Field) (m : Machine) :
    outcome (fieldSlots table field) m = match table.range? field.slot field.width with
      | some slots => (.ok slots, m)
      | none => (.error .outOfRange, m) := by
  have hslots : ∀ ns : List Nat, outcome (ns.mapM fun n => VM.inRange (table.slot? n)) m =
      match ns.mapM table.slot? with
      | some slots => (.ok slots, m)
      | none => (.error .outOfRange, m) := by
    intro ns
    induction ns with
    | nil => rfl
    | cons n ns ih =>
      rw [List.mapM_cons, List.mapM_cons]
      rcases table.slot? n with _ | slot
      · rfl
      · have hslot : outcome (VM.inRange (some slot)) m = (.ok slot, m) := rfl
        rw [outcome_bind_of_ok hslot, outcome_bind, ih]
        cases ns.mapM table.slot? <;> rfl
  exact hslots _

theorem outcome_popObject {problem : String} {top : Frame} {callers : List Frame}
    {stack : OperandStack} {a : Address}
    (hframes : s.thread.frames = top :: callers)
    (hpop : top.stack.popReference? = some (some a, stack)) :
    outcome (popObject problem) s =
      (.ok a, ⟨s.machine, { s.thread with frames := { top with stack } :: callers }⟩) := by
  unfold popObject popReference
  rw [outcome_bind_of_ok (outcome_onStack hframes hpop)]
  rfl

/-- The table of an object's fields is read. -/
theorem outcome_instanceFields {a : Address} (h : s.machine.table? f (some a) = some table) :
    outcome (instanceFields a) s = (.ok table, s) := by
  change (s.machine.object a).data.fields? = some table at h
  unfold instanceFields
  rw [outcome_bind_of_ok outcome_machine, h]
  rfl

/-- A read pushes what is stored in the field. -/
theorem outcome_getOf (h : Takes i [] s f holder t)
    (hstored : t.machine.stored? f holder = some slots) :
    outcome (getOf holder i) s = outcome (pushSlots slots) t := by
  obtain ⟨table, htable, hslots⟩ := Option.bind_eq_some_iff.mp hstored
  cases h with
  | @object a m top callers rest stack refers frames value pops =>
    cases value
    change outcome (getField i) s = _
    unfold getField
    rw [outcome_bind_of_ok refers, outcome_bind_of_ok outcome_machine,
      outcome_bind_of_ok (outcome_popObject (s := ⟨m, s.thread⟩) frames pops),
      outcome_bind_of_ok (outcome_instanceFields htable), outcome_bind, outcome_lift,
      outcome_fieldSlots, hslots]
  | @static m top callers stack refers frames started value =>
    cases value
    cases htable
    change outcome (getStatic i) s = _
    unfold getStatic
    rw [outcome_bind_of_ok refers,
      outcome_bind_of_ok (outcome_awaitsInitialization_started (s := ⟨m, s.thread⟩) started),
      if_neg Bool.false_ne_true, outcome_bind_of_ok outcome_machine, outcome_bind, outcome_lift,
        outcome_fieldSlots]
    dsimp only at hslots ⊢
    rw [hslots, ← frames]

/-- A write replaces the table that holds the field. -/
theorem outcome_putOf {table table' : SlotTable} (h : Takes i slots s f holder t)
    (hwidth : slots.length = (t.machine.fieldAt f).width)
    (htable : t.machine.table? f holder = some table)
    (hset : table.setAll? (t.machine.fieldAt f).slot slots = some table') :
    outcome (putOf holder i) s = (.ok ⟨⟩, ⟨t.machine.withTable f table' holder, t.thread⟩) := by
  cases h with
  | @object a m top callers rest stack refers frames value pops =>
    have hvalue : outcome (popMany (m.fieldAt f).width) ⟨m, s.thread⟩ =
        (.ok slots, ⟨m, { s.thread with frames := { top with stack := rest } :: callers }⟩) := by
      rw [outcome_popMany (s := ⟨m, s.thread⟩) frames, ← hwidth, value]
    change outcome (putField i) s = _
    unfold putField
    rw [outcome_bind_of_ok refers, outcome_bind_of_ok outcome_machine, outcome_bind_of_ok hvalue,
      outcome_bind_of_ok (outcome_popObject rfl pops),
      outcome_bind_of_ok (outcome_instanceFields htable)]
    dsimp only at hset ⊢
    rw [hset]
    rfl
  | @static m top callers stack refers frames started value =>
    have hvalue : outcome (popMany (m.fieldAt f).width) ⟨m, s.thread⟩ =
        (.ok slots, ⟨m, { s.thread with frames := { top with stack } :: callers }⟩) := by
      rw [outcome_popMany (s := ⟨m, s.thread⟩) frames, ← hwidth, value]
    cases htable
    change outcome (putStatic i) s = _
    unfold putStatic
    rw [outcome_bind_of_ok refers,
      outcome_bind_of_ok (outcome_awaitsInitialization_started (s := ⟨m, s.thread⟩) started),
      if_neg Bool.false_ne_true, outcome_bind_of_ok outcome_machine, outcome_bind_of_ok hvalue,
      outcome_bind_of_ok outcome_machine]
    dsimp only at hset ⊢
    rw [hset]
    rfl

/-- Whatever instruction reads the field on this machine, it pushes these slots. -/
def Yields (m : Machine) (f : FieldId) (holder : Option Address) (slots : List Slot) : Prop :=
  ∀ i s t, s.machine = m → Takes i [] s f holder t →
    outcome (getOf holder i) s = outcome (pushSlots slots) t

theorem yields_stored {m : Machine} (hm : m.Sound) (hf : f.owner.index < m.classes.size)
    (hthere : ∀ a, holder = some a → a.index < m.heap.size) (h : m.stored? f holder = some slots) :
    Yields m f holder slots := by
  rintro i s t rfl htakes
  exact outcome_getOf htakes (((htakes.retains hm).stored? hf hthere).trans h)

/-- The fields of a holder are stored apart. Each can be read. Each can be written, whatever its
place; after that it yields what was written, and the others yield what was stored in them. -/
structure Unaliased (m : Machine) (holder : Option Address) (p : FieldId → Prop) : Prop where
  reads : ∀ f, p f → ∃ slots, slots.length = (m.fieldAt f).width ∧ m.stored? f holder = some slots ∧
    Yields m f holder slots
  writes : ∀ f i slots s t, p f → s.machine = m → Takes i slots s f holder t →
    slots.length = (m.fieldAt f).width →
    ∃ u, outcome (putOf holder i) s = (.ok ⟨⟩, u) ∧ u.thread = t.thread ∧
    Yields u.machine f holder slots ∧
      ∀ g, p g → g ≠ f → ∀ old, m.stored? g holder = some old → Yields u.machine g holder old

end Exec

open Exec in
/-- Fields that tile the table that holds them are stored apart. -/
theorem Machine.Coherent.unaliased {m : Machine} {id : ClassId} {holder : Option Address}
    {p : FieldId → Prop}
    (hm : m.Coherent) (hlinked : (m.cls id).linked = true) (harray : m.ArrayFree id)
    (hholds : m.Holds id holder p) :
    Unaliased m holder p := by
  have howner : ∀ {f}, p f → f.owner.index < m.classes.size :=
    hholds.owner_lt hm.sound (Machine.lt_of_linked hlinked)
  refine ⟨fun f hf => ?_, ?_⟩
  · obtain ⟨table, htable, htiles⟩ := hholds.tiles hm hlinked harray hf
    obtain ⟨slots, hlength, hslots⟩ := SlotTable.exists_range? (htiles.within f hf).2
    have hstored : m.stored? f holder = some slots := by rw [Machine.stored?, htable]; exact hslots
    exact ⟨slots, hlength, hstored, yields_stored hm.sound (howner hf) hholds.there hstored⟩
  · rintro f i slots s t hf rfl htakes hwidth
    obtain ⟨table, htable, htiles⟩ := hholds.tiles hm hlinked harray hf
    obtain ⟨table', hset⟩ := SlotTable.exists_setAll? (hwidth ▸ (htiles.within f hf).2)
    have hretains := htakes.retains hm.sound
    rw [← hretains.fieldAt (howner hf)] at hwidth hset
    rw [← hretains.table? (howner hf) hholds.there] at htable
    refine ⟨_, outcome_putOf htakes hwidth htable hset, rfl, ?_⟩
    have hthere : ∀ a, holder = some a →
        a.index < (t.machine.withTable f table' holder).heap.size := fun a ha => by
      rw [Machine.heap_withTable]
      exact Nat.lt_of_lt_of_le (hholds.there a ha) hretains.heap
    have hlater : ∀ {g}, p g → g.owner.index < (t.machine.withTable f table' holder).classes.size :=
        fun hg => by
      rw [Machine.classes_withTable]
      exact Nat.lt_of_lt_of_le (howner hg) hretains.classes
    have hafter : ∀ {g}, p g → (t.machine.withTable f table' holder).stored? g holder =
        table'.range? (t.machine.fieldAt g).slot (t.machine.fieldAt g).width := fun {g} hg => by
      rw [Machine.stored?, Machine.table?_withTable
        (fun a ha => Nat.lt_of_lt_of_le (hholds.there a ha) hretains.heap)
        (Nat.lt_of_lt_of_le (howner hf) hretains.classes) (hholds.owner_eq hf hg),
          Machine.fieldAt_withTable]
      rfl
    refine ⟨yields_stored hretains.sound.withTable (hlater hf) hthere ?_, fun g hg hne old hold =>
      yields_stored hretains.sound.withTable (hlater hg) hthere ?_⟩
    · rw [hafter hf, ← hwidth]
      exact SlotTable.range?_setAll? hset
    · -- The two fields do not overlap, so the write is outside of what is read.
      have hdisjoint := htiles.disjoint f g hf hg hne.symm
      rw [← hretains.fieldAt (howner hf), ← hretains.fieldAt (howner hg), ← hwidth] at hdisjoint
      rw [hafter hg, SlotTable.range?_setAll?_of_disjoint hset hdisjoint, ← hold,
        ← hretains.stored? (howner hg) hholds.there, Machine.stored?,
        Machine.table?_congr (hholds.owner_eq hf hg), htable]
      rfl

namespace Session

variable {natives : Natives} {directories : List Directory} {es : List Event} {S : Session}
  {name : String} {id : ClassId}

/-- The same fields, in the same slots. -/
structure SameFields (m m' : Machine) (id : ClassId) : Prop where
  instances : ∀ f, m'.InstanceField id f ↔ m.InstanceField id f
  statics : ∀ f, m'.Declared true id f ↔ m.Declared true id f
  slots : ∀ f, m.InstanceField id f ∨ m.Declared true id f → m'.fieldAt f = m.fieldAt f

/-- Fields never alias. At any time of a run, and for the rest of it, the fields of a loaded class
without array classes above it tile its static storage and its instances, and stay where they are.
So the fields of each of its instances, and its static fields, are stored apart. -/
theorem fields_never_alias (hnatives : natives.Orderly) (hrun : Run natives (.start directories) es S)
    (hbound : S.machine.lookup? name = some id) (harray : S.machine.ArrayFree id)
    {es' : List Event} {S' : Session} (hrest : Run natives S es' S') :
    S'.machine.lookup? name = some id ∧ S'.machine.FieldsTile id ∧
      SameFields S.machine S'.machine id ∧
      ∀ holder p, S'.machine.Holds id holder p → Exec.Unaliased S'.machine holder p := by
  have hS := hrun.regular hnatives
  have hS' := (hrun.trans hrest).regular hnatives
  have hevolves := (hrest.advances hnatives hS).evolves
  have hid := hS.coherent.sound.bound name id hbound
  have hbound' := hevolves.bound name id hbound
  have hlinked' := hS'.linked name id hbound'
  have harray' := hevolves.arrayFree hS.coherent.sound hid harray
  refine ⟨hbound', hS'.coherent.fieldsTile hlinked' harray',
    ⟨fun f => hevolves.instanceField hS.coherent.sound hid,
    fun f => hevolves.declared hid, fun f hf => hevolves.fieldAt ?_⟩, fun holder p =>
      hS'.coherent.unaliased hlinked' harray'⟩
  rcases hf with hf | hf
  · exact hf.1.lt hS.coherent.sound hid
  · exact hf.owner ▸ hid

/-! ### A class with fields of both kinds -/

/-- A root with a wide and a narrow field of either kind. -/
def rootWithFields : ClassFile :=
  .build ClassName.object none do
    Builder.addField ⟨AccessFlags.staticBit⟩ "total" "J"
    Builder.addField ⟨0⟩ "x" "I"
    Builder.addField ⟨0⟩ "y" "D"
    Builder.addField ⟨AccessFlags.staticBit⟩ "count" "I"

/-- A class below it with one more field. -/
def pointFile : ClassFile := .build "Point" (some ClassName.object) (Builder.addField ⟨0⟩ "z" "J")

/-- Both are defined, and an instance is made. -/
def makePoint : VM Address := do
  let _ ← VM.define rootWithFields
  let _ ← VM.define pointFile
  let id ← VM.load "Point"
  VM.newObject id

def points : Session := { machine := (outcome makePoint (.start [])).2, threads := [] }

theorem run_points : Run .standard (.start []) [] points := by
  have horderly : VM.Orderly makePoint :=
    .bind (.define _) fun _ => .bind (.define _) fun _ => .create "Point" fun _ a => .pure a
  exact .host .start horderly rfl (by decide +kernel)

/-- An instance of `Point` holds the fields of both classes, in five slots. -/
theorem fields_never_alias_points : points.machine.FieldsTile ⟨1⟩ ∧
      (points.machine.cls ⟨1⟩).instanceSlots = 5 ∧
    points.machine.InstanceField ⟨1⟩ ⟨⟨0⟩, 1⟩ ∧ points.machine.InstanceField ⟨1⟩ ⟨⟨1⟩, 0⟩ ∧
    Exec.Unaliased points.machine (some ⟨0⟩) (points.machine.InstanceField ⟨1⟩) := by
  have hsuper : (points.machine.cls ⟨1⟩).superClass = some ⟨0⟩ := by decide +kernel
  have harray : points.machine.ArrayFree ⟨1⟩ := Machine.arrayFree_of_super (by decide +kernel) hsuper
    (Machine.arrayFree_of_root (by decide +kernel) (by decide +kernel))
  have hbound : points.machine.lookup? "Point" = some ⟨1⟩ := by decide +kernel
  obtain ⟨-, htiles, -, hunaliased⟩ :=
    fields_never_alias Natives.standard_orderly run_points hbound harray .start
  exact ⟨htiles, by decide +kernel,
    ⟨.super hsuper (.refl _), ⟨rfl, by decide +kernel, by decide +kernel⟩⟩,
    ⟨.refl _, ⟨rfl, by decide +kernel, by decide +kernel⟩⟩,
    hunaliased _ _ (.object (by decide +kernel) (by decide +kernel))⟩

end Session

end JavaMachine
