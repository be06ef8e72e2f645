import JavaMachine.Proofs.Ancestry
import JavaMachine.Proofs.MethodResolution
import JavaMachine.Proofs.Sessions

/-!
Looking up fields, and resolving references to them.

A field is searched depth first: in the class, in each of its interfaces in their order and then in
its super class, with all that is above each of these (`Machine.Visits`). If no class above the
class is above itself, the search has such an order, goes through all that is above the class, and
finds the first field that is declared in that order (`Machine.exists_searches`). A reference keeps
the field that is found for it first, which a search at any later time finds again, and keeps no
failure (`VM.field_resolution`).
-/

namespace JavaMachine

namespace Machine

variable {m m' : Machine} {id k : ClassId} {ids others order order' : List ClassId}
  {name descriptor : String}

/-! ### The order of the search -/

/-- The classes in the order of a search that starts with some of them. After each class comes all
that is above it. -/
inductive Visits (m : Machine) : List ClassId → List ClassId → Prop where
  | nil : Visits m [] []
  | cons {id : ClassId} {ids above rest : List ClassId} (parents : Visits m (m.parents id) above)
      (others : Visits m ids rest) : Visits m (id :: ids) (id :: (above ++ rest))

namespace Visits

theorem unique (h : m.Visits ids order) (h' : m.Visits ids order') : order = order' := by
  induction h generalizing order' with
  | nil =>
    cases h'
    rfl
  | cons _ _ hparents hothers => cases h' with
    | cons parents' others' => rw [hparents parents', hothers others']

theorem append (h : m.Visits ids order) (h' : m.Visits others order') :
    m.Visits (ids ++ others) (order ++ order') := by
  induction h with
  | nil => exact h'
  | cons parents _ _ ih =>
    rw [List.cons_append, List.cons_append, List.append_assoc]
    exact .cons parents ih

theorem single (h : m.Visits (m.parents id) order) : m.Visits [id] (id :: order) := by
  have hvisits := Visits.cons h .nil
  rwa [List.append_nil] at hvisits

end Visits

/-- What is above a class is the class itself or above one of its parents. -/
theorem above_iff : m.Above k id ↔ k = id ∨ ∃ parent ∈ m.parents id, m.Above k parent := by
  constructor
  · intro h
    rcases Relation.ReflTransGen.cases_tail h with heq | ⟨parent, habove, hparent⟩
    · exact .inl heq.symm
    · exact .inr ⟨parent, mem_parents.mpr hparent, habove⟩
  · rintro (rfl | ⟨parent, hparent, habove⟩)
    · exact .refl
    · exact .tail habove (mem_parents.mp hparent)

/-- The search goes through all that is above the classes. -/
theorem Visits.mem_iff (h : m.Visits ids order) : k ∈ order ↔ ∃ id ∈ ids, m.Above k id := by
  induction h with
  | nil => simp
  | cons _ _ hparents hothers =>
    rw [List.mem_cons, List.mem_append, hparents, hothers, List.exists_mem_cons_iff,
      above_iff, or_assoc]

/-- No class that is above the class is above itself. -/
def AcyclicAbove (m : Machine) (id : ClassId) : Prop :=
  ∀ k, m.Above k id → ¬ Relation.TransGen (fun k id => (m.cls id).Below k) k k

theorem AcyclicAbove.parent (h : m.AcyclicAbove id) (hk : k ∈ m.parents id) : m.AcyclicAbove k :=
  fun other hother => h other (.tail hother (mem_parents.mp hk))

/-- A class is not above its parents. -/
theorem AcyclicAbove.not_above (h : m.AcyclicAbove id) (hk : k ∈ m.parents id) : ¬ m.Above id k :=
  fun habove => h id .refl (.tail' habove (mem_parents.mp hk))

/-! ### The search -/

/-- Searches that start with each of some classes are a search that starts with all of them. -/
theorem exists_visits_all {depth : Nat} : ∀ {ids : List ClassId},
      (∀ id ∈ ids, ∃ order, m.Visits [id] order ∧
    ∀ name descriptor, Search.walk (m.declaredField? · name descriptor) m.parents depth id =
      .ofOption (order.findSome? (m.declaredField? · name descriptor))) →
    ∃ order, m.Visits ids order ∧ ∀ name descriptor,
      Search.first (Search.walk (m.declaredField? · name descriptor) m.parents depth) ids =
        .ofOption (order.findSome? (m.declaredField? · name descriptor))
  | [], _ => ⟨[], .nil, fun _ _ => rfl⟩
  | id :: ids, h => by
    obtain ⟨hfirst, hothers⟩ := List.forall_mem_cons.mp h
    obtain ⟨order, hvisits, hfind⟩ := hfirst
    obtain ⟨rest, hvisits', hfind'⟩ := exists_visits_all hothers
    refine ⟨order ++ rest, hvisits.append hvisits', fun name descriptor => ?_⟩
    rw [Search.first, hfind, List.findSome?_append, hfind']
    cases order.findSome? (m.declaredField? · name descriptor) <;> rfl

/-- There are no more classes in a row above a class than there are classes, so the search is not
given up. -/
theorem exists_visits : ∀ {s : Finset ClassId} {id : ClassId} {depth : Nat}, s.card ≤ depth →
    (∀ k, m.Above k id → k.index < m.classes.size → k ∈ s) → m.AcyclicAbove id →
    ∃ order, m.Visits [id] order ∧ ∀ name descriptor,
      Search.walk (m.declaredField? · name descriptor) m.parents (depth + 1) id =
        .ofOption (order.findSome? (m.declaredField? · name descriptor)) := by
  intro s
  induction s using Finset.strongInduction with
  | H s ih =>
    intro id depth hdepth hs hacyclic
    have hparents : ∀ k ∈ m.parents id, ∃ order, m.Visits [k] order ∧ ∀ name descriptor,
        Search.walk (m.declaredField? · name descriptor) m.parents depth k =
          .ofOption (order.findSome? (m.declaredField? · name descriptor)) := by
      intro k hk
      have hmem : id ∈ s := hs id .refl (Nat.lt_of_not_le fun hle => by
        rw [mem_parents, cls_of_size_le hle] at hk
        exact Class.not_below_default k hk)
      obtain ⟨depth, rfl⟩ :=
        Nat.exists_eq_add_one.mpr (Nat.lt_of_lt_of_le (Finset.card_pos.mpr ⟨id, hmem⟩) hdepth)
      refine ih (s.erase id) (Finset.erase_ssubset hmem) ?_ (fun other hother hlt => ?_)
        (hacyclic.parent hk)
      · rw [Finset.card_erase_of_mem hmem]
        omega
      · refine Finset.mem_erase.mpr ⟨?_, hs other (.tail hother (mem_parents.mp hk)) hlt⟩
        rintro rfl
        exact hacyclic.not_above hk hother
    obtain ⟨order, hvisits, hfind⟩ := exists_visits_all hparents
    refine ⟨id :: order, hvisits.single, fun name descriptor => ?_⟩
    rw [Search.walk, hfind, List.findSome?_cons]
    cases m.declaredField? id name descriptor <;> rfl

/-- The class declares a field with the name and the descriptor. -/
def DeclaresField (m : Machine) (id : ClassId) (name descriptor : String) : Prop :=
  ∃ field ∈ (m.cls id).fields, field.name = name ∧ field.descriptor = descriptor

theorem declaredField?_isSome :
    (m.declaredField? id name descriptor).isSome ↔ m.DeclaresField id name descriptor := by
  rw [declaredField?, Option.isSome_map, Class.fieldIndex?, Array.findIdx?_isSome, Array.any_eq_true']
  simp only [Bool.and_eq_true, decide_eq_true_eq, DeclaresField]

/-- The field has the name and the descriptor, and is the first one of its class that has them. -/
structure FirstField (m : Machine) (f : FieldId) (name descriptor : String) : Prop where
  named : (m.fieldAt f).name = name
  described : (m.fieldAt f).descriptor = descriptor
  first : ∀ j < f.index, ¬ ((m.fieldAt ⟨f.owner, j⟩).name = name ∧
    (m.fieldAt ⟨f.owner, j⟩).descriptor = descriptor)

theorem declaredField?_eq_some {f : FieldId} (h : m.declaredField? id name descriptor = some f) :
    f.owner = id ∧ m.FirstField f name descriptor := by
  obtain ⟨index, hindex, rfl⟩ := Option.map_eq_some_iff.mp h
  obtain ⟨hlt, hfound, hbefore⟩ := Array.findIdx?_eq_some_iff_getElem.mp hindex
  have hget : ∀ j, (hj : j < (m.cls id).fields.size) → m.fieldAt ⟨id, j⟩ = (m.cls id).fields[j] :=
      fun j hj => by
    simp [fieldAt, Array.getD, hj]
  simp only [Bool.and_eq_true, decide_eq_true_eq] at hfound
  refine ⟨rfl, ?_, ?_, fun j hj => ?_⟩
  · rw [hget index hlt, hfound.1]
  · rw [hget index hlt, hfound.2]
  · rw [hget j (Nat.lt_trans hj hlt)]
    simpa using hbefore j hj

/-- The search for fields of a class goes through all classes in the list, in this order, and finds
a field if one of them declares it: the first one of the first class that does. It always ends. -/
structure Searches (m : Machine) (id : ClassId) (order : List ClassId) : Prop where
  visits : m.Visits [id] order
  ends : ∀ name descriptor, m.fieldSearch id name descriptor ≠ .endless
  complete : ∀ k, k ∈ order ↔ m.Above k id
  first : ∀ name descriptor, m.field? id name descriptor = order.findSome?
    (m.declaredField? · name descriptor)
  found : ∀ name descriptor,
    (m.field? id name descriptor).isSome ↔ ∃ k, m.Above k id ∧ m.DeclaresField k name descriptor
  declared : ∀ name descriptor f, m.field? id name descriptor = some f →
    m.Above f.owner id ∧ m.FirstField f name descriptor

theorem exists_searches (hacyclic : m.AcyclicAbove id) : ∃ order, m.Searches id order := by
  obtain ⟨order, hvisits, hfind⟩ := exists_visits m.card_ids_le (fun k _ hk => mem_ids.mpr hk) hacyclic
  have hmem : ∀ k, k ∈ order ↔ m.Above k id := fun k => by simp [hvisits.mem_iff]
  have hfirst : ∀ name descriptor, m.field? id name descriptor = order.findSome?
      (m.declaredField? · name descriptor) :=
    fun name descriptor => by rw [field?, fieldSearch, hfind, Search.found?_ofOption]
  have hends : ∀ name descriptor, m.fieldSearch id name descriptor ≠ .endless :=
      fun name descriptor => by
    rw [fieldSearch, hfind]
    exact Search.ofOption_ne_endless _
  refine ⟨order, hvisits, hends, hmem, hfirst, fun name descriptor => ?_,
    fun name descriptor f hf => ?_⟩
  · rw [hfirst, List.findSome?_isSome_iff]
    simp only [hmem, declaredField?_isSome]
  · rw [hfirst] at hf
    obtain ⟨k, hk, hdeclared⟩ := List.exists_of_findSome?_eq_some hf
    obtain ⟨rfl, hfirst⟩ := declaredField?_eq_some hdeclared
    exact ⟨(hmem _).mp hk, hfirst⟩

/-! ### Later searches -/

/-- A search of a class with an order comes to its end, so nothing above the class is above itself. -/
theorem Visits.acc (h : m.Visits ids order) : ∀ id ∈ ids, Acc (fun k id => (m.cls id).Below k) id := by
  induction h with
  | nil => exact fun _ h => by cases h
  | cons _ _ hparents hothers =>
    exact List.forall_mem_cons.mpr ⟨.intro _ fun k hk => hparents k (mem_parents.mpr hk), hothers⟩

theorem acyclicAbove_of_acc (h : Acc (fun k id => (m.cls id).Below k) id) : m.AcyclicAbove id := by
  have hself : ∀ {k}, Acc (fun k id => (m.cls id).Below k) k →
      ¬ Relation.TransGen (fun k id => (m.cls id).Below k) k k :=
    fun hk => by
      induction hk with
      | intro k _ ih =>
        intro hcycle
        obtain ⟨parent, habove, hparent⟩ := Relation.TransGen.tail'_iff.mp hcycle
        exact ih parent hparent (.head' hparent habove)
  intro k hk
  refine hself ?_
  induction hk using Relation.ReflTransGen.head_induction_on with
  | refl => exact h
  | head hbelow _ ih => exact ih.inv hbelow

theorem Evolves.parents (hevolves : m.Evolves m') (hid : id.index < m.classes.size) :
    m'.parents id = m.parents id := by
  rw [Machine.parents, Machine.parents, supers, supers, (hevolves.later id hid).interfaces,
    (hevolves.later id hid).superClass]

theorem Evolves.declaredField? (hevolves : m.Evolves m') (hid : id.index < m.classes.size) :
    m'.declaredField? id name descriptor = m.declaredField? id name descriptor := by
  rw [Machine.declaredField?, Machine.declaredField?, Class.fieldIndex?, (hevolves.later id hid).fields]
  rfl

theorem Visits.evolves (hm : m.Sound) (hevolves : m.Evolves m') (h : m.Visits ids order)
    (hids : ∀ id ∈ ids, id.index < m.classes.size) : m'.Visits ids order := by
  induction h with
  | nil => exact .nil
  | cons _ _ hparents hothers =>
    obtain ⟨hid, hids⟩ := List.forall_mem_cons.mp hids
    refine .cons ?_ (hothers hids)
    rw [hevolves.parents hid]
    exact hparents fun k hk => hm.above _ k (mem_parents.mp hk)

/-- A search at a later time finds the same field. -/
theorem field?_evolves (hm : m.Sound) (hevolves : m.Evolves m') (hid : id.index < m.classes.size)
    (hacyclic : m.AcyclicAbove id) (name descriptor : String) :
    m'.field? id name descriptor = m.field? id name descriptor := by
  obtain ⟨order, h⟩ := exists_searches hacyclic
  have hvisits := h.visits.evolves hm hevolves (List.forall_mem_singleton.mpr hid)
  obtain ⟨order', h'⟩ :=
    exists_searches (acyclicAbove_of_acc (hvisits.acc id (List.mem_singleton_self id)))
  have hthere : ∀ k ∈ order, k.index < m.classes.size := fun k hk => by
    refine Relation.ReflTransGen.head_induction_on ((h.complete k).mp hk) hid
      fun {k parent} hbelow _ _ => ?_
    exact hm.above parent k hbelow
  rw [h.first, h'.first, h'.visits.unique hvisits]
  exact findSome?_congr fun k hk => hevolves.declaredField? (hthere k hk)

/-- Constants do not matter for the search. -/
theorem fieldSearch_changeClass {change : Class → Class}
    (hsuper : ∀ c, (change c).superClass = c.superClass)
    (hinterfaces : ∀ c, (change c).interfaces = c.interfaces)
    (hfields : ∀ c, (change c).fields = c.fields) (name descriptor : String) :
    (m.changeClass k change).fieldSearch id name descriptor = m.fieldSearch id name descriptor := by
  have hkeeps : ∀ {α : Type} (part : Class → α), (∀ c, part (change c) = part c) →
      ∀ id, part ((m.changeClass k change).cls id) = part (m.cls id) := fun part hpart id => by
    rcases m.cls_changeClass k change id with heq | ⟨rfl, heq⟩ <;> rw [heq]
    exact hpart _
  exact fieldSearch_of_same size_changeClass (hkeeps _ hfields) (hkeeps _ hsuper)
    (hkeeps _ hinterfaces) id name descriptor

end Machine

/-! ### References to fields -/

namespace VM

open Machine

variable {m m' m₁ : Machine} {owner id : ClassId} {index : UInt16}
  {ref : MemberRef FieldId} {field : FieldId}

/-- The constant at an index of a class's pool is a reference to a field. -/
def RefersTo (m : Machine) (owner : ClassId) (index : UInt16) (ref : MemberRef FieldId) : Prop :=
  (m.cls owner).pool[index.toNat]? = some (.field ref)

/-- The failure for a field that is not there. -/
def noSuchField (ref : MemberRef FieldId) : Failure :=
  .fault (.exception ExceptionName.noSuchField ref.describe)

theorem RefersTo.constantAt (h : RefersTo m owner index ref) :
    (m.cls owner).constantAt index = .ok (.field ref) := by
  rw [Class.constantAt, h]

theorem RefersTo.of_constantAt (h : (m.cls owner).constantAt index = .ok (.field ref)) :
    RefersTo m owner index ref :=
  constantAt_pool h

theorem RefersTo.evolves (h : RefersTo m owner index ref) (hevolves : m.Evolves m') :
    ∃ ref', RefersTo m' owner index ref' ∧ ref.Later ref' := by
  obtain ⟨constant, hconstant, hlater⟩ := (hevolves.later owner (lt_of_pool h)).constants _ _ h
  obtain ⟨ref', rfl, hkept⟩ := hlater.field_cases
  exact ⟨ref', hconstant, hkept⟩

/-- Replacing a constant by itself changes nothing. -/
theorem outcome_setConstant_self {constant : Constant}
    (h : (m.cls owner).pool[index.toNat]? = some constant) :
    outcome (setConstant owner index constant) m = (.ok ⟨⟩, m) := by
  let set (c : Class) : Class := { c with pool := c.pool.setIfInBounds index.toNat constant }
  have hpool : (m.cls owner).pool.setIfInBounds index.toNat constant = (m.cls owner).pool := by
    refine Array.ext_getElem? fun i => ?_
    by_cases heq : index.toNat = i
    · rw [← heq, Array.getElem?_setIfInBounds_self_of_lt (Array.getElem?_eq_some_iff.mp h).1, h]
    · rw [Array.getElem?_setIfInBounds_ne heq]
  have hset : set (m.cls owner) = m.cls owner := by
    change { m.cls owner with pool := (m.cls owner).pool.setIfInBounds index.toNat constant } =
      m.cls owner
    rw [hpool]
  have hclasses : m.classes.modify owner.index set = m.classes := by
    refine Array.ext (Array.size_modify ..) fun i hi hi' => ?_
    rw [Array.getElem_modify]
    split
    · rename_i heq
      subst heq
      have hcls : m.cls owner = m.classes[owner.index] := by simp [Machine.cls, Array.getD, hi']
      rw [← hcls, hset]
    · rfl
  rw [setConstant, outcome_modifyClass, changeClass, hclasses]

/-- A reference that is resolved gives the field that it keeps. -/
theorem outcome_resolveField_resolved (h : RefersTo m owner index ref)
    (hclass : ref.owner.resolved = some id)
    (hfield : ref.resolved = some field) : outcome (resolveField owner index) m = (.ok field, m) := by
  have htarget : outcome (target ref.owner) m = (.ok id, m) := by rw [target, hclass]; rfl
  have hsame : { ref with owner := { ref.owner with resolved := some id } } = ref := by rw [← hclass]
  rw [resolveField, outcome_bind_of_ok (outcome_constantAt h.constantAt)]
  dsimp only [resolveMember]
  rw [bind_assoc, outcome_bind_of_ok htarget, hsame, bind_assoc,
    outcome_bind_of_ok (outcome_setConstant_self h), hfield]
  rfl

/-- Keeping something in a reference changes nothing that a search looks at. -/
theorem outcome_setConstant_field (h : RefersTo m owner index ref) (ref' : MemberRef FieldId) :
    ∃ m', outcome (setConstant owner index (.field ref')) m = (.ok ⟨⟩, m') ∧
      RefersTo m' owner index ref' ∧
      ∀ id name descriptor, m'.fieldSearch id name descriptor = m.fieldSearch id name descriptor := by
  let set (c : Class) : Class := { c with pool := c.pool.setIfInBounds index.toNat (.field ref') }
  refine ⟨m.changeClass owner set, outcome_modifyClass owner set, ?_, fun id name descriptor =>
    fieldSearch_changeClass (fun c => (rfl : (set c).superClass = c.superClass)) (fun _ => rfl)
      (fun _ => rfl) name descriptor⟩
  rw [RefersTo, cls_changeClass_self _ (lt_of_pool h)]
  exact Array.getElem?_setIfInBounds_self_of_lt (Array.getElem?_eq_some_iff.mp h).1

/-- A load that fails leaves references as they are. -/
theorem RefersTo.of_target {r : Except Failure ClassId}
    (h : RefersTo m owner index ref) (hm : m.Regular)
    {named : ClassRef} (hrun : outcome (target named) m = (r, m₁)) (hr : Completes r) :
    RefersTo m₁ owner index ref := by
  unfold target at hrun
  split at hrun
  · cases hrun
    exact h
  · have hgrows := (load_faithful m named.name hm.coherent _ _ hrun hr).grows
    rwa [RefersTo, hgrows.same owner (lt_of_pool h) fun hfalse => hfalse]

/-- What the first call leaves that resolves a reference to a field: the reference keeps the field
that a search finds. -/
structure Resolved (m' : Machine) (owner : ClassId) (index : UInt16)
    (ref : MemberRef FieldId) (id : ClassId) (field : FieldId) : Prop where
  kept : RefersTo m' owner index
    { ref with owner := { ref.owner with resolved := some id }, resolved := some field }
  found : m'.field? id ref.name ref.descriptor = some field

/-- What a call leaves that fails to resolve a reference to a field: the reference keeps the class
at most. Its class cannot be loaded, or a search finds no field, or never ends. -/
structure Unresolved (m m' : Machine) (owner : ClassId) (index : UInt16)
    (ref : MemberRef FieldId) (e : Failure) :
    Prop where
  kept : Completes (.error e : Except Failure FieldId) →
    ∃ class', RefersTo m' owner index { ref with owner := { ref.owner with resolved := class' } }
  reason : outcome (target ref.owner) m = (.error e, m') ∨
    ∃ id m₁, outcome (target ref.owner) m = (.ok id, m₁) ∧
    (e = noSuchField ref ∧ m'.fieldSearch id ref.name ref.descriptor = .absent ∨
      e = .endless ∧ m'.fieldSearch id ref.name ref.descriptor = .endless)

theorem resolveField_first (hm : m.Regular) (h : RefersTo m owner index ref)
    (hfirst : ref.resolved = none)
    {r : Except Failure FieldId} (hrun : outcome (resolveField owner index) m = (r, m')) :
    (∃ id m₁ field, outcome (target ref.owner) m = (.ok id, m₁) ∧ r = .ok field ∧
      Resolved m' owner index ref id field) ∨
      ∃ e, r = .error e ∧ Unresolved m m' owner index ref e := by
  rw [resolveField, outcome_bind_of_ok (outcome_constantAt h.constantAt)] at hrun
  dsimp only [resolveMember] at hrun
  rw [bind_assoc, outcome_bind] at hrun
  rcases htarget : outcome (target ref.owner) m with ⟨e | id, m₁⟩ <;> rw [htarget] at hrun <;>
    dsimp only at hrun
  · cases hrun
    refine .inr ⟨e, rfl, fun he => ?_, .inl htarget⟩
    obtain ⟨fault, rfl⟩ := completes_error he
    exact ⟨ref.owner.resolved, h.of_target hm htarget trivial⟩
  · obtain ⟨m₂, hkeep, hkept, hfind⟩ := outcome_setConstant_field (h.of_target hm htarget trivial)
      { ref with owner := { ref.owner with resolved := some id } }
    rw [bind_assoc, outcome_bind_of_ok hkeep, hfirst] at hrun
    dsimp only at hrun
    rw [bind_assoc, outcome_bind_of_ok (outcome_get m₂), searchField, bind_assoc, bind_assoc,
      outcome_ofSearch_bind] at hrun
    rcases hsearch : m₂.fieldSearch id ref.name ref.descriptor with
      field | _ | _ <;> rw [hsearch] at hrun
    · obtain ⟨m₃, hkeep', hkept', hfind'⟩ := outcome_setConstant_field hkept
        { ref with owner := { ref.owner with resolved := some id }, resolved := some field }
      dsimp only at hrun
      rw [pure_bind, bind_assoc, outcome_bind_of_ok hkeep'] at hrun
      cases hrun
      exact .inl ⟨id, m₁, field, rfl, rfl, hkept', by rw [Machine.field?, hfind', hsearch]; rfl⟩
    · cases hrun
      exact .inr ⟨_, rfl, fun _ => ⟨some id, hkept⟩, .inr ⟨id, m₁, htarget, .inl ⟨rfl, hsearch⟩⟩⟩
    · cases hrun
      exact .inr ⟨_, rfl, fun he => he.elim, .inr ⟨id, m₁, htarget, .inr ⟨rfl, hsearch⟩⟩⟩

/-- Whatever is done after a reference was resolved, the reference gives the same field, and so does
a search. -/
theorem Resolved.evolves (h : Resolved m owner index ref id field) (hm : m.Regular)
    (hevolves : m.Evolves m') :
    outcome (resolveField owner index) m' = (.ok field, m') ∧
      (m.AcyclicAbove id → m'.field? id ref.name ref.descriptor = some field) := by
  obtain ⟨ref', hrefers, hlater⟩ := h.kept.evolves hevolves
  have hid : id.index < m.classes.size :=
    (hm.coherent.constants owner _ (Array.mem_of_getElem? h.kept)).1 id rfl
  have hanswer := outcome_resolveField_resolved hrefers
    (hlater.owner.resolved id rfl) (hlater.resolved field rfl)
  refine ⟨hanswer, fun hacyclic => ?_⟩
  rw [field?_evolves hm.coherent.sound hevolves hid hacyclic, h.found]

/-- A field is found for a class if one is declared above it, and it is the first in the order of
the search. A call that resolves a reference to a field gives the field that is found, which every
later call gives as well, and every later search finds again. A call that fails leaves the reference
unresolved, and one that does not end searches for ever. -/
theorem field_resolution (m : Machine) :
    (∀ id, m.AcyclicAbove id → ∃ order, m.Searches id order) ∧
    (m.Regular → ∀ owner index ref r m', (m.cls owner).constantAt index = .ok (.field ref) →
      ref.resolved = none →
      outcome (resolveField owner index) m = (r, m') → (Completes r → m'.Regular) ∧
        ((∃ id m₁ field, outcome (target ref.owner) m = (.ok id, m₁) ∧ r = .ok field ∧
            m'.field? id ref.name ref.descriptor = some field ∧
            ∀ natives : Natives, natives.Orderly → ∀ S es S', S.machine = m' →
              Session.Run natives S es S' →
              outcome (resolveField owner index) S'.machine = (.ok field, S'.machine) ∧
              (m'.AcyclicAbove id → S'.machine.field? id ref.name ref.descriptor = some field)) ∨
          ∃ e, r = .error e ∧
            (Completes r → ∃ class', (m'.cls owner).constantAt index =
              .ok (.field { ref with owner := { ref.owner with resolved := class' } })) ∧
            (outcome (target ref.owner) m = (.error e, m') ∨
              ∃ id m₁, outcome (target ref.owner) m = (.ok id, m₁) ∧
              (e = noSuchField ref ∧ m'.fieldSearch id ref.name ref.descriptor = .absent ∨
                e = .endless ∧ m'.fieldSearch id ref.name ref.descriptor = .endless)))) := by
  refine ⟨fun id hacyclic => exists_searches hacyclic,
    fun hm owner index ref r m' hconstant hfirst hrun => ?_⟩
  refine ⟨fun hr => ((resolveField_steady hm owner index).steady _ _ hm hrun hr).1, ?_⟩
  rcases resolveField_first hm (.of_constantAt hconstant) hfirst hrun with
    ⟨id, m₁, field, htarget, rfl, hresolved⟩ | ⟨e, rfl, hkept, hreason⟩
  · have hm' := ((resolveField_steady hm owner index).steady _ _ hm hrun trivial).1
    refine .inl ⟨id, m₁, field, htarget, rfl,
      hresolved.found, fun natives hnatives S es S' hS hlater => ?_⟩
    subst hS
    exact hresolved.evolves hm' (hlater.advances hnatives hm').evolves
  · refine .inr ⟨e, rfl, fun hr => ?_, hreason⟩
    obtain ⟨class', hrefers⟩ := hkept hr
    exact ⟨class', hrefers.constantAt⟩

/-- A class that inherits a field with one name and descriptor from its interface and from its super
class, and refers to it. -/
def defineShadowed : VM ClassId := do
  let _ ← VM.define (.build ClassName.object none (pure ()))
  let _ ← VM.define <| .build "Sized" (some ClassName.object) do
    Builder.setFlags ⟨AccessFlags.publicBit ||| AccessFlags.interfaceBit ||| AccessFlags.abstractBit⟩
    Builder.addField ⟨AccessFlags.publicBit ||| AccessFlags.staticBit⟩ "count" "I"
  let _ ← VM.define (.build "Base" (some ClassName.object)
      (Builder.addField ⟨AccessFlags.publicBit⟩ "count" "I"))
  VM.define <| .build "Heir" (some "Base") do
    Builder.addInterface "Sized"
    let _ ← Builder.fieldRef "Heir" "count" "I"

def shadowed : Machine := (outcome defineShadowed (.start [])).2

theorem regular_shadowed : shadowed.Regular :=
  have horderly : VM.Orderly defineShadowed :=
    .bind (.define _) fun _ => .bind (.define _) fun _ => .bind (.define _) fun _ => .define _
  have hrun : Session.Run .none (.start []) [] ⟨shadowed, []⟩ :=
    .host .start horderly (Prod.eta _).symm (by decide +kernel)
  hrun.regular (fun _ _ h => by cases h)

/-- The class comes first, then its interface and then its super class, each with the root of the
hierarchy. -/
theorem visits_shadowed : shadowed.Visits [⟨3⟩] [⟨3⟩, ⟨1⟩, ⟨0⟩, ⟨2⟩, ⟨0⟩] := by
  have hparents : shadowed.parents ⟨3⟩ = [⟨1⟩, ⟨2⟩] ∧ shadowed.parents ⟨1⟩ = [⟨0⟩] ∧
      shadowed.parents ⟨2⟩ = [⟨0⟩] ∧ shadowed.parents ⟨0⟩ = [] := by decide +kernel
  obtain ⟨hheir, hsized, hbase, hroot⟩ := hparents
  have hvisitsRoot : shadowed.Visits [⟨0⟩] [⟨0⟩] := .single (by rw [hroot]; exact .nil)
  have hvisitsSized : shadowed.Visits [⟨1⟩] [⟨1⟩, ⟨0⟩] := .single (hsized ▸ hvisitsRoot)
  have hvisitsBase : shadowed.Visits [⟨2⟩] [⟨2⟩, ⟨0⟩] := .single (hbase ▸ hvisitsRoot)
  exact .single (hheir ▸ hvisitsSized.append hvisitsBase)

/-- The field of the interface hides that of the super class, when the reference is resolved and
when it is used again. -/
theorem field_resolution_shadowed :
    shadowed.field? ⟨3⟩ "count" "I" = some ⟨⟨1⟩, 0⟩ ∧ ∃ m',
      outcome (resolveField ⟨3⟩ 10) shadowed = (.ok ⟨⟨1⟩, 0⟩, m') ∧
      outcome (resolveField ⟨3⟩ 10) m' = (.ok ⟨⟨1⟩, 0⟩, m') := by
  obtain ⟨hsearch, hresolve⟩ := field_resolution shadowed
  have hacyclic : shadowed.AcyclicAbove ⟨3⟩ :=
    acyclicAbove_of_acc (visits_shadowed.acc ⟨3⟩ (List.mem_singleton_self _))
  obtain ⟨order, hsearches⟩ := hsearch ⟨3⟩ hacyclic
  have hfirst : (outcome (resolveField ⟨3⟩ 10) shadowed).1 = .ok ⟨⟨1⟩, 0⟩ := by decide +kernel
  have hconstant : (shadowed.cls ⟨3⟩).constantAt 10 =
      .ok (.field ⟨⟨"Heir", none⟩, "count", "I", none⟩) := by decide +kernel
  refine ⟨?_, _, Prod.ext hfirst rfl, ?_⟩
  · rw [hsearches.first, hsearches.visits.unique visits_shadowed]
    decide +kernel
  · obtain ⟨-, hanswer⟩ := hresolve regular_shadowed _ _ _ _ _ hconstant rfl (Prod.ext hfirst rfl)
    rcases hanswer with ⟨id, m₁, field, -, heq, -, hlater⟩ | ⟨e, heq, -⟩
    · cases heq
      exact (hlater .none (fun _ _ h => by cases h) ⟨_, []⟩ [] _ rfl .start).1
    · cases heq

end VM

end JavaMachine
