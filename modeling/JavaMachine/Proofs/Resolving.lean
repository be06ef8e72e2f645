import JavaMachine.Proofs.Evolution

/-!
Resolving symbolic references.

What a reference resolves to is there: a class of the machine, or a member of one. The constants of
a regular machine keep only such classes and members, so a reference that was resolved before gives
them as well.
-/

namespace JavaMachine

variable {α β : Type} {m m' : Machine}

namespace Machine

variable {id : ClassId} {name descriptor : String}

theorem lt_of_fields {i : Nat} (h : i < (m.cls id).fields.size) : id.index < m.classes.size := by
  refine Nat.lt_of_not_le fun hle => ?_
  rw [cls_of_size_le hle] at h
  exact absurd h (Nat.not_lt_zero i)

theorem lt_of_methods {method : Method} (h : method ∈ (m.cls id).methods) :
    id.index < m.classes.size := by
  refine Nat.lt_of_not_le fun hle => ?_
  rw [cls_of_size_le hle] at h
  cases h
  contradiction

/-- A field that is found is one of the class that its id names. -/
theorem fieldSearch_lt {id : ClassId} {field : FieldId}
    (h : m.fieldSearch id name descriptor = .found field) :
    field.index < (m.cls field.owner).fields.size := by
  obtain ⟨k, hk⟩ := Search.exists_of_walk_eq_found h
  obtain ⟨index, hindex, rfl⟩ := Option.map_eq_some_iff.mp hk
  obtain ⟨hlt, -⟩ := Array.findIdx?_eq_some_iff_getElem.mp hindex
  exact hlt

/-- The machine has a class that declares the method. -/
def Declares (m : Machine) (method : Method) : Prop := ∃ id, method ∈ (m.cls id).methods

theorem Declares.lt {method : Method} (h : m.Declares method) (hm : m.Coherent) :
    method.owner.index < m.classes.size := by
  obtain ⟨id, hmethod⟩ := h
  rw [hm.owners id method hmethod]
  exact lt_of_methods hmethod

theorem declares_of_method? {method : Method} (h : (m.cls id).method? name descriptor = some method) :
    m.Declares method := ⟨id, Array.mem_of_find?_eq_some h⟩

theorem method?_declares {method : Method} (h : m.method? id name descriptor = some method) :
    m.Declares method := by
  rw [method?_eq] at h
  obtain ⟨k, -, h⟩ := List.exists_of_findSome?_eq_some h
  exact declares_of_method? h

theorem interfaceMethod?_declares {method : Method}
    (h : m.interfaceMethod? id name descriptor = some method) :
    m.Declares method := by
  rw [interfaceMethod?, searchInterfaces_eq] at h
  obtain ⟨k, -, h⟩ := List.exists_of_findSome?_eq_some h
  exact declares_of_method? h

end Machine

namespace VM

open Machine

/-- A steady step whose result, if it gives one, has a property on the machine that it leaves. -/
structure SteadyTo (m : Machine) (x : VM α) (p : Machine → α → Prop) : Prop where
  steady : SteadyOn m x
  gives : ∀ a m', m.Regular → outcome x m = (.ok a, m') → p m' a

namespace SteadyTo

variable {x : VM α} {p : Machine → α → Prop} {q : Machine → β → Prop}

theorem bind {f : α → VM β} (hx : SteadyTo m x p)
    (hf : ∀ a m₁, m₁.Regular → m.Evolves m₁ → p m₁ a → SteadyTo m₁ (f a) q) :
    SteadyTo m (x >>= f) q where
  steady := hx.steady.bind fun a m₁ hm hm₁ hevolves hfirst =>
    (hf a m₁ hm₁ hevolves (hx.gives a m₁ hm hfirst)).steady
  gives := by
    intro b m' hm hrun
    obtain ⟨a, m₁, hfirst, hrun⟩ := outcome_bind_ok.mp hrun
    obtain ⟨hm₁, hevolves, -⟩ := hx.steady _ _ hm hfirst trivial
    exact (hf a m₁ hm₁ hevolves (hx.gives a m₁ hm hfirst)).gives b m' hm₁ hrun

theorem pure {a : α} (h : p m a) : SteadyTo m (pure a) p where
  steady := .of_same rfl
  gives _ _ _ hrun := by cases hrun; exact h

theorem fail (fault : Fault) : SteadyTo m (VM.fail fault) p where
  steady := .of_same rfl
  gives _ _ _ hrun := by cases hrun

theorem reads {f : α → VM β} {a : α} (hread : outcome x m = (.ok a, m)) (h : SteadyTo m (f a) q) :
    SteadyTo m (x >>= f) q where
  steady := .bind (.of_same (by rw [hread])) fun b m₁ _ _ _ hb => by
    rw [hread] at hb
    cases hb
    exact h.steady
  gives b m' hm hrun := by
    rw [outcome_bind_of_ok hread] at hrun
    exact h.gives b m' hm hrun

theorem ofSearch {search : Search α} {f : Option α → VM β}
    (hf : ∀ found, search.found? = found → SteadyTo m (f found) q) :
    SteadyTo m (VM.ofSearch search >>= f) q := by
  cases search with
  | found a => exact reads (a := some a) rfl (hf _ rfl)
  | absent => exact reads (a := none) rfl (hf _ rfl)
  | endless => exact ⟨.of_same rfl, fun _ _ _ hrun => by cases hrun⟩

end SteadyTo

/-! ### Constants -/

theorem constantAt_pool {c : Class} {index : UInt16} {constant : Constant}
    (h : c.constantAt index = .ok constant) :
    c.pool[index.toNat]? = some constant := by
  unfold Class.constantAt at h
  split at h
  · cases h
  · cases h
  · rename_i found
    cases h
    exact found

theorem constantAt_mem {c : Class} {index : UInt16} {constant : Constant}
    (h : c.constantAt index = .ok constant) :
    constant ∈ c.pool := Array.mem_of_getElem? (constantAt_pool h)

/-- A constant that is read refers to classes that are there. -/
theorem constantAt_bind {owner : ClassId} {index : UInt16} {f : Constant → VM β}
    {q : Machine → β → Prop} (hm : m.Regular) (hf : ∀ constant, constant.Within m.classes.size →
      (m.cls owner).pool[index.toNat]? = some constant → SteadyTo m (f constant) q) :
    SteadyTo m (constantAt owner index >>= f) q := by
  unfold constantAt
  rw [bind_assoc]
  refine .reads (outcome_cls owner) ?_
  rcases hconstant : (m.cls owner).constantAt index with e | constant
  · exact .fail (.classFormat e)
  · exact .reads rfl (hf constant (hm.coherent.constants owner constant (constantAt_mem hconstant))
      (constantAt_pool hconstant))

/-- Only classes that are there have constants. -/
theorem lt_of_pool {owner : ClassId} {i : Nat} {constant : Constant}
    (h : (m.cls owner).pool[i]? = some constant) :
    owner.index < m.classes.size := by
  refine Nat.lt_of_not_le fun hle => ?_
  rw [cls_of_size_le hle] at h
  cases h

/-- A constant comes to be what it may be later on, and then is that. -/
theorem setConstant_bind {owner : ClassId} {index : UInt16}
    {before constant : Constant} {f : Unit → VM β}
    {q : Machine → β → Prop} (hbefore : (m.cls owner).pool[index.toNat]? = some before)
    (hlater : before.Later constant) (h : constant.Within m.classes.size)
    (hf : ∀ m₁, m₁.Regular → m.Evolves m₁ → (m₁.cls owner).pool[index.toNat]? = some constant →
      SteadyTo m₁ (f ⟨⟩) q) :
    SteadyTo m (setConstant owner index constant >>= f) q := by
  have hset : SteadyOn m (setConstant owner index constant) := .setConstant h fun other hother => by
    rw [hbefore] at hother
    cases hother
    exact hlater
  have hgives : SteadyTo m (setConstant owner index constant) fun m₁ _ =>
      (m₁.cls owner).pool[index.toNat]? = some constant := by
    refine ⟨hset, fun _ m₁ _ hrun => ?_⟩
    cases hrun
    change ((m.changeClass owner _).cls owner).pool[_]? = _
    rw [cls_changeClass_self _ (lt_of_pool hbefore)]
    exact Array.getElem?_setIfInBounds_self_of_lt (Array.getElem?_eq_some_iff.mp hbefore).1
  exact hgives.bind fun _ m₁ hm₁ hevolves hconstant => hf m₁ hm₁ hevolves hconstant

/-! ### References -/

/-- The class that a reference is resolved to. The classes from before are left as they are. -/
structure Targets (m : Machine) (ref : ClassRef) (m' : Machine) (id : ClassId) : Prop where
  there : id.index < m'.classes.size
  same : ∀ k : ClassId, k.index < m.classes.size → m'.cls k = m.cls k
  later : ref.Later { ref with resolved := some id }

theorem target_steady {ref : ClassRef} (h : ref.Within m.classes.size) :
    SteadyTo m (target ref) (Targets m ref) := by
  unfold target
  rcases hresolved : ref.resolved with _ | id
  · refine ⟨Steady.load ref.name m, fun id m' hm hrun => ?_⟩
    have hfound := load_faithful m ref.name hm.coherent _ _ hrun trivial
    exact ⟨hfound.coherent.sound.bound _ _ (hfound.given id rfl).bound,
      fun k hk => hfound.grows.same k hk fun hfalse => hfalse,
      rfl, fun k hk => by rw [hresolved] at hk; cases hk⟩
  · exact .pure ⟨h id hresolved, fun _ _ => rfl, rfl, fun k hk => by rw [hresolved] at hk; exact hk⟩

theorem resolveClass_steady (hm : m.Regular) (owner : ClassId) (index : UInt16) :
    SteadyTo m (resolveClass owner index) fun m' id => id.index < m'.classes.size := by
  refine constantAt_bind hm fun constant hconstant hpool => ?_
  split
  · refine (target_steady hconstant).bind fun id m₁ _ _ htarget => ?_
    rw [← htarget.same owner (lt_of_pool hpool)] at hpool
    refine setConstant_bind hpool (.classRef htarget.later) ?_ fun m₂ _ hevolves _ => .pure ?_
    · exact fun k hk => by cases hk; exact htarget.there
    · exact Nat.lt_of_lt_of_le htarget.there hevolves.classes
  · exact .fail _

/-- A member reference: its class is resolved and kept, and then the member. What is kept is there. -/
theorem resolveMember_steady {user : ClassId} {index : UInt16} {ref : MemberRef α}
    {wrap : MemberRef α → Constant} {search : Machine → ClassId → VM α} (owner : α → ClassId)
    (hwithin : ∀ {n : Nat} {ref : MemberRef α}, (wrap ref).Within n ↔
      ref.owner.Within n ∧ ∀ member, ref.resolved = some member → (owner member).index < n)
    (hlater : ∀ {ref ref' : MemberRef α}, ref.Later ref' → (wrap ref).Later (wrap ref'))
    (hconstant : (wrap ref).Within m.classes.size)
    (hpool : (m.cls user).pool[index.toNat]? = some (wrap ref)) (hsearch : ∀ m₁ id, m₁.Regular →
      SteadyTo m₁ (search m₁ id) fun m' member => m' = m₁ ∧ (owner member).index < m'.classes.size) :
    SteadyTo m (resolveMember ref (fun ref => setConstant user index (wrap ref)) search)
        fun m' resolved =>
      (owner resolved.2).index < m'.classes.size := by
  obtain ⟨howner, hmember⟩ := hwithin.mp hconstant
  refine (target_steady howner).bind fun id m₁ _ hevolves htarget => ?_
  have hclass : ∀ {n}, m₁.classes.size ≤ n → ClassRef.Within n { ref.owner with resolved := some id } :=
    fun hle k hk => by cases hk; exact Nat.lt_of_lt_of_le htarget.there hle
  have hkept : ∀ member, ref.resolved = some member → (owner member).index < m₁.classes.size :=
    fun member h => Nat.lt_of_lt_of_le (hmember member h) hevolves.classes
  rw [← htarget.same user (lt_of_pool hpool)] at hpool
  refine setConstant_bind hpool (hlater ⟨htarget.later, rfl, rfl, fun _ h => h⟩)
    (hwithin.mpr ⟨hclass (Nat.le_refl _), hkept⟩)
    fun m₂ hm₂ hevolves₂ hpool₂ => ?_
  dsimp only
  split
  · rename_i member hresolved
    exact .pure (Nat.lt_of_lt_of_le (hkept member hresolved) hevolves₂.classes)
  · rename_i hnone
    refine .reads (outcome_get m₂) ((hsearch m₂ id hm₂).bind fun member m₃ _ _ ⟨hsame, hfound⟩ => ?_)
    subst hsame
    refine setConstant_bind hpool₂ (hlater ⟨.refl _, rfl, rfl, fun other hother => ?_⟩)
      (hwithin.mpr ⟨?_, ?_⟩)
      fun m₄ _ hevolves₄ _ => .pure (Nat.lt_of_lt_of_le hfound hevolves₄.classes)
    · rw [hnone] at hother
      cases hother
    · exact hclass hevolves₂.classes
    · exact fun other hother => by cases hother; exact hfound

theorem searchField_steady (ref : MemberRef FieldId) (m : Machine) (id : ClassId) :
    SteadyTo m (searchField ref m id) fun m' field => m' = m ∧ field.owner.index < m'.classes.size := by
  refine .ofSearch fun found hfound => ?_
  split
  · exact .pure ⟨rfl, lt_of_fields (fieldSearch_lt (Search.found?_eq_some.mp hfound))⟩
  · exact .fail _

theorem searchMethod_steady (ref : MemberRef Method) (hm : m.Regular) (id : ClassId) :
    SteadyTo m (searchMethod ref m id) fun m' method => m' = m ∧
      method.owner.index < m'.classes.size := by
  unfold searchMethod
  split
  · exact .fail _
  · refine .ofSearch fun found hfound => ?_
    split
    · refine .pure ⟨rfl, Declares.lt ?_ hm.coherent⟩
      rcases Search.orElse_eq_found.mp (Search.found?_eq_some.mp hfound) with h | ⟨-, h⟩
      · exact method?_declares (Search.found?_eq_some.mpr h)
      · exact interfaceMethod?_declares (Search.ofOption_eq_found.mp h)
    · exact .fail _

theorem searchInterfaceMethod_steady (ref : MemberRef Method) (hm : m.Regular) (id : ClassId) :
    SteadyTo m (searchInterfaceMethod ref m id) fun m' method => m' = m ∧
      method.owner.index < m'.classes.size := by
  unfold searchInterfaceMethod
  dsimp only
  split
  · exact .fail _
  · split
    · rename_i method hmethod
      refine .pure ⟨rfl, Declares.lt ?_ hm.coherent⟩
      rw [Option.orElse_eq_or, Option.or_eq_some_iff] at hmethod
      rcases hmethod with h | ⟨-, h⟩
      · rw [Option.orElse_eq_or, Option.or_eq_some_iff] at h
        rcases h with h | ⟨-, h⟩
        · exact declares_of_method? h
        · exact interfaceMethod?_declares h
      · obtain ⟨k, -, h⟩ := Option.bind_eq_some_iff.mp h
        exact declares_of_method? h
    · exact .fail _

theorem resolveField_steady (hm : m.Regular) (owner : ClassId) (index : UInt16) :
    SteadyTo m (resolveField owner index) fun m' field => field.owner.index < m'.classes.size := by
  refine constantAt_bind hm fun constant hconstant hpool => ?_
  split
  · exact .bind (resolveMember_steady (·.owner) .rfl .field hconstant hpool fun m₁ id _ =>
      searchField_steady _ m₁ id)
      fun resolved _ _ _ h => .pure h
  · exact .fail _

theorem resolveMethod_steady (hm : m.Regular) (owner : ClassId) (index : UInt16) :
    SteadyTo m (resolveMethod owner index) fun m' resolved => resolved.2.owner.index <
      m'.classes.size := by
  refine constantAt_bind hm fun constant hconstant hpool => ?_
  split
  · exact resolveMember_steady (·.owner) .rfl .method hconstant hpool fun m₁ id hm₁ =>
      searchMethod_steady _ hm₁ id
  · exact resolveMember_steady (·.owner) .rfl .interfaceMethod hconstant hpool fun m₁ id hm₁ =>
      searchInterfaceMethod_steady _ hm₁ id
  · exact .fail _

end VM

end JavaMachine
