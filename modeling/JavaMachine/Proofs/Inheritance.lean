import Mathlib.Logic.Relation
import JavaMachine.Proofs.FieldLayout
import JavaMachine.Proofs.Searching
import JavaMachine.Proofs.Undoing

/-!
What a class inherits.

What is above a class at all is there after fewer steps than there are classes, even if a class
reaches itself (`exists_reaches_lt`). So the list of the super chain has all super classes
(`Sound.mem_superChain`), and that of the interfaces below a class all that it reaches through
interfaces (`Sound.mem_interfacesBelow`). A search of a super chain that never ends comes to an end
only if it finds something (`Sound.searchChain_eq_endless`).
-/

namespace JavaMachine

/-- From `a` to `b` over so many steps. -/
inductive Reaches {α : Type} (next : α → α → Prop) : Nat → α → α → Prop where
  | here (a : α) : Reaches next 0 a a
  | step {n : Nat} {a b c : α} (first : next a b) (rest : Reaches next n b c) : Reaches next (n + 1) a c

section

variable {α : Type} {next next' : α → α → Prop} {a b c : α} {n : Nat}

theorem Reaches.imp (hnext : ∀ a b, next a b → next' a b) (h : Reaches next n a b) :
    Reaches next' n a b := by
  induction h with
  | here a => exact .here a
  | step first _ ih => exact .step (hnext _ _ first) ih

theorem Reaches.reflTransGen (h : Reaches next n a b) : Relation.ReflTransGen next a b := by
  induction h with
  | here => exact .refl
  | step first _ ih => exact .head first ih

/-- The way to another place leaves `a` for good once. -/
theorem leaves_of_reflTransGen (h : Relation.ReflTransGen next a b) :
    a = b ∨ ∃ c, next a c ∧ c ≠ a ∧ Relation.ReflTransGen (fun x y => next x y ∧ y ≠ a) c b := by
  induction h with
  | refl => exact .inl rfl
  | @tail b d _ hlast ih =>
    by_cases hd : d = a
    · exact .inl hd.symm
    · rcases ih with rfl | ⟨c, hfirst, hc, hrest⟩
      · exact .inr ⟨d, hlast, hd, .refl⟩
      · exact .inr ⟨c, hfirst, hc, hrest.tail ⟨hlast, hd⟩⟩

/-- What can be reached is reached over fewer steps than there are places. -/
theorem exists_reaches_lt [DecidableEq α] : ∀ {s : Finset α} {next : α → α → Prop} {a : α},
    (∀ x y, next x y → y ∈ s) → a ∈ s → Relation.ReflTransGen next a b → ∃ n < s.card,
    Reaches next n a b := by
  intro s
  induction s using Finset.strongInduction with
  | H s ih =>
    intro next a htargets ha h
    have hpositive : 0 < s.card := Finset.card_pos.mpr ⟨a, ha⟩
    rcases leaves_of_reflTransGen h with rfl | ⟨c, hfirst, hc, hrest⟩
    · exact ⟨0, hpositive, .here a⟩
    · obtain ⟨n, hn, hreaches⟩ := ih (s.erase a) (Finset.erase_ssubset ha)
        (fun x y hxy => Finset.mem_erase.mpr ⟨hxy.2, htargets x y hxy.1⟩)
        (Finset.mem_erase.mpr ⟨hc, htargets a c hfirst⟩) hrest
      rw [Finset.card_erase_of_mem ha] at hn
      exact ⟨n + 1, by omega, .step hfirst (hreaches.imp fun _ _ => And.left)⟩

end

namespace Machine

variable {m : Machine} {id k : ClassId} {name descriptor : String} {method : Method}

theorem extends_iff :
    m.Extends id k ↔ Relation.ReflTransGen (fun a b => (m.cls a).superClass = some b) id k := by
  constructor <;> intro h
  · induction h with
    | refl => exact .refl
    | super hsuper _ ih => exact .head hsuper ih
  · induction h using Relation.ReflTransGen.head_induction_on with
    | refl => exact .refl k
    | head hsuper _ ih => exact .super hsuper ih

/-- `k` is an interface that `id` names, or a direct or indirect super-interface of one. -/
def SuperInterface (m : Machine) (id k : ClassId) : Prop :=
  Relation.TransGen (fun a b => b ∈ (m.cls a).interfaces) id k

theorem mem_chainWithin : ∀ {depth : Nat} {id : ClassId}, k ∈ m.chainWithin depth id ↔
    ∃ n < depth, Reaches (fun a b => (m.cls a).superClass = some b) n id k
  | 0, id => by simp [chainWithin]
  | depth + 1, id => by
    have hrest : (∃ super, (m.cls id).superClass = some super ∧ k ∈ m.chainWithin depth super) ↔
        ∃ n < depth, Reaches (fun a b => (m.cls a).superClass = some b) (n + 1) id k := by
      constructor
      · rintro ⟨super, hsuper, hk⟩
        obtain ⟨n, hn, h⟩ := mem_chainWithin.mp hk
        exact ⟨n, hn, .step hsuper h⟩
      · rintro ⟨n, hn, h⟩
        cases h with
        | step hsuper h => exact ⟨_, hsuper, mem_chainWithin.mpr ⟨n, hn, h⟩⟩
    rw [chainWithin, List.mem_cons]
    constructor
    · rintro (rfl | hk)
      · exact ⟨0, Nat.succ_pos _, .here _⟩
      · obtain ⟨n, hn, h⟩ := hrest.mp (by
          rcases hsuper : (m.cls id).superClass with _ | super <;> rw [hsuper] at hk
          · cases hk
          · exact ⟨super, rfl, hk⟩)
        exact ⟨n + 1, Nat.succ_lt_succ hn, h⟩
    · rintro ⟨n, hn, h⟩
      rcases n with _ | n
      · cases h
        exact .inl rfl
      · obtain ⟨super, hsuper, hk⟩ := hrest.mpr ⟨n, Nat.lt_of_succ_lt_succ hn, h⟩
        rw [hsuper]
        exact .inr hk

theorem mem_interfacesWithin : ∀ {depth : Nat} {ids : List ClassId}, k ∈ m.interfacesWithin depth ids ↔
    ∃ id ∈ ids, ∃ n < depth, Reaches (fun a b => b ∈ (m.cls a).interfaces) n id k
  | 0, ids => by simp [interfacesWithin]
  | depth + 1, ids => by
    rw [interfacesWithin, List.mem_flatMap]
    refine exists_congr fun id => and_congr_right fun _ => ?_
    rw [List.mem_cons]
    constructor
    · rintro (rfl | hk)
      · exact ⟨0, Nat.succ_pos _, .here _⟩
      · obtain ⟨interface, hinterface, n, hn, h⟩ := mem_interfacesWithin.mp hk
        exact ⟨n + 1, Nat.succ_lt_succ hn, .step hinterface h⟩
    · rintro ⟨n, hn, h⟩
      cases h with
      | here => exact .inl rfl
      | @step n _ interface _ hinterface h =>
        exact .inr (mem_interfacesWithin.mpr ⟨interface, hinterface, n, Nat.lt_of_succ_lt_succ hn, h⟩)

theorem extends_of_mem_superChain (h : k ∈ m.superChain id) : m.Extends id k := by
  obtain ⟨n, -, hreaches⟩ := mem_chainWithin.mp h
  exact extends_iff.mpr hreaches.reflTransGen

/-- The super chain is the class and all its super classes. -/
theorem Sound.mem_superChain (hm : m.Sound) : k ∈ m.superChain id ↔ m.Extends id k := by
  refine ⟨extends_of_mem_superChain, fun h => ?_⟩
  have htargets : ∀ a b, (m.cls a).superClass = some b → b ∈ insert id m.ids := fun a b hab =>
    Finset.mem_insert_of_mem (mem_ids.mpr (hm.above a b (.inl hab)))
  obtain ⟨n, hn, hreaches⟩ := exists_reaches_lt htargets (Finset.mem_insert_self id _)
    (extends_iff.mp h)
  exact mem_chainWithin.mpr ⟨n, Nat.lt_of_lt_of_le hn (m.card_insert_le id), hreaches⟩

/-- The chain comes to a class that has no super class. -/
def ChainEnds (m : Machine) (id : ClassId) : Prop := ∃ k, m.Extends id k ∧ (m.cls k).superClass = none

/-- A search of the super chain goes on for ever just if the chain does and no class is found on it. -/
theorem Sound.searchChain_eq_endless {α : Type} {find : ClassId → Option α} (hm : m.Sound) :
    m.searchChain id find = .endless ↔ ¬ m.ChainEnds id ∧ ∀ k, m.Extends id k → find k = none := by
  constructor
  · intro h
    have hall : ∀ {k}, m.Extends id k → find k = none ∧ ∃ super, (m.cls k).superClass = some super := by
      intro k hk
      induction hk with
      | refl id =>
        rw [hm.searchChain_cons, Search.orElse_eq_endless] at h
        obtain ⟨hnone, hsupers⟩ := h.resolve_left (Search.ofOption_ne_endless _)
        obtain ⟨super, hsuper, -⟩ := Search.exists_of_first_eq hsupers (by simp)
        exact ⟨Search.ofOption_eq_absent.mp hnone, super, mem_supers.mp hsuper⟩
      | @super id super k hsuper _ ih =>
        rw [hm.searchChain_cons, Search.orElse_eq_endless] at h
        have hsupers := (h.resolve_left (Search.ofOption_ne_endless _)).2
        rw [searchSupers, supers, hsuper, Option.toList_some, Search.first_singleton] at hsupers
        exact ih hsupers
    refine ⟨?_, fun k hk => (hall hk).1⟩
    rintro ⟨k, hk, hroot⟩
    obtain ⟨-, super, hsuper⟩ := hall hk
    cases hroot.symm.trans hsuper
  · rintro ⟨hnever, hnone⟩
    -- a walk of any depth comes to another super class that is not found
    have hwalk : ∀ depth k, m.Extends id k → Search.walk find m.supers depth k = .endless := by
      intro depth
      induction depth with
      | zero => exact fun _ _ => rfl
      | succ depth ih =>
        intro k hk
        rcases hsuper : (m.cls k).superClass with _ | super
        · exact absurd ⟨k, hk, hsuper⟩ hnever
        · rw [Search.walk, hnone k hk, supers, hsuper, Option.toList_some, Search.first_singleton]
          exact ih super (extends_iff.mpr ((extends_iff.mp hk).tail hsuper))
    exact hwalk _ id (.refl id)

theorem Sound.found?_searchChain_eq_none {α : Type} {find : ClassId → Option α} (hm : m.Sound) :
    (m.searchChain id find).found? = none ↔ ∀ k, m.Extends id k → find k = none := by
  simp only [found?_searchChain, List.findSome?_eq_none_iff, hm.mem_superChain]

/-- A search of the super chain ends without a class just if the chain ends and no class is found on
it. -/
theorem Sound.searchChain_eq_absent {α : Type} {find : ClassId → Option α} (hm : m.Sound) :
    m.searchChain id find = .absent ↔ m.ChainEnds id ∧ ∀ k, m.Extends id k → find k = none := by
  have hnone : (m.searchChain id find).found? = none ↔ ∀ k, m.Extends id k → find k = none :=
    hm.found?_searchChain_eq_none
  have hendless : m.searchChain id find = .endless ↔ ¬ m.ChainEnds id ∧
      ∀ k, m.Extends id k → find k = none :=
    hm.searchChain_eq_endless
  constructor
  · intro h
    rw [h] at hnone hendless
    refine ⟨by_contra fun hnever => ?_, hnone.mp rfl⟩
    cases hendless.mpr ⟨hnever, hnone.mp rfl⟩
  · rintro ⟨hends, hall⟩
    have hfound := Search.eq_ofOption fun h => (hendless.mp h).1 hends
    rwa [hnone.mpr hall] at hfound

/-- The interfaces below a class are all that it reaches through interfaces. -/
theorem Sound.mem_interfacesBelow (hm : m.Sound) :
    k ∈ m.interfacesBelow id ↔ m.SuperInterface id k := by
  rw [interfacesBelow, mem_interfacesWithin]
  constructor
  · rintro ⟨interface, hinterface, n, -, h⟩
    exact .head' hinterface h.reflTransGen
  · intro h
    obtain ⟨interface, hinterface, hrest⟩ := Relation.TransGen.head'_iff.mp h
    obtain ⟨n, hn, hreaches⟩ := exists_reaches_lt (fun a b hab => mem_ids.mpr (hm.above a b (.inr hab)))
      (mem_ids.mpr (hm.above id interface (.inr hinterface))) hrest
    exact ⟨interface, hinterface, n, Nat.lt_of_lt_of_le hn m.card_ids_le, hreaches⟩

/-! ### Inherited methods -/

/-- The method that a class declares or inherits from super classes is one that they declare. -/
theorem method?_some (h : m.method? id name descriptor = some method) :
    ∃ k, m.Extends id k ∧ (m.cls k).method? name descriptor = some method := by
  rw [method?_eq] at h
  obtain ⟨k, hk, hmethod⟩ := List.exists_of_findSome?_eq_some h
  exact ⟨k, extends_of_mem_superChain hk, hmethod⟩

theorem Sound.method?_none (hm : m.Sound) : m.method? id name descriptor = none ↔
    ∀ k, m.Extends id k → (m.cls k).method? name descriptor = none :=
  hm.found?_searchChain_eq_none

/-- The method that is found among the interfaces below a class is one that they declare. -/
theorem Sound.interfaceMethod?_some (hm : m.Sound)
    (h : m.interfaceMethod? id name descriptor = some method) :
    ∃ k, m.SuperInterface id k ∧ (m.cls k).method? name descriptor = some method := by
  rw [interfaceMethod?, searchInterfaces_eq] at h
  obtain ⟨k, hk, hmethod⟩ := List.exists_of_findSome?_eq_some h
  exact ⟨k, hm.mem_interfacesBelow.mp hk, hmethod⟩

theorem Sound.interfaceMethod?_none (hm : m.Sound) : m.interfaceMethod? id name descriptor = none ↔
    ∀ k, m.SuperInterface id k → (m.cls k).method? name descriptor = none := by
  simp only [interfaceMethod?, searchInterfaces_eq, List.findSome?_eq_none_iff, hm.mem_interfacesBelow]

end Machine

end JavaMachine
