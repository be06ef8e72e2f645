import Mathlib.Data.Finset.Card
import JavaMachine.Proofs.Growth

/-!
When searches of the hierarchy end.

A search is given up after as many places in a row as there are. This changes nothing: a search that
is given up then is given up at any depth (`Search.walk_endless`), so it runs in a circle, and one
that is not given up is the same at any greater depth (`Search.walk_settled`). So a search is put
together from the searches of what comes next (`Search.walk_cons`), and ends where no way on is
without end (`Search.walk_ends`).
-/

namespace JavaMachine

namespace Search

variable {α β : Type} {find : β → Option α} {next : β → List β}
  {search search' : β → Search α} {places : List β} {place : β} {depth depth' : Nat}

theorem first_congr (h : ∀ place ∈ places, search' place = search place) :
    first search' places = first search places := by
  induction places with
  | nil => rfl
  | cons place places ih =>
    obtain ⟨hplace, hplaces⟩ := List.forall_mem_cons.mp h
    rw [first, first, hplace, ih hplaces]

/-- A search that ends asks only places at which it ends. -/
theorem first_keeps (h : ∀ place ∈ places, search place ≠ endless → search' place = search place)
    (hends : first search places ≠ endless) : first search' places = first search places := by
  induction places with
  | nil => rfl
  | cons place places ih =>
    obtain ⟨hplace, hplaces⟩ := List.forall_mem_cons.mp h
    rw [first] at hends
    rw [first, first, hplace fun hendless => hends (by rw [hendless]; rfl)]
    cases hfirst : search place with
    | found a => rfl
    | absent =>
      rw [hfirst] at hends
      exact ih hplaces hends
    | endless => rfl

/-- What a search that ends finds is the first that there is. -/
theorem found?_first (hends : first search places ≠ endless) :
    (first search places).found? = places.findSome? fun place => (search place).found? := by
  induction places with
  | nil => rfl
  | cons place places ih =>
    rw [first] at hends
    rw [first, List.findSome?_cons]
    cases hplace : search place with
    | found a => rfl
    | absent =>
      rw [hplace] at hends
      exact ih hends
    | endless =>
      rw [hplace] at hends
      exact absurd rfl hends

/-- A search that ends is what it finds. -/
theorem eq_ofOption {s : Search α} (hends : s ≠ endless) : s = ofOption s.found? := by
  cases s with
  | found a => rfl
  | absent => rfl
  | endless => exact absurd rfl hends

theorem found?_filter (fits : α → Bool) (s : Search α) :
    (s.filter fits).found? = s.found?.filter fits := by
  cases s with
  | found a => cases h : fits a <;> simp [filter, found?, Option.filter, h]
  | absent => rfl
  | endless => rfl

theorem found?_orElse (o : Option α) (next : Unit → Search α) :
    ((ofOption o).orElse next).found? = o.or (next ()).found? := by
  cases o <;> rfl

/-! ### Greater depths -/

/-- A search that ends is the same one step deeper. -/
theorem walk_keeps : ∀ {depth : Nat} {place : β}, walk find next depth place ≠ endless →
    walk find next (depth + 1) place = walk find next depth place
  | 0, _, h => absurd rfl h
  | depth + 1, place, h => by
    rw [walk] at h
    rw [walk, walk]
    cases hfound : find place with
    | some a => rfl
    | none =>
      rw [hfound] at h
      exact first_keeps (fun _ _ => walk_keeps) h

theorem walk_eq_of_le (hle : depth ≤ depth') (h : walk find next depth place ≠ endless) :
    walk find next depth' place = walk find next depth place := by
  induction hle with
  | refl => rfl
  | step _ ih => rw [walk_keeps (by rwa [ih]), ih]

variable {s : Finset β}

open Classical in
/-- The places from which a search of this depth is given up. -/
noncomputable def unsettled (find : β → Option α) (next : β → List β) (s : Finset β)
    (depth : Nat) : Finset β :=
  s.filter fun place => walk find next depth place = endless

open Classical in
theorem mem_unsettled :
    place ∈ unsettled find next s depth ↔ place ∈ s ∧ walk find next depth place = endless :=
  Finset.mem_filter

/-- One step more settles another place, or none is ever settled again. -/
theorem stable_or_card (hclosed : ∀ place ∈ s, ∀ other ∈ next place, other ∈ s) (depth : Nat) :
    (∀ place ∈ s, walk find next (depth + 1) place = walk find next depth place) ∨
      (unsettled find next s depth).card + depth ≤ s.card := by
  induction depth with
  | zero => exact .inr (Finset.card_le_card fun place hplace => (mem_unsettled.mp hplace).1)
  | succ depth ih =>
    by_cases hstable : ∀ place ∈ s, walk find next (depth + 1) place = walk find next depth place
    · refine .inl fun place hplace => ?_
      have hnext := first_congr fun other hother => hstable other (hclosed place hplace other hother)
      rw [walk, hnext]
      rfl
    · have hcard := ih.resolve_left hstable
      push Not at hstable
      obtain ⟨place, hplace, hnew⟩ := hstable
      have hbefore : walk find next depth place = endless := not_imp_comm.mp walk_keeps hnew
      have hstrict : unsettled find next s (depth + 1) ⊂ unsettled find next s depth := by
        refine (Finset.ssubset_iff_of_subset fun other hother => ?_).mpr
          ⟨place, mem_unsettled.mpr ⟨hplace, hbefore⟩, fun hafter => ?_⟩
        · obtain ⟨hmem, hendless⟩ := mem_unsettled.mp hother
          refine mem_unsettled.mpr ⟨hmem, by_contra fun hends => ?_⟩
          exact hends ((walk_keeps hends).symm.trans hendless)
        · exact hnew ((mem_unsettled.mp hafter).2.trans hbefore.symm)
      have hlt := Finset.card_lt_card hstrict
      exact .inr (by omega)

theorem walk_settled (hclosed : ∀ place ∈ s, ∀ other ∈ next place, other ∈ s) (hdepth : s.card ≤ depth)
    (hplace : place ∈ s) : walk find next (depth + 1) place = walk find next depth place := by
  have hstable : (∀ place ∈ s, walk find next (depth + 1) place = walk find next depth place) ∨ _ :=
    stable_or_card hclosed depth
  rcases hstable with hstable | hcard
  · exact hstable place hplace
  · refine walk_keeps fun hendless => ?_
    have hpositive := Finset.card_pos.mpr ⟨place, mem_unsettled.mpr ⟨hplace, hendless⟩⟩
    omega

/-- A search that is given up as late as that is given up at any depth. -/
theorem walk_endless (hclosed : ∀ place ∈ s, ∀ other ∈ next place, other ∈ s) (hdepth : s.card ≤ depth)
    (hplace : place ∈ s) (h : walk find next depth place = endless) (depth' : Nat) :
    walk find next depth' place = endless := by
  rcases Nat.le_total depth' depth with hle | hle
  · by_contra hends
    exact hends ((walk_eq_of_le hle hends).symm.trans h)
  · induction hle with
    | refl => exact h
    | @step deeper hle ih => exact (walk_settled hclosed (Nat.le_trans hdepth hle) hplace).trans ih

/-- A search goes on with the same searches of what comes next. -/
theorem walk_cons (hclosed : ∀ place ∈ s, ∀ other ∈ next place, other ∈ s) (hdepth : s.card ≤ depth)
    (hplace : place ∈ s) :
    walk find next depth place =
      (ofOption (find place)).orElse fun _ => first (walk find next depth) (next place) :=
  (walk_settled hclosed hdepth hplace).symm

/-- If no way on is without end, a search ends. -/
theorem walk_ends (hclosed : ∀ place ∈ s, ∀ other ∈ next place, other ∈ s) (hdepth : s.card ≤ depth)
    (hacc : Acc (fun other place => other ∈ next place) place) (hplace : place ∈ s) :
    walk find next depth place ≠ endless := by
  induction hacc with
  | intro place _ ih =>
    rw [walk_cons hclosed hdepth hplace]
    intro hendless
    rcases orElse_eq_endless.mp hendless with h | ⟨-, h⟩
    · exact ofOption_ne_endless _ h
    · obtain ⟨other, hother, h⟩ := exists_of_first_eq h (by simp)
      exact ih other hother (hclosed place hplace other hother) h

end Search

namespace Machine

variable {α : Type} {m : Machine} {id k : ClassId} {find : ClassId → Option α}
  {name descriptor : String}

/-- The classes of a machine. -/
def ids (m : Machine) : Finset ClassId := (Finset.range m.classes.size).image ClassId.mk

theorem mem_ids : id ∈ m.ids ↔ id.index < m.classes.size := by
  simp only [ids, Finset.mem_image, Finset.mem_range]
  exact ⟨fun ⟨i, hi, heq⟩ => heq ▸ hi, fun h => ⟨id.index, h, rfl⟩⟩

theorem card_ids_le (m : Machine) : m.ids.card ≤ m.classes.size :=
  Finset.card_image_le.trans_eq (Finset.card_range _)

theorem mem_supers : k ∈ m.supers id ↔ (m.cls id).superClass = some k := by
  rw [supers, Option.mem_toList]

theorem mem_parents : k ∈ m.parents id ↔ (m.cls id).Below k := by
  rw [parents, List.mem_append, mem_supers, or_comm, Class.Below]

theorem found?_searchSupers :
    (m.searchSupers id find).found? = (m.cls id).superClass.bind fun k =>
    (m.searchChain k find).found? := by
  rw [searchSupers, supers]
  cases (m.cls id).superClass with
  | none => rfl
  | some k => rw [Option.toList_some, Search.first_singleton]; rfl

/-- A class, and the classes of the machine. There is nothing above an id that no class has. -/
theorem closed_insert {next : ClassId → List ClassId}
    (hclosed : ∀ id, ∀ k ∈ next id, k.index < m.classes.size) (id : ClassId) :
    ∀ c ∈ insert id m.ids, ∀ k ∈ next c, k ∈ insert id m.ids := fun c _ k hk =>
  Finset.mem_insert_of_mem (mem_ids.mpr (hclosed c k hk))

theorem card_insert_le (m : Machine) (id : ClassId) : (insert id m.ids).card ≤ m.classes.size + 1 :=
  (Finset.card_insert_le id m.ids).trans (Nat.succ_le_succ m.card_ids_le)

namespace Sound

variable (hm : m.Sound)

include hm

theorem supers_closed (id : ClassId) : ∀ k ∈ m.supers id, k.index < m.classes.size := fun k hk =>
  hm.above id k (.inl (mem_supers.mp hk))

theorem parents_closed (id : ClassId) : ∀ k ∈ m.parents id, k.index < m.classes.size := fun k hk =>
  hm.above id k (mem_parents.mp hk)

/-- A class is asked first, and then its super class. -/
theorem searchChain_cons :
    m.searchChain id find = (Search.ofOption (find id)).orElse fun _ => m.searchSupers id find :=
  Search.walk_cons (closed_insert hm.supers_closed id) (m.card_insert_le id)
    (Finset.mem_insert_self id _)

theorem fieldSearch_cons : m.fieldSearch id name descriptor =
    (Search.ofOption (m.declaredField? id name descriptor)).orElse fun _ =>
      Search.first (m.fieldSearch · name descriptor) (m.parents id) :=
  Search.walk_cons (closed_insert hm.parents_closed id) (m.card_insert_le id)
    (Finset.mem_insert_self id _)

/-- The field that a class inherits is the first that a search of what comes next finds. -/
theorem field?_cons (hends : m.fieldSearch id name descriptor ≠ .endless) :
    m.field? id name descriptor =
    (m.declaredField? id name descriptor).or
    ((m.parents id).findSome? (m.field? · name descriptor)) := by
  rw [hm.fieldSearch_cons] at hends
  rw [field?, hm.fieldSearch_cons, Search.found?_orElse]
  cases hdeclared : m.declaredField? id name descriptor with
  | some field => rfl
  | none =>
    rw [hdeclared] at hends
    rw [Search.found?_first hends]
    rfl

/-- A search that is given up would never end. -/
theorem fieldSearch_endless (h : m.fieldSearch id name descriptor = .endless) (depth : Nat) :
    Search.walk (m.declaredField? · name descriptor) m.parents depth id = .endless :=
  Search.walk_endless (closed_insert hm.parents_closed id) (m.card_insert_le id)
    (Finset.mem_insert_self id _) h depth

/-- Searches of a class that is not above itself end. -/
theorem searchChain_ends (hacc : Acc (fun k id => (m.cls id).Below k) id) :
    m.searchChain id find ≠ .endless := by
  have hsupers : Acc (fun k id => k ∈ m.supers id) id :=
    Subrelation.accessible (fun hk => .inl (mem_supers.mp hk)) hacc
  exact Search.walk_ends (closed_insert hm.supers_closed id) (m.card_insert_le id) hsupers
    (Finset.mem_insert_self id _)

theorem fieldSearch_ends (hacc : Acc (fun k id => (m.cls id).Below k) id) :
    m.fieldSearch id name descriptor ≠ .endless := by
  have hparents : Acc (fun k id => k ∈ m.parents id) id := Subrelation.accessible mem_parents.mp hacc
  exact Search.walk_ends (closed_insert hm.parents_closed id) (m.card_insert_le id) hparents
    (Finset.mem_insert_self id _)

end Sound

end Machine

end JavaMachine
