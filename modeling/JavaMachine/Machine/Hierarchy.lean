import JavaMachine.Machine.State

/-!
The class hierarchy: super classes, interfaces, and what is inherited along them.

The super chain of a class is the class followed by its super classes. The interfaces below a class are
listed depth first, each before its own super-interfaces, and a field is searched in the class, in
its interfaces and then in its super class.

A class may be above itself, by way of an array class that it extends, and a search that finds
nothing there runs in a circle. So a search of super classes or for a field may come to no end. It
is given up after more classes in a row than there are, because it has come to one of them twice
then. There are no circles of interfaces alone, so walks from interface to interface lose nothing by
being no longer than there are classes.

There may be many more ways to an interface than interfaces, so a search does not list them all: it
stops where it finds what it looks for.
-/

namespace JavaMachine

/-- What a search comes to. One that runs in a circle does not end. -/
inductive Search (α : Type) where
  | found (a : α)
  | absent
  | endless
  deriving DecidableEq, Repr

namespace Search

variable {α β : Type}

/-- What is found. -/
def found? : Search α → Option α
  | found a => some a
  | absent | endless => none

/-- A search that ends. -/
def ofOption : Option α → Search α
  | some a => found a
  | none => absent

/-- A test, as a search that ends. -/
def ofBool (holds : Bool) : Search Unit := if holds then found () else absent

/-- Goes on with another search if the first one finds nothing. -/
def orElse : Search α → (Unit → Search α) → Search α
  | absent, next => next ()
  | result, _ => result

/-- Searches in one place after the other. -/
def first (search : β → Search α) : List β → Search α
  | [] => absent
  | place :: places => (search place).orElse fun _ => first search places

/-- Searches a place, and then those that it leads to, one after the other. The search is given up
if it comes to more than `depth` places in a row, each of which leads to the next. -/
def walk (find : β → Option α) (next : β → List β) : (depth : Nat) → β → Search α
  | 0, _ => endless
  | depth + 1, place => (ofOption (find place)).orElse fun _ =>
      first (walk find next depth) (next place)

/-- Counts what is found only if it fits. -/
def filter (fits : α → Bool) : Search α → Search α
  | found a => if fits a then found a else absent
  | result => result

variable {s : Search α} {next : Unit → Search α} {search : β → Search α} {places : List β} {a : α}

@[simp]
theorem found?_ofOption (found : Option α) : (ofOption found).found? = found := by cases found <;> rfl

@[simp]
theorem found?_ofBool (holds : Bool) : (ofBool holds).found?.isSome = holds := by cases holds <;> rfl

@[simp]
theorem found?_eq_some : s.found? = some a ↔ s = found a := by cases s <;> simp [found?]

theorem found?_isSome {s : Search Unit} : s.found?.isSome = true ↔ s = found () := by
  cases s <;> simp [found?]

@[simp]
theorem ofOption_eq_found {o : Option α} : ofOption o = found a ↔ o = some a := by
  cases o <;> simp [ofOption]

@[simp]
theorem ofOption_eq_absent {o : Option α} : ofOption o = absent ↔ o = none := by
  cases o <;> simp [ofOption]

@[simp]
theorem ofOption_ne_endless (o : Option α) : ofOption o ≠ endless := by cases o <;> simp [ofOption]

@[simp]
theorem orElse_eq_found : s.orElse next = found a ↔ s = found a ∨ s = absent ∧ next () = found a := by
  cases s <;> simp [orElse]

@[simp]
theorem orElse_eq_absent : s.orElse next = absent ↔ s = absent ∧ next () = absent := by
  cases s <;> simp [orElse]

@[simp]
theorem orElse_eq_endless : s.orElse next = endless ↔ s = endless ∨ s = absent ∧ next () = endless := by
  cases s <;> simp [orElse]

theorem first_singleton (search : β → Search α) (place : β) : first search [place] = search place := by
  rw [first]
  cases search place <;> rfl

/-- Unless nothing is found, the search of one of the places comes to the same. -/
theorem exists_of_first_eq (h : first search places = s) (hs : s ≠ absent) :
    ∃ place ∈ places, search place = s := by
  induction places with
  | nil => exact absurd h.symm hs
  | cons place places ih =>
    rw [first] at h
    cases hplace : search place with
    | absent =>
      rw [hplace] at h
      obtain ⟨other, hmem, hother⟩ := ih h
      exact ⟨other, List.mem_cons_of_mem _ hmem, hother⟩
    | found a =>
      rw [hplace] at h
      exact ⟨place, List.mem_cons_self, hplace.trans h⟩
    | endless =>
      rw [hplace] at h
      exact ⟨place, List.mem_cons_self, hplace.trans h⟩

theorem exists_of_walk_eq_found {find : β → Option α} {next : β → List β} : ∀ {depth : Nat} {place : β},
    walk find next depth place = found a → ∃ other, find other = some a
  | depth + 1, place, h => by
    rcases orElse_eq_found.mp h with h | ⟨-, h⟩
    · exact ⟨place, ofOption_eq_found.mp h⟩
    · obtain ⟨_, -, h⟩ := exists_of_first_eq h (by simp)
      exact exists_of_walk_eq_found h

end Search

namespace Machine

/-! ### Super classes -/

/-- The first classes of the super chain of `id`, at most `depth`. -/
def chainWithin (m : Machine) : (depth : Nat) → ClassId → List ClassId
  | 0, _ => []
  | depth + 1, id =>
    id :: match (m.cls id).superClass with
      | some super => chainWithin m depth super
      | none => []

/-- The class and its super classes, upwards. A chain that runs in a circle is listed until all of
it has come up. -/
def superChain (m : Machine) (id : ClassId) : List ClassId := m.chainWithin (m.classes.size + 1) id

/-- The super class of a class, if it has one. -/
def supers (m : Machine) (id : ClassId) : List ClassId := (m.cls id).superClass.toList

/-- Searches the super chain of `id` upwards for the first class that `find` accepts. -/
def searchChain {α : Type} (m : Machine) (id : ClassId) (find : ClassId → Option α) : Search α :=
  Search.walk find m.supers (m.classes.size + 1) id

/-- The same without the class itself. -/
def searchSupers {α : Type} (m : Machine) (id : ClassId) (find : ClassId → Option α) : Search α :=
  Search.first (m.searchChain · find) (m.supers id)

/-- What a search finds on the chain is the first that there is. -/
theorem found?_searchChain {α : Type} (m : Machine) (id : ClassId) (find : ClassId → Option α) :
    (m.searchChain id find).found? = (m.superChain id).findSome? find := by
  have hwithin : ∀ depth id,
      (Search.walk find m.supers depth id).found? = (m.chainWithin depth id).findSome? find := by
    intro depth
    induction depth with
    | zero => intro id; rfl
    | succ depth ih =>
      intro id
      rw [Search.walk, chainWithin, List.findSome?_cons, supers]
      cases find id with
      | some a => rfl
      | none =>
        cases (m.cls id).superClass with
        | none => rfl
        | some super =>
          rw [Option.toList_some, Search.first_singleton]
          exact ih super
  exact hwithin (m.classes.size + 1) id

/-! ### Interfaces -/

/-- The interfaces that a list of interfaces leads to, at most `depth` steps away, depth first. -/
def interfacesWithin (m : Machine) : (depth : Nat) → List ClassId → List ClassId
  | 0, _ => []
  | depth + 1, ids => ids.flatMap fun id => id :: interfacesWithin m depth (m.cls id).interfaces

/-- The interfaces that a class names and their super-interfaces, depth first. Those of its super
classes are not among them. An interface is listed once for each way that leads to it. -/
def interfacesBelow (m : Machine) (id : ClassId) : List ClassId :=
  m.interfacesWithin m.classes.size (m.cls id).interfaces

/-- Searches the interfaces that a list of interfaces leads to, at most `depth` steps away, and stops at
the first one that `find` accepts. -/
def searchWithin {α : Type} (m : Machine) (find : ClassId → Option α) :
    (depth : Nat) → List ClassId → Option α
  | 0, _ => none
  | depth + 1, ids => ids.findSome? fun id =>
    (find id).orElse fun _ => searchWithin m find depth (m.cls id).interfaces

theorem searchWithin_eq {α : Type} (m : Machine) (find : ClassId → Option α) (depth : Nat) :
    ∀ ids, m.searchWithin find depth ids = (m.interfacesWithin depth ids).findSome? find := by
  induction depth with
  | zero => intro ids; rfl
  | succ depth ih =>
    intro ids
    simp only [searchWithin, interfacesWithin]
    induction ids with
    | nil => rfl
    | cons id ids rest =>
      rw [List.flatMap_cons, List.findSome?_append, List.findSome?_cons, List.findSome?_cons, rest, ih]
      cases find id <;> cases (m.interfacesWithin depth (m.cls id).interfaces).findSome? find <;> rfl

/-- The first of the interfaces below a class that `find` accepts. -/
def searchInterfaces {α : Type} (m : Machine) (id : ClassId) (find : ClassId → Option α) : Option α :=
  m.searchWithin find m.classes.size (m.cls id).interfaces

/-- The search goes through the interfaces below the class in their order. -/
theorem searchInterfaces_eq {α : Type} (m : Machine) (id : ClassId) (find : ClassId → Option α) :
    m.searchInterfaces id find = (m.interfacesBelow id).findSome? find :=
  m.searchWithin_eq find m.classes.size (m.cls id).interfaces

/-- Whether the class or interface `id` names `interface`, directly or through other interfaces. -/
def isSubInterface (m : Machine) (id interface : ClassId) : Bool :=
  (m.searchInterfaces id fun c => if c = interface then some c else none).isSome

/-- Being a sub-interface is to have the interface below. -/
theorem isSubInterface_iff (m : Machine) (id interface : ClassId) :
    m.isSubInterface id interface ↔ interface ∈ m.interfacesBelow id := by
  rw [isSubInterface, searchInterfaces_eq, List.findSome?_isSome_iff]
  simp

/-! ### What a class is and what it inherits -/

/-- Whether `other` is a super class. -/
def subclassSearch (m : Machine) (id other : ClassId) : Search Unit :=
  m.searchSupers id fun c => if c = other then some () else none

/-- Whether a class or one of its super classes implements `interface`. -/
def implementingSearch (m : Machine) (id interface : ClassId) : Search Unit :=
  m.searchChain id fun c => if m.isSubInterface c interface then some () else none

/-- The method that a class declares or inherits from its super classes. -/
def methodSearch (m : Machine) (id : ClassId) (name descriptor : String) : Search Method :=
  m.searchChain id fun c => (m.cls c).method? name descriptor

/-- The first method with this name and descriptor among the interfaces that a class leads to. -/
def interfaceMethod? (m : Machine) (id : ClassId) (name descriptor : String) : Option Method :=
  m.searchInterfaces id fun c => (m.cls c).method? name descriptor

/-- The method that an object of the class inherits from interfaces: the class's own interfaces first,
then those of its super classes. Per class only the first method counts, and only if it has code. -/
def defaultMethodSearch (m : Machine) (id : ClassId) (name descriptor : String) : Search Method :=
  m.searchChain id fun c =>
    (m.interfaceMethod? c name descriptor).filter fun method => !method.flags.isAbstract

/-- The field that the class `id` itself declares. -/
def declaredField? (m : Machine) (id : ClassId) (name descriptor : String) : Option FieldId :=
  ((m.cls id).fieldIndex? name descriptor).map (⟨id, ·⟩)

/-- What a search for a field goes on with after a class: its interfaces, and then its super class. -/
def parents (m : Machine) (id : ClassId) : List ClassId := (m.cls id).interfaces ++ m.supers id

/-- The field that a class declares or inherits. -/
def fieldSearch (m : Machine) (id : ClassId) (name descriptor : String) : Search FieldId :=
  Search.walk (m.declaredField? · name descriptor) m.parents (m.classes.size + 1) id

/-! The answers of the searches that come to an end. -/

/-- Whether `id` is below `other` on the super chain. -/
def isSubclass (m : Machine) (id other : ClassId) : Bool := (m.subclassSearch id other).found?.isSome

theorem isSubclass_iff_mem (m : Machine) (id other : ClassId) : m.isSubclass id other ↔
    ∃ super, (m.cls id).superClass = some super ∧ other ∈ m.superChain super := by
  rw [isSubclass, subclassSearch, searchSupers, supers]
  cases (m.cls id).superClass with
  | none => simp [Search.first, Search.found?]
  | some super =>
    rw [Option.toList_some, Search.first_singleton, found?_searchChain, List.findSome?_isSome_iff]
    simp

/-- Whether a class or one of its super classes implements `interface`. -/
def isImplementing (m : Machine) (id interface : ClassId) : Bool :=
  (m.implementingSearch id interface).found?.isSome

theorem isImplementing_iff_mem (m : Machine) (id interface : ClassId) : m.isImplementing id interface ↔
    ∃ c ∈ m.superChain id, m.isSubInterface c interface := by
  rw [isImplementing, implementingSearch, found?_searchChain, List.findSome?_isSome_iff]
  simp

/-- The method that a class declares or inherits from its super classes. -/
def method? (m : Machine) (id : ClassId) (name descriptor : String) : Option Method :=
  (m.methodSearch id name descriptor).found?

theorem method?_eq (m : Machine) (id : ClassId) (name descriptor : String) :
    m.method? id name descriptor = (m.superChain id).findSome? fun c =>
      (m.cls c).method? name descriptor :=
  m.found?_searchChain id _

/-- The method that an object of the class inherits from interfaces. -/
def defaultMethod? (m : Machine) (id : ClassId) (name descriptor : String) : Option Method :=
  (m.defaultMethodSearch id name descriptor).found?

theorem defaultMethod?_eq (m : Machine) (id : ClassId) (name descriptor : String) :
    m.defaultMethod? id name descriptor = (m.superChain id).findSome? fun c =>
      (m.interfaceMethod? c name descriptor).filter fun method => !method.flags.isAbstract :=
  m.found?_searchChain id _

/-- The field that a class declares or inherits. -/
def field? (m : Machine) (id : ClassId) (name descriptor : String) : Option FieldId :=
  (m.fieldSearch id name descriptor).found?

/-- The field of an id. -/
def fieldAt (m : Machine) (id : FieldId) : Field := (m.cls id.owner).fields.getD id.index default

end Machine

/-- Goes on with the answer of a search. One that does not end has none. -/
def VM.ofSearch {α : Type} : Search α → VM (Option α)
  | .found a => return some a
  | .absent => return none
  | .endless => throw .endless

end JavaMachine
