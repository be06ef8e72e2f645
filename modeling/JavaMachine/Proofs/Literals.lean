import JavaMachine.Machine.State

/-!
The table of interned strings.

`Machine.Recalls` is what stays of the table while strings are interned and objects are made: a
literal stays bound to its string, and only a new string becomes the string of another literal. The
definition looks at the table before and after, but not in between. While a string is made, its
literal may be bound to another string for a time.
-/

namespace JavaMachine

namespace Machine

variable {m m₁ m' : Machine} {units other : Text.Units} {string : Address}

/-- A machine with a literal bound, in place of any other binding of it. -/
def withLiteral (m : Machine) (units : Text.Units) (string : Address) : Machine :=
  { m with literals := (units, string) :: m.literals.filter fun (other, _) => other ≠ units }

theorem lookup_withLiteral_self : (m.withLiteral units string).literals.lookup units = some string := by
  simp [withLiteral]

theorem lookup_withLiteral_ne (h : other ≠ units) :
    (m.withLiteral units string).literals.lookup other = m.literals.lookup other := by
  have hmiss : (other == units) = false := by simp [h]
  unfold withLiteral
  rw [List.lookup_cons, hmiss]
  dsimp only
  induction m.literals with
  | nil => rfl
  | cons entry literals ih =>
    obtain ⟨key, value⟩ := entry
    by_cases hkey : key = units
    · have hmiss : (other == key) = false := by simp [hkey, h]
      rw [List.filter_cons_of_neg (by simp [hkey]), List.lookup_cons, hmiss]
      exact ih
    · rw [List.filter_cons_of_pos (by simp [hkey]), List.lookup_cons, List.lookup_cons, ih]

/-- No literal has come to be bound to the string. -/
def Spares (m : Machine) (string : Address) (m' : Machine) : Prop :=
  ∀ units, m'.literals.lookup units = some string → m.literals.lookup units = some string

/-- What stays of the interned strings. -/
structure Recalls (m m' : Machine) : Prop where
  kept : ∀ units string, m.literals.lookup units = some string → m'.literals.lookup units = some string
  made : ∀ units string, m'.literals.lookup units = some string →
    m.literals.lookup units = some string ∨ m.heap.size ≤ string.index ∧ string.index < m'.heap.size
  single : ∀ units other string, m'.literals.lookup units = some string →
    m'.literals.lookup other = some string →
    units = other ∨ m.literals.lookup units = some string ∨ m.literals.lookup other = some string

namespace Recalls

theorem of_eq (h : m'.literals = m.literals) : m.Recalls m' := by
  constructor <;> rw [h]
  · exact fun _ _ h => h
  · exact fun _ _ h => .inl h
  · exact fun _ _ _ h _ => .inr (.inl h)

theorem refl (m : Machine) : m.Recalls m := of_eq rfl

/-- A string that is there but was not bound is not bound later either. -/
theorem spares (h : m₁.Recalls m') (hold : string.index < m₁.heap.size) : m₁.Spares string m' :=
    fun units hunits =>
  (h.made units string hunits).resolve_right fun hnew => Nat.not_le_of_lt hold hnew.1

/-- What is not there yet has not come to be bound. -/
theorem spares_new (h : m.Recalls m₁) (hnew : m₁.heap.size ≤ string.index)
    (hliterals : m'.literals = m₁.literals) :
    m.Spares string m' := fun units hunits => by
  rw [hliterals] at hunits
  exact (h.made units string hunits).resolve_right fun ⟨_, hlt⟩ => Nat.not_le_of_lt hlt hnew

theorem trans (h : m.Recalls m₁) (h' : m₁.Recalls m') (hheap : m.heap.size ≤ m₁.heap.size)
    (hheap' : m₁.heap.size ≤ m'.heap.size) : m.Recalls m' where
  kept units string hunits := h'.kept units string (h.kept units string hunits)
  made units string hunits := by
    rcases h'.made units string hunits with hold | ⟨hnew, hlt⟩
    · exact (h.made units string hold).imp_right fun ⟨hnew, hlt⟩ =>
        ⟨hnew, Nat.lt_of_lt_of_le hlt hheap'⟩
    · exact .inr ⟨Nat.le_trans hheap hnew, hlt⟩
  single := by
    -- A string that one of the two literals had in between was bound at first, or the other literal
    -- had it as well.
    have hbetween : ∀ units other string, m₁.literals.lookup units = some string →
        m'.literals.lookup other = some string →
        units = other ∨ m.literals.lookup units = some string ∨
        m.literals.lookup other = some string := by
      intro units other string hunits hother
      rcases h.made units string hunits with hold | ⟨-, hlt⟩
      · exact .inr (.inl hold)
      · exact h.single units other string hunits (h'.spares hlt other hother)
    intro units other string hunits hother
    rcases h'.single units other string hunits hother with heq | hold | hold
    · exact .inl heq
    · exact hbetween units other string hold hother
    · exact (hbetween other units string hold hunits).imp Eq.symm Or.symm

/-- A literal that was not bound at first is bound to a new string. -/
theorem withLiteral (h : m.Recalls m₁) (hfree : m.literals.lookup units = none)
    (hnew : m.heap.size ≤ string.index)
    (hthere : string.index < m₁.heap.size) (hspares : m.Spares string m₁) :
    m.Recalls (m₁.withLiteral units string) := by
  have hcases : ∀ other a, (m₁.withLiteral units string).literals.lookup other = some a →
      other = units ∧ a = string ∨ m₁.literals.lookup other = some a := by
    intro other a hother
    by_cases hne : other = units
    · subst hne
      rw [lookup_withLiteral_self] at hother
      exact .inl ⟨rfl, (Option.some.inj hother).symm⟩
    · rw [lookup_withLiteral_ne hne] at hother
      exact .inr hother
  constructor
  case kept =>
    intro other a hother
    have hne : other ≠ units := by rintro rfl; rw [hfree] at hother; cases hother
    rw [lookup_withLiteral_ne hne]
    exact h.kept other a hother
  case made =>
    intro other a hother
    rcases hcases other a hother with ⟨-, rfl⟩ | hother
    · exact .inr ⟨hnew, hthere⟩
    · exact h.made other a hother
  case single =>
    intro first second a hfirst hsecond
    rcases hcases first a hfirst with ⟨rfl, rfl⟩ | hold <;> rcases hcases second a hsecond with
      ⟨rfl, heq⟩ | hold'
    · exact .inl rfl
    · exact .inr (.inr (hspares second hold'))
    · exact .inr (.inl (heq ▸ hspares first (heq ▸ hold)))
    · exact h.single first second a hold hold'

end Recalls

end Machine

end JavaMachine
