/-!
Steps that may fail on a state.

Byte readers, steps on a machine and steps of execution are all functions from a state to a result or
an error, with a state after either: their `outcome`. A sequence succeeds through a state in the middle
(`outcome_bind_ok`), and its error is that of its first part or of its second (`outcome_bind_error`).
-/

namespace JavaMachine

variable {ε σ α β : Type}

/-- What a step gives on a state, and the state that it leaves. -/
def outcome (x : ExceptT ε (StateM σ) α) (s : σ) : Except ε α × σ := x.run s

@[simp]
theorem outcome_pure (a : α) (s : σ) : outcome (pure a : ExceptT ε (StateM σ) α) s = (.ok a, s) := rfl

@[simp]
theorem outcome_throw (e : ε) (s : σ) :
    outcome (throw e : ExceptT ε (StateM σ) α) s = (.error e, s) := rfl

@[simp]
theorem outcome_get (s : σ) : outcome (get : ExceptT ε (StateM σ) σ) s = (.ok s, s) := rfl

@[simp]
theorem outcome_set (t s : σ) : outcome (set t : ExceptT ε (StateM σ) PUnit) s = (.ok ⟨⟩, t) := rfl

@[simp]
theorem outcome_modify (f : σ → σ) (s : σ) :
    outcome (modify f : ExceptT ε (StateM σ) PUnit) s = (.ok ⟨⟩, f s) := rfl

@[simp]
theorem outcome_modifyGet (f : σ → α × σ) (s : σ) :
    outcome (modifyGet f : ExceptT ε (StateM σ) α) s = (.ok (f s).1, (f s).2) := rfl

/-- The second step runs on the result and the state of the first one, unless that fails. -/
theorem outcome_bind (x : ExceptT ε (StateM σ) α) (f : α → ExceptT ε (StateM σ) β) (s : σ) :
    outcome (x >>= f) s = match outcome x s with
      | (.ok a, t) => outcome (f a) t
      | (.error e, t) => (.error e, t) := by
  unfold outcome
  rw [ExceptT.run_bind]
  simp only [bind, StateT.bind]
  rcases x.run s with ⟨_ | _, _⟩ <;> rfl

theorem outcome_bind_of_ok {x : ExceptT ε (StateM σ) α} {f : α → ExceptT ε (StateM σ) β} {s t : σ}
    {a : α} (h : outcome x s = (.ok a, t)) : outcome (x >>= f) s = outcome (f a) t := by
  rw [outcome_bind, h]

theorem outcome_bind_of_error {x : ExceptT ε (StateM σ) α} {f : α → ExceptT ε (StateM σ) β} {s t : σ}
    {e : ε} (h : outcome x s = (.error e, t)) : outcome (x >>= f) s = (.error e, t) := by
  rw [outcome_bind, h]

theorem outcome_bind_ok {x : ExceptT ε (StateM σ) α} {f : α → ExceptT ε (StateM σ) β}
    {s u : σ} {b : β} :
    outcome (x >>= f) s = (.ok b, u) ↔
      ∃ a t, outcome x s = (.ok a, t) ∧ outcome (f a) t = (.ok b, u) := by
  rw [outcome_bind]
  rcases outcome x s with ⟨_ | a, t⟩ <;> simp [and_assoc]

theorem outcome_bind_error {x : ExceptT ε (StateM σ) α} {f : α → ExceptT ε (StateM σ) β} {s u : σ}
    {e : ε} :
    outcome (x >>= f) s = (.error e, u) ↔
      outcome x s = (.error e, u) ∨
        ∃ a t, outcome x s = (.ok a, t) ∧ outcome (f a) t = (.error e, u) := by
  rw [outcome_bind]
  rcases outcome x s with ⟨_ | a, t⟩ <;> simp [and_assoc]

theorem outcome_map (f : α → β) (x : ExceptT ε (StateM σ) α) (s : σ) :
    outcome (f <$> x) s = match outcome x s with
      | (.ok a, t) => (.ok (f a), t)
      | (.error e, t) => (.error e, t) := by
  rw [map_eq_pure_bind, outcome_bind]
  rfl

/-- The handler runs on the state in which the step failed. -/
theorem outcome_tryCatch (x : ExceptT ε (StateM σ) α) (f : ε → ExceptT ε (StateM σ) α) (s : σ) :
    outcome (tryCatch x f) s = match outcome x s with
      | (.ok a, t) => (.ok a, t)
      | (.error e, t) => outcome (f e) t := by
  unfold outcome
  rw [ExceptT.run_tryCatch]
  simp only [bind, StateT.bind]
  rcases x.run s with ⟨_ | _, _⟩ <;> rfl

/-! ### Checks -/

theorem eq_ok_of_toOption {x : Except ε α} {a : α} (h : x.toOption = some a) : x = .ok a := by
  cases x with
  | ok b => exact congrArg _ (Option.some.inj h)
  | error e => cases h

/-- What a step gives is computed without the state that it leaves. -/
theorem outcome_of_toOption {x : ExceptT ε (StateM σ) α} {s : σ} {a : α}
    (h : (outcome x s).1.toOption = some a) : outcome x s = (.ok a, (outcome x s).2) :=
  Prod.ext (eq_ok_of_toOption h) rfl

theorem checked_bind_ok {x : Except ε α} {f : α → Except ε β} {b : β} :
    x >>= f = .ok b ↔ ∃ a, x = .ok a ∧ f a = .ok b := by
  cases x with
  | ok a => simp [bind, Except.bind]
  | error e => simp [bind, Except.bind]

theorem checked_bind_error {x : Except ε α} {f : α → Except ε β} {e : ε} :
    x >>= f = .error e ↔ x = .error e ∨ ∃ a, x = .ok a ∧ f a = .error e := by
  cases x with
  | ok a => simp [bind, Except.bind]
  | error e => simp [bind, Except.bind]

theorem check_bind_ok {c d : Except ε Unit} :
    (c >>= fun _ => d) = .ok () ↔ c = .ok () ∧ d = .ok () := by
  cases c with
  | ok _ => simp [bind, Except.bind]
  | error e => simp [bind, Except.bind]

/-- A check of every element succeeds if the checks of all of them do. -/
theorem check_forM_ok {check : α → Except ε Unit} {as : List α} :
    as.forM check = .ok () ↔ ∀ a ∈ as, check a = .ok () := by
  induction as with
  | nil => simp [List.forM, pure, Except.pure]
  | cons a as ih => rw [List.forM, check_bind_ok, ih, List.forall_mem_cons]

/-- There is a result for each element. -/
theorem length_of_outcome_mapM {f : α → ExceptT ε (StateM σ) β} :
    ∀ {as : List α} {bs : List β} {s t : σ}, outcome (as.mapM f) s = (.ok bs, t) → bs.length = as.length
  | [], _, _, _, h => by
    cases h
    rfl
  | a :: as, bs, _, _, h => by
    rw [List.mapM_cons] at h
    obtain ⟨first, _, -, h⟩ := outcome_bind_ok.mp h
    obtain ⟨others, _, hrest, h⟩ := outcome_bind_ok.mp h
    cases h
    exact congrArg (· + 1) (length_of_outcome_mapM hrest)

/-- What holds of each result of a check holds of all results of checks of the elements. -/
theorem checked_mapM_ok {f : α → Except ε β} {p : β → Prop} (h : ∀ a b, f a = .ok b → p b) :
    ∀ {as : List α} {bs : List β}, as.mapM f = .ok bs → ∀ b ∈ bs, p b
  | [], bs, hbs, b, hb => by
    cases hbs
    cases hb
  | a :: as, bs, hbs, b, hb => by
    rw [List.mapM_cons] at hbs
    obtain ⟨first, ha, hbs⟩ := checked_bind_ok.mp hbs
    obtain ⟨others, has, hbs⟩ := checked_bind_ok.mp hbs
    cases hbs
    rcases List.mem_cons.mp hb with rfl | hb
    · exact h a b ha
    · exact checked_mapM_ok h has b hb

/-- Checks of the elements succeed together if each of them does. -/
theorem checked_mapM_exists {f : α → Except ε β} {as : List α} :
    (∃ bs, as.mapM f = .ok bs) ↔ ∀ a ∈ as, ∃ b, f a = .ok b := by
  induction as with
  | nil => exact iff_of_true ⟨[], rfl⟩ (by simp)
  | cons a as ih =>
    rw [List.forall_mem_cons, ← ih, List.mapM_cons]
    simp only [checked_bind_ok]
    constructor
    · rintro ⟨_, b, hb, bs, hbs, -⟩
      exact ⟨⟨b, hb⟩, bs, hbs⟩
    · rintro ⟨⟨b, hb⟩, bs, hbs⟩
      exact ⟨b :: bs, b, hb, bs, hbs, rfl⟩

/-- Checks of the elements fail with the error of one of them. -/
theorem checked_mapM_error {f : α → Except ε β} {e : ε} :
    ∀ {as : List α}, as.mapM f = .error e → ∃ a ∈ as, f a = .error e
  | [], h => by cases h
  | a :: as, h => by
    rw [List.mapM_cons] at h
    rcases checked_bind_error.mp h with h | ⟨b, -, h⟩
    · exact ⟨a, List.mem_cons_self, h⟩
    · rcases checked_bind_error.mp h with h | ⟨bs, -, h⟩
      · obtain ⟨a', hmem, herror⟩ := checked_mapM_error h
        exact ⟨a', List.mem_cons_of_mem a hmem, herror⟩
      · cases h

/-- Checks of the elements that succeed give one result for each. -/
theorem checked_mapM_length {f : α → Except ε β} :
    ∀ {as : List α} {bs : List β}, as.mapM f = .ok bs → bs.length = as.length
  | [], _, hbs => by
    cases hbs
    rfl
  | a :: as, bs, hbs => by
    rw [List.mapM_cons] at hbs
    obtain ⟨first, -, hbs⟩ := checked_bind_ok.mp hbs
    obtain ⟨others, has, hbs⟩ := checked_bind_ok.mp hbs
    cases hbs
    rw [List.length_cons, List.length_cons, checked_mapM_length has]

end JavaMachine
