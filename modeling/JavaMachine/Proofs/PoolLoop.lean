import JavaMachine.Proofs.PoolCodec

/-!
The loop that reads a constant pool.

A stage is what an iteration starts from: how far the pool is read, and the input that is left. Each
iteration takes one or two indices below the count (`Progress.Takes`), so the index does not wrap
around, it stays the number of the entries, and there are fewer iterations than the count
(`Reached.counted`). The answer is that of the last stage, from which no iteration leads on
(`exists_ends`).
-/

namespace JavaMachine

open ByteReader

namespace Pool

/-- What an iteration starts from. -/
structure Stage where
  progress : Progress
  input : ByteInput

/-- An iteration leads from a stage to the next one. -/
def Iterates (count : UInt16) (s t : Stage) : Prop :=
  ∃ (left : s.progress.index < count)
    (next : { next : Progress // s.progress.index < next.index ∧ next.index ≤ count }),
    outcome (s.progress.advance count left) s.input = (.ok next, t.input) ∧ next.val = t.progress

/-- The stage is reached after so many iterations on the bytes behind the count. -/
inductive Reached (count : UInt16) (body : ByteInput) : Nat → Stage → Prop where
  | start : Reached count body 0 ⟨⟨1, #[.unusable]⟩, body⟩
  | next {n : Nat} {s t : Stage} (reached : Reached count body n s) (iterates : Iterates count s t) :
      Reached count body (n + 1) t

/-- How the loop ends at a stage, and what reading the pool then gives: there is no index left, and
the indices inside of the pool are checked, or the iteration fails. -/
inductive Stage.Ends (count : UInt16) (s : Stage) : Except FormatError Pool × ByteInput → Prop where
  | full (full : count ≤ s.progress.index) :
      Ends count s (s.progress.entries.checkAll.map fun _ => s.progress.entries, s.input)
  | failed (left : s.progress.index < count) {e : FormatError} {after : ByteInput}
      (fails : outcome (s.progress.advance count left) s.input = (.error e, after)) :
      Ends count s (.error e, after)

variable {count : UInt16} {input body after : ByteInput} {n : Nat} {p : Progress} {s t : Stage}
  {entry : PoolEntry}

/-! ### One iteration -/

/-- An iteration that succeeds has read an entry and taken its indices. -/
theorem Progress.advance_ok {left : p.index < count}
    {next : { next : Progress // p.index < next.index ∧ next.index ≤ count }} :
    outcome (p.advance count left) input = (.ok next, after) ↔
      ∃ entry, outcome (readEntry p.index) input = (.ok entry, after) ∧
        p.Takes count entry next.val := by
  unfold advance Takes
  rw [outcome_bind_ok]
  constructor
  · rintro ⟨entry, middle, hentry, hnext⟩
    refine ⟨entry, ?_⟩
    split at hnext
    · rename_i hwide
      split at hnext
      · rename_i room
        cases hnext
        exact ⟨hentry, by rw [if_pos hwide]; exact ⟨room, rfl⟩⟩
      · cases hnext
    · rename_i hnarrow
      cases hnext
      exact ⟨hentry, by rw [if_neg hnarrow]⟩
  · rintro ⟨entry, hentry, hnext⟩
    refine ⟨entry, after, hentry, ?_⟩
    obtain ⟨next, hbetween⟩ := next
    split at hnext
    · rename_i hwide
      obtain ⟨room, rfl⟩ := hnext
      rw [if_pos hwide, dif_pos room, outcome_pure]
    · rename_i hnarrow
      subst hnext
      rw [if_neg hnarrow, outcome_pure]

/-- A wide entry that has no second index below the count is an error. -/
theorem Progress.advance_overrun {left : p.index < count}
    (hentry : outcome (readEntry p.index) input = (.ok entry, after)) (hwide : entry.isWide = true)
    (hfull : ¬ (p.add entry).index < count) :
    outcome (p.advance count left) input =
      (.error (.invalidIndex (p.add entry).index .wideOverrun), after) := by
  unfold advance
  rw [outcome_bind_of_ok hentry, if_pos hwide, dif_neg hfull, outcome_throw]

theorem Iterates.takes (h : Iterates count s t) :
    ∃ entry, outcome (readEntry s.progress.index) s.input = (.ok entry, t.input) ∧
      s.progress.Takes count entry t.progress := by
  obtain ⟨left, next, hadvance, hnext⟩ := h
  rw [← hnext]
  exact Progress.advance_ok.mp hadvance

/-- The index of a stage that is iterated from grows by the indices of the entry. -/
theorem Progress.Takes.toNat_index {next : Progress} (h : p.Takes count entry next)
    (left : p.index < count) :
    next.index.toNat = p.index.toNat + if entry.isWide then 2 else 1 := by
  unfold Takes at h
  split at h
  · rename_i hwide
    obtain ⟨room, rfl⟩ := h
    rw [toNat_index_add room, toNat_index_add left, if_pos hwide]
  · rename_i hnarrow
    subst h
    rw [toNat_index_add left, if_neg hnarrow]

/-! ### All iterations -/

/-- The index of a stage is the number of entries, it does not exceed the count, and each iteration
has moved it. -/
structure Stage.Counted (count : UInt16) (n : Nat) (s : Stage) : Prop where
  aligned : s.progress.Aligned
  le : s.progress.index.toNat ≤ max count.toNat 1
  lt : n < s.progress.index.toNat

theorem Stage.Counted.next (h : s.Counted count n) (hst : Iterates count s t) :
    t.Counted count (n + 1) := by
  obtain ⟨entry, -, htakes⟩ := hst.takes
  obtain ⟨left, -⟩ := hst
  obtain ⟨hlt, hle⟩ := htakes.index_lt left
  have hlt := UInt16.lt_iff_toNat_lt.mp hlt
  have hle := UInt16.le_iff_toNat_le.mp hle
  exact ⟨h.aligned.takes left htakes, Nat.le_trans hle (Nat.le_max_left ..),
    Nat.lt_of_le_of_lt h.lt hlt⟩

theorem Reached.counted (h : Reached count body n s) : s.Counted count n := by
  induction h with
  | start => exact ⟨rfl, Nat.le_max_right .., Nat.zero_lt_one⟩
  | next _ hst ih => exact ih.next hst

/-- Reading on from a stage, up to the check of the indices. -/
def finish (count : UInt16) (p : Progress) : ByteReader Pool := do
  let pool ← readFrom count p
  ofChecked pool.checkAll
  return pool

theorem finish_of_left (left : p.index < count) :
    finish count p = (p.advance count left >>= fun next => finish count next.val) := by
  rw [finish, readFrom, dif_pos left, bind_assoc]
  rfl

/-- Whatever is read from a stage on is read from the next one on. -/
theorem Iterates.finish_eq (h : Iterates count s t) :
    outcome (finish count s.progress) s.input = outcome (finish count t.progress) t.input := by
  obtain ⟨left, next, hadvance, hnext⟩ := h
  rw [finish_of_left left, outcome_bind_of_ok hadvance, hnext]

theorem Reached.finish_eq (h : Reached count body n s) :
    outcome (finish count s.progress) s.input = outcome (finish count ⟨1, #[.unusable]⟩) body := by
  induction h with
  | start => rfl
  | next _ hst ih => exact hst.finish_eq.symm.trans ih

theorem ends_of_full (h : count ≤ s.progress.index) :
    s.Ends count (outcome (finish count s.progress) s.input) := by
  have hfinish : outcome (finish count s.progress) s.input =
      (s.progress.entries.checkAll.map fun _ => s.progress.entries, s.input) := by
    rw [finish, readFrom, dif_neg (UInt16.not_lt.mpr h), pure_bind]
    cases s.progress.entries.checkAll <;> rfl
  rw [hfinish]
  exact .full h

/-- From every stage the loop gets to its end. The induction is on the indices that are left. -/
theorem exists_ends (h : Reached count body n s) :
    ∃ m t, Reached count body m t ∧ t.Ends count (outcome (finish count s.progress) s.input) := by
  induction hmissing : count.toNat - s.progress.index.toNat using Nat.strongRecOn generalizing s n with
  | _ missing ih =>
    by_cases left : s.progress.index < count
    · rcases hadvance : outcome (s.progress.advance count left) s.input with ⟨e | next, after⟩
      · refine ⟨n, s, h, ?_⟩
        rw [finish_of_left left, outcome_bind_of_error hadvance]
        exact .failed left hadvance
      · have hst : Iterates count s ⟨next.val, after⟩ := ⟨left, next, hadvance, rfl⟩
        have hnext := UInt16.lt_iff_toNat_lt.mp next.property.1
        have hleft := UInt16.lt_iff_toNat_lt.mp left
        rw [hst.finish_eq]
        exact ih _ (by dsimp only; omega) (h.next hst) rfl
    · exact ⟨n, s, h, ends_of_full (UInt16.not_lt.mp left)⟩

/-! ### The pool that is read -/

/-- A pool that is read on from its first entry has as many entries as its count says. -/
theorem size_of_finish {pool : Pool}
    (h : outcome (finish count ⟨1, #[.unusable]⟩) body = (.ok pool, after)) :
    pool.size = max count.toNat 1 := by
  obtain ⟨whole, middle, hread, hcheck⟩ := outcome_bind_ok.mp h
  obtain ⟨-, last, -, hpure⟩ := outcome_bind_ok.mp hcheck
  cases hpure
  obtain ⟨taken, ⟨entries, -, -, hsize⟩, -, -⟩ :=
    (reads_from (p := ⟨1, #[.unusable]⟩) rfl).sound (Nat.le_refl _) hread
  exact hsize

/-- In a well-formed pool the unusable entries are entry 0 and those behind wide ones. -/
theorem WellFormed.unusable_iff {pool : Pool} (h : pool.WellFormed) {i : Nat} :
    pool[i]? = some .unusable ↔ i = 0 ∨ ∃ j entry, i = j + 1 ∧ pool[j]? = some entry ∧
      entry.isWide = true := by
  constructor
  · intro hunusable
    cases i with
    | zero => exact .inl rfl
    | succ j =>
      obtain ⟨entry, hentry, hwide⟩ := h.unusable j hunusable
      exact .inr ⟨j, entry, rfl, hentry, hwide⟩
  · rintro (rfl | ⟨j, entry, rfl, hentry, hwide⟩)
    · exact h.first
    · exact h.wide j entry hentry hwide

/-- Whatever the input, reading a pool ends: at the count, if the input is cut short there, or after
fewer iterations than the count. At every stage the index of the next entry is the number of
entries, and no increment of it wraps around. A wide entry at the last index is an error, and a pool
that is read has as many entries as its count says, but at least one, of which entry 0 and those
behind wide ones are unusable. -/
theorem index_counts_entries (input : ByteInput) :
    (∃ e after, outcome u16 input = (.error e, after) ∧ outcome Pool.read input = (.error e, after)) ∨
    ∃ count body, outcome u16 input = (.ok count, body) ∧
      (∃ n s, Reached count body n s ∧ n < max count.toNat 1 ∧ s.Ends count (outcome Pool.read input)) ∧
      (∀ n s, Reached count body n s →
        s.progress.entries.size = s.progress.index.toNat ∧
        n < s.progress.index.toNat ∧ s.progress.index.toNat ≤ max count.toNat 1 ∧
        (s.progress.index < count → (s.progress.index + 1).toNat = s.progress.index.toNat + 1) ∧
        ∀ t, Iterates count s t → ∃ entry,
          outcome (readEntry s.progress.index) s.input = (.ok entry, t.input) ∧
          t.progress.index.toNat = s.progress.index.toNat + if entry.isWide then 2 else 1) ∧
      (∀ n s entry after, Reached count body n s → s.progress.index.toNat + 1 = count.toNat →
        outcome (readEntry s.progress.index) s.input = (.ok entry, after) → entry.isWide = true →
        outcome Pool.read input = (.error (.invalidIndex count .wideOverrun), after)) ∧
      ∀ pool after, outcome Pool.read input = (.ok pool, after) → pool.size = max count.toNat 1 ∧
        ∀ i, pool[i]? = some .unusable ↔
          i = 0 ∨ ∃ j entry, i = j + 1 ∧ pool[j]? = some entry ∧ entry.isWide = true := by
  have hread : Pool.read = u16 >>= fun count => finish count ⟨1, #[.unusable]⟩ := rfl
  rcases hcount : outcome u16 input with ⟨e | count, body⟩
  · exact .inl ⟨e, body, rfl, by rw [hread, outcome_bind_of_error hcount]⟩
  · have hbody : outcome Pool.read input = outcome (finish count ⟨1, #[.unusable]⟩) body := by
      rw [hread, outcome_bind_of_ok hcount]
    refine .inr ⟨count, body, rfl, ?_, fun n s hs => ?_,
      fun n s entry after hs hlast hentry hwide => ?_, fun pool after hpool => ?_⟩
    · have hstart : Reached count body 0 ⟨⟨1, #[.unusable]⟩, body⟩ := .start
      obtain ⟨n, s, hs, hends⟩ := exists_ends hstart
      exact ⟨n, s, hs, Nat.lt_of_lt_of_le hs.counted.lt hs.counted.le, by rw [hbody]; exact hends⟩
    · refine ⟨hs.counted.aligned, hs.counted.lt, hs.counted.le, fun left => ?_, fun t hst => ?_⟩
      · have hnext : (s.progress.add .unusable).index.toNat = s.progress.index.toNat + 1 :=
          Progress.toNat_index_add left
        exact hnext
      · obtain ⟨entry, hentry, htakes⟩ := hst.takes
        obtain ⟨left, -⟩ := hst
        exact ⟨entry, hentry, htakes.toNat_index left⟩
    · have left : s.progress.index < count := UInt16.lt_iff_toNat_lt.mpr (by omega)
      have hindex : (s.progress.add entry).index = count := by
        rw [← UInt16.toNat_inj, Progress.toNat_index_add left, hlast]
      have hfull : ¬ (s.progress.add entry).index < count := by
        rw [hindex]; exact UInt16.lt_irrefl count
      rw [hbody, ← hs.finish_eq, finish_of_left left,
        outcome_bind_of_error (Progress.advance_overrun hentry hwide hfull), hindex]
    · obtain ⟨taken, hspells, -, -⟩ := Pool.reads.sound (Nat.le_refl _) hpool
      exact ⟨size_of_finish (hbody.symm.trans hpool), fun i => hspells.wellFormed.unusable_iff⟩

/-- A pool of none is read like a pool of one. -/
example : (outcome Pool.read (.ofBytes [0, 0])).1.toOption = some #[.unusable] := by decide +kernel

end Pool

end JavaMachine
