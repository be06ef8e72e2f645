import JavaMachine.Proofs.WellFormed

/-!
Pools under construction.

Entries are only added (`Pool.Grows`), so what is said of the entry at an index lasts
(`Pool.Lasting`). An entry that is not there yet can be added at the end of an assembled pool, and
it is assembled again (`Pool.Assembled.added`).
-/

namespace JavaMachine

namespace Pool

variable {pool pool' pool'' : Pool} {entry : PoolEntry} {index : UInt16}

/-- The entries of a pool are entries of the other one, at the same indices. -/
def Grows (pool pool' : Pool) : Prop := ∀ (i : Nat) (entry : PoolEntry), pool[i]? = some entry →
    pool'[i]? = some entry

theorem Grows.refl (pool : Pool) : pool.Grows pool := fun _ _ => id

theorem Grows.trans (h : pool.Grows pool') (h' : pool'.Grows pool'') : pool.Grows pool'' :=
  fun i entry hentry => h' i entry (h i entry hentry)

theorem Grows.size_le (h : pool.Grows pool') : pool.size ≤ pool'.size := by
  rcases hsize : pool.size with _ | last
  · exact Nat.zero_le _
  · have hlast : pool[last]? = some pool[last] := Array.getElem?_eq_getElem (by omega)
    obtain ⟨hlt, -⟩ := Array.getElem?_eq_some_iff.mp (h last _ hlast)
    exact hlt

/-- What holds of a pool and of all that it grows to. -/
def Lasting (p : Pool → Prop) : Prop := ∀ pool pool' : Pool, pool.Grows pool' → p pool → p pool'

theorem lasting_entry (i : Nat) (entry : PoolEntry) : Lasting fun pool => pool[i]? = some entry :=
  fun _ _ h => h i entry

theorem lasting_points (index : UInt16) (wanted : PoolEntry → Bool) : Lasting (Points · index wanted) :=
  fun _ _ h ⟨entry, hentry, hwanted⟩ => ⟨entry, h _ _ hentry, hwanted⟩

theorem lasting_text (index : UInt16) (value : String) :
    Lasting fun pool => pool.text? index = some value := by
  intro pool pool' h htext
  unfold text? at htext ⊢
  split at htext
  · rename_i hentry
    rw [h _ _ hentry]
    exact htext
  · cases htext

theorem Lasting.and {p q : Pool → Prop} (hp : Lasting p) (hq : Lasting q) :
    Lasting fun pool => p pool ∧ q pool :=
  fun _ _ h hpool => ⟨hp _ _ h hpool.1, hq _ _ h hpool.2⟩

theorem lasting_indicesIn (entry : PoolEntry) : Lasting entry.IndicesIn := fun pool pool' h hentry => by
  cases entry with
  | classRef | string => exact lasting_points _ _ pool pool' h hentry
  | fieldRef | methodRef | interfaceMethodRef | nameAndType =>
    exact ⟨lasting_points _ _ pool pool' h hentry.1, lasting_points _ _ pool pool' h hentry.2⟩
  | _ => trivial

/-- A pool under construction, in which no usable entry is there twice. -/
structure Assembled (pool : Pool) : Prop where
  first : pool[0]? = some .unusable
  wide : ∀ (i : Nat) (entry : PoolEntry), pool[i]? = some entry → entry.isWide = true →
    pool[i + 1]? = some .unusable
  unusable : ∀ i : Nat, pool[i + 1]? = some .unusable → ∃ entry : PoolEntry, pool[i]? = some entry ∧
    entry.isWide = true
  indices : ∀ (i : Nat) (entry : PoolEntry), pool[i]? = some entry → entry.IndicesIn pool
  distinct : ∀ (i j : Nat) (entry : PoolEntry), entry ≠ .unusable → pool[i]? = some entry →
    pool[j]? = some entry → i = j

/-- The pool with another entry, and an unusable one after that if it is wide. -/
def added (pool : Pool) (entry : PoolEntry) : Pool :=
  if entry.isWide then (pool.push entry).push .unusable else pool.push entry

theorem getElem?_added (i : Nat) : (pool.added entry)[i]? =
    if i = pool.size then some entry else if i = pool.size + 1 ∧
      entry.isWide = true then some .unusable else pool[i]? := by
  unfold added
  by_cases hwide : entry.isWide = true
  · rw [if_pos hwide, Array.getElem?_push, Array.getElem?_push, Array.size_push]
    by_cases hi : i = pool.size + 1 <;> simp [hi, hwide]
  · rw [if_neg hwide, Array.getElem?_push]
    simp [hwide]

theorem grows_added (pool : Pool) (entry : PoolEntry) : pool.Grows (pool.added entry) := fun i e h => by
  obtain ⟨hlt, -⟩ := Array.getElem?_eq_some_iff.mp h
  rw [getElem?_added, if_neg (by omega), if_neg (by omega), h]

/-- A usable entry of the larger pool is the new one, or an entry of before. -/
theorem added_cases {i : Nat} {e : PoolEntry} (h : (pool.added entry)[i]? = some e) :
    i = pool.size ∧ e = entry ∨ i = pool.size + 1 ∧ entry.isWide = true ∧ e = .unusable ∨
      pool[i]? = some e := by
  rw [getElem?_added] at h
  split at h
  · exact .inl ⟨‹_›, (Option.some.inj h).symm⟩
  · split at h
    · rename_i hwide
      exact .inr (.inl ⟨hwide.1, hwide.2, (Option.some.inj h).symm⟩)
    · exact .inr (.inr h)

theorem Assembled.added (hpool : pool.Assembled) (husable : entry ≠ .unusable)
    (hindices : entry.IndicesIn pool)
    (hnew : ∀ i : Nat, pool[i]? ≠ some entry) : (pool.added entry).Assembled := by
  have hgrows := pool.grows_added entry
  have hself : (pool.added entry)[pool.size]? = some entry := by rw [getElem?_added, if_pos rfl]
  refine ⟨hgrows _ _ hpool.first, fun i e h hwide => ?_, fun i h => ?_, fun i e h => ?_,
    fun i j e he hi hj => ?_⟩
  · rcases added_cases h with ⟨rfl, rfl⟩ | ⟨-, -, rfl⟩ | hold
    · rw [getElem?_added, if_neg (by omega), if_pos ⟨rfl, hwide⟩]
    · cases hwide
    · exact hgrows _ _ (hpool.wide i e hold hwide)
  · rcases added_cases h with ⟨-, heq⟩ | ⟨hi, hwide, -⟩ | hold
    · exact absurd heq.symm husable
    · obtain rfl : i = pool.size := Nat.succ.inj hi
      exact ⟨entry, hself, hwide⟩
    · obtain ⟨e, he, hwide⟩ := hpool.unusable i hold
      exact ⟨e, hgrows _ _ he, hwide⟩
  · rcases added_cases h with ⟨-, rfl⟩ | ⟨-, -, rfl⟩ | hold
    · exact lasting_indicesIn _ _ _ hgrows hindices
    · trivial
    · exact lasting_indicesIn _ _ _ hgrows (hpool.indices i e hold)
  · rcases added_cases hi with ⟨rfl, rfl⟩ | ⟨-, -, rfl⟩ | hi'
    · rcases added_cases hj with ⟨rfl, -⟩ | ⟨-, -, rfl⟩ | hj'
      · rfl
      · exact absurd rfl he
      · exact absurd hj' (hnew j)
    · exact absurd rfl he
    · rcases added_cases hj with ⟨rfl, rfl⟩ | ⟨-, -, rfl⟩ | hj'
      · exact absurd hi' (hnew i)
      · exact absurd rfl he
      · exact hpool.distinct i j e he hi' hj'

/-- In a pool whose size fits, an index is the 16 bits that it is returned as. -/
theorem toNat_toUInt16 {i : Nat} (hi : pool[i]? = some entry) (hsize : pool.size < UInt16.size) :
    i.toUInt16.toNat = i := by
  obtain ⟨hlt, -⟩ := Array.getElem?_eq_some_iff.mp hi
  exact UInt16.toNat_ofNat_of_lt' (by omega)

end Pool

end JavaMachine
