import JavaMachine.Proofs.ByteReader
import JavaMachine.Proofs.ModifiedUtf8
import JavaMachine.Proofs.WellFormed

/-!
Constant pools and their bytes.

`reads`: the pool reader accepts exactly the bytes that `Spells` a pool. A pool that was read is well
formed (`Spells.wellFormed`), and a well-formed pool is spelled by its encoding (`WellFormed.spells`).
The two differ only in the text entries, whose bytes need not be the shortest ones.
-/

namespace JavaMachine

open ByteReader

namespace PoolEntry

/-- The bytes after the tag of an entry. Text may be spelled in any way that is read as its units. -/
def SpellsBody (bytes : List UInt8) : PoolEntry → Prop
  | .utf8 units => ∃ raw : List UInt8, raw.length < UInt16.size ∧
      Text.ModifiedUtf8.decode raw = some units ∧ bytes = BigEndian.ofNat 2 raw.length ++ raw
  | entry => bytes = entry.encodeBody

/-- The bytes of an entry: its tag and its body. -/
def Spells (bytes : List UInt8) (entry : PoolEntry) : Prop :=
  ∃ tag body, bytes = tag :: body ∧ entry.tag? = some tag ∧ entry.SpellsBody body

theorem Spells.usable {bytes : List UInt8} {entry : PoolEntry} (h : entry.Spells bytes) :
    entry ≠ .unusable := by
  obtain ⟨tag, body, -, htag, -⟩ := h
  rintro rfl
  cases htag

theorem Spells.fits {bytes : List UInt8} {entry : PoolEntry} (h : entry.Spells bytes) : entry.Fits := by
  obtain ⟨tag, body, -, -, hbody⟩ := h
  cases entry with
  | utf8 units =>
    obtain ⟨raw, hraw, hdecode, -⟩ := hbody
    exact Nat.lt_of_le_of_lt (Text.ModifiedUtf8.length_encode_le hdecode) hraw
  | _ => trivial

theorem spells_encode {entry : PoolEntry} (husable : entry ≠ .unusable) (hfits : entry.Fits) :
    entry.Spells entry.encode := by
  cases entry with
  | unusable => exact absurd rfl husable
  | utf8 units => exact ⟨_, _, rfl, rfl, _, hfits, Text.ModifiedUtf8.decode_encode units, rfl⟩
  | _ => exact ⟨_, _, rfl, rfl, rfl⟩

end PoolEntry

namespace Pool

/-! ### One entry -/

theorem int32_spelled {bytes : List UInt8} {value : Int32} :
    (∃ bits, bytes = Encode.u32 bits ∧ value = bits.toInt32) ↔ bytes = Encode.u32 value.toUInt32 := by
  constructor
  · rintro ⟨bits, rfl, rfl⟩; rfl
  · rintro rfl; exact ⟨value.toUInt32, rfl, rfl⟩

theorem int64_spelled {bytes : List UInt8} {value : Int64} :
    (∃ bits, bytes = Encode.u64 bits ∧ value = bits.toInt64) ↔ bytes = Encode.u64 value.toUInt64 := by
  constructor
  · rintro ⟨bits, rfl, rfl⟩; rfl
  · rintro rfl; exact ⟨value.toUInt64, rfl, rfl⟩

theorem reads_utf8 {n : Nat} (index : UInt16) :
    Reads n (do
      let length ← u16
      let raw ← bytes length.toNat
      match Text.ModifiedUtf8.decode raw with
      | some units => return PoolEntry.utf8 units
      | none => throw (.invalidUtf8 index)) fun bytes entry => ∃ units, entry = .utf8 units ∧
        ∃ raw : List UInt8, raw.length < UInt16.size ∧ Text.ModifiedUtf8.decode raw = some units ∧
          bytes = BigEndian.ofNat 2 raw.length ++ raw := by
  have hunits : ∀ raw m, Reads m (match Text.ModifiedUtf8.decode raw with
      | some units => pure (PoolEntry.utf8 units)
      | none => throw (.invalidUtf8 index)) fun bytes entry =>
        bytes = [] ∧ ∃ units, Text.ModifiedUtf8.decode raw = some units ∧ entry = .utf8 units := by
    intro raw m
    cases Text.ModifiedUtf8.decode raw with
    | none => simpa using Reads.throw _
    | some units => simpa using Reads.pure (PoolEntry.utf8 units)
  refine (Reads.u16.bind_spelled fun length _ =>
    (Reads.bytes length.toNat).bind fun raw _ _ _ => hunits raw _).congr fun bytes entry _ => ?_
  constructor
  · rintro ⟨length, _, rfl, _, raw, _, rfl, ⟨rfl, hlen⟩, rfl, units, hdecode, rfl⟩
    refine ⟨units, rfl, raw, ?_, hdecode, ?_⟩
    · rw [hlen]; exact length.toNat_lt
    · rw [hlen, List.append_nil, Encode.u16]
  · rintro ⟨units, rfl, raw, hlen, hdecode, rfl⟩
    have hlength : raw.length.toUInt16.toNat = raw.length := by
      simp [Nat.mod_eq_of_lt hlen]
    refine ⟨raw.length.toUInt16, raw, ?_, raw, raw, [],
      by simp, ⟨rfl, hlength.symm⟩, rfl, units, hdecode, rfl⟩
    rw [Encode.u16, hlength]

theorem reads_entry {n : Nat} (index : UInt16) :
    Reads n (readEntry index) fun bytes entry => entry.Spells bytes := by
  unfold readEntry
  refine (Reads.u8.bind_spelled
    (r := fun tag body entry => entry.tag? = some tag ∧ entry.SpellsBody body) fun tag _ => ?_).congr
    fun bytes entry _ => Iff.rfl
  split
  · refine (reads_utf8 index).congr fun body entry _ => ?_
    cases entry <;> simp [PoolEntry.tag?, PoolEntry.SpellsBody]
  · refine (Reads.u32.returning _).congr fun body entry _ => ?_
    cases entry <;> simp [PoolEntry.tag?, PoolEntry.SpellsBody, PoolEntry.encodeBody, int32_spelled]
  · refine (Reads.u32.returning _).congr fun body entry _ => ?_
    cases entry <;> simp [PoolEntry.tag?, PoolEntry.SpellsBody, PoolEntry.encodeBody]
  · refine (Reads.u64.returning _).congr fun body entry _ => ?_
    cases entry <;> simp [PoolEntry.tag?, PoolEntry.SpellsBody, PoolEntry.encodeBody, int64_spelled]
  · refine (Reads.u64.returning _).congr fun body entry _ => ?_
    cases entry <;> simp [PoolEntry.tag?, PoolEntry.SpellsBody, PoolEntry.encodeBody]
  · refine (Reads.u16.returning _).congr fun body entry _ => ?_
    cases entry <;> simp [PoolEntry.tag?, PoolEntry.SpellsBody, PoolEntry.encodeBody]
  · refine (Reads.u16.returning _).congr fun body entry _ => ?_
    cases entry <;> simp [PoolEntry.tag?, PoolEntry.SpellsBody, PoolEntry.encodeBody]
  · refine (Reads.u16.returning_two (fun _ => Reads.u16) _).congr fun body entry _ => ?_
    cases entry <;> simp [PoolEntry.tag?, PoolEntry.SpellsBody, PoolEntry.encodeBody]
  · refine (Reads.u16.returning_two (fun _ => Reads.u16) _).congr fun body entry _ => ?_
    cases entry <;> simp [PoolEntry.tag?, PoolEntry.SpellsBody, PoolEntry.encodeBody]
  · refine (Reads.u16.returning_two (fun _ => Reads.u16) _).congr fun body entry _ => ?_
    cases entry <;> simp [PoolEntry.tag?, PoolEntry.SpellsBody, PoolEntry.encodeBody]
  · refine (Reads.u16.returning_two (fun _ => Reads.u16) _).congr fun body entry _ => ?_
    cases entry <;> simp [PoolEntry.tag?, PoolEntry.SpellsBody, PoolEntry.encodeBody]
  · refine (Reads.throw _).congr fun body entry _ => ?_
    constructor
    · exact False.elim
    · rintro ⟨htag, -⟩
      cases entry <;> simp [PoolEntry.tag?] at htag <;> subst htag <;> contradiction

/-! ### Entries one after the other -/

/-- The entries after entry 0 and their bytes; the unusable entry after a wide one has none. -/
inductive SpellsEntries : List UInt8 → List PoolEntry → Prop where
  | nil : SpellsEntries [] []
  | narrow {front back : List UInt8} {entry entries} (spells : entry.Spells front)
      (narrow : entry.isWide = false) (rest : SpellsEntries back entries) :
      SpellsEntries (front ++ back) (entry :: entries)
  | wide {front back : List UInt8} {entry entries} (spells : entry.Spells front)
      (wide : entry.isWide = true) (rest : SpellsEntries back entries) :
      SpellsEntries (front ++ back) (entry :: .unusable :: entries)

/-- What reading from a pool on gives: the entries that are still missing from the count, if any are. -/
def SpellsFrom (count : Nat) (pool : Pool) (bytes : List UInt8) (whole : Pool) : Prop :=
  ∃ entries, SpellsEntries bytes entries ∧ whole = pool ++ entries.toArray ∧
    whole.size = max count pool.size

theorem spellsFrom_of_le {count : Nat} {pool whole : Pool} {bytes : List UInt8}
    (h : count ≤ pool.size) :
    SpellsFrom count pool bytes whole ↔ bytes = [] ∧ whole = pool := by
  constructor
  · rintro ⟨entries, hspells, rfl, hsize⟩
    have hempty : entries.length = 0 := by simp at hsize; omega
    obtain rfl := List.length_eq_zero_iff.mp hempty
    cases hspells
    exact ⟨rfl, by simp⟩
  · rintro ⟨rfl, rfl⟩
    exact ⟨[], .nil, by simp, by omega⟩

/-- The bytes of the next entry come first; a wide entry needs a second index. -/
theorem spellsFrom_of_lt {count : Nat} {pool whole : Pool} {bytes : List UInt8}
    (h : pool.size < count) :
    SpellsFrom count pool bytes whole ↔ ∃ entry front back, bytes = front ++ back ∧ entry.Spells front ∧
      if entry.isWide then pool.size + 1 < count ∧
        SpellsFrom count ((pool.push entry).push .unusable) back whole
      else SpellsFrom count (pool.push entry) back whole := by
  constructor
  · rintro ⟨entries, hspells, rfl, hsize⟩
    cases hspells with
    | nil => simp at hsize; omega
    | @narrow front back entry entries hfront hnarrow hback =>
      refine ⟨entry, front, back, rfl, hfront, ?_⟩
      rw [if_neg (by simp [hnarrow])]
      refine ⟨entries, hback, by simp, ?_⟩
      simp at hsize ⊢; omega
    | @wide front back entry entries hfront hwide hback =>
      refine ⟨entry, front, back, rfl, hfront, ?_⟩
      rw [if_pos hwide]
      refine ⟨?_, entries, hback, by simp, ?_⟩ <;> simp at hsize ⊢ <;> omega
  · rintro ⟨entry, front, back, rfl, hfront, hrest⟩
    by_cases hwide : entry.isWide = true
    · rw [if_pos hwide] at hrest
      obtain ⟨hlt, entries, hback, rfl, hsize⟩ := hrest
      refine ⟨entry :: .unusable :: entries, .wide hfront hwide hback, by simp, ?_⟩
      simp at hsize ⊢; omega
    · rw [if_neg hwide] at hrest
      obtain ⟨entries, hback, rfl, hsize⟩ := hrest
      refine ⟨entry :: entries, .narrow hfront (by simpa using hwide) hback, by simp, ?_⟩
      simp at hsize ⊢; omega

/-! ### Reading on -/

namespace Progress

variable {count : UInt16} {p : Progress} {entry : PoolEntry}

/-- The next entry gets the next index. -/
def Aligned (p : Progress) : Prop := p.entries.size = p.index.toNat

/-- There is an index after one below the count. -/
theorem toNat_index_add (left : p.index < count) : (p.add entry).index.toNat = p.index.toNat + 1 := by
  have hcount := count.toNat_lt
  rw [UInt16.lt_iff_toNat_lt] at left
  rw [add, UInt16.toNat_add, UInt16.toNat_one]
  omega

theorem Aligned.add (h : p.Aligned) (left : p.index < count) : (p.add entry).Aligned := by
  rw [Aligned, toNat_index_add left, entries_add, Array.size_push, h]

theorem Aligned.lt_iff (h : p.Aligned) : p.index < count ↔ p.entries.size < count.toNat := by
  rw [UInt16.lt_iff_toNat_lt, h]

/-- What an iteration leads to if it reads `entry`: a wide one takes two indices. -/
def Takes (count : UInt16) (p : Progress) (entry : PoolEntry) (next : Progress) : Prop :=
  if entry.isWide then (p.add entry).index < count ∧ next = (p.add entry).add .unusable
  else next = p.add entry

theorem Aligned.takes (h : p.Aligned) (left : p.index < count) {next : Progress}
    (hnext : p.Takes count entry next) :
    next.Aligned := by
  unfold Takes at hnext
  split at hnext
  · obtain ⟨room, rfl⟩ := hnext
    exact (h.add left).add room
  · subst hnext
    exact h.add left

/-- What an entry leads to comes closer to the count. -/
theorem Takes.index_lt {next : Progress} (h : p.Takes count entry next) (left : p.index < count) :
    p.index < next.index ∧ next.index ≤ count := by
  unfold Takes at h
  split at h
  · obtain ⟨room, rfl⟩ := h
    exact ⟨UInt16.lt_trans (index_add left).1 (index_add room).1, (index_add room).2⟩
  · subst h
    exact index_add left

theorem reads_advance {n : Nat} (left : p.index < count) :
    Reads n (p.advance count left) fun bytes next => ∃ entry : PoolEntry, entry.Spells bytes ∧
      p.Takes count entry next := by
  refine ((reads_entry p.index).bind (r := fun entry back next => back = [] ∧
    p.Takes count entry next.val)
    fun entry _ _ _ => ?_).congr fun bytes next _ => ?_
  · refine (Reads.ite (p := fun back next => back = [] ∧ (p.add entry).index < count ∧
      next.val = (p.add entry).add .unusable)
      (q := fun back next => back = [] ∧ next.val = p.add entry) ?_ ?_).congr fun back next _ => ?_
    · by_cases room : (p.add entry).index < count
      · rw [dif_pos room]
        exact (Reads.pure _).congr fun back next _ => by simp [room, Subtype.ext_iff]
      · rw [dif_neg room]
        exact (Reads.throw _).congr fun back next _ => by simp [room]
    · exact (Reads.pure _).congr fun back next _ => by simp [Subtype.ext_iff]
    · unfold Takes
      split <;> exact Iff.rfl
  · constructor
    · rintro ⟨entry, front, _, rfl, hspells, rfl, htakes⟩
      exact ⟨entry, by rwa [List.append_nil], htakes⟩
    · rintro ⟨entry, hspells, htakes⟩
      exact ⟨entry, bytes, [], (List.append_nil bytes).symm, hspells, rfl, htakes⟩

/-- The bytes of the next entry come first, and what it leads to is spelled by the ones after them. -/
theorem Aligned.spellsFrom (h : p.Aligned) (left : p.index < count)
    {bytes : List UInt8} {whole : Pool} :
    SpellsFrom count.toNat p.entries bytes whole ↔
      ∃ (entry : PoolEntry) (front back : List UInt8) (next : Progress),
      bytes = front ++ back ∧ entry.Spells front ∧ p.Takes count entry next ∧
        SpellsFrom count.toNat next.entries back whole := by
  have hnext : ∀ (entry : PoolEntry) (back : List UInt8),
      (if entry.isWide then p.entries.size + 1 < count.toNat ∧
          SpellsFrom count.toNat ((p.entries.push entry).push .unusable) back whole
        else SpellsFrom count.toNat (p.entries.push entry) back whole) ↔
      ∃ next, p.Takes count entry next ∧ SpellsFrom count.toNat next.entries back whole := by
    intro entry back
    have hroom : (p.add entry).index < count ↔ p.entries.size + 1 < count.toNat := by
      rw [(h.add left).lt_iff, entries_add, Array.size_push]
    cases hwide : entry.isWide <;> simp [Takes, hwide, hroom, and_assoc]
  rw [spellsFrom_of_lt (h.lt_iff.mp left)]
  simp only [hnext]
  constructor
  · rintro ⟨entry, front, back, rfl, hspells, next, htakes, hback⟩
    exact ⟨entry, front, back, next, rfl, hspells, htakes, hback⟩
  · rintro ⟨entry, front, back, next, rfl, hspells, htakes, hback⟩
    exact ⟨entry, front, back, rfl, hspells, next, htakes, hback⟩

end Progress

/-- Entries are read until the pool has as many as its count says. -/
theorem reads_from {n : Nat} {count : UInt16} {p : Progress} (h : p.Aligned) :
    Reads n (readFrom count p) (SpellsFrom count.toNat p.entries) := by
  induction hmissing : count.toNat - p.index.toNat using Nat.strongRecOn generalizing p n with
  | _ missing ih =>
    rw [readFrom]
    by_cases left : p.index < count
    · rw [dif_pos left]
      refine ((Progress.reads_advance left).bind
        (r := fun next => SpellsFrom count.toNat next.val.entries)
        fun next front hfront _ => ?_).congr fun bytes whole _ => ?_
      · obtain ⟨entry, -, htakes⟩ := hfront
        have hnext := UInt16.lt_iff_toNat_lt.mp next.property.1
        have hleft := UInt16.lt_iff_toNat_lt.mp left
        exact ih _ (by omega) (h.takes left htakes) rfl
      · rw [h.spellsFrom left]
        constructor
        · rintro ⟨next, front, back, rfl, ⟨entry, hspells, htakes⟩, hback⟩
          exact ⟨entry, front, back, next.val, rfl, hspells, htakes, hback⟩
        · rintro ⟨entry, front, back, next, rfl, hspells, htakes, hback⟩
          exact ⟨⟨next, htakes.index_lt left⟩, front, back, rfl, ⟨entry, hspells, htakes⟩, hback⟩
    · rw [dif_neg left]
      have hle : count.toNat ≤ p.entries.size := Nat.le_of_not_lt (mt h.lt_iff.mpr left)
      exact (Reads.pure p.entries).congr fun bytes whole _ => (spellsFrom_of_le hle).symm

/-! ### Entries by index -/

/-- Entry after entry, an unusable one stands at the second index of each wide one and nowhere else. -/
inductive Laid : List PoolEntry → Prop where
  | nil : Laid []
  | narrow {entry entries} (usable : entry ≠ .unusable) (narrow : entry.isWide = false)
      (rest : Laid entries) : Laid (entry :: entries)
  | wide {entry entries} (wide : entry.isWide = true) (rest : Laid entries) :
      Laid (entry :: .unusable :: entries)

theorem usable_of_isWide {entry : PoolEntry} (h : entry.isWide = true) : entry ≠ .unusable := by
  rintro rfl; cases h

theorem Laid.first_usable {entries : List PoolEntry} (h : Laid entries) :
    entries[0]? ≠ some .unusable := by
  cases h with
  | nil => simp
  | narrow husable => simpa using husable
  | wide hwide => simpa using usable_of_isWide hwide

theorem Laid.wide_next {entries : List PoolEntry} (h : Laid entries) : ∀ {i entry},
    entries[i]? = some entry → entry.isWide = true → entries[i + 1]? = some .unusable := by
  induction h with
  | nil => simp
  | narrow _ hnarrow _ ih =>
    intro i entry hentry hwide
    cases i with
    | zero => simp at hentry; subst hentry; simp [hnarrow] at hwide
    | succ i => simpa using ih (by simpa using hentry) hwide
  | wide _ _ ih =>
    intro i entry hentry hwide
    rcases i with _ | _ | i
    · simp
    · simp at hentry; subst hentry; cases hwide
    · simpa using ih (by simpa using hentry) hwide

theorem Laid.unusable_after {entries : List PoolEntry} (h : Laid entries) : ∀ {i},
    entries[i + 1]? = some .unusable → ∃ entry, entries[i]? = some entry ∧ entry.isWide = true := by
  induction h with
  | nil => simp
  | narrow _ _ hrest ih =>
    intro i hunusable
    cases i with
    | zero => exact absurd (by simpa using hunusable) hrest.first_usable
    | succ i => simpa using ih (by simpa using hunusable)
  | wide hwide hrest ih =>
    intro i hunusable
    rcases i with _ | _ | i
    · exact ⟨_, rfl, hwide⟩
    · exact absurd (by simpa using hunusable) hrest.first_usable
    · simpa using ih (by simpa using hunusable)

/-- The layout by indices determines the layout entry after entry. -/
theorem Laid.of_indices : ∀ {entries : List PoolEntry}, entries[0]? ≠ some .unusable →
    (∀ i entry, entries[i]? = some entry → entry.isWide = true → entries[i + 1]? = some .unusable) →
    (∀ i, entries[i + 1]? = some .unusable → ∃ entry, entries[i]? = some entry ∧ entry.isWide = true) →
    Laid entries
  | [], _, _, _ => .nil
  | entry :: entries, hfirst, hwide, hunusable => by
    have husable : entry ≠ .unusable := by simpa using hfirst
    by_cases h : entry.isWide = true
    · have hnext : entries[0]? = some .unusable := by simpa using hwide 0 entry rfl h
      cases entries with
      | nil => cases hnext
      | cons next rest =>
        obtain rfl : next = .unusable := by simpa using hnext
        refine .wide h (Laid.of_indices ?_ ?_ ?_)
        · intro hrest
          obtain ⟨entry, hentry, hw⟩ := hunusable 1 (by simpa using hrest)
          simp at hentry
          subst hentry
          cases hw
        · intro i entry hentry
          simpa using hwide (i + 2) entry (by simpa using hentry)
        · intro i hentry
          simpa using hunusable (i + 2) (by simpa using hentry)
    · refine .narrow husable (by simpa using h) (Laid.of_indices ?_ ?_ ?_)
      · intro hrest
        obtain ⟨entry', hentry, hw⟩ := hunusable 0 (by simpa using hrest)
        simp at hentry
        subst hentry
        exact h hw
      · intro i entry hentry
        simpa using hwide (i + 1) entry (by simpa using hentry)
      · intro i hentry
        simpa using hunusable (i + 1) (by simpa using hentry)

/-! ### Spelled entries are laid out, and laid out entries are spelled -/

theorem SpellsEntries.laid {bytes : List UInt8} {entries : List PoolEntry}
    (h : SpellsEntries bytes entries) : Laid entries := by
  induction h with
  | nil => exact .nil
  | narrow hspells hnarrow _ ih => exact .narrow hspells.usable hnarrow ih
  | wide _ hwide _ ih => exact .wide hwide ih

theorem SpellsEntries.fits {bytes : List UInt8} {entries : List PoolEntry}
    (h : SpellsEntries bytes entries) : ∀ entry ∈ entries, entry.Fits := by
  induction h with
  | nil => simp
  | narrow hspells _ _ ih =>
    rw [List.forall_mem_cons]
    exact ⟨hspells.fits, ih⟩
  | wide hspells _ _ ih =>
    rw [List.forall_mem_cons, List.forall_mem_cons]
    exact ⟨hspells.fits, trivial, ih⟩

theorem Laid.spells {entries : List PoolEntry} (h : Laid entries)
    (hfits : ∀ entry ∈ entries, entry.Fits) :
    SpellsEntries (entries.flatMap PoolEntry.encode) entries := by
  induction h with
  | nil => exact .nil
  | narrow husable hnarrow _ ih =>
    rw [List.forall_mem_cons] at hfits
    exact .narrow (PoolEntry.spells_encode husable hfits.1) hnarrow (ih hfits.2)
  | wide hwide _ ih =>
    rw [List.forall_mem_cons, List.forall_mem_cons] at hfits
    exact .wide (PoolEntry.spells_encode (usable_of_isWide hwide) hfits.1) hwide (ih hfits.2.2)

/-! ### The check of the indices -/

theorem check_ok {pool : Pool} {index : UInt16} {wanted : PoolEntry → Bool} {problem : IndexProblem} :
    pool.check index wanted problem = .ok () ↔ pool.Points index wanted := by
  unfold check Points
  cases pool[index.toNat]? with
  | none => simp
  | some entry => cases wanted entry <;> simp

theorem checkEntry_ok {pool : Pool} {entry : PoolEntry} :
    pool.checkEntry entry = .ok () ↔ entry.IndicesIn pool := by
  cases entry <;> simp [checkEntry, PoolEntry.IndicesIn, check_bind_ok, check_ok]

/-! ### Whole pools -/

/-- The bytes of a pool: a count and as many entries, whose indices point at the right kinds. -/
def Spells (bytes : List UInt8) (pool : Pool) : Prop :=
  ∃ count : UInt16, ∃ body, bytes = Encode.u16 count ++ body ∧
    SpellsFrom count.toNat #[.unusable] body pool ∧ pool.checkAll = .ok ()

theorem reads {n : Nat} : Reads n Pool.read fun bytes pool => pool.Spells bytes := by
  refine (Reads.u16.bind_spelled fun count _ => (reads_from (p := ⟨1, #[.unusable]⟩) rfl).bind
    fun pool _ _ _ => Reads.ofChecked_bind (Reads.pure pool)).congr fun bytes pool _ => ?_
  constructor
  · rintro ⟨count, _, rfl, pool, body, _, rfl, hbody, hcheck, rfl, rfl⟩
    exact ⟨count, body, by rw [List.append_nil], hbody, hcheck⟩
  · rintro ⟨count, body, rfl, hbody, hcheck⟩
    exact ⟨count, body, rfl, pool, body, [], by rw [List.append_nil], hbody, hcheck, rfl, rfl⟩

/-- What is read is well formed. -/
theorem Spells.wellFormed {bytes : List UInt8} {pool : Pool} (h : pool.Spells bytes) :
    pool.WellFormed := by
  obtain ⟨count, body, -, ⟨entries, hentries, rfl, hsize⟩, hcheck⟩ := h
  have hindex : ∀ i : Nat,
      ((#[PoolEntry.unusable] : Pool) ++ entries.toArray)[i + 1]? = entries[i]? := by
    intro i; simp
  have hcount : count.toNat < UInt16.size := count.toNat_lt
  have hone : 1 < UInt16.size := by decide
  constructor
  · simp at hsize ⊢; omega
  · simp
  · intro i entry hentry hwide
    cases i with
    | zero => simp at hentry; subst hentry; cases hwide
    | succ i =>
      rw [hindex] at hentry ⊢
      exact hentries.laid.wide_next hentry hwide
  · intro i hunusable
    rw [hindex] at hunusable
    cases i with
    | zero => exact absurd hunusable hentries.laid.first_usable
    | succ i => rw [hindex]; exact hentries.laid.unusable_after hunusable
  · rw [Array.toList_append, List.forall_mem_append]
    exact ⟨by simp [PoolEntry.Fits], hentries.fits⟩
  · intro entry hmem
    exact checkEntry_ok.mp (check_forM_ok.mp hcheck entry hmem)

/-- A well-formed pool is spelled by its encoding. -/
theorem WellFormed.spells {pool : Pool} (h : pool.WellFormed) : pool.Spells pool.encode := by
  obtain ⟨list⟩ := pool
  cases list with
  | nil => cases h.first
  | cons first entries =>
    obtain rfl : first = .unusable := by simpa using h.first
    have hsize : entries.length + 1 < UInt16.size := h.size_lt
    have hlaid : Laid entries := by
      refine .of_indices ?_ ?_ ?_
      · intro hfirst
        obtain ⟨entry, hentry, hwide⟩ := h.unusable 0 (by simpa using hfirst)
        simp at hentry
        subst hentry
        cases hwide
      · intro i entry hentry hwide
        simpa using h.wide (i + 1) entry (by simpa using hentry) hwide
      · intro i hentry
        simpa using h.unusable (i + 1) (by simpa using hentry)
    have hfits : ∀ entry ∈ entries, entry.Fits :=
      fun entry hmem => h.fits entry (List.mem_cons_of_mem _ hmem)
    have hcount : (entries.length + 1).toUInt16.toNat = entries.length + 1 := by
      simp [Nat.mod_eq_of_lt hsize]
    refine ⟨(entries.length + 1).toUInt16, _, ?_, ⟨entries, hlaid.spells hfits, by simp, ?_⟩, ?_⟩
    · rw [Encode.u16, hcount]; rfl
    · rw [hcount]; simp
    · exact check_forM_ok.mpr fun entry hmem => checkEntry_ok.mpr (h.indices entry hmem)

end Pool

end JavaMachine
