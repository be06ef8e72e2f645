import JavaMachine.ClassFile.Decode
import JavaMachine.ClassFile.Encode
import JavaMachine.Proofs.BigEndian
import JavaMachine.Proofs.FailingState

/-!
What byte readers accept.

`Reads n reader spells` says both halves at once: whatever the reader takes off the front of an input
`spells` the value it gives, and any bytes that spell a value are read as that value, whatever comes
after them. Both halves compose along the reader's steps (`Reads.bind`), so each reader gets one
statement about the format it reads.

The bound `n` on the input matters where attributes nest: their reader has a depth that is enough only
for inputs that are no longer.
-/

namespace JavaMachine

open ByteReader

variable {α β γ : Type}

/-- On inputs of at most `n` bytes the reader takes off the front exactly the byte strings that `spells`
relates to what it gives. -/
structure Reads (n : Nat) (reader : ByteReader α) (spells : List UInt8 → α → Prop) : Prop where
  sound : ∀ {position bytes v after}, bytes.length ≤ n →
    outcome reader ⟨position, bytes⟩ = (.ok v, after) →
      ∃ taken, spells taken v ∧ bytes = taken ++ after.rest ∧ after.position = position + taken.length
  complete : ∀ {taken v}, spells taken v → ∀ position rest, (taken ++ rest).length ≤ n →
    outcome reader ⟨position, taken ++ rest⟩ = (.ok v, ⟨position + taken.length, rest⟩)

/-- The byte strings that encode values of some kind. -/
def Encoded (valid : α → Prop) (encode : α → List UInt8) (bytes : List UInt8) (v : α) : Prop :=
  valid v ∧ bytes = encode v

theorem outcome_remaining (s : ByteInput) : outcome remaining s = (.ok s.rest.length, s) := rfl

namespace Reads

variable {n m : Nat} {x : ByteReader α} {f : α → ByteReader β} {p q : List UInt8 → α → Prop}

theorem mono (h : Reads n x p) (hm : m ≤ n) : Reads m x p where
  sound hlen := h.sound (Nat.le_trans hlen hm)
  complete hp position rest hlen := h.complete hp position rest (Nat.le_trans hlen hm)

theorem congr (h : Reads n x p) (hpq : ∀ bytes v, bytes.length ≤ n → (p bytes v ↔ q bytes v)) :
    Reads n x q where
  sound hlen hrun := by
    obtain ⟨taken, hp, rfl, hpos⟩ := h.sound hlen hrun
    exact ⟨taken, (hpq taken _ (by simp at hlen; omega)).mp hp, rfl, hpos⟩
  complete {taken v} hq position rest hlen :=
    h.complete ((hpq taken v (by simp at hlen; omega)).mpr hq) position rest hlen

protected theorem pure (v : α) : Reads n (pure v) fun bytes w => bytes = [] ∧ w = v where
  sound _ hrun := by
    obtain ⟨rfl, rfl⟩ := by simpa using hrun
    exact ⟨[], by simp⟩
  complete h position rest _ := by obtain ⟨rfl, rfl⟩ := h; simp

protected theorem throw (e : FormatError) : Reads n (throw e : ByteReader α) fun _ _ => False where
  sound _ hrun := by simp at hrun
  complete h := h.elim

/-- A sequence reads what its first step reads, followed by what its second step reads. -/
protected theorem bind {r : α → List UInt8 → β → Prop} (hx : Reads n x p)
    (hf : ∀ a front, p front a → front.length ≤ n → Reads (n - front.length) (f a) (r a)) :
    Reads n (x >>= f) fun bytes v => ∃ a front back, bytes = front ++ back ∧
      p front a ∧ r a back v where
  sound {position bytes v after} hlen hrun := by
    obtain ⟨a, ⟨middle, rest⟩, hrun, hrun'⟩ := outcome_bind_ok.mp hrun
    obtain ⟨front, hp, rfl, rfl⟩ := hx.sound hlen hrun
    simp only [List.length_append] at hlen
    have hrest : rest.length ≤ n - front.length := by omega
    obtain ⟨back, hr, rfl, hpos⟩ := (hf a front hp (by omega)).sound hrest hrun'
    exact ⟨front ++ back, ⟨a, front, back, rfl, hp, hr⟩, by simp, by simp [hpos, Nat.add_assoc]⟩
  complete {taken v} h position rest hlen := by
    obtain ⟨a, front, back, rfl, hp, hr⟩ := h
    rw [List.append_assoc] at hlen ⊢
    rw [outcome_bind_of_ok (hx.complete hp position (back ++ rest) hlen)]
    rw [List.length_append] at hlen
    rw [(hf a front hp (by omega)).complete hr _ _ (by omega)]
    simp [Nat.add_assoc]

protected theorem map (h : Reads n x p) (f : α → β) :
    Reads n (f <$> x) fun bytes v => ∃ a, p bytes a ∧ f a = v := by
  rw [map_eq_pure_bind]
  refine (h.bind fun a _ _ _ => .pure (f a)).congr fun bytes v _ => ?_
  constructor
  · rintro ⟨a, front, back, rfl, hp, rfl, rfl⟩
    exact ⟨a, by simpa using hp, rfl⟩
  · rintro ⟨a, hp, rfl⟩
    exact ⟨a, bytes, [], by simp, hp, rfl, rfl⟩

protected theorem ite {c : Prop} [Decidable c] {y : ByteReader α} (hx : Reads n x p)
    (hy : Reads n y q) :
    Reads n (if c then x else y) fun bytes v => if c then p bytes v else q bytes v := by
  by_cases hc : c
  · simpa [hc] using hx
  · simpa [hc] using hy

/-! ### Numbers and runs of bytes -/

theorem number (width : Nat) :
    Reads n (number width) fun bytes v => bytes.length = width ∧ v = BigEndian.toNat bytes where
  sound {position bytes v after} hlen hrun := by
    by_cases h : (bytes.take width).length = width
    · simp only [ByteReader.number, outcome_bind, outcome_get, outcome_set, h, if_true, outcome_pure,
        Prod.mk.injEq, Except.ok.injEq] at hrun
      obtain ⟨rfl, rfl⟩ := hrun
      exact ⟨bytes.take width, ⟨h, rfl⟩, by simp, by simp [h]⟩
    · simp only [ByteReader.number, outcome_bind, outcome_get, outcome_set, h, if_false, outcome_throw,
        Prod.mk.injEq, reduceCtorEq, false_and] at hrun
  complete {taken v} h position rest hlen := by
    obtain ⟨rfl, rfl⟩ := h
    simp [ByteReader.number, outcome_bind, outcome_map]

theorem u8 : Reads n u8 fun bytes v => bytes = Encode.u8 v := by
  refine ((number 1).map _).congr fun bytes v _ => ?_
  constructor
  · rintro ⟨k, ⟨hlen, rfl⟩, rfl⟩
    obtain ⟨b, rfl⟩ := List.length_eq_one_iff.mp hlen
    simp [Encode.u8, BigEndian.toNat, Nat.toUInt8]
  · rintro rfl
    exact ⟨v.toNat, ⟨rfl, by simp [Encode.u8, BigEndian.toNat]⟩, by simp [Nat.toUInt8]⟩

/-- Numbers of a type whose values are those below `size`, all that `width` bytes spell. -/
theorem fixed {width size : Nat} {γ : Type} (ofNat : Nat → γ) (toNat : γ → Nat)
    (hspell : ∀ k, BigEndian.toNat (BigEndian.ofNat width k) = k % size)
    (hsize : ∀ k, toNat (ofNat k) = k % size) (hofNat : ∀ v, ofNat (toNat v) = v) :
    Reads n (ofNat <$> ByteReader.number width) fun bytes v =>
      bytes = BigEndian.ofNat width (toNat v) := by
  refine ((number width).map ofNat).congr fun bytes v _ => ?_
  constructor
  · rintro ⟨k, ⟨hlen, rfl⟩, rfl⟩
    have hbytes : BigEndian.ofNat width (BigEndian.toNat bytes) = bytes := by
      rw [← hlen, BigEndian.ofNat_toNat]
    rw [hsize, ← hspell, hbytes, hbytes]
  · rintro rfl
    exact ⟨toNat v, ⟨BigEndian.length_ofNat .., by rw [hspell, ← hsize, hofNat]⟩, hofNat v⟩

theorem u16 : Reads n u16 fun bytes v => bytes = Encode.u16 v :=
  fixed Nat.toUInt16 UInt16.toNat BigEndian.toNat_ofNat_two (fun _ => rfl) (by simp [Nat.toUInt16])

theorem u32 : Reads n u32 fun bytes v => bytes = Encode.u32 v :=
  fixed Nat.toUInt32 UInt32.toNat BigEndian.toNat_ofNat_four (fun _ => rfl) (by simp [Nat.toUInt32])

theorem u64 : Reads n u64 fun bytes v => bytes = Encode.u64 v :=
  fixed Nat.toUInt64 UInt64.toNat BigEndian.toNat_ofNat_eight (fun _ => rfl) (by simp [Nat.toUInt64])

theorem bytes (count : Nat) : Reads n (bytes count) fun bytes v => bytes = v ∧ v.length = count where
  sound {position bytes v after} hlen hrun := by
    by_cases h : (bytes.take count).length = count
    · simp only [ByteReader.bytes, outcome_bind, outcome_get, outcome_set, h, if_true, outcome_pure,
        Prod.mk.injEq, Except.ok.injEq] at hrun
      obtain ⟨rfl, rfl⟩ := hrun
      exact ⟨bytes.take count, ⟨rfl, h⟩, by simp, by simp [h]⟩
    · simp only [ByteReader.bytes, outcome_bind, outcome_get, h, if_false, outcome_throw, Prod.mk.injEq,
        reduceCtorEq, false_and] at hrun
  complete {taken v} h position rest hlen := by
    obtain ⟨rfl, rfl⟩ := h
    simp [ByteReader.bytes, outcome_bind, outcome_map]

theorem lengthPrefixed :
    Reads n lengthPrefixed (Encoded (·.length < UInt32.size) Encode.lengthPrefixed) := by
  refine (u32.bind fun length _ _ _ => bytes length.toNat).congr fun taken v _ => ?_
  constructor
  · rintro ⟨length, front, back, rfl, rfl, rfl, hlen⟩
    have hsize : back.length < UInt32.size := by rw [hlen]; exact length.toNat_lt
    exact ⟨hsize, by rw [Encode.lengthPrefixed, hlen, Encode.u32]⟩
  · rintro ⟨hlen, rfl⟩
    refine ⟨v.length.toUInt32, _, v, ?_, rfl, rfl, ?_⟩ <;>
      simp [Encode.lengthPrefixed, Encode.u32, Nat.mod_eq_of_lt hlen]

/-! ### Tables -/

variable {valid : α → Prop} {encode : α → List UInt8}

theorem times (hx : Reads n x (Encoded valid encode)) (count : Nat) :
    Reads n (times count x)
      (Encoded (fun vs => vs.length = count ∧ ∀ v ∈ vs, valid v) (List.flatMap encode)) := by
  induction count generalizing n with
  | zero =>
    refine (Reads.pure []).congr fun taken vs _ => ?_
    constructor
    · rintro ⟨rfl, rfl⟩; simp [Encoded]
    · rintro ⟨⟨hlen, -⟩, rfl⟩
      obtain rfl := List.length_eq_zero_iff.mp hlen
      exact ⟨rfl, rfl⟩
  | succ count ih =>
    have hrest : ∀ front : List UInt8, Reads (n - front.length) (ByteReader.times count x) _ :=
      fun front => ih (hx.mono (Nat.sub_le ..))
    unfold ByteReader.times at hrest ⊢
    rw [List.replicate_succ, List.mapM_cons]
    refine (hx.bind fun v _ _ _ => (hrest _).bind fun vs _ _ _ => .pure (v :: vs)).congr
      fun taken ws _ => ?_
    constructor
    · rintro ⟨v, front, back, rfl, ⟨hv, rfl⟩, vs, _, _, rfl, ⟨⟨hlen, hvs⟩, rfl⟩, rfl, rfl⟩
      exact ⟨⟨by simp [hlen], by simpa [hv] using hvs⟩, by simp⟩
    · rintro ⟨⟨hlen, hws⟩, rfl⟩
      cases ws with
      | nil => simp at hlen
      | cons v vs =>
        obtain ⟨hv, hvs⟩ := List.forall_mem_cons.mp hws
        refine ⟨v, _, _, List.flatMap_cons, ⟨hv, rfl⟩, vs, _, [], ?_,
          ⟨⟨by simpa using hlen, hvs⟩, rfl⟩, rfl, rfl⟩
        rw [List.append_nil]

theorem table (hx : Reads n x (Encoded valid encode)) :
    Reads n (table x)
      (Encoded (fun vs => vs.length < UInt16.size ∧ ∀ v ∈ vs, valid v) (Encode.table encode)) := by
  refine (u16.bind fun count _ _ _ => (hx.mono (Nat.sub_le ..)).times count.toNat).congr
    fun taken vs _ => ?_
  constructor
  · rintro ⟨count, front, back, rfl, rfl, ⟨hlen, hvs⟩, rfl⟩
    have hsize : vs.length < UInt16.size := by rw [hlen]; exact count.toNat_lt
    exact ⟨⟨hsize, hvs⟩, by rw [Encode.table, hlen, Encode.u16]⟩
  · rintro ⟨⟨hlen, hvs⟩, rfl⟩
    refine ⟨vs.length.toUInt16, _, _, ?_, rfl, ⟨?_, hvs⟩, rfl⟩ <;>
      simp [Encode.table, Encode.u16, Nat.mod_eq_of_lt hlen]

/-! ### Steps that take nothing -/

protected theorem ofChecked (checked : Except FormatError Unit) :
    Reads n (ofChecked checked) fun bytes _ => bytes = [] ∧ checked = .ok () := by
  cases checked with
  | ok _ => simpa [ByteReader.ofChecked] using Reads.pure (n := n) ()
  | error e => simpa [ByteReader.ofChecked] using Reads.throw (α := Unit) (n := n) e

/-- A step that takes nothing leaves the whole input to the next one. -/
theorem ofChecked_bind {checked : Except FormatError Unit} {y : ByteReader β}
    {q : List UInt8 → β → Prop} (hy : Reads n y q) :
    Reads n (do ofChecked checked; y) fun bytes v => checked = .ok () ∧ q bytes v := by
  have hseq := (Reads.ofChecked (n := n) checked).bind (f := fun _ => y) (r := fun _ => q)
    fun _ front _ _ => hy.mono (Nat.sub_le ..)
  refine hseq.congr fun bytes v _ => ?_
  constructor
  · rintro ⟨-, _, back, rfl, ⟨rfl, hok⟩, hq⟩
    exact ⟨hok, hq⟩
  · rintro ⟨hok, hq⟩
    exact ⟨(), [], bytes, rfl, ⟨rfl, hok⟩, hq⟩

/-- A check that fails reads nothing. -/
protected theorem guard {c : Prop} [Decidable c] {e : FormatError} {y : Unit → ByteReader β}
    {q : List UInt8 → β → Prop} (hy : ¬ c → Reads n (y ()) q) :
    Reads n (if c then (throw e : ByteReader Unit) >>= y else y ()) fun bytes v => ¬ c ∧ q bytes v := by
  by_cases hc : c
  · simp only [hc, if_true, not_true, false_and]
    exact ⟨fun _ hrun => by simp at hrun, fun h => h.elim⟩
  · simpa [hc] using hy hc

/-! ### Sequences that begin with a number -/

/-- What follows a first step that spells its value in one way. -/
theorem bind_spelled {x : ByteReader α} {encode : α → List UInt8} {r : α → List UInt8 → β → Prop}
    (hx : Reads n x fun bytes v => bytes = encode v)
    (hf : ∀ a, (encode a).length ≤ n → Reads (n - (encode a).length) (f a) (r a)) :
    Reads n (x >>= f) fun bytes v => ∃ a back, bytes = encode a ++ back ∧ r a back v := by
  have hseq := hx.bind (f := f) (r := r) fun a front h hlen => by subst h; exact hf a hlen
  refine hseq.congr fun bytes v _ => ?_
  constructor
  · rintro ⟨a, _, back, rfl, rfl, hr⟩
    exact ⟨a, back, rfl, hr⟩
  · rintro ⟨a, back, rfl, hr⟩
    exact ⟨a, _, back, rfl, rfl, hr⟩

/-- A step whose value goes into the result. -/
theorem returning {encode : α → List UInt8} (hx : Reads n x fun bytes v => bytes = encode v)
    (g : α → β) :
    Reads n (x >>= fun a => pure (g a)) fun bytes v => ∃ a, bytes = encode a ∧ v = g a := by
  refine (hx.bind_spelled fun a _ => .pure (g a)).congr fun bytes v _ => ?_
  constructor
  · rintro ⟨a, _, rfl, rfl, rfl⟩
    exact ⟨a, List.append_nil _, rfl⟩
  · rintro ⟨a, rfl, rfl⟩
    exact ⟨a, [], (List.append_nil _).symm, rfl, rfl⟩

/-- Two steps whose values go into the result. -/
theorem returning_two {y : ByteReader γ} {encode : α → List UInt8} {encode' : γ → List UInt8}
    (hx : Reads n x fun bytes v => bytes = encode v)
    (hy : ∀ m, Reads m y fun bytes v => bytes = encode' v) (g : α → γ → β) :
    Reads n (x >>= fun a => y >>= fun b => pure (g a b))
      fun bytes v => ∃ a b, bytes = encode a ++ encode' b ∧ v = g a b := by
  refine (hx.bind_spelled fun a _ => (hy _).returning (g a)).congr fun bytes v _ => ?_
  constructor
  · rintro ⟨a, _, rfl, b, rfl, rfl⟩
    exact ⟨a, b, rfl, rfl⟩
  · rintro ⟨a, b, rfl, rfl⟩
    exact ⟨a, _, rfl, b, rfl, rfl⟩

end Reads

/-! ### Whole inputs -/

/-- The reader accepts inputs of at most `n` bytes exactly if `spells` relates them to what it gives. -/
def ReadsWhole (n : Nat) (reader : ByteReader α) (spells : List UInt8 → α → Prop) : Prop :=
  ∀ position bytes v, bytes.length ≤ n →
    ((outcome reader ⟨position, bytes⟩).1 = .ok v ↔ spells bytes v)

section Whole

variable {n : Nat} {x : ByteReader α} {f : α → ByteReader β} {p : List UInt8 → α → Prop}

theorem Reads.bindWhole {r : α → List UInt8 → β → Prop} (hx : Reads n x p)
    (hf : ∀ a front, p front a → front.length ≤ n → ReadsWhole (n - front.length) (f a) (r a)) :
    ReadsWhole n (x >>= f) fun bytes v =>
      ∃ a front back, bytes = front ++ back ∧ p front a ∧ r a back v := by
  intro position bytes v hlen
  constructor
  · intro hrun
    rcases h : outcome x ⟨position, bytes⟩ with ⟨e | a, middle, rest⟩
    · rw [outcome_bind_of_error h] at hrun; cases hrun
    · rw [outcome_bind_of_ok h] at hrun
      obtain ⟨front, hp, rfl, rfl⟩ := hx.sound hlen h
      simp only [List.length_append] at hlen
      exact ⟨a, front, rest, rfl, hp, (hf a front hp (by omega) _ rest v (by omega)).mp hrun⟩
  · rintro ⟨a, front, back, rfl, hp, hr⟩
    rw [outcome_bind_of_ok (hx.complete hp position back hlen)]
    simp only [List.length_append] at hlen
    exact (hf a front hp (by omega) _ back v (by omega)).mpr hr

theorem ReadsWhole.congr {q : List UInt8 → α → Prop} (h : ReadsWhole n x p)
    (hpq : ∀ bytes v, bytes.length ≤ n → (p bytes v ↔ q bytes v)) : ReadsWhole n x q :=
  fun position bytes v hlen => (h position bytes v hlen).trans (hpq bytes v hlen)

/-- What goes on only if nothing is left reads the empty input only. -/
theorem readsWhole_of_remaining {f : Nat → ByteReader α} {p : α → Prop}
    (hend : Reads 0 (f 0) fun bytes v => bytes = [] ∧ p v)
    (hleft : ∀ left s, left ≠ 0 → ∃ e t, outcome (f left) s = (.error e, t)) :
    ReadsWhole n (remaining >>= f) fun bytes v => bytes = [] ∧ p v := by
  intro position bytes v _
  rw [outcome_bind_of_ok (outcome_remaining _)]
  cases bytes with
  | nil =>
    constructor
    · intro hrun
      obtain ⟨_, ⟨-, hp⟩, -⟩ := hend.sound (Nat.le_refl _) (Prod.ext hrun rfl)
      exact ⟨rfl, hp⟩
    · rintro ⟨-, hp⟩
      have hrun := hend.complete ⟨rfl, hp⟩ position [] (Nat.le_refl 0)
      exact congrArg Prod.fst hrun
  | cons b bytes =>
    obtain ⟨e, t, hrun⟩ := hleft (b :: bytes).length ⟨position, b :: bytes⟩ (by simp)
    constructor
    · intro hok
      rw [congrArg Prod.fst hrun] at hok
      cases hok
    · rintro ⟨hnil, -⟩
      cases hnil

theorem outcome_onBytes (input : List UInt8) (x : ByteReader α) (s : ByteInput) :
    outcome (onBytes input x) s = ((outcome x (.ofBytes input)).1, s) := by
  unfold onBytes outcome
  rcases x.run (.ofBytes input) with ⟨_ | _, _⟩ <;> rfl

/-- A reader on bytes of its own takes nothing of the input. -/
theorem ReadsWhole.onBytes {input : List UInt8} (h : ReadsWhole input.length x p) :
    Reads n (onBytes input x) fun bytes v => bytes = [] ∧ p input v where
  sound {position bytes v after} _ hrun := by
    rw [outcome_onBytes, Prod.mk.injEq] at hrun
    obtain ⟨hrun, rfl⟩ := hrun
    exact ⟨[], ⟨rfl, (h 0 input v (Nat.le_refl _)).mp hrun⟩, rfl, rfl⟩
  complete := by
    rintro taken v ⟨rfl, hp⟩ position rest -
    rw [outcome_onBytes]
    exact Prod.ext ((h 0 input v (Nat.le_refl _)).mpr hp) rfl

/-- The body of an attribute is read as a whole. -/
theorem Reads.readBody {name : String} {body : List UInt8} (hx : Reads body.length x p) :
    Reads n (Attribute.readBody name body x) fun bytes v => bytes = [] ∧ p body v := by
  refine ReadsWhole.onBytes ((hx.bindWhole (r := fun a back v => back = [] ∧ v = a)
    fun a front _ _ => ?_).congr fun bytes v _ => ?_)
  · refine readsWhole_of_remaining (Reads.pure a) fun left s hleft => ?_
    rw [if_neg hleft]
    exact ⟨_, _, outcome_throw ..⟩
  · constructor
    · rintro ⟨a, front, back, rfl, hp, rfl, rfl⟩
      rwa [List.append_nil]
    · intro hp
      exact ⟨v, bytes, [], by simp, hp, rfl, rfl⟩

end Whole

end JavaMachine
