import JavaMachine.Text.ModifiedUtf8

/-!
Modified UTF-8 loses nothing.

A `Spelling` is one unit as bytes, in one of the three forms that are read. Reading takes a sequence
of spellings to their units (`decode_flatMap_bytes`) and refuses all other bytes
(`exists_of_decode`); writing takes the shortest spelling of each unit (`encodeUnit_unit`). So what
is written is read back (`decode_encode`), and what is read is no longer when it is written again
(`length_encode_le`).
-/

namespace JavaMachine.Text.ModifiedUtf8

/-! ### Bits as arithmetic -/

theorem low_four (n : Nat) : n &&& 15 = n % 16 := Nat.and_two_pow_sub_one_eq_mod n 4
theorem low_five (n : Nat) : n &&& 31 = n % 32 := Nat.and_two_pow_sub_one_eq_mod n 5
theorem low_six (n : Nat) : n &&& 63 = n % 64 := Nat.and_two_pow_sub_one_eq_mod n 6

/-- Putting six bits below a number. -/
theorem shift_or_low (high low : Nat) (h : low < 64) : high <<< 6 ||| low = high * 64 + low := by
  rw [← Nat.shiftLeft_add_eq_or_of_lt h, Nat.shiftLeft_eq]

theorem toNat_unitOfTwo (a b : UInt8) : (unitOfTwo a b).toNat = a.toNat % 32 * 64 + b.toNat % 64 := by
  have hlow : b.toNat % 64 < 64 := Nat.mod_lt _ (by omega)
  have hfit : (a.toNat % 32) <<< 6 % 65536 = (a.toNat % 32) <<< 6 := by
    rw [Nat.shiftLeft_eq]; omega
  simp only [unitOfTwo, UInt16.toNat_or, UInt16.toNat_shiftLeft, UInt8.toNat_toUInt16, UInt8.toNat_and,
    UInt8.reduceToNat, UInt16.reduceToNat, Nat.reduceMod, Nat.reducePow, low_five, low_six, hfit]
  exact shift_or_low _ _ hlow

theorem toNat_unitOfThree (a b c : UInt8) :
    (unitOfThree a b c).toNat = a.toNat % 16 * 4096 + b.toNat % 64 * 64 + c.toNat % 64 := by
  have hmiddle : b.toNat % 64 < 64 := Nat.mod_lt _ (by omega)
  have hlow : c.toNat % 64 < 64 := Nat.mod_lt _ (by omega)
  have hhigh : (a.toNat % 16) <<< 12 % 65536 = ((a.toNat % 16) <<< 6) <<< 6 := by
    rw [← Nat.shiftLeft_add, Nat.shiftLeft_eq]; omega
  have hfit : (b.toNat % 64) <<< 6 % 65536 = (b.toNat % 64) <<< 6 := by
    rw [Nat.shiftLeft_eq]; omega
  simp only [unitOfThree, UInt16.toNat_or, UInt16.toNat_shiftLeft,
    UInt8.toNat_toUInt16, UInt8.toNat_and,
    UInt8.reduceToNat, UInt16.reduceToNat, Nat.reduceMod, Nat.reducePow, low_four, low_six, hhigh, hfit]
  rw [← Nat.shiftLeft_or_distrib, shift_or_low _ _ hmiddle, shift_or_low _ _ hlow]
  omega

/-! ### The kinds of bytes -/

/-- The bits that tell the kinds of bytes apart are those that their size gives. -/
theorem byte_kinds : ∀ n < 256, let b := UInt8.ofNat n
    ((b &&& 0x80 == 0) = decide (n < 0x80)) ∧
      ((b &&& 0xE0 == 0xC0) = decide (0xC0 ≤ n ∧ n < 0xE0)) ∧
      ((b &&& 0xF0 == 0xE0) = decide (0xE0 ≤ n ∧ n < 0xF0)) ∧
      (isContinuation b = decide (0x80 ≤ n ∧ n < 0xC0)) := by
  decide +kernel

theorem isSingle_iff (b : UInt8) : (b &&& 0x80 == 0) = decide (b.toNat < 0x80) := by
  simpa using (byte_kinds b.toNat b.toNat_lt).1

theorem isLeadOfTwo_iff (b : UInt8) :
    (b &&& 0xE0 == 0xC0) = decide (0xC0 ≤ b.toNat ∧ b.toNat < 0xE0) := by
  simpa using (byte_kinds b.toNat b.toNat_lt).2.1

theorem isLeadOfThree_iff (b : UInt8) :
    (b &&& 0xF0 == 0xE0) = decide (0xE0 ≤ b.toNat ∧ b.toNat < 0xF0) := by
  simpa using (byte_kinds b.toNat b.toNat_lt).2.2.1

theorem isContinuation_iff (b : UInt8) :
    isContinuation b = decide (0x80 ≤ b.toNat ∧ b.toNat < 0xC0) := by
  simpa using (byte_kinds b.toNat b.toNat_lt).2.2.2

theorem ofNat_eq_of_toNat {b : UInt8} {n : Nat} (h : b.toNat = n) : UInt8.ofNat n = b := by
  rw [← h, UInt8.ofNat_toNat]

/-- A continuation byte carries six bits. -/
theorem toNat_continuation (u : UInt16) :
    ((u &&& 0x3F).toUInt8 ||| 0x80).toNat = 0x80 + u.toNat % 64 := by
  have hor : ∀ low < 64, low ||| 128 = 128 + low := by decide
  have hlow : u.toNat % 64 < 64 := Nat.mod_lt _ (by omega)
  have hfit : u.toNat % 64 % 256 = u.toNat % 64 := by omega
  simp only [UInt8.toNat_or, UInt16.toNat_toUInt8, UInt16.toNat_and, UInt8.reduceToNat,
    UInt16.reduceToNat, Nat.reducePow, low_six, hfit, hor _ hlow]

theorem toNat_leadOfTwo {u : UInt16} (h : u.toNat < 2048) :
    ((u >>> 6).toUInt8 ||| 0xC0).toNat = 0xC0 + u.toNat / 64 := by
  have hor : ∀ high < 32, high ||| 192 = 192 + high := by decide
  have hhigh : u.toNat / 64 < 32 := by omega
  have hfit : u.toNat / 64 % 256 = u.toNat / 64 := by omega
  have hshift : u.toNat >>> 6 = u.toNat / 64 := Nat.shiftRight_eq_div_pow ..
  simp only [UInt8.toNat_or, UInt16.toNat_toUInt8, UInt16.toNat_shiftRight, UInt8.reduceToNat,
    UInt16.reduceToNat, Nat.reducePow, Nat.reduceMod, hshift, hfit, hor _ hhigh]

theorem toNat_leadOfThree (u : UInt16) :
    ((u >>> 12).toUInt8 ||| 0xE0).toNat = 0xE0 + u.toNat / 4096 := by
  have hor : ∀ high < 16, high ||| 224 = 224 + high := by decide
  have hhigh : u.toNat / 4096 < 16 := by have := u.toNat_lt; omega
  have hfit : u.toNat / 4096 % 256 = u.toNat / 4096 := by omega
  have hshift : u.toNat >>> 12 = u.toNat / 4096 := Nat.shiftRight_eq_div_pow ..
  simp only [UInt8.toNat_or, UInt16.toNat_toUInt8, UInt16.toNat_shiftRight, UInt8.reduceToNat,
    UInt16.reduceToNat, Nat.reducePow, Nat.reduceMod, hshift, hfit, hor _ hhigh]

theorem toNat_middleOfThree (u : UInt16) :
    (((u >>> 6) &&& 0x3F).toUInt8 ||| 0x80).toNat = 0x80 + u.toNat / 64 % 64 := by
  rw [toNat_continuation, UInt16.toNat_shiftRight]
  simp [Nat.shiftRight_eq_div_pow]

/-! ### One unit at the front -/

theorem decode_single {a : UInt8} {rest : List UInt8} (ha : a.toNat < 0x80) (h0 : a.toNat ≠ 0) :
    decode (a :: rest) = (decode rest).map (a.toUInt16 :: ·) := by
  have hne : (a == 0) = false := by
    rw [beq_eq_false_iff_ne]; rintro rfl; exact h0 rfl
  rw [decode.eq_def]
  simp [isSingle_iff, ha, hne]

theorem decode_two {a b : UInt8} {rest : List UInt8} (ha : 0xC0 ≤ a.toNat ∧ a.toNat < 0xE0)
    (hb : 0x80 ≤ b.toNat ∧ b.toNat < 0xC0) :
    decode (a :: b :: rest) = (decode rest).map (unitOfTwo a b :: ·) := by
  have hsingle : ¬ a.toNat < 0x80 := by omega
  rw [decode.eq_def]
  simp [isSingle_iff, isLeadOfTwo_iff, isContinuation_iff, hsingle, ha, hb]

theorem decode_three {a b c : UInt8} {rest : List UInt8} (ha : 0xE0 ≤ a.toNat ∧ a.toNat < 0xF0)
    (hb : 0x80 ≤ b.toNat ∧ b.toNat < 0xC0) (hc : 0x80 ≤ c.toNat ∧ c.toNat < 0xC0) :
    decode (a :: b :: c :: rest) = (decode rest).map (unitOfThree a b c :: ·) := by
  have hsingle : ¬ a.toNat < 0x80 := by omega
  have htwo : ¬ a.toNat < 0xE0 := by omega
  rw [decode.eq_def]
  simp [isSingle_iff, isLeadOfTwo_iff, isLeadOfThree_iff, isContinuation_iff, hsingle, htwo, ha, hb, hc]

/-! ### Spellings -/

/-- The ways to spell a unit, by the bits that the bytes leave free. -/
inductive Spelling where
  /-- 0xxxxxxx, but not all zero -/
  | single (low : Fin 128) (nonzero : low ≠ 0)
  /-- 110xxxxx 10xxxxxx -/
  | pair (high : Fin 32) (low : Fin 64)
  /-- 1110xxxx 10xxxxxx 10xxxxxx -/
  | triple (high : Fin 16) (middle low : Fin 64)

namespace Spelling

def bytes : Spelling → List UInt8
  | single low _ => [.ofNat low]
  | pair high low => [.ofNat (0xC0 + high), .ofNat (0x80 + low)]
  | triple high middle low => [.ofNat (0xE0 + high), .ofNat (0x80 + middle), .ofNat (0x80 + low)]

/-- The unit that is spelled: the free bits one behind the other. -/
def unit : Spelling → UInt16
  | single low _ => .ofNat low
  | pair high low => .ofNat (high * 64 + low)
  | triple high middle low => .ofNat (high * 4096 + middle * 64 + low)

/-- A spelling of a unit that has no shorter one. -/
def Shortest : Spelling → Prop
  | single _ _ => True
  | pair high low => (pair high low).unit = 0 ∨ 0x80 ≤ (pair high low).unit
  | triple high middle low => 0x800 ≤ (triple high middle low).unit

instance : DecidablePred Shortest
  | single _ _ => .isTrue trivial
  | pair high low => inferInstanceAs
      (Decidable ((pair high low).unit = 0 ∨ 0x80 ≤ (pair high low).unit))
  | triple high middle low => inferInstanceAs (Decidable (0x800 ≤ (triple high middle low).unit))

theorem toNat_unit_pair (high : Fin 32) (low : Fin 64) :
    (pair high low).unit.toNat = high * 64 + low := by
  rw [unit, UInt16.toNat_ofNat']
  omega

theorem toNat_unit_triple (high : Fin 16) (middle low : Fin 64) :
    (triple high middle low).unit.toNat = high * 4096 + middle * 64 + low := by
  rw [unit, UInt16.toNat_ofNat']
  omega

/-- A spelled unit is read, whatever comes after it. -/
theorem decode_bytes_append (s : Spelling) (rest : List UInt8) :
    decode (s.bytes ++ rest) = (decode rest).map (s.unit :: ·) := by
  have hbyte : ∀ n < 256, (UInt8.ofNat n).toNat = n := fun n h => UInt8.toNat_ofNat_of_lt' h
  cases s with
  | single low nonzero =>
    have hlow := hbyte low (by omega)
    have hpos : low.val ≠ 0 := fun h => nonzero (Fin.ext h)
    have hunit : (UInt8.ofNat low).toUInt16 = (single low nonzero).unit := by
      rw [← UInt16.toNat_inj, UInt8.toNat_toUInt16, hlow, unit, UInt16.toNat_ofNat']
      omega
    rw [bytes, List.singleton_append, decode_single (by omega) (by omega), hunit]
  | pair high low =>
    have hhigh := hbyte (0xC0 + high) (by omega)
    have hlow := hbyte (0x80 + low) (by omega)
    have hunit : unitOfTwo (.ofNat (0xC0 + high)) (.ofNat (0x80 + low)) = (pair high low).unit := by
      rw [← UInt16.toNat_inj, toNat_unitOfTwo, toNat_unit_pair]
      omega
    rw [bytes, List.cons_append, List.singleton_append, decode_two (by omega) (by omega), hunit]
  | triple high middle low =>
    have hhigh := hbyte (0xE0 + high) (by omega)
    have hmiddle := hbyte (0x80 + middle) (by omega)
    have hlow := hbyte (0x80 + low) (by omega)
    have hunit : unitOfThree (.ofNat (0xE0 + high)) (.ofNat (0x80 + middle)) (.ofNat (0x80 + low)) =
        (triple high middle low).unit := by
      rw [← UInt16.toNat_inj, toNat_unitOfThree, toNat_unit_triple]
      omega
    rw [bytes, List.cons_append, List.cons_append, List.singleton_append,
      decode_three (by omega) (by omega) (by omega), hunit]

theorem decode_flatMap_bytes (spellings : List Spelling) :
    decode (spellings.flatMap bytes) = some (spellings.map unit) := by
  induction spellings with
  | nil => rfl
  | cons s spellings ih =>
    rw [List.flatMap_cons, decode_bytes_append, ih]
    rfl

theorem zero_notMem_bytes (s : Spelling) : 0 ∉ s.bytes := by
  have hbyte : ∀ n, n ≠ 0 → n < 256 → (0 : UInt8) ≠ .ofNat n := by
    intro n hn hlt heq
    exact hn (by rw [← UInt8.toNat_ofNat_of_lt' hlt, ← heq]; rfl)
  cases s <;> simp only [bytes, List.mem_cons, List.not_mem_nil, or_false, not_or]
  case single low nonzero =>
    have hpos : low.val ≠ 0 := fun h => nonzero (Fin.ext h)
    exact hbyte low hpos (by omega)
  case pair high low => exact ⟨hbyte _ (by omega) (by omega), hbyte _ (by omega) (by omega)⟩
  case triple high middle low =>
    exact ⟨hbyte _ (by omega) (by omega), hbyte _ (by omega) (by omega), hbyte _ (by omega) (by omega)⟩

/-- All that is read is spellings. -/
theorem exists_of_decode {raw : List UInt8} {us : Units} (h : decode raw = some us) :
    ∃ spellings : List Spelling, spellings.flatMap bytes = raw := by
  fun_induction decode raw generalizing us with
  | case1 => exact ⟨[], rfl⟩
  | case3 a rest hsingle hzero ih =>
    obtain ⟨us, hrest, rfl⟩ := Option.map_eq_some_iff.mp h
    obtain ⟨spellings, rfl⟩ := ih hrest
    have ha : a.toNat < 0x80 := by simpa [isSingle_iff] using hsingle
    have h0 : (⟨a.toNat, ha⟩ : Fin 128) ≠ 0 := by
      intro h0
      have hnone : a.toNat = 0 := congrArg Fin.val h0
      exact hzero (beq_iff_eq.mpr (UInt8.toNat_inj.mp hnone))
    refine ⟨single ⟨a.toNat, ha⟩ h0 :: spellings, ?_⟩
    rw [List.flatMap_cons, bytes, UInt8.ofNat_toNat, List.singleton_append]
  | case4 a hsingle hlead b rest hb ih =>
    obtain ⟨us, hrest, rfl⟩ := Option.map_eq_some_iff.mp h
    obtain ⟨spellings, rfl⟩ := ih hrest
    have ha : 0xC0 ≤ a.toNat ∧ a.toNat < 0xE0 := by simpa [isLeadOfTwo_iff] using hlead
    have hb : 0x80 ≤ b.toNat ∧ b.toNat < 0xC0 := by simpa [isContinuation_iff] using hb
    refine ⟨pair ⟨a.toNat - 0xC0, by omega⟩ ⟨b.toNat - 0x80, by omega⟩ :: spellings, ?_⟩
    have hfirst : UInt8.ofNat (0xC0 + (a.toNat - 0xC0)) = a := ofNat_eq_of_toNat (by omega)
    have hsecond : UInt8.ofNat (0x80 + (b.toNat - 0x80)) = b := ofNat_eq_of_toNat (by omega)
    rw [List.flatMap_cons, bytes, hfirst, hsecond]
    rfl
  | case7 a hsingle hlead hlead' b c rest hcont ih =>
    obtain ⟨us, hrest, rfl⟩ := Option.map_eq_some_iff.mp h
    obtain ⟨spellings, rfl⟩ := ih hrest
    have ha : 0xE0 ≤ a.toNat ∧ a.toNat < 0xF0 := by simpa [isLeadOfThree_iff] using hlead'
    obtain ⟨hb, hc⟩ : (0x80 ≤ b.toNat ∧ b.toNat < 0xC0) ∧ 0x80 ≤ c.toNat ∧ c.toNat < 0xC0 := by
      simpa [isContinuation_iff] using hcont
    refine ⟨triple ⟨a.toNat - 0xE0, by omega⟩ ⟨b.toNat - 0x80, by omega⟩ ⟨c.toNat - 0x80,
      by omega⟩ :: spellings, ?_⟩
    have hfirst : UInt8.ofNat (0xE0 + (a.toNat - 0xE0)) = a := ofNat_eq_of_toNat (by omega)
    have hsecond : UInt8.ofNat (0x80 + (b.toNat - 0x80)) = b := ofNat_eq_of_toNat (by omega)
    have hthird : UInt8.ofNat (0x80 + (c.toNat - 0x80)) = c := ofNat_eq_of_toNat (by omega)
    rw [List.flatMap_cons, bytes, hfirst, hsecond, hthird]
    rfl
  | case2 | case5 | case6 | case8 | case9 | case10 => cases h

end Spelling

/-! ### Shortest spellings -/

theorem encode_cons (u : UInt16) (us : Units) : encode (u :: us) = encodeUnit u ++ encode us :=
  List.flatMap_cons ..

theorem encodeUnit_single {u : UInt16} (hpos : u.toNat ≠ 0) (h : u.toNat < 0x80) :
    encodeUnit u = [u.toUInt8] := by
  have hrange : (1 ≤ u && u ≤ 0x7F) = true := by
    simp [UInt16.le_iff_toNat_le]; omega
  rw [encodeUnit, if_pos hrange]

theorem encodeUnit_pair {u : UInt16} (hwide : u.toNat = 0 ∨ 0x80 ≤ u.toNat) (h : u.toNat < 0x800) :
    encodeUnit u = [(u >>> 6).toUInt8 ||| 0xC0, (u &&& 0x3F).toUInt8 ||| 0x80] := by
  have hrange : ¬ (1 ≤ u && u ≤ 0x7F) = true := by
    simp [UInt16.le_iff_toNat_le]; omega
  have hle : u ≤ 0x7FF := by rw [UInt16.le_iff_toNat_le]; exact Nat.le_of_lt_succ h
  rw [encodeUnit, if_neg hrange, if_pos hle]

theorem encodeUnit_triple {u : UInt16} (h : 0x800 ≤ u.toNat) : encodeUnit u =
    [(u >>> 12).toUInt8 ||| 0xE0, ((u >>> 6) &&& 0x3F).toUInt8 ||| 0x80,
      (u &&& 0x3F).toUInt8 ||| 0x80] := by
  have hrange : ¬ (1 ≤ u && u ≤ 0x7F) = true := by
    simp [UInt16.le_iff_toNat_le]; omega
  have hle : ¬ u ≤ 0x7FF := by rw [UInt16.le_iff_toNat_le]; exact Nat.not_le_of_lt h
  rw [encodeUnit, if_neg hrange, if_neg hle]

namespace Spelling

theorem encodeUnit_unit_single (low : Fin 128) (nonzero : low ≠ 0) :
    encodeUnit (single low nonzero).unit = (single low nonzero).bytes := by
  have hpos : low.val ≠ 0 := fun h => nonzero (Fin.ext h)
  have hunit : (single low nonzero).unit.toNat = low := by rw [unit, UInt16.toNat_ofNat']; omega
  have hlow : UInt8.ofNat low = (single low nonzero).unit.toUInt8 :=
    ofNat_eq_of_toNat (by rw [UInt16.toNat_toUInt8]; omega)
  rw [encodeUnit_single (by omega) (by omega), bytes, hlow]

theorem encodeUnit_eq_pair {u : UInt16} {high : Fin 32} {low : Fin 64}
    (hunit : u.toNat = high * 64 + low)
    (hwide : u.toNat = 0 ∨ 0x80 ≤ u.toNat) : encodeUnit u = (pair high low).bytes := by
  have hsmall : u.toNat < 0x800 := by omega
  have hlead : UInt8.ofNat (0xC0 + high) = (u >>> 6).toUInt8 ||| 0xC0 :=
    ofNat_eq_of_toNat (by rw [toNat_leadOfTwo hsmall]; omega)
  have hlow : UInt8.ofNat (0x80 + low) = (u &&& 0x3F).toUInt8 ||| 0x80 :=
    ofNat_eq_of_toNat (by rw [toNat_continuation u]; omega)
  rw [encodeUnit_pair hwide hsmall, bytes, hlead, hlow]

theorem encodeUnit_eq_triple {u : UInt16} {high : Fin 16} {middle low : Fin 64}
    (hunit : u.toNat = high * 4096 + middle * 64 + low) (hwide : 0x800 ≤ u.toNat) :
    encodeUnit u = (triple high middle low).bytes := by
  have hlead : UInt8.ofNat (0xE0 + high) = (u >>> 12).toUInt8 ||| 0xE0 :=
    ofNat_eq_of_toNat (by rw [toNat_leadOfThree u]; omega)
  have hmiddle : UInt8.ofNat (0x80 + middle) = ((u >>> 6) &&& 0x3F).toUInt8 ||| 0x80 :=
    ofNat_eq_of_toNat (by rw [toNat_middleOfThree u]; omega)
  have hlow : UInt8.ofNat (0x80 + low) = (u &&& 0x3F).toUInt8 ||| 0x80 :=
    ofNat_eq_of_toNat (by rw [toNat_continuation u]; omega)
  rw [encodeUnit_triple hwide, bytes, hlead, hmiddle, hlow]

/-- A unit is written as it was spelled, or the spelling was too long. -/
theorem encodeUnit_unit (s : Spelling) :
    s.Shortest ∧ encodeUnit s.unit = s.bytes ∨ ¬ s.Shortest ∧
      (encodeUnit s.unit).length < s.bytes.length := by
  cases s with
  | single low nonzero => exact .inl ⟨trivial, encodeUnit_unit_single low nonzero⟩
  | pair high low =>
    have hunit := toNat_unit_pair high low
    have hshortest : (pair high low).Shortest ↔
        (pair high low).unit.toNat = 0 ∨ 0x80 ≤ (pair high low).unit.toNat := by
      simp [Shortest, ← UInt16.toNat_inj, UInt16.le_iff_toNat_le]
    rw [hshortest]
    generalize (pair high low).unit = u at hunit
    by_cases hwide : u.toNat = 0 ∨ 0x80 ≤ u.toNat
    · exact .inl ⟨hwide, encodeUnit_eq_pair hunit hwide⟩
    · refine .inr ⟨hwide, ?_⟩
      rw [encodeUnit_single (by omega) (by omega)]
      exact Nat.lt_succ_self 1
  | triple high middle low =>
    have hunit := toNat_unit_triple high middle low
    have hshortest : (triple high middle low).Shortest ↔
        0x800 ≤ (triple high middle low).unit.toNat := by
      simp [Shortest, UInt16.le_iff_toNat_le]
    rw [hshortest]
    generalize (triple high middle low).unit = u at hunit
    by_cases hwide : 0x800 ≤ u.toNat
    · exact .inl ⟨hwide, encodeUnit_eq_triple hunit hwide⟩
    · refine .inr ⟨hwide, ?_⟩
      by_cases hpair : u.toNat = 0 ∨ 0x80 ≤ u.toNat
      · rw [encodeUnit_pair hpair (by omega)]
        exact Nat.lt_succ_self 2
      · rw [encodeUnit_single (by omega) (by omega)]
        exact Nat.lt_of_lt_of_le (Nat.lt_succ_self 1) (Nat.le_succ 2)

theorem length_encodeUnit_le (s : Spelling) : (encodeUnit s.unit).length ≤ s.bytes.length := by
  rcases s.encodeUnit_unit with ⟨-, hsame⟩ | ⟨-, hshorter⟩
  · exact Nat.le_of_eq (congrArg List.length hsame)
  · exact Nat.le_of_lt hshorter

theorem encodeUnit_unit_eq_iff (s : Spelling) : encodeUnit s.unit = s.bytes ↔ s.Shortest := by
  rcases s.encodeUnit_unit with ⟨hshortest, hsame⟩ | ⟨hlong, hshorter⟩
  · exact iff_of_true hsame hshortest
  · exact iff_of_false (fun hsame => absurd (congrArg List.length hsame) (Nat.ne_of_lt hshorter)) hlong

theorem exists_shortest (u : UInt16) : ∃ s : Spelling, s.unit = u ∧ s.Shortest := by
  have hlt := u.toNat_lt
  by_cases hone : u.toNat ≠ 0 ∧ u.toNat < 0x80
  · refine ⟨single ⟨u.toNat, hone.2⟩ fun h => hone.1 (congrArg Fin.val h), ?_, trivial⟩
    rw [unit, UInt16.ofNat_toNat]
  by_cases htwo : u.toNat < 0x800
  · have hunit : (pair ⟨u.toNat / 64, by omega⟩ ⟨u.toNat % 64, by omega⟩).unit = u := by
      rw [← UInt16.toNat_inj, toNat_unit_pair]
      dsimp only
      omega
    refine ⟨_, hunit, ?_⟩
    rw [Shortest, hunit, ← UInt16.toNat_inj, UInt16.le_iff_toNat_le]
    change u.toNat = 0 ∨ 0x80 ≤ u.toNat
    omega
  · have hunit : (triple ⟨u.toNat / 4096, by omega⟩ ⟨u.toNat / 64 % 64, by omega⟩
        ⟨u.toNat % 64, by omega⟩).unit = u := by
      rw [← UInt16.toNat_inj, toNat_unit_triple]
      dsimp only
      omega
    refine ⟨_, hunit, ?_⟩
    rw [Shortest, hunit, UInt16.le_iff_toNat_le]
    exact Nat.le_of_not_lt htwo

/-- What was spelled is no longer when it is written. -/
theorem length_encode_units_le (spellings : List Spelling) :
    (encode (spellings.map unit)).length ≤ (spellings.flatMap bytes).length := by
  induction spellings with
  | nil => exact Nat.le_refl _
  | cons s spellings ih =>
    have hfirst := s.length_encodeUnit_le
    rw [List.map_cons, encode_cons, List.flatMap_cons, List.length_append, List.length_append]
    omega

/-- It is written as it was spelled just if no unit has a shorter spelling. -/
theorem encode_units_eq_iff (spellings : List Spelling) :
    encode (spellings.map unit) = spellings.flatMap bytes ↔ ∀ s ∈ spellings, s.Shortest := by
  induction spellings with
  | nil => exact iff_of_true rfl (by simp)
  | cons s spellings ih =>
    rw [List.map_cons, encode_cons, List.flatMap_cons, List.forall_mem_cons, ← ih,
      ← s.encodeUnit_unit_eq_iff]
    refine ⟨fun hsame => ?_, fun ⟨hfirst, hrest⟩ => by rw [hfirst, hrest]⟩
    -- Neither part can be longer than it was spelled, so the parts end at the same place.
    have hlength := congrArg List.length hsame
    have hfirst := s.length_encodeUnit_le
    have hrest := length_encode_units_le spellings
    rw [List.length_append, List.length_append] at hlength
    exact List.append_inj hsame (by omega)

end Spelling

/-- The encoding of a unit sequence is read back as that sequence. -/
theorem decode_encode (us : Units) : decode (encode us) = some us := by
  induction us with
  | nil => rfl
  | cons u us ih =>
    obtain ⟨s, rfl, hshortest⟩ := Spelling.exists_shortest u
    rw [encode_cons, s.encodeUnit_unit_eq_iff.mpr hshortest, s.decode_bytes_append, ih]
    rfl

/-- Bytes that are read are no longer when they are written again. -/
theorem length_encode_le {raw : List UInt8} {us : Units} (h : decode raw = some us) :
    (encode us).length ≤ raw.length := by
  obtain ⟨spellings, rfl⟩ := Spelling.exists_of_decode h
  rw [Spelling.decode_flatMap_bytes] at h
  cases h
  exact Spelling.length_encode_units_le spellings

/-- Units are read back as they were written, and bytes are read just if they spell units. What was
read is then written no longer than it was spelled, and in the same way unless a unit has a shorter
spelling. -/
theorem written_and_read :
    (∀ us, decode (encode us) = some us ∧ 0 ∉ encode us) ∧
      (∀ raw, (decode raw).isSome ↔
        ∃ spellings : List Spelling, spellings.flatMap Spelling.bytes = raw) ∧
      ∀ raw us, decode raw = some us → (encode us).length ≤ raw.length ∧
        ∀ spellings : List Spelling, spellings.flatMap Spelling.bytes = raw →
          spellings.map Spelling.unit = us ∧ (encode us = raw ↔ ∀ s ∈ spellings, s.Shortest) := by
  refine ⟨fun us => ⟨decode_encode us, ?_⟩, fun raw => ⟨fun h => ?_, ?_⟩,
    fun raw us h => ⟨length_encode_le h, ?_⟩⟩
  · obtain ⟨spellings, hspelled⟩ := Spelling.exists_of_decode (decode_encode us)
    rw [← hspelled]
    simp [Spelling.zero_notMem_bytes]
  · obtain ⟨us, hread⟩ := Option.isSome_iff_exists.mp h
    exact Spelling.exists_of_decode hread
  · rintro ⟨spellings, rfl⟩
    rw [Spelling.decode_flatMap_bytes]
    rfl
  · rintro spellings rfl
    rw [Spelling.decode_flatMap_bytes] at h
    cases h
    exact ⟨rfl, Spelling.encode_units_eq_iff spellings⟩

/-- The last unit is spelled in two bytes but would fit in one. -/
theorem written_and_read_overlong :
    (encode [0x41, 0, 0x41]).length ≤ [0x41, 0xC0, 0x80, 0xC1, 0x81].length ∧
      encode [0x41, 0, 0x41] ≠ [0x41, 0xC0, 0x80, 0xC1, 0x81] := by
  obtain ⟨hlength, hspelled⟩ := written_and_read.2.2 [0x41, 0xC0, 0x80, 0xC1, 0x81]
    [0x41, 0, 0x41] (by decide)
  obtain ⟨-, hsame⟩ := hspelled [.single 0x41 (by decide), .pair 0 0, .pair 1 1] (by decide)
  refine ⟨hlength, fun heq => ?_⟩
  have hshortest := hsame.mp heq (.pair 1 1) (by simp)
  exact absurd hshortest (by decide)

end JavaMachine.Text.ModifiedUtf8
