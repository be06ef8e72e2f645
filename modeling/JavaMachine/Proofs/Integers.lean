import Mathlib.Data.Int.Bitwise
import JavaMachine.Execution.Arithmetic
import JavaMachine.Proofs.StackValues

/-!
Words as integers.

What is computed on words of some width is specified on the integers that the words stand for: the
exact integer, taken back to the width, is `Int.bmod`. Here are the steps for which the library has
words only: the bits of an integer, shifts, and a long made of its halves.
-/

namespace JavaMachine

/-! ### The halves of a long -/

theorem toBitVec_joinLong (low high : Int32) :
    (joinLong low high).toBitVec = high.toBitVec ++ low.toBitVec := by
  refine BitVec.eq_of_getElem_eq fun i hi => ?_
  refine Eq.trans ?_ (BitVec.getElem_append (x := high.toBitVec) (y := low.toBitVec) hi).symm
  by_cases hlow : i < 32
  · simp [joinLong, hlow, BitVec.getLsbD_eq_getElem]
  · have hlt : i - 32 < 32 := by omega
    have hnone : low.toBitVec.getLsbD i = false := BitVec.getLsbD_of_ge _ _ (by omega)
    simp [joinLong, hlow, BitVec.getElem_signExtend, hlt, hnone]

/-- The high half has the sign of a long, and the low half none. -/
theorem toInt_joinLong (low high : Int32) :
    (joinLong low high).toInt = high.toInt * 2 ^ 32 + low.toUInt32.toNat := by
  rw [Int64.toInt, toBitVec_joinLong, BitVec.toInt_append, if_neg (by decide), Int.mul_comm]
  rfl

theorem toInt_splitLong (v : Int64) :
    v.toInt = (splitLong v).2.toInt * 2 ^ 32 + (splitLong v).1.toUInt32.toNat := by
  rw [← toInt_joinLong, joinLong_splitLong]

/-- A long is split into the halves that it was made of. -/
theorem splitLong_joinLong (low high : Int32) : splitLong (joinLong low high) = (low, high) := by
  have hsplit := toInt_splitLong (joinLong low high)
  rw [toInt_joinLong] at hsplit
  generalize splitLong (joinLong low high) = halves at hsplit
  have hlt := low.toUInt32.toNat_lt
  have hlt' := halves.1.toUInt32.toNat_lt
  have hhigh : halves.2 = high := Int32.toInt_inj.mp (by omega)
  have hlow : halves.1.toUInt32 = low.toUInt32 := UInt32.toNat_inj.mp (by rw [hhigh] at hsplit; omega)
  exact Prod.ext (Int32.toBitVec_inj.mp (congrArg UInt32.toBitVec hlow)) hhigh

/-! ### The bits of an integer -/

/-- Integers with the same bits are equal: far up, their bits are their signs. -/
theorem int_ext_bits {m n : Int} (h : ∀ i, m.testBit i = n.testBit i) : m = n := by
  have hsign : ∀ a b : Nat, ∃ i, a.testBit i = false ∧ b.testBit i = false := fun a b =>
    ⟨a + b, Nat.testBit_lt_two_pow (Nat.lt_of_le_of_lt (Nat.le_add_right a b) Nat.lt_two_pow_self),
      Nat.testBit_lt_two_pow (Nat.lt_of_le_of_lt (Nat.le_add_left b a) Nat.lt_two_pow_self)⟩
  cases m with
  | ofNat a =>
    cases n with
    | ofNat b => exact congrArg Int.ofNat (Nat.eq_of_testBit_eq fun i => by
        simpa [Int.testBit] using h i)
    | negSucc b =>
      obtain ⟨i, ha, hb⟩ := hsign a b
      simpa [Int.testBit, ha, hb] using h i
  | negSucc a =>
    cases n with
    | ofNat b =>
      obtain ⟨i, ha, hb⟩ := hsign a b
      simpa [Int.testBit, ha, hb] using h i
    | negSucc b => exact congrArg Int.negSucc (Nat.eq_of_testBit_eq fun i => by
        simpa [Int.testBit] using h i)

section

variable {w k : Nat} {x y : BitVec w}

/-- The integer that a word stands for has the bits of the word, and above them its sign. -/
theorem testBit_toInt (x : BitVec w) (i : Nat) :
    x.toInt.testBit i = if i < w then x.getLsbD i else x.msb := by
  have hlt := x.isLt
  cases hmsb : x.msb with
  | false =>
    have hnat : x.toInt = Int.ofNat x.toNat := by rw [BitVec.toInt_eq_msb_cond, hmsb]; rfl
    rw [hnat, Int.testBit, BitVec.testBit_toNat]
    split
    · rfl
    · exact BitVec.getLsbD_of_ge x i (by omega)
  | true =>
    have hneg : x.toInt = Int.negSucc (2 ^ w - (x.toNat + 1)) := by
      rw [BitVec.toInt_eq_msb_cond, hmsb, if_pos rfl]
      omega
    rw [hneg, Int.testBit, Nat.testBit_two_pow_sub_succ hlt, BitVec.testBit_toNat]
    split <;> simp_all

theorem toInt_and (x y : BitVec w) : (x &&& y).toInt = Int.land x.toInt y.toInt := by
  refine int_ext_bits fun i => ?_
  rw [Int.testBit_land]
  simp only [testBit_toInt]
  split <;> simp

theorem toInt_or (x y : BitVec w) : (x ||| y).toInt = Int.lor x.toInt y.toInt := by
  refine int_ext_bits fun i => ?_
  rw [Int.testBit_lor]
  simp only [testBit_toInt]
  split <;> simp

theorem toInt_xor (x y : BitVec w) : (x ^^^ y).toInt = Int.xor x.toInt y.toInt := by
  refine int_ext_bits fun i => ?_
  rw [Int.testBit_lxor]
  simp only [testBit_toInt]
  split <;> simp

/-! ### Shifts -/

/-- A shift to the left multiplies. -/
theorem toInt_shl (x : BitVec w) (k : Nat) : (x <<< k).toInt = (x.toInt * 2 ^ k).bmod (2 ^ w) := by
  rw [BitVec.toInt_shiftLeft, BitVec.toInt_eq_toNat_bmod, Int.bmod_mul_bmod, Nat.shiftLeft_eq]
  norm_cast

/-- A shift to the right that keeps the sign divides. -/
theorem toInt_sshr (x : BitVec w) (k : Nat) : (x.sshiftRight k).toInt = x.toInt / 2 ^ k := by
  rw [BitVec.toInt_sshiftRight, Int.shiftRight_eq_div_pow]
  norm_cast

/-- The number that the bits of a word stand for without a sign. -/
theorem toInt_emod (x : BitVec w) : x.toInt % 2 ^ w = x.toNat := by
  have hcast : ((2 ^ w : Nat) : Int) = 2 ^ w := Nat.cast_pow 2 w
  have hlt : (x.toNat : Int) < 2 ^ w := by
    rw [← hcast]
    exact Int.ofNat_lt.mpr x.isLt
  rw [BitVec.toInt_eq_toNat_bmod, ← hcast, Int.bmod_emod, hcast,
    Int.emod_eq_of_lt (Int.natCast_nonneg _) hlt]

/-- A shift to the right that brings in zeros divides the number without a sign. -/
theorem toInt_ushr (x : BitVec w) (k : Nat) :
    (x >>> k).toInt = (x.toInt % 2 ^ w / 2 ^ k).bmod (2 ^ w) := by
  rw [BitVec.toInt_eq_toNat_bmod, BitVec.toNat_ushiftRight, Nat.shiftRight_eq_div_pow, toInt_emod]
  norm_cast

/-- The lowest bits of a word. -/
theorem toNat_mod_two_pow (x : BitVec w) (hk : k ≤ w) : x.toNat % 2 ^ k = (x.toInt % 2 ^ k).toNat := by
  have hdvd : (2 : Int) ^ k ∣ 2 ^ w := pow_dvd_pow 2 hk
  rw [← Int.emod_emod_of_dvd x.toInt hdvd, toInt_emod]
  norm_cast

/-- A distance that counts modulo the width is below the width. -/
theorem toNat_lt_of_emod {n : Int} (h : x.toNat = (n % y.toNat).toNat) (hpos : 0 < y.toNat) :
    x.toNat < y.toNat := by
  have hlt := Int.emod_lt_of_pos n (Int.natCast_pos.mpr hpos)
  omega

/-- A distance below the width is not changed by taking it modulo the width. -/
theorem toNat_smod (hy : 2 * y.toNat < 2 ^ w) (hxy : x.toNat < y.toNat) :
    (x.smod y).toNat = x.toNat := by
  have hx : x.msb = false := BitVec.msb_eq_false_iff_two_mul_lt.mpr (by omega)
  have hy : y.msb = false := BitVec.msb_eq_false_iff_two_mul_lt.mpr hy
  rw [BitVec.smod_eq, hx, hy]
  exact Nat.mod_eq_of_lt hxy

end

/-! ### Shifts of ints and longs -/

/-- The distance by which an int is shifted is in the lowest 5 bits. -/
theorem distance32 (b : Int32) : (b.toUInt32 &&& 31).toNat = (b.toInt % 32).toNat :=
  (Nat.and_two_pow_sub_one_eq_mod _ 5).trans (toNat_mod_two_pow b.toBitVec (by decide))

/-- The distance by which a long is shifted is in the lowest 6 bits of an int. -/
theorem distance64 (b : Int32) : (b.toUInt32 &&& 63).toUInt64.toNat = (b.toInt % 64).toNat :=
  (UInt32.toNat_toUInt64 _).trans
    ((Nat.and_two_pow_sub_one_eq_mod _ 6).trans (toNat_mod_two_pow b.toBitVec (by decide)))

theorem distance32_lt (b : Int32) :
    (b.toUInt32 &&& 31).toInt32.toBitVec.toNat < (32 : BitVec 32).toNat :=
  toNat_lt_of_emod (distance32 b) (by decide)

theorem distance64_lt (b : Int32) :
    (b.toUInt32 &&& 63).toUInt64.toInt64.toBitVec.toNat < (64 : BitVec 64).toNat :=
  toNat_lt_of_emod (distance64 b) (by decide)

theorem toNat_distance32 (b : Int32) :
    ((b.toUInt32 &&& 31).toInt32.toBitVec.smod 32).toNat = (b.toInt % 32).toNat :=
  (toNat_smod (by decide) (distance32_lt b)).trans (distance32 b)

theorem toNat_distance64 (b : Int32) :
    ((b.toUInt32 &&& 63).toUInt64.toInt64.toBitVec.smod 64).toNat = (b.toInt % 64).toNat :=
  (toNat_smod (by decide) (distance64_lt b)).trans (distance64 b)

theorem toInt_shl32 (a b : Int32) :
    (a <<< (b.toUInt32 &&& 31).toInt32).toInt = (a.toInt * 2 ^ (b.toInt % 32).toNat).bmod (2 ^ 32) := by
  rw [Int32.toInt, Int32.toBitVec_shiftLeft, BitVec.shiftLeft_eq', toNat_distance32, toInt_shl]
  rfl

theorem toInt_shl64 (a : Int64) (b : Int32) :
    (a <<< (b.toUInt32 &&& 63).toUInt64.toInt64).toInt =
    (a.toInt * 2 ^ (b.toInt % 64).toNat).bmod (2 ^ 64) := by
  rw [Int64.toInt, Int64.toBitVec_shiftLeft, BitVec.shiftLeft_eq', toNat_distance64, toInt_shl]
  rfl

theorem toInt_shr32 (a b : Int32) :
    (a >>> (b.toUInt32 &&& 31).toInt32).toInt = a.toInt / 2 ^ (b.toInt % 32).toNat := by
  rw [Int32.toInt, Int32.toBitVec_shiftRight, BitVec.sshiftRight', toNat_distance32, toInt_sshr]
  rfl

theorem toInt_shr64 (a : Int64) (b : Int32) :
    (a >>> (b.toUInt32 &&& 63).toUInt64.toInt64).toInt = a.toInt / 2 ^ (b.toInt % 64).toNat := by
  rw [Int64.toInt, Int64.toBitVec_shiftRight, BitVec.sshiftRight', toNat_distance64, toInt_sshr]
  rfl

theorem toInt_ushr32 (a b : Int32) : (shiftedDown32 a (b.toUInt32 &&& 31)).toInt =
    (a.toInt % 2 ^ 32 / 2 ^ (b.toInt % 32).toNat).bmod (2 ^ 32) := by
  have hdistance : ((b.toUInt32 &&& 31).toBitVec % 32).toNat = (b.toInt % 32).toNat :=
    BitVec.toNat_umod.trans ((Nat.mod_eq_of_lt (distance32_lt b)).trans (distance32 b))
  have hword : (shiftedDown32 a (b.toUInt32 &&& 31)).toBitVec = a.toBitVec >>>
      (b.toInt % 32).toNat := by
    rw [← hdistance]
    exact UInt32.toBitVec_shiftRight ..
  rw [Int32.toInt, hword, toInt_ushr]
  rfl

theorem toInt_ushr64 (a : Int64) (b : Int32) : (shiftedDown64 a (b.toUInt32 &&& 63).toUInt64).toInt =
    (a.toInt % 2 ^ 64 / 2 ^ (b.toInt % 64).toNat).bmod (2 ^ 64) := by
  have hdistance : ((b.toUInt32 &&& 63).toUInt64.toBitVec % 64).toNat = (b.toInt % 64).toNat :=
    BitVec.toNat_umod.trans ((Nat.mod_eq_of_lt (distance64_lt b)).trans (distance64 b))
  have hword : (shiftedDown64 a (b.toUInt32 &&& 63).toUInt64).toBitVec = a.toBitVec >>>
      (b.toInt % 64).toNat := by
    rw [← hdistance]
    exact UInt64.toBitVec_shiftRight ..
  rw [Int64.toInt, hword, toInt_ushr]
  rfl

end JavaMachine
