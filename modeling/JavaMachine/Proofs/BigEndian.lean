import JavaMachine.Data.BigEndian

/-!
Numbers and the bytes that spell them determine each other.

`ofNat_toNat`: bytes are the spelling of their number at their own width. `toNat_ofNat_two`, `_four` and
`_eight`: at the widths of the format a number is read back modulo what the width holds.
-/

namespace JavaMachine.BigEndian

@[simp]
theorem length_ofNat : ∀ width n, (ofNat width n).length = width
  | 0, _ => rfl
  | width + 1, n => by simp [ofNat, length_ofNat width]

theorem toNat_concat (bytes : List UInt8) (b : UInt8) :
    toNat (bytes ++ [b]) = toNat bytes * 256 + b.toNat := by
  simp [toNat]

/-- The last byte is the number modulo 256, the others spell the quotient. -/
theorem ofNat_concat (width n : Nat) (b : UInt8) :
    ofNat (width + 1) (n * 256 + b.toNat) = ofNat width n ++ [b] := by
  have hdiv : (n * 256 + b.toNat) / 256 = n := by have := b.toNat_lt; omega
  have hlast : (n * 256 + b.toNat).toUInt8 = b := by
    rw [← UInt8.toNat_inj]
    have := b.toNat_lt
    simp [Nat.toUInt8]
  rw [ofNat, hdiv, hlast]

/-- Bytes are the spelling of their number. -/
theorem ofNat_toNat (bytes : List UInt8) : ofNat bytes.length (toNat bytes) = bytes := by
  induction h : bytes.length generalizing bytes with
  | zero => rw [List.length_eq_zero_iff.mp h]; rfl
  | succ width ih =>
    obtain ⟨front, last, rfl⟩ := (List.eq_nil_or_concat bytes).resolve_left (by rintro rfl; simp at h)
    have hfront : front.length = width := by simpa using h
    rw [List.concat_eq_append, toNat_concat, ofNat_concat, ih front hfront]

theorem toNat_ofNat_succ (width n : Nat) :
    toNat (ofNat (width + 1) n) = toNat (ofNat width (n / 256)) * 256 + n % 256 := by
  rw [ofNat, toNat_concat]
  simp [Nat.toUInt8]

theorem toNat_ofNat_one (n : Nat) : toNat (ofNat 1 n) = n % 256 := by
  rw [toNat_ofNat_succ]; simp [ofNat, toNat]

theorem toNat_ofNat_two (n : Nat) : toNat (ofNat 2 n) = n % 65536 := by
  rw [toNat_ofNat_succ, toNat_ofNat_one]; omega

theorem toNat_ofNat_four (n : Nat) : toNat (ofNat 4 n) = n % 4294967296 := by
  rw [toNat_ofNat_succ, toNat_ofNat_succ, toNat_ofNat_two]; omega

theorem toNat_ofNat_eight (n : Nat) : toNat (ofNat 8 n) = n % 18446744073709551616 := by
  rw [toNat_ofNat_succ, toNat_ofNat_succ, toNat_ofNat_succ, toNat_ofNat_succ, toNat_ofNat_four]; omega

end JavaMachine.BigEndian
