import JavaMachine.Text.Units

/-!
Characters and their units.

Every character is read back from its one or two units, whatever comes after them
(`Text.chars_unitsOfChar`), so a text is what its units are shown as (`Text.text_units`).
-/

namespace JavaMachine

namespace Text

variable {u : UInt16} {c : Char}

theorem isHighSurrogate_iff : isHighSurrogate u = true ↔ 0xD800 ≤ u.toNat ∧ u.toNat < 0xDC00 := by
  simp [isHighSurrogate, UInt16.le_iff_toNat_le, UInt16.lt_iff_toNat_lt]

theorem isLowSurrogate_iff : isLowSurrogate u = true ↔ 0xDC00 ≤ u.toNat ∧ u.toNat < 0xE000 := by
  simp [isLowSurrogate, UInt16.le_iff_toNat_le, UInt16.lt_iff_toNat_lt]

/-- A unit that begins no pair is read alone. -/
theorem chars_cons (h : isHighSurrogate u = false) (rest : Units) :
    chars (u :: rest) = charOfUnit u :: chars rest := by
  cases rest with
  | nil => rfl
  | cons v rest => simp [chars, h]

/-- A character is no surrogate. -/
theorem toNat_cases (c : Char) : c.toNat < 0xD800 ∨ 0xDFFF < c.toNat ∧ c.toNat < 0x110000 := c.valid

theorem charOfUnit_of_small (h : c.toNat < 0x10000) :
    charOfUnit c.val.toUInt16 = c ∧ isHighSurrogate c.val.toUInt16 = false := by
  have hvalid := toNat_cases c
  have hunit : c.val.toUInt16.toNat = c.toNat := by
    rw [UInt32.toNat_toUInt16]
    exact Nat.mod_eq_of_lt h
  have hhigh : isHighSurrogate c.val.toUInt16 = false := by
    rw [← Bool.not_eq_true, isHighSurrogate_iff]
    omega
  have hlow : isLowSurrogate c.val.toUInt16 = false := by
    rw [← Bool.not_eq_true, isLowSurrogate_iff]
    omega
  refine ⟨?_, hhigh⟩
  rw [charOfUnit, hhigh, hlow, hunit]
  exact Char.ofNat_toNat c

/-- The units of a character that has two: ten bits of its offset above the others, and ten below. -/
theorem surrogates_of_large (h : 0x10000 ≤ c.toNat) :
    (((c.val - 0x10000) >>> 10).toUInt16 + 0xD800).toNat = 0xD800 + (c.toNat - 0x10000) / 0x400 ∧
      (((c.val - 0x10000) &&& 0x3FF).toUInt16 + 0xDC00).toNat =
    0xDC00 + (c.toNat - 0x10000) % 0x400 := by
  have hvalid := toNat_cases c
  have hoffset : (c.val - 0x10000).toNat = c.toNat - 0x10000 :=
    UInt32.toNat_sub_of_le _ _ (UInt32.le_iff_toNat_le.mpr h)
  have hbits : (c.toNat - 0x10000) &&& 0x3FF = (c.toNat - 0x10000) % 0x400 :=
    Nat.and_two_pow_sub_one_eq_mod _ 10
  constructor
  · rw [UInt16.toNat_add, UInt32.toNat_toUInt16, UInt32.toNat_shiftRight, hoffset]
    simp only [Nat.shiftRight_eq_div_pow, UInt32.reduceToNat, UInt16.reduceToNat,
      Nat.reduceMod, Nat.reducePow]
    omega
  · rw [UInt16.toNat_add, UInt32.toNat_toUInt16, UInt32.toNat_and, hoffset]
    simp only [UInt32.reduceToNat, UInt16.reduceToNat, hbits]
    omega

/-- A character is read back from its units. -/
theorem chars_unitsOfChar (c : Char) (rest : Units) :
    chars (unitsOfChar c ++ rest) = c :: chars rest := by
  unfold unitsOfChar
  by_cases hsmall : c.val < 0x10000
  · obtain ⟨hread, hhigh⟩ := charOfUnit_of_small (UInt32.lt_iff_toNat_lt.mp hsmall)
    rw [if_pos hsmall, List.singleton_append, chars_cons hhigh, hread]
  · have hlarge : 0x10000 ≤ c.toNat := Nat.le_of_not_lt fun h => hsmall (UInt32.lt_iff_toNat_lt.mpr h)
    have hvalid := toNat_cases c
    obtain ⟨hfirst, hsecond⟩ := surrogates_of_large hlarge
    have hhigh : isHighSurrogate (((c.val - 0x10000) >>> 10).toUInt16 + 0xD800) = true := by
      rw [isHighSurrogate_iff, hfirst]
      omega
    have hlow : isLowSurrogate (((c.val - 0x10000) &&& 0x3FF).toUInt16 + 0xDC00) = true := by
      rw [isLowSurrogate_iff, hsecond]
      omega
    have hjoined : 0x10000 + (0xD800 + (c.toNat - 0x10000) / 0x400 - 0xD800) * 0x400 +
        (0xDC00 + (c.toNat - 0x10000) % 0x400 - 0xDC00) = c.toNat := by omega
    rw [if_neg hsmall]
    dsimp only [List.cons_append, List.nil_append]
    rw [chars, hhigh, hlow, Bool.and_self, if_pos rfl, charOfPair, hfirst, hsecond,
      hjoined, Char.ofNat_toNat]

theorem chars_units (cs : List Char) : chars (cs.flatMap unitsOfChar) = cs := by
  induction cs with
  | nil => rfl
  | cons c cs ih => rw [List.flatMap_cons, chars_unitsOfChar, ih]

/-- Nothing of a text is lost in its units. -/
theorem text_units (s : String) : text (units s) = s := by
  rw [text, units, chars_units, String.ofList_toList]

end Text

end JavaMachine
