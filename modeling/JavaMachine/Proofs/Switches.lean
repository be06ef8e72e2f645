import Mathlib.Algebra.Group.Int.Defs
import Mathlib.Algebra.Group.Nat.Defs
import JavaMachine.Proofs.BigEndian
import JavaMachine.Proofs.DecodedOperands
import JavaMachine.Proofs.DecodingLocality

/-!
A table switch is a lookup switch.

A table stands for the pairs of its keys and distances, whose keys follow one another from the
lowest one (`tablePairs`). There are as many as the range has keys, so none wraps around, and
looking a key up among them finds what the table has for it (`tableTarget?_eq_lookupTarget`).
Decoding gives a table switch for every range that is not empty
(`Instruction.decoded_tableSwitch_iff`), and each of them does what the lookup switch with its pairs
does (`Exec.tableSwitch_is_lookupSwitch`).
-/

namespace JavaMachine

/-! ### Tables as pairs -/

namespace Exec

/-- The keys from `low` on, each with its distance. -/
def tablePairs (low : Int) (offsets : List Int32) : List (Int32 × Int32) :=
  offsets.mapIdx fun i offset => (Int32.ofInt (low + i), offset)

theorem tablePairs_cons (low : Int) (offset : Int32) (offsets : List Int32) :
    tablePairs low (offset :: offsets) = (Int32.ofInt low, offset) :: tablePairs (low + 1) offsets := by
  rw [tablePairs, List.mapIdx_cons, tablePairs, Int.natCast_zero, Int.add_zero]
  refine congrArg (_ :: ·) (congrArg (List.mapIdx · offsets) ?_)
  funext i offset
  rw [Int.natCast_succ, Int.add_assoc, Int.add_comm 1 (i : Int)]

theorem getElem?_tablePairs (low : Int) (offsets : List Int32) (i : Nat) :
    (tablePairs low offsets)[i]? = offsets[i]?.map fun offset => (Int32.ofInt (low + i), offset) :=
  List.getElem?_mapIdx

/-- As long as the keys are ints, the pair of a key is as far behind the first one as the key is. -/
theorem lookup_tablePairs (key : Int32) : ∀ {low : Int} {offsets : List Int32}, -2 ^ 31 ≤ low →
    low + offsets.length ≤ 2 ^ 31 →
    (tablePairs low offsets).lookup key = if low ≤ key.toInt then offsets[(key.toInt - low).toNat]?
    else none
  | low, [], _, _ => by simp [tablePairs]
  | low, offset :: offsets, hlow, hhigh => by
    rw [List.length_cons, Int.natCast_succ] at hhigh
    have hfirst : (Int32.ofInt low).toInt = low := Int32.toInt_ofInt_of_le hlow (by omega)
    rw [tablePairs_cons, List.lookup_cons, lookup_tablePairs key (by omega) (by omega)]
    by_cases heq : key = Int32.ofInt low
    · have hkey : key.toInt = low := heq ▸ hfirst
      simp [heq, hfirst]
    · have hne : key.toInt ≠ low := fun h => heq (Int32.toInt_inj.mp (h.trans hfirst.symm))
      rw [beq_eq_false_iff_ne.mpr heq]
      dsimp only
      by_cases hle : low ≤ key.toInt
      · have hindex : (key.toInt - low).toNat = (key.toInt - (low + 1)).toNat + 1 := by omega
        rw [if_pos (by omega), if_pos hle, hindex, List.getElem?_cons_succ]
      · rw [if_neg (by omega), if_neg hle]

/-- A table with an offset for every key in the range has the distances of its pairs. -/
theorem tableTarget?_eq_lookupTarget (default : Int32) {low high : Int32} {offsets : List Int32}
    (hlength : (offsets.length : Int) = high.toInt - low.toInt + 1) (key : Int32) :
    tableTarget? default low high offsets key =
      some (lookupTarget default (tablePairs low.toInt offsets) key) := by
  have hlow := low.le_toInt
  have hhigh := high.toInt_lt
  rw [tableTarget?, lookupTarget, lookup_tablePairs key hlow (by omega)]
  simp only [Bool.or_eq_true, decide_eq_true_eq, Int32.lt_iff_toInt_lt]
  by_cases hbelow : key.toInt < low.toInt
  · rw [if_pos (Or.inl hbelow), if_neg (Int.not_le.mpr hbelow), Option.getD_none]
  · rw [if_pos (c := low.toInt ≤ key.toInt) (Int.not_lt.mp hbelow)]
    by_cases habove : high.toInt < key.toInt
    · rw [if_pos (Or.inr habove), List.getElem?_eq_none (by omega), Option.getD_none]
    · rw [if_neg (by omega), List.getElem?_eq_getElem (by omega), Option.getD_some]

/-- The keys of the pairs do not wrap around. -/
theorem tablePairs_key {low high : Int32} {offsets : List Int32}
    (hlength : (offsets.length : Int) = high.toInt - low.toInt + 1) {i : Nat} {offset : Int32}
    (hoffset : offsets[i]? = some offset) :
    ∃ key : Int32, (tablePairs low.toInt offsets)[i]? = some (key, offset) ∧
      key.toInt = low.toInt + i := by
  have hi := (List.getElem?_eq_some_iff.mp hoffset).1
  have hlow := low.le_toInt
  have hhigh := high.toInt_lt
  refine ⟨_, by rw [getElem?_tablePairs, hoffset, Option.map_some], Int32.toInt_ofInt_of_le
    (by omega) (by omega)⟩

theorem tableTarget?_inside (default : Int32) {low high key : Int32} {offsets : List Int32}
    (hlength : (offsets.length : Int) = high.toInt - low.toInt + 1) (hlow : low ≤ key)
    (hhigh : key ≤ high) :
    ∃ offset, offsets[(key.toInt - low.toInt).toNat]? = some offset ∧
      tableTarget? default low high offsets key = some offset := by
  have hlt : (key.toInt - low.toInt).toNat < offsets.length := tableIndex_lt (by omega) hlow hhigh
  have hindex := List.getElem?_eq_getElem hlt
  refine ⟨_, hindex, ?_⟩
  rw [tableTarget?, if_neg (by simp [hlow, hhigh]), hindex]

theorem tableTarget?_outside {default low high key : Int32} (offsets : List Int32)
    (h : ¬ (low ≤ key ∧ key ≤ high)) :
    tableTarget? default low high offsets key = some default := by
  rw [Classical.not_and_iff_not_or_not, Int32.not_le, Int32.not_le] at h
  rw [tableTarget?, if_pos (by simpa using h)]

/-- Distances in 64 bits do not wrap around. -/
theorem toInt_toInt64_sub (a b : Int32) : (a.toInt64 - b.toInt64).toInt = a.toInt - b.toInt := by
  have ha := a.le_toInt
  have ha' := a.toInt_lt
  have hb := b.le_toInt
  have hb' := b.toInt_lt
  rw [Int64.toInt_sub, Int32.toInt_toInt64, Int32.toInt_toInt64,
    Int.bmod_eq_of_le (by omega) (by omega)]

/-- The number of keys between two ints does not wrap around in 64 bits. -/
theorem toInt_toInt64_sub_add_one (a b : Int32) :
    (a.toInt64 - b.toInt64 + 1).toInt = a.toInt - b.toInt + 1 := by
  have ha := a.le_toInt
  have ha' := a.toInt_lt
  have hb := b.le_toInt
  have hb' := b.toInt_lt
  rw [Int64.toInt_add, toInt_toInt64_sub, Int64.toInt_one, Int.bmod_eq_of_le (by omega) (by omega)]

end Exec

/-! ### Code ahead of a cursor -/

namespace CodeCursor

/-- The cursor has some bytes ahead. -/
structure Ahead (c : CodeCursor) (bytes : List UInt8) : Prop where
  fits : c.Fits
  eq : c.code.toList.drop c.pc.toNat = bytes

variable {c : CodeCursor} {bytes rest : List UInt8}

theorem Ahead.room (h : c.Ahead bytes) : c.pc.toNat + bytes.length = c.code.size := by
  have hlength := congrArg List.length h.eq
  have hinside := h.fits.inside
  rw [List.length_drop, Array.length_toList] at hlength
  omega

theorem Ahead.extract_eq (h : c.Ahead (bytes ++ rest)) :
    (c.code.extract c.pc.toNat (c.pc.toNat + bytes.length)).toList = bytes := by
  rw [Array.toList_extract, List.extract_eq_take_drop, h.eq, Nat.add_sub_cancel_left, List.take_left]

theorem Ahead.past (h : c.Ahead (bytes ++ rest)) : (c.past bytes.length).Ahead rest := by
  have hroom := h.room
  have haddressable := h.fits.addressable
  rw [List.length_append] at hroom
  refine ⟨h.fits.past (by omega), ?_⟩
  rw [h.fits.toNat_past (by omega), past_code, ← List.drop_drop, h.eq, List.drop_left]

end CodeCursor

namespace CodeReader

open CodeCursor

variable {c : CodeCursor} {rest : List UInt8}

theorem outcome_number_ahead {bytes : List UInt8} (h : c.Ahead (bytes ++ rest)) :
    outcome (number bytes.length) c = (.ok (BigEndian.toNat bytes), c.past bytes.length) := by
  have hroom := h.room
  rw [List.length_append] at hroom
  rw [outcome_number, if_pos (by omega), h.extract_eq]

/-- A signed number in four bytes. -/
def spell (v : Int32) : List UInt8 := BigEndian.ofNat 4 v.toUInt32.toNat

theorem length_spell (v : Int32) : (spell v).length = 4 := BigEndian.length_ofNat 4 _

theorem past_spell {v : Int32} (h : c.Ahead (spell v ++ rest)) : (c.past 4).Ahead rest :=
  length_spell v ▸ h.past

theorem outcome_i4_ahead {v : Int32} (h : c.Ahead (spell v ++ rest)) :
    outcome i4 c = (.ok v, c.past 4) := by
  have hnumber := outcome_number_ahead h
  have hlt := v.toUInt32.toNat_lt
  rw [length_spell] at hnumber
  rw [i4, outcome_map, hnumber, spell, BigEndian.toNat_ofNat_four, Nat.mod_eq_of_lt hlt]
  exact congrArg (fun v : UInt32 => (Except.ok v.toInt32, c.past 4))
    (UInt32.ofNat_toNat (x := v.toUInt32))

theorem length_flatMap_spell (offsets : List Int32) :
    (offsets.flatMap spell).length = 4 * offsets.length := by
  induction offsets with
  | nil => rfl
  | cons offset offsets ih => rw [List.flatMap_cons, List.length_append,
      length_spell, ih, List.length_cons]; omega

theorem outcome_i4s_ahead : ∀ {offsets : List Int32} {c : CodeCursor},
      c.Ahead (offsets.flatMap spell ++ rest) →
    outcome (i4s offsets.length) c = (.ok offsets, c.past (4 * offsets.length))
  | [], c, _ => by rw [List.length_nil, i4s, outcome_pure, Nat.mul_zero, past_zero]
  | offset :: offsets, c, h => by
    rw [List.flatMap_cons, List.append_assoc] at h
    rw [List.length_cons, i4s, outcome_bind_of_ok (outcome_i4_ahead h),
      outcome_bind_of_ok (outcome_i4s_ahead (past_spell h)), outcome_pure, past_past,
      Nat.mul_succ, Nat.add_comm]

end CodeReader

/-! ### Decoded table switches -/

namespace Instruction

open CodeReader CodeCursor

/-- There is code that the instruction is decoded from. -/
def Decoded (i : Instruction) : Prop := ∃ code pc c, outcome read ⟨code, pc⟩ = (.ok i, c)

/-- The default, the bounds and the distances of a table. -/
def tableBytes (default low high : Int32) (offsets : List Int32) : List UInt8 :=
  spell default ++ (spell low ++ (spell high ++ (offsets.flatMap spell ++ [])))

/-- Behind the opcode at the start of the code, the table comes after three bytes of padding. -/
theorem readTableSwitch_ahead {default low high : Int32} {offsets : List Int32} {code : Array UInt8}
    (hle : low ≤ high) (hlength : (offsets.length : Int) = high.toInt - low.toInt + 1)
    (h : CodeCursor.Ahead ⟨code, 4⟩ (tableBytes default low high offsets)) :
    ∃ t, outcome readTableSwitch ⟨code, 1⟩ = (.ok (.tableSwitch default low high offsets), t) := by
  have hlow := past_spell h
  have hhigh := past_spell hlow
  have hcount : (high.toInt - low.toInt + 1).toNat = offsets.length := by omega
  have halign : outcome align ⟨code, 1⟩ = (.ok ⟨⟩, ⟨code, 4⟩) :=
    congrArg (fun pc => (Except.ok PUnit.unit, CodeCursor.mk code pc))
      (by decide : (1 : UInt64) + (4 - 1 % 4) % 4 = 4)
  rw [readTableSwitch, outcome_bind_of_ok halign, outcome_bind_of_ok (outcome_i4_ahead h),
    outcome_bind_of_ok (outcome_i4_ahead hlow), outcome_bind_of_ok (outcome_i4_ahead hhigh)]
  dsimp only
  rw [if_neg (Int32.not_lt.mpr hle), hcount, outcome_bind_of_ok (outcome_i4s_ahead (past_spell hhigh))]
  exact ⟨_, rfl⟩

theorem decoded_tableSwitch {default low high : Int32} {offsets : List Int32} (hle : low ≤ high)
    (hlength : (offsets.length : Int) = high.toInt - low.toInt + 1) :
    Decoded ⟨.tableswitch, .tableSwitch default low high offsets⟩ := by
  let code : Array UInt8 := ([0xAA, 0, 0, 0] ++ tableBytes default low high offsets).toArray
  have hlow := low.le_toInt
  have hhigh := high.toInt_lt
  have hhalf : UInt64.size / 2 = 9223372036854775808 := rfl
  have hsize : code.size = 4 + (12 + 4 * offsets.length) := by
    simp only [code, tableBytes, List.size_toArray, List.length_append, length_spell,
      length_flatMap_spell, List.length_cons, List.length_nil]
    omega
  have hstart : CodeCursor.Ahead ⟨code, 0⟩
      ([0xAA] ++ ([0, 0, 0] ++ tableBytes default low high offsets)) :=
    ⟨⟨by dsimp only; omega, Nat.zero_le _⟩, rfl⟩
  have hopcode : outcome u1 ⟨code, 0⟩ = (.ok 0xAA, ⟨code, 1⟩) := by
    have hnumber : outcome (number 1) ⟨code, 0⟩ = _ := outcome_number_ahead hstart
    rw [u1, outcome_map, hnumber]
    rfl
  obtain ⟨t, htable⟩ := readTableSwitch_ahead hle hlength (hstart.past.past)
  refine ⟨code, 0, t, ?_⟩
  rw [read, outcome_bind_of_ok (by rfl), outcome_bind_of_ok hopcode]
  exact outcome_bind_of_ok htable

/-- Exactly the tables with an offset for every key of a range can be decoded. -/
theorem decoded_tableSwitch_iff {operands : Operands} :
    Decoded ⟨.tableswitch, operands⟩ ↔ ∃ default low high offsets,
      operands = .tableSwitch default low high offsets ∧
      low ≤ high ∧ (offsets.length : Int) = high.toInt - low.toInt + 1 := by
  constructor
  · rintro ⟨code, pc, c, hread⟩
    obtain ⟨default, low, high, offsets, rfl, hle, hlength⟩ := read_gives _ _ _ hread
    have hrange := Int32.le_iff_toInt_le.mp hle
    exact ⟨default, low, high, offsets, rfl, hle, by omega⟩
  · rintro ⟨default, low, high, offsets, rfl, hle, hlength⟩
    exact decoded_tableSwitch hle hlength

end Instruction

/-! ### Execution -/

namespace Exec

/-- The step takes the key off the operand stack and makes the frame go on at a distance from its
instruction. It changes nothing else. -/
def GoesOn (step : Exec Unit) (s : Running) (key distance : Int32) : Prop :=
  ∀ top callers stack, s.thread.frames = top :: callers → top.stack.popInt? = some (key, stack) →
    ∃ nextPc : UInt64, (nextPc.toNat : Int) = (s.thread.pc.toNat + distance.toInt) % 2 ^ 64 ∧
      outcome step s = (.ok ⟨⟩,
        ⟨s.machine, { s.thread with frames := { top with stack, nextPc } :: callers }⟩)

/-- Distances are added to positions as numbers. -/
theorem toNat_add_distance (pc : UInt64) (distance : Int32) :
    ((pc + distance.toInt64.toUInt64).toNat : Int) = (pc.toNat + distance.toInt) % 2 ^ 64 := by
  have hdistance : distance.toInt64.toUInt64.toNat = (distance.toInt % (2 ^ 64 : Nat)).toNat := by
    rw [← Int32.toInt_toInt64, ← BitVec.toNat_ofInt, Int64.toInt, BitVec.ofInt_toInt]
    rfl
  rw [UInt64.toNat_add, hdistance]
  omega

theorem goesOn_lookupSwitch (default : Int32) (pairs : List (Int32 × Int32))
    (s : Running) (key : Int32) :
    GoesOn (lookupSwitch ⟨.lookupswitch, .lookupSwitch default pairs⟩) s key
      (lookupTarget default pairs key) := by
  intro top callers stack hframes hkey
  refine ⟨_, toNat_add_distance s.thread.pc _, ?_⟩
  unfold lookupSwitch
  rw [outcome_bind_of_ok (outcome_frame hframes)]
  dsimp only
  rw [popInt, outcome_bind_of_ok (outcome_onStack hframes hkey)]
  rfl

/-- Whatever the order of the pairs, the first one with the key decides. -/
theorem lookupTarget_first (default : Int32) {key : Int32} (distance : Int32)
    {before : List (Int32 × Int32)}
    (after : List (Int32 × Int32)) (hbefore : ∀ pair ∈ before, pair.1 ≠ key) :
    lookupTarget default (before ++ (key, distance) :: after) key = distance := by
  have hfound : (before ++ (key, distance) :: after).lookup key = some distance :=
    List.lookup_eq_some_iff.mpr ⟨before, after, rfl, fun pair hmem => by
      simpa using (hbefore pair hmem).symm⟩
  rw [lookupTarget, hfound, Option.getD_some]

theorem lookupTarget_absent (default : Int32) {key : Int32} {pairs : List (Int32 × Int32)}
    (hpairs : ∀ pair ∈ pairs, pair.1 ≠ key) : lookupTarget default pairs key = default := by
  have hnone : pairs.lookup key = none :=
    List.lookup_eq_none_iff.mpr fun pair hmem => by simpa using (hpairs pair hmem).symm
  rw [lookupTarget, hnone, Option.getD_none]

/-- A table with an offset for every key in the range switches like its pairs. -/
theorem tableSwitch_eq_lookupSwitch (default : Int32) {low high : Int32} {offsets : List Int32}
    (hlength : (offsets.length : Int) = high.toInt - low.toInt + 1) :
    tableSwitch ⟨.tableswitch, .tableSwitch default low high offsets⟩ =
      lookupSwitch ⟨.lookupswitch, .lookupSwitch default (tablePairs low.toInt offsets)⟩ := by
  have htarget : ∀ key, VM.inRange (tableTarget? default low high offsets key) =
      pure (lookupTarget default (tablePairs low.toInt offsets) key) := fun key => by
    rw [tableTarget?_eq_lookupTarget default hlength key]
    rfl
  simp only [tableSwitch, lookupSwitch, htarget, liftM_pure, pure_bind]

/-- Every table switch that can be decoded does what the lookup switch with its pairs does, with all
natives, in every state: it goes on at the distance for the key if the key is in the range, and at
the default if not. Neither the place of a key nor the number of keys wraps around in 64 bits, and
no key of the pairs does in 32. A lookup switch goes on at the distance of the first pair with the
key, whatever the order of the pairs. -/
theorem tableSwitch_is_lookupSwitch :
    (∀ operands, Instruction.Decoded ⟨.tableswitch, operands⟩ → ∃ default low high offsets,
      operands = .tableSwitch default low high offsets ∧ low ≤ high ∧
      (high.toInt64 - low.toInt64 + 1).toInt = offsets.length ∧
      (∀ (i : Nat) offset, offsets[i]? = some offset →
        ∃ key : Int32, (tablePairs low.toInt offsets)[i]? = some (key, offset) ∧
          key.toInt = low.toInt + i) ∧
      ∀ natives,
        execute natives ⟨.tableswitch, operands⟩ =
          execute natives ⟨.lookupswitch, .lookupSwitch default (tablePairs low.toInt offsets)⟩ ∧
        ∀ s key,
          (low ≤ key ∧ key ≤ high → (key.toInt64 - low.toInt64).toInt = key.toInt - low.toInt ∧
            ∃ offset, offsets[(key.toInt - low.toInt).toNat]? = some offset ∧
              GoesOn (execute natives ⟨.tableswitch, operands⟩) s key offset) ∧
          (¬ (low ≤ key ∧ key ≤ high) →
            GoesOn (execute natives ⟨.tableswitch, operands⟩) s key default)) ∧
    (∀ default low high offsets, low ≤ high → (offsets.length : Int) = high.toInt - low.toInt + 1 →
      Instruction.Decoded ⟨.tableswitch, .tableSwitch default low high offsets⟩) ∧
    ∀ natives s default key,
      (∀ before distance after, (∀ pair ∈ before, pair.1 ≠ key) →
        GoesOn (execute natives ⟨.lookupswitch,
          .lookupSwitch default (before ++ (key, distance) :: after)⟩)
          s key distance) ∧
      ∀ pairs, (∀ pair ∈ pairs, pair.1 ≠ key) →
        GoesOn (execute natives ⟨.lookupswitch, .lookupSwitch default pairs⟩) s key default := by
  refine ⟨fun operands hdecoded => ?_, fun _ _ _ _ => Instruction.decoded_tableSwitch,
    fun natives s default key => ⟨fun before distance after hbefore => ?_, fun pairs hpairs => ?_⟩⟩
  · obtain ⟨default, low, high, offsets, rfl, hle, hlength⟩ :=
      Instruction.decoded_tableSwitch_iff.mp hdecoded
    have hgoes : ∀ natives s key distance, tableTarget? default low high offsets key = some distance →
        GoesOn (execute natives ⟨.tableswitch, .tableSwitch default low high offsets⟩) s key distance :=
      fun natives s key distance htarget => by
        rw [tableTarget?_eq_lookupTarget default hlength key] at htarget
        cases htarget
        have hexecute : execute natives ⟨.tableswitch, .tableSwitch default low high offsets⟩ =
            lookupSwitch ⟨.lookupswitch, .lookupSwitch default (tablePairs low.toInt offsets)⟩ :=
          tableSwitch_eq_lookupSwitch default hlength
        rw [hexecute]
        exact goesOn_lookupSwitch default _ s key
    refine ⟨default, low, high, offsets, rfl, hle, hlength ▸ toInt_toInt64_sub_add_one high low,
      fun i offset hoffset => tablePairs_key hlength hoffset,
      fun natives => ⟨tableSwitch_eq_lookupSwitch default hlength,
        fun s key => ⟨?_, fun houtside => ?_⟩⟩⟩
    · rintro ⟨hlow, hhigh⟩
      obtain ⟨offset, hoffset⟩ := tableTarget?_inside default hlength hlow hhigh
      exact ⟨toInt_toInt64_sub key low, offset, hoffset.1, hgoes natives s key offset hoffset.2⟩
    · exact hgoes natives s key default (tableTarget?_outside offsets houtside)
  · have hgoes := goesOn_lookupSwitch default (before ++ (key, distance) :: after) s key
    rwa [lookupTarget_first default distance after hbefore] at hgoes
  · have hgoes := goesOn_lookupSwitch default pairs s key
    rwa [lookupTarget_absent default hpairs] at hgoes

/-- A table with the same distance for every int. -/
def everyInt (distance : Int32) : Operands :=
  .tableSwitch 0 Int32.minValue Int32.maxValue (.replicate (2 ^ 32) distance)

theorem tableSwitch_is_lookupSwitch_everyInt :
    Instruction.Decoded ⟨.tableswitch, everyInt 5⟩ ∧
      ∀ key, GoesOn (execute .standard ⟨.tableswitch, everyInt 5⟩) Instruction.switchState key 5 := by
  obtain ⟨hswitch, hdecoded, -⟩ := tableSwitch_is_lookupSwitch
  have heveryInt : Instruction.Decoded ⟨.tableswitch, everyInt 5⟩ :=
    hdecoded _ _ _ _ (by decide) (by rw [List.length_replicate]; decide)
  refine ⟨heveryInt, fun key => ?_⟩
  obtain ⟨default, low, high, offsets, heq, -, -, -, hgoes⟩ := hswitch _ heveryInt
  cases heq
  obtain ⟨-, offset, hoffset, hrun⟩ := (hgoes .standard).2 Instruction.switchState key |>.1
    ⟨Int32.minValue_le key, Int32.le_maxValue key⟩
  obtain rfl : offset = 5 := by
    rw [List.getElem?_replicate] at hoffset
    split at hoffset
    · exact (Option.some.inj hoffset).symm
    · cases hoffset
  exact hrun

end Exec

end JavaMachine
