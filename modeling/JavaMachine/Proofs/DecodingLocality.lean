import JavaMachine.Code.Instruction
import JavaMachine.Proofs.FailingState

/-!
Decoding looks at nothing but the instruction.

What a reader takes is decided by the bytes that it takes, and by where it stands among the
multiples of four: wherever these are the same it gives the same value, and where they are cut short
it fails as truncated (`Takes`). This holds of numbers, and of the padding of a switch together with
the number behind it, and is kept by sequences, so it holds of instructions of every length
(`Instruction.read_takes`). An instruction takes one byte at least, so that decoding one after the
other comes to an end (`Instruction.decoding_local`).
-/

namespace JavaMachine

variable {α β : Type} {code : Array UInt8} {c d : CodeCursor} {n k : Nat}

namespace CodeCursor

/-- The code can be addressed, which takes half of all positions at most, and the cursor is not
behind its end. -/
structure Fits (c : CodeCursor) : Prop where
  addressable : c.code.size < UInt64.size / 2
  inside : c.pc.toNat ≤ c.code.size

/-- So many bytes further in the same code. -/
def past (c : CodeCursor) (n : Nat) : CodeCursor := { c with pc := c.pc + n.toUInt64 }

/-- Both cursors have the same `n` bytes ahead, if they have any, and the same distance to the next
multiple of four. -/
structure Matches (c d : CodeCursor) (n : Nat) : Prop where
  aligned : d.pc.toNat % 4 = c.pc.toNat % 4
  bytes : ∀ j < n, d.code[d.pc.toNat + j]? = c.code[c.pc.toNat + j]?

@[simp]
theorem past_code : (c.past n).code = c.code := rfl

@[simp]
theorem past_zero : c.past 0 = c := congrArg (CodeCursor.mk c.code) (UInt64.add_zero c.pc)

theorem past_past : (c.past n).past k = c.past (n + k) := by
  refine congrArg (CodeCursor.mk c.code) ?_
  rw [past, UInt64.add_assoc]
  exact congrArg (c.pc + ·) (UInt64.ofNat_add n k).symm

/-- The end of the code is far from where positions wrap around. -/
theorem Fits.toNat_past (h : c.Fits) (hn : n < UInt64.size / 2) :
    (c.past n).pc.toNat = c.pc.toNat + n := by
  have hsize : UInt64.size = 18446744073709551616 := rfl
  have haddressable := h.addressable
  have hinside := h.inside
  rw [past, UInt64.toNat_add, Nat.toUInt64, UInt64.toNat_ofNat']
  omega

theorem Fits.past (h : c.Fits) (hroom : c.pc.toNat + n ≤ c.code.size) : (c.past n).Fits where
  addressable := h.addressable
  inside := by
    have haddressable := h.addressable
    rw [h.toNat_past (by omega)]
    exact hroom

namespace Matches

theorem refl (c : CodeCursor) (n : Nat) : Matches c c n := ⟨rfl, fun _ _ => rfl⟩

theorem mono (h : Matches c d n) (hk : k ≤ n) : Matches c d k :=
  ⟨h.aligned, fun j hj => h.bytes j (Nat.lt_of_lt_of_le hj hk)⟩

/-- As many bytes as are the same ahead are also there. -/
theorem room (h : Matches c d n) (hd : d.Fits) (hroom : c.pc.toNat + n ≤ c.code.size) :
    d.pc.toNat + n ≤ d.code.size := by
  cases n with
  | zero => exact hd.inside
  | succ n =>
    have hlast : d.code[d.pc.toNat + n]? = some c.code[c.pc.toNat + n] := by
      rw [h.bytes n (Nat.lt_succ_self n), Array.getElem?_eq_getElem]
    exact (Array.getElem?_eq_some_iff.mp hlast).1

theorem past (h : Matches c d (n + k)) (hc : c.Fits) (hd : d.Fits) (hn : n < UInt64.size / 2) :
    Matches (c.past n) (d.past n) k where
  aligned := by
    have haligned := h.aligned
    rw [hc.toNat_past hn, hd.toNat_past hn]
    omega
  bytes j hj := by
    have hbyte := h.bytes (n + j) (by omega)
    rw [hc.toNat_past hn, hd.toNat_past hn, Nat.add_assoc, Nat.add_assoc]
    exact hbyte

theorem of_mod (haligned : d.pc % 4 = c.pc % 4)
    (hbytes : ∀ j < n, d.code[d.pc.toNat + j]? = c.code[c.pc.toNat + j]?) :
    Matches c d n :=
  ⟨congrArg UInt64.toNat haligned, hbytes⟩

/-- Cutting the code leaves what is in front of the cut. -/
theorem of_cut (c : CodeCursor) (n : Nat) :
    Matches c { c with code := c.code.extract 0 (c.pc.toNat + n) } n where
  aligned := rfl
  bytes j hj := by
    rw [Array.getElem?_extract, Nat.zero_add]
    dsimp only
    by_cases hbyte : c.pc.toNat + j < c.code.size
    · exact if_pos (by omega)
    · rw [if_neg (by omega), Array.getElem?_eq_none (by omega)]

theorem extract_eq (h : Matches c d (n + k)) (hc : c.pc.toNat + (n + k) ≤ c.code.size)
    (hd : d.pc.toNat + (n + k) ≤ d.code.size) :
    d.code.extract (d.pc.toNat + n) (d.pc.toNat + n + k) =
      c.code.extract (c.pc.toNat + n) (c.pc.toNat + n + k) := by
  refine Array.ext_getElem? fun j => ?_
  rw [Array.getElem?_extract, Array.getElem?_extract]
  by_cases hj : j < k
  · have hbyte := h.bytes (n + j) (by omega)
    rw [if_pos (by omega), if_pos (by omega), Nat.add_assoc, Nat.add_assoc, hbyte]
  · rw [if_neg (by omega), if_neg (by omega)]

end Matches

end CodeCursor

namespace CodeReader

open CodeCursor

/-- The reader takes `n` bytes at the cursor and gives a value. It does so wherever the same bytes
are ahead with the same alignment, and where the code ends too early it fails as truncated. -/
structure Takes (x : CodeReader α) (c : CodeCursor) (a : α) (n : Nat) : Prop where
  room : c.pc.toNat + n ≤ c.code.size
  elsewhere : ∀ {d : CodeCursor}, d.Fits → Matches c d n → outcome x d = (.ok a, d.past n)
  cut : ∀ {d : CodeCursor} {k : Nat}, d.Fits → k < n → Matches c d k → d.code.size = d.pc.toNat + k →
    ∃ offset t, outcome x d = (.error (.classFormat (.truncated offset)), t)

/-- What the reader gives is decided by the bytes that it takes. -/
def Local (x : CodeReader α) : Prop :=
  ∀ c a t, c.Fits → outcome x c = (.ok a, t) → ∃ n, Takes x c a n

variable {x : CodeReader α} {a : α} {b : β}

namespace Takes

theorem run (h : Takes x c a n) (hc : c.Fits) : outcome x c = (.ok a, c.past n) :=
  h.elsewhere hc (.refl c n)

theorem pure (hc : c.Fits) : Takes (pure a : CodeReader α) c a 0 where
  room := hc.inside
  elsewhere _ _ := by rw [past_zero, outcome_pure]
  cut _ hk := absurd hk (Nat.not_lt_zero _)

theorem bind {f : α → CodeReader β} (hc : c.Fits) (hx : Takes x c a n)
    (hf : Takes (f a) (c.past n) b k) :
    Takes (x >>= f) c b (n + k) := by
  have haddressable := hc.addressable
  have hroom := hx.room
  have hn : n < UInt64.size / 2 := by omega
  refine ⟨?_, fun {d} hd h => ?_, fun {d j} hd hj h hend => ?_⟩
  · have hrest := hf.room
    rw [hc.toNat_past hn] at hrest
    exact Nat.add_assoc .. ▸ hrest
  · have hfirst : Matches c d n := h.mono (Nat.le_add_right n k)
    rw [outcome_bind_of_ok (hx.elsewhere hd hfirst), hf.elsewhere (hd.past (hfirst.room hd hroom))
      (h.past hc hd hn), past_past]
  · -- The cut is in what the first step takes, or the first step still takes all of it.
    by_cases hcut : j < n
    · obtain ⟨offset, t, herror⟩ := hx.cut hd hcut h hend
      exact ⟨offset, t, outcome_bind_of_error herror⟩
    · obtain ⟨j, rfl⟩ := Nat.exists_eq_add_of_le (Nat.le_of_not_lt hcut)
      have hfirst : Matches c d n := h.mono (Nat.le_add_right n j)
      rw [outcome_bind_of_ok (hx.elsewhere hd hfirst)]
      refine hf.cut (hd.past (hfirst.room hd hroom)) (by omega) (h.past hc hd hn) ?_
      rw [hd.toNat_past hn, past_code, hend, Nat.add_assoc]

/-- A first byte keeps the cursor in front of the end. -/
theorem moved (h : Takes x c a n) (hn : 0 < n) (hsize : d.code.size < UInt64.size / 2)
    (hmatches : Matches c d n) :
    outcome x d = (.ok a, d.past n) := by
  have hroom := h.room
  have hfirst : d.code[d.pc.toNat]? = some c.code[c.pc.toNat] := by
    rw [← Array.getElem?_eq_getElem]
    exact hmatches.bytes 0 hn
  exact h.elsewhere ⟨hsize, Nat.le_of_lt (Array.getElem?_eq_some_iff.mp hfirst).1⟩ hmatches

theorem outcome_cut (h : Takes x c a n) (hc : c.Fits) (hk : k < n) :
    ∃ offset t, outcome x { c with code := c.code.extract 0 (c.pc.toNat + k) } =
      (.error (.classFormat (.truncated offset)), t) := by
  have hroom := h.room
  have haddressable := hc.addressable
  have hlength : (c.code.extract 0 (c.pc.toNat + k)).size = c.pc.toNat + k := by
    rw [Array.size_extract]
    omega
  exact h.cut ⟨by dsimp only; omega, by dsimp only; omega⟩ hk (.of_cut c k) hlength

/-- The position of the cursor does not matter for what is given, it is for errors. -/
theorem of_pc {g : UInt64 → CodeReader α} (h : ∀ start, Takes (g start) c a n) :
    Takes (pc >>= g) c a n where
  room := (h 0).room
  elsewhere hd hmatches := (h _).elsewhere hd hmatches
  cut hd hk hmatches hend := (h _).cut hd hk hmatches hend

end Takes

theorem outcome_number (width : Nat) (c : CodeCursor) :
    outcome (number width) c = if c.pc.toNat + width ≤ c.code.size
      then (.ok (BigEndian.toNat (c.code.extract c.pc.toNat (c.pc.toNat + width)).toList), c.past width)
      else (.error (.classFormat (.truncated c.pc.toNat)), c) := by
  by_cases h : c.pc.toNat + width ≤ c.code.size
  · simp only [number, outcome_bind, outcome_get, h, if_true, outcome_set, outcome_pure, past]
  · simp only [number, outcome_bind, outcome_get, h, if_false, outcome_throw]

/-- A number behind some padding, as much as the alignment asks for. -/
theorem Takes.number_behind {x : CodeReader Nat} {width padding v : Nat} {t : CodeCursor} (hc : c.Fits)
    (hpadding : padding < 4) (hx : ∀ {d : CodeCursor}, d.Fits → d.pc.toNat % 4 = c.pc.toNat % 4 →
      outcome x d = outcome (number width) (d.past padding))
    (hrun : outcome x c = (.ok v, t)) : Takes x c v (padding + width) := by
  have hsmall : padding < UInt64.size / 2 := Nat.lt_trans hpadding (by decide)
  have hgives : ∀ {d : CodeCursor}, d.Fits → d.pc.toNat % 4 = c.pc.toNat % 4 → outcome x d =
      if d.pc.toNat + (padding + width) ≤ d.code.size
        then (.ok (BigEndian.toNat
          (d.code.extract (d.pc.toNat + padding) (d.pc.toNat + padding + width)).toList),
          d.past (padding + width))
        else (.error (.classFormat (.truncated (d.pc.toNat + padding))), d.past padding) :=
          fun {d} hd haligned => by
    rw [hx hd haligned, outcome_number, hd.toNat_past hsmall, past_code, past_past, Nat.add_assoc]
  rw [hgives hc rfl] at hrun
  split at hrun
  case isFalse => cases hrun
  case isTrue hroom =>
    cases hrun
    refine ⟨hroom, fun {d} hd h => ?_, fun {d k} hd hk h hend => ?_⟩
    · have hroom' := h.room hd hroom
      rw [hgives hd h.aligned, if_pos hroom', h.extract_eq hroom hroom']
    · exact ⟨_, _, by rw [hgives hd h.aligned, if_neg (by omega)]⟩

theorem Takes.number {width v : Nat} {t : CodeCursor} (hc : c.Fits)
    (hrun : outcome (number width) c = (.ok v, t)) :
    Takes (CodeReader.number width) c v width := by
  have htakes : Takes (CodeReader.number width) c v (0 + width) :=
    .number_behind hc (by decide) (fun _ _ => by rw [past_zero]) hrun
  rwa [Nat.zero_add] at htakes

namespace Local

theorem pure (a : α) : Local (pure a : CodeReader α) := fun _ _ _ hc hrun => by
  cases hrun
  exact ⟨0, .pure hc⟩

theorem throw (e : Fault) : Local (throw e : CodeReader α) := fun _ _ _ _ hrun => by cases hrun

theorem bind {f : α → CodeReader β} (hx : Local x) (hf : ∀ a, Local (f a)) : Local (x >>= f) :=
    fun c b t hc hrun => by
  obtain ⟨a, u, hfirst, hrest⟩ := outcome_bind_ok.mp hrun
  obtain ⟨n, hn⟩ := hx c a u hc hfirst
  cases hfirst.symm.trans (hn.run hc)
  obtain ⟨k, hk⟩ := hf a _ b t (hc.past hn.room) hrest
  exact ⟨n + k, hn.bind hc hk⟩

theorem map {f : α → β} (hx : Local x) : Local (f <$> x) := by
  rw [map_eq_pure_bind]
  exact hx.bind fun a => .pure (f a)

/-! ### Numbers -/

theorem number (width : Nat) : Local (number width) := fun _ _ _ hc hrun => ⟨width, .number hc hrun⟩

theorem u1 : Local u1 := (number 1).map
theorem i1 : Local i1 := u1.map
theorem u2 : Local u2 := (number 2).map
theorem i2 : Local i2 := u2.map
theorem i4 : Local i4 := (number 4).map

theorem i4s : ∀ count, Local (i4s count)
  | 0 => .pure _
  | count + 1 => i4.bind fun _ => (i4s count).bind fun _ => .pure _

/-! ### Numbers behind padding -/

/-- The distance to the next multiple of four. -/
theorem toUInt64_padding (pc : UInt64) : ((4 - pc.toNat % 4) % 4).toUInt64 = (4 - pc % 4) % 4 := by
  refine UInt64.toNat_inj.mp ?_
  have hfour : UInt64.toNat 4 = 4 := rfl
  rw [Nat.toUInt64, UInt64.toNat_ofNat', UInt64.toNat_mod, UInt64.toNat_sub, UInt64.toNat_mod, hfour]
  omega

/-- The padding cannot fail by itself: it is cut short where the number behind it is. -/
theorem aligned_number (width : Nat) : Local (align >>= fun _ => CodeReader.number width) :=
    fun c _ _ hc hrun => by
  refine ⟨(4 - c.pc.toNat % 4) % 4 + width, .number_behind hc (Nat.mod_lt _ (by decide))
    (fun {d} _ haligned => ?_) hrun⟩
  rw [past, ← haligned, toUInt64_padding]
  rfl

theorem aligned_i4 {f : Int32 → CodeReader β} (hf : ∀ v, Local (f v)) :
    Local (align >>= fun _ => CodeReader.i4 >>= f) := by
  have hfirst : Local (align >>= fun _ => CodeReader.i4) := by
    have hmap : (align >>= fun _ => CodeReader.i4) =
        (·.toUInt32.toInt32) <$> (align >>= fun _ => CodeReader.number 4) := by
        rw [map_bind, CodeReader.i4]
    rw [hmap]
    exact (aligned_number 4).map
  have hassoc := hfirst.bind hf
  rwa [bind_assoc] at hassoc

end Local

/-! ### Opcode bytes -/

/-- Reads a byte and goes on as it says, unless it says nothing. -/
def choosing {γ : Type} (choose : UInt8 → Option γ) (f : γ → CodeReader α) : CodeReader α := do
  let start ← pc
  let byte ← u1
  match choose byte with
  | none => throw (.unknownOpcode byte start)
  | some o => f o

theorem takes_u1 {byte : UInt8} {t : CodeCursor} (hc : c.Fits) (hrun : outcome u1 c = (.ok byte, t)) :
    Takes u1 c byte 1 := by
  rw [u1, map_eq_pure_bind] at hrun ⊢
  obtain ⟨v, u, hnumber, hpure⟩ := outcome_bind_ok.mp hrun
  cases hpure
  have htakes := Takes.number hc hnumber
  exact htakes.bind (f := fun v => pure v.toUInt8) hc (.pure (hc.past htakes.room))

/-- There is a byte if one is given. -/
theorem fits_of_choosing {γ : Type} {choose : UInt8 → Option γ} {f : γ → CodeReader α} {t : CodeCursor}
    (hsize : c.code.size < UInt64.size / 2) (hrun : outcome (choosing choose f) c = (.ok a, t)) :
    c.Fits := by
  refine ⟨hsize, Nat.le_of_not_lt fun hbehind => ?_⟩
  obtain ⟨byte, u, hbyte, -⟩ := outcome_bind_ok.mp ((outcome_bind_of_ok (s := c) rfl).symm.trans hrun)
  rw [u1, outcome_map, outcome_number, if_neg (by omega)] at hbyte
  cases hbyte

/-- The byte is taken, and what it asks for. -/
theorem takes_choosing {γ : Type} {choose : UInt8 → Option γ} {f : γ → CodeReader α}
    (hf : ∀ o, Local (f o)) {t : CodeCursor}
    (hc : c.Fits) (hrun : outcome (choosing choose f) c = (.ok a, t)) :
    ∃ n, Takes (choosing choose f) c a (1 + n) := by
  obtain ⟨byte, u, hbyte, hrest⟩ :=
    outcome_bind_ok.mp ((outcome_bind_of_ok (s := c) rfl).symm.trans hrun)
  have hfirst := takes_u1 hc hbyte
  cases hbyte.symm.trans (hfirst.run hc)
  cases hchoose : choose byte with
  | none =>
    rw [hchoose] at hrest
    cases hrest
  | some o =>
    rw [hchoose] at hrest
    obtain ⟨n, hn⟩ := hf o _ _ _ (hc.past hfirst.room) hrest
    exact ⟨n, .of_pc fun start => hfirst.bind hc (by rw [hchoose]; exact hn)⟩

theorem Local.choosing {γ : Type} {choose : UInt8 → Option γ} {f : γ → CodeReader α}
    (hf : ∀ o, Local (f o)) :
    Local (choosing choose f) := fun _ _ _ hc hrun =>
  have ⟨n, h⟩ := takes_choosing hf hc hrun
  ⟨1 + n, h⟩

end CodeReader

/-! ### Instructions -/

namespace Instruction

open CodeReader

theorem readTableSwitch_local : Local readTableSwitch := by
  refine .aligned_i4 fun default => .bind .i4 fun low => .bind .i4 fun high => ?_
  dsimp only
  split
  · exact .bind (.throw _) fun _ => .bind (.i4s _) fun _ => .pure _
  · exact .bind (.i4s _) fun _ => .pure _

theorem readLookupSwitch_local : Local readLookupSwitch :=
  .aligned_i4 fun _ => .bind .i4 fun _ => .bind (.i4s _) fun _ => .pure _

theorem readWide_eq : readWide = choosing (fun byte => (Opcode.ofByte? byte).filter isWidenable)
      fun opcode => do
    let index ← u2
    if opcode = .iinc then return .wide opcode index (some (← i2))
    else return .wide opcode index Option.none := by
  unfold readWide choosing
  refine bind_congr fun start => bind_congr fun byte => ?_
  dsimp only
  cases (Opcode.ofByte? byte).filter isWidenable <;> rfl

theorem readWide_local : Local readWide := by
  rw [readWide_eq]
  refine .choosing fun opcode => .bind .u2 fun index => ?_
  split
  · exact .bind .i2 fun _ => .pure _
  · exact .pure _

theorem readOperands_local (opcode : Opcode) : Local (readOperands opcode) := by
  cases opcode with
  | bipush => exact .map .i1
  | sipush | ifeq | ifne | iflt | ifge | ifgt | ifle | ifIcmpeq | ifIcmpne | ifIcmplt | ifIcmpge
      | ifIcmpgt | ifIcmple
  | ifAcmpeq | ifAcmpne | goto | jsr | ifnull | ifnonnull => exact .map .i2
  | newarray | ldc | iload | lload | fload | dload | aload | istore | lstore | fstore
      | dstore | astore | ret =>
    exact .map .u1
  | ldcW | ldc2W | getstatic | putstatic | getfield | putfield | invokevirtual | invokespecial
      | invokestatic | new
  | anewarray | checkcast | instanceof => exact .map .u2
  | gotoW | jsrW => exact .map .i4
  | iinc => exact .bind .u1 fun _ => .bind .i1 fun _ => .pure _
  | multianewarray => exact .bind .u2 fun _ => .bind .u1 fun _ => .pure _
  | invokeinterface | invokedynamic =>
      exact .bind .u2 fun _ => .bind .u1 fun _ => .bind .u1 fun _ => .pure _
  | tableswitch => exact readTableSwitch_local
  | lookupswitch => exact readLookupSwitch_local
  | wide => exact readWide_local
  | _ => exact .pure _

theorem read_eq : read = choosing Opcode.ofByte? fun opcode => do
    return { opcode, operands := ← readOperands opcode } := by
  unfold read choosing
  refine bind_congr fun start => bind_congr fun byte => ?_
  cases Opcode.ofByte? byte <;> rfl

section

variable {pc : UInt64} {i : Instruction} {t : CodeCursor}

/-- An instruction takes its opcode byte at least. -/
theorem read_takes (hsize : code.size < UInt64.size / 2) (hrun : outcome read ⟨code, pc⟩ = (.ok i, t)) :
    ∃ n, 0 < n ∧ CodeCursor.Fits ⟨code, pc⟩ ∧ Takes read ⟨code, pc⟩ i n ∧ t = ⟨code, pc + n.toUInt64⟩ ∧
      t.pc.toNat = pc.toNat + n := by
  rw [read_eq] at hrun ⊢
  have hc := fits_of_choosing hsize hrun
  obtain ⟨n, h⟩ := takes_choosing (fun opcode => (readOperands_local opcode).bind fun _ => .pure _)
    hc hrun
  have hroom : pc.toNat + (1 + n) ≤ code.size := h.room
  cases hrun.symm.trans (h.run hc)
  exact ⟨1 + n, by omega, hc, h, rfl, hc.toNat_past (by omega)⟩

/-- Decoding goes forward, and not beyond the end. -/
theorem next_of_read (hsize : code.size < UInt64.size / 2)
    (hrun : outcome read ⟨code, pc⟩ = (.ok i, t)) :
    t.code = code ∧ pc.toNat < t.pc.toNat ∧ t.pc.toNat ≤ code.size := by
  obtain ⟨n, hn, -, htakes, rfl, hnext⟩ := read_takes hsize hrun
  rw [hnext]
  exact ⟨rfl, by omega, htakes.room⟩

/-- The same bytes are the same instruction, in other code and at another position that is aligned
alike. -/
theorem read_moved {other : Array UInt8} {start : UInt64} (hsize : code.size < UInt64.size / 2)
    (hrun : outcome read ⟨code, pc⟩ = (.ok i, t)) (hother : other.size < UInt64.size / 2)
    (haligned : start % 4 = pc % 4)
    (hbytes : ∀ j, pc.toNat + j < t.pc.toNat → other[start.toNat + j]? = code[pc.toNat + j]?) :
    outcome read ⟨other, start⟩ = (.ok i, ⟨other, start + (t.pc - pc)⟩) := by
  obtain ⟨n, hn, -, htakes, rfl, hnext⟩ := read_takes hsize hrun
  have hdistance : pc + n.toUInt64 - pc = n.toUInt64 := by rw [UInt64.add_comm, UInt64.add_sub_cancel]
  have hmatches : CodeCursor.Matches ⟨code, pc⟩ ⟨other, start⟩ n := .of_mod haligned fun j hj =>
    hbytes j (by omega)
  rw [hdistance]
  exact htakes.moved hn hother hmatches

/-- Code that ends inside of an instruction is truncated there. -/
theorem read_cut {k : Nat} (hsize : code.size < UInt64.size / 2)
    (hrun : outcome read ⟨code, pc⟩ = (.ok i, t)) (hstart : pc.toNat ≤ k) (hk : k < t.pc.toNat) :
    ∃ offset u, outcome read ⟨code.extract 0 k, pc⟩ =
      (.error (.classFormat (.truncated offset)), u) := by
  obtain ⟨n, -, hc, htakes, rfl, hnext⟩ := read_takes hsize hrun
  obtain ⟨j, rfl⟩ := Nat.exists_eq_add_of_le hstart
  exact htakes.outcome_cut hc (by omega)

end

end Instruction

/-! ### One instruction after the other -/

/-- An instruction, with the position of its first byte and the one behind its last byte. -/
structure Decoded where
  start : UInt64
  instruction : Instruction
  next : UInt64

/-- What is decoded on the way from one position to another. -/
inductive Listing (code : Array UInt8) : UInt64 → List Decoded → UInt64 → Prop
  | nil (pc : UInt64) : Listing code pc [] pc
  | cons {start next stop : UInt64} {i : Instruction} {rest : List Decoded} :
    outcome Instruction.read ⟨code, start⟩ = (.ok i, ⟨code, next⟩) → Listing code next rest stop →
      Listing code start (⟨start, i, next⟩ :: rest) stop

namespace Listing

open Instruction

variable {start stop : UInt64} {steps : List Decoded}

theorem start_add_length_le (hsize : code.size < UInt64.size / 2) (h : Listing code start steps stop) :
    start.toNat + steps.length ≤ stop.toNat := by
  induction h with
  | nil => exact Nat.le_refl _
  | cons hrun _ ih =>
    have hforward := (next_of_read hsize hrun).2.1
    dsimp only at hforward
    rw [List.length_cons]
    omega

theorem stop_le (hsize : code.size < UInt64.size / 2) (h : Listing code start steps stop)
    (hstart : start.toNat ≤ code.size) :
    stop.toNat ≤ code.size := by
  induction h with
  | nil => exact hstart
  | cons hrun _ ih => exact ih (next_of_read hsize hrun).2.2

theorem start_le_of_mem (hsize : code.size < UInt64.size / 2) (h : Listing code start steps stop) :
    ∀ d ∈ steps, start ≤ d.start := by
  induction h with
  | nil => exact fun _ hmem => by cases hmem
  | cons hrun _ ih =>
    have hforward := (next_of_read hsize hrun).2.1
    intro d hmem
    rcases List.mem_cons.mp hmem with rfl | hmem
    · exact UInt64.le_refl _
    · exact UInt64.le_trans (UInt64.le_of_lt (UInt64.lt_iff_toNat_lt.mpr hforward)) (ih d hmem)

/-- No byte belongs to two instructions. -/
theorem pairwise (hsize : code.size < UInt64.size / 2) (h : Listing code start steps stop) :
    steps.Pairwise fun a b => a.next ≤ b.start := by
  induction h with
  | nil => exact .nil
  | cons _ hrest ih => exact .cons (hrest.start_le_of_mem hsize) ih

/-- Every byte belongs to an instruction. -/
theorem covers (h : Listing code start steps stop) {p : Nat} (hstart : start.toNat ≤ p)
    (hstop : p < stop.toNat) :
    ∃ d ∈ steps, d.start.toNat ≤ p ∧ p < d.next.toNat := by
  induction h with
  | nil => exact absurd hstop (Nat.not_lt.mpr hstart)
  | @cons start next _ i _ hrun _ ih =>
    by_cases hp : p < next.toNat
    · exact ⟨⟨start, i, next⟩, List.mem_cons_self, hstart, hp⟩
    · obtain ⟨d, hmem, hbetween⟩ := ih (Nat.le_of_not_lt hp) hstop
      exact ⟨d, List.mem_cons_of_mem _ hmem, hbetween⟩

/-- By induction on what is left of the code, of which every instruction takes something. -/
theorem exists_to_end (hsize : code.size < UInt64.size / 2) {start : UInt64}
    (hstart : start.toNat ≤ code.size) :
    ∃ steps stop, Listing code start steps stop ∧
      (stop.toNat = code.size ∨ ∃ e t, outcome read ⟨code, stop⟩ = (.error e, t)) := by
  induction hleft : code.size - start.toNat using Nat.strongRecOn generalizing start with
  | _ left ih =>
    rcases hrun : outcome read ⟨code, start⟩ with ⟨e | i, t⟩
    · exact ⟨[], start, .nil start, .inr ⟨e, t, hrun⟩⟩
    · obtain ⟨hcode, hforward, hinside⟩ := next_of_read hsize hrun
      rcases t with ⟨_, next⟩
      obtain rfl := hcode
      obtain ⟨steps, stop, hlisting, hend⟩ := ih _ (by dsimp only at *; omega) hinside rfl
      exact ⟨_, stop, .cons hrun hlisting, hend⟩

end Listing

namespace Instruction

/-- Decoding is local and goes forward: an instruction that is decoded ends behind its beginning and
within the code, is the same wherever its bytes and its alignment are, and is found to be truncated
in code that ends inside of it. So decoding one after the other comes to the end of the code, or to
an error, in at most as many steps as there are bytes, and what is decoded fills the code up to
there with neither gaps nor overlaps. All of this is for code that can be addressed. -/
theorem decoding_local {code : Array UInt8} (hsize : code.size < UInt64.size / 2) :
    (∀ pc i c, outcome read ⟨code, pc⟩ = (.ok i, c) →
      (c.code = code ∧ pc < c.pc ∧ c.pc.toNat ≤ code.size) ∧
      (∀ other start, other.size < UInt64.size / 2 → start % 4 = pc % 4 →
        (∀ j, pc.toNat + j < c.pc.toNat → other[start.toNat + j]? = code[pc.toNat + j]?) →
          outcome read ⟨other, start⟩ = (.ok i, ⟨other, start + (c.pc - pc)⟩)) ∧
      ∀ k, pc.toNat ≤ k → k < c.pc.toNat →
        ∃ offset t, outcome read ⟨code.extract 0 k, pc⟩ =
          (.error (.classFormat (.truncated offset)), t)) ∧
    (∃ steps stop, Listing code 0 steps stop ∧
      (stop.toNat = code.size ∨ ∃ e t, outcome read ⟨code, stop⟩ = (.error e, t))) ∧
    ∀ steps stop, Listing code 0 steps stop →
      (steps.length ≤ code.size ∧ stop.toNat ≤ code.size) ∧
      (steps.Pairwise fun a b => a.next ≤ b.start) ∧
      ∀ p < stop.toNat, ∃ d ∈ steps, d.start.toNat ≤ p ∧ p < d.next.toNat := by
  refine ⟨fun pc i c hrun => ?_, Listing.exists_to_end hsize (Nat.zero_le _), fun steps stop h => ?_⟩
  · obtain ⟨hcode, hforward, hinside⟩ := next_of_read hsize hrun
    exact ⟨⟨hcode, UInt64.lt_iff_toNat_lt.mpr hforward, hinside⟩,
      fun _ _ hother => read_moved hsize hrun hother, fun _ hstart => read_cut hsize hrun hstart⟩
  · have hlength := h.start_add_length_le hsize
    have hstop := h.stop_le hsize (Nat.zero_le _)
    exact ⟨⟨by omega, hstop⟩, h.pairwise hsize, fun p hp => h.covers (Nat.zero_le _) hp⟩

/-- A switch without keys, with three bytes of padding. -/
def emptySwitch : Array UInt8 := #[0xAB, 0, 0, 0, 0, 0, 0, 12, 0, 0, 0, 0]

theorem decoding_local_switch : emptySwitch.size < UInt64.size / 2 ∧
    (∃ i, outcome read ⟨emptySwitch, 0⟩ = (.ok i, ⟨emptySwitch, 12⟩) ∧
      outcome read ⟨#[0, 0, 0, 0] ++ emptySwitch, 4⟩ = (.ok i, ⟨#[0, 0, 0, 0] ++ emptySwitch, 16⟩)) ∧
      (∃ offset t, outcome read ⟨emptySwitch.extract 0 2, 0⟩ =
        (.error (.classFormat (.truncated offset)), t)) ∧
      ∃ steps stop, Listing emptySwitch 0 steps stop ∧ steps.length ≤ 12 := by
  have hread : outcome read ⟨emptySwitch, 0⟩ = (.ok ⟨.lookupswitch, .lookupSwitch 12 []⟩,
      ⟨emptySwitch, 12⟩) := rfl
  have hsize : emptySwitch.size < UInt64.size / 2 := by decide
  obtain ⟨hone, ⟨steps, stop, hlisting, -⟩, hall⟩ := decoding_local hsize
  obtain ⟨-, hmoved, hcut⟩ := hone _ _ _ hread
  have hbytes : ∀ j < 12, (#[0, 0, 0, 0] ++ emptySwitch)[4 + j]? = emptySwitch[0 + j]? := by decide
  refine ⟨hsize, ⟨_, hread, hmoved (#[0, 0, 0, 0] ++ emptySwitch) 4 (by decide) (by decide)
    fun j hj => hbytes j ?_⟩,
    hcut 2 (by decide) (by decide), steps, stop, hlisting, (hall steps stop hlisting).1.1⟩
  exact Nat.lt_of_le_of_lt (Nat.le_add_left j _) hj

end Instruction

end JavaMachine
