import JavaMachine.Proofs.ClassFileCodec

/-!
Inputs that are cut short or go on.

Before its end, no decision of a reader depends on how much input is left: what it does on the front
of an input it does on all of it, unless it reports that the front is cut short (`Agrees`).
Attributes nest as deep as the input is long, so the two runs may have readers of different depths.

It follows that accepted inputs are prefix-free (`accepted_prefixFree`): what is missing is always
reported as missing, and what is too much as too much.
-/

namespace JavaMachine

open ByteReader

variable {α β : Type} {lo stop : Nat}

/-- The same input with more bytes at its end. -/
def ByteInput.followedBy (s : ByteInput) (missing : List UInt8) : ByteInput :=
  ⟨s.position, s.rest ++ missing⟩

@[simp]
theorem ByteInput.followedBy_nil (s : ByteInput) : s.followedBy [] = s := by
  rw [followedBy, List.append_nil]

/-- What `short` does on an input, `long` does on the input with more bytes at its end, unless
`short` reports that its input is cut short. The inputs begin at `lo` or later, and end at `stop`.
-/
structure Agrees (lo stop : Nat) (short long : ByteReader α) : Prop where
  ok : ∀ {s : ByteInput} {v after}, lo ≤ s.position → s.position + s.rest.length = stop →
    outcome short s = (.ok v, after) → s.position ≤ after.position ∧
    after.position + after.rest.length = stop ∧
      ∀ missing, outcome long (s.followedBy missing) = (.ok v, after.followedBy missing)
  error : ∀ {s : ByteInput} {e after}, lo ≤ s.position → s.position + s.rest.length = stop →
    outcome short s = (.error e, after) → (∃ offset ≤ stop, e = .truncated offset) ∨
      ∀ missing, ∃ t, outcome long (s.followedBy missing) = (.error e, t)

namespace Agrees

variable {x y : ByteReader α} {f g : α → ByteReader β}

theorem later {lo' : Nat} (h : Agrees lo stop x y) (hle : lo ≤ lo') : Agrees lo' stop x y where
  ok hlo := h.ok (Nat.le_trans hle hlo)
  error hlo := h.error (Nat.le_trans hle hlo)

/-- Readers that leave their input as it is agree if they give the same. -/
theorem of_unread {given given' : Except FormatError α} (hx : ∀ s, outcome x s = (given, s))
    (hy : ∀ s, outcome y s = (given', s))
    (h : given' = given ∨ ∃ offset ≤ stop, given = .error (.truncated offset)) :
    Agrees lo stop x y where
  ok {s v after} _ hstop hrun := by
    rw [hx, Prod.mk.injEq] at hrun
    obtain ⟨rfl, rfl⟩ := hrun
    obtain rfl | ⟨_, -, hcut⟩ := h
    · exact ⟨Nat.le_refl _, hstop, fun missing => hy _⟩
    · cases hcut
  error {s e after} _ _ hrun := by
    rw [hx, Prod.mk.injEq] at hrun
    obtain ⟨rfl, rfl⟩ := hrun
    obtain rfl | ⟨offset, hle, hcut⟩ := h
    · exact .inr fun missing => ⟨_, hy _⟩
    · exact .inl ⟨offset, hle, Except.error.inj hcut⟩

protected theorem pure (v : α) : Agrees lo stop (pure v) (pure v) :=
  of_unread (fun _ => rfl) (fun _ => rfl) (.inl rfl)

protected theorem throw (e : FormatError) : Agrees lo stop (throw e : ByteReader α) (throw e) :=
  of_unread (fun _ => rfl) (fun _ => rfl) (.inl rfl)

protected theorem ofChecked (checked : Except FormatError Unit) :
    Agrees lo stop (ofChecked checked) (ofChecked checked) := by
  cases checked with
  | ok => exact .pure _
  | error e => exact .throw e

/-- A reader that needs so many bytes reports its position if there are fewer. -/
theorem of_take (width : Nat) (value : List UInt8 → α)
    (hwhole : ∀ s : ByteInput, width ≤ s.rest.length →
      outcome x s = (.ok (value (s.rest.take width)), ⟨s.position + width, s.rest.drop width⟩))
    (hcut : ∀ s : ByteInput, s.rest.length < width → (outcome x s).1 = .error (.truncated s.position)) :
    Agrees lo stop x x where
  ok {s v after} _ hstop hrun := by
    by_cases hwidth : width ≤ s.rest.length
    · rw [hwhole s hwidth] at hrun
      cases hrun
      refine ⟨Nat.le_add_right _ _, by simp only [List.length_drop]; omega, fun missing => ?_⟩
      have hlonger : width ≤ (s.rest ++ missing).length := by rw [List.length_append]; omega
      rw [ByteInput.followedBy, hwhole _ hlonger, List.take_append_of_le_length hwidth,
        List.drop_append_of_le_length hwidth]
      rfl
    · have hfails := hcut s (by omega)
      rw [hrun] at hfails
      cases hfails
  error {s e after} _ hstop hrun := by
    by_cases hwidth : width ≤ s.rest.length
    · rw [hwhole s hwidth] at hrun
      cases hrun
    · have hfails := hcut s (by omega)
      rw [hrun] at hfails
      exact .inl ⟨s.position, by omega, Except.error.inj hfails⟩

/-- A sequence of steps that agree, where the second one may rely on where the first one leaves off. -/
theorem bind_from (hx : Agrees lo stop x y)
    (hf : ∀ {s v after}, lo ≤ s.position → s.position + s.rest.length = stop →
      outcome x s = (.ok v, after) →
      Agrees after.position stop (f v) (g v)) : Agrees lo stop (x >>= f) (y >>= g) where
  ok hlo hstop hrun := by
    obtain ⟨v, between, hfirst, hsecond⟩ := outcome_bind_ok.mp hrun
    obtain ⟨hle, hend, hlong⟩ := hx.ok hlo hstop hfirst
    obtain ⟨hle', hend', hlong'⟩ := (hf hlo hstop hfirst).ok (Nat.le_refl _) hend hsecond
    exact ⟨Nat.le_trans hle hle', hend', fun missing => by
      rw [outcome_bind_of_ok (hlong missing), hlong' missing]⟩
  error hlo hstop hrun := by
    rcases outcome_bind_error.mp hrun with hfirst | ⟨v, between, hfirst, hsecond⟩
    · refine (hx.error hlo hstop hfirst).imp_right fun hlong missing => ?_
      obtain ⟨t, ht⟩ := hlong missing
      exact ⟨t, outcome_bind_of_error ht⟩
    · obtain ⟨-, hend, hlong⟩ := hx.ok hlo hstop hfirst
      refine ((hf hlo hstop hfirst).error (Nat.le_refl _) hend hsecond).imp_right
        fun hlong' missing => ?_
      rw [outcome_bind_of_ok (hlong missing)]
      exact hlong' missing

protected theorem bind (hx : Agrees lo stop x y) (hf : ∀ v, Agrees lo stop (f v) (g v)) :
    Agrees lo stop (x >>= f) (y >>= g) :=
  hx.bind_from fun hlo hstop hrun => (hf _).later (Nat.le_trans hlo (hx.ok hlo hstop hrun).1)

protected theorem map (hx : Agrees lo stop x y) (f : α → β) : Agrees lo stop (f <$> x) (f <$> y) := by
  rw [map_eq_pure_bind, map_eq_pure_bind]
  exact hx.bind fun _ => .pure _

protected theorem check {c : Prop} [Decidable c] {x' y' : ByteReader α} (hx : Agrees lo stop x y)
    (hx' : Agrees lo stop x' y') : Agrees lo stop (if c then x else x') (if c then y else y') := by
  split
  · exact hx
  · exact hx'

/-- Readers that are told how much there is left. -/
protected theorem remaining {f g : Nat → ByteReader α}
    (h : ∀ left more, lo + left ≤ stop → Agrees (stop - left) stop (f left) (g (left + more))) :
    Agrees lo stop (remaining >>= f) (remaining >>= g) := by
  have hlong : ∀ (s : ByteInput) missing, outcome (remaining >>= g) (s.followedBy missing) =
      outcome (g (s.rest.length + missing.length)) (s.followedBy missing) := fun s missing => by
    rw [outcome_bind_of_ok (outcome_remaining _), ByteInput.followedBy, List.length_append]
  constructor
  · intro s v after hlo hstop hrun
    rw [outcome_bind_of_ok (outcome_remaining s)] at hrun
    have hleft : lo + s.rest.length ≤ stop := by omega
    obtain ⟨hle, hend, -⟩ := (h _ 0 hleft).ok (by omega) hstop hrun
    refine ⟨hle, hend, fun missing => ?_⟩
    rw [hlong]
    exact ((h _ missing.length hleft).ok (by omega) hstop hrun).2.2 missing
  · intro s e after hlo hstop hrun
    rw [outcome_bind_of_ok (outcome_remaining s)] at hrun
    have hleft : lo + s.rest.length ≤ stop := by omega
    by_cases hcut : ∃ offset ≤ stop, e = .truncated offset
    · exact .inl hcut
    refine .inr fun missing => ?_
    rw [hlong]
    exact ((h _ missing.length hleft).error (by omega) hstop hrun).resolve_left hcut missing

/-! ### Numbers and runs of bytes -/

theorem number_cut {width : Nat} {s : ByteInput} (h : s.rest.length < width) :
    outcome (ByteReader.number width) s =
      (.error (.truncated s.position), ⟨s.position + s.rest.length, []⟩) := by
  have htake : s.rest.take width = s.rest := List.take_of_length_le (by omega)
  have hdrop : s.rest.drop width = [] := List.drop_of_length_le (by omega)
  simp only [ByteReader.number, outcome_bind, outcome_get, outcome_set, htake, hdrop,
    if_neg (Nat.ne_of_lt h), outcome_throw]

theorem number (width : Nat) : Agrees lo stop (number width) (number width) := by
  refine of_take width BigEndian.toNat (fun s h => ?_) fun s h => congrArg Prod.fst (number_cut h)
  have htaken : (s.rest.take width).length = width := List.length_take_of_le h
  simp only [ByteReader.number, outcome_bind, outcome_get, outcome_set, htaken, if_true, outcome_pure]

theorem u8 : Agrees lo stop u8 u8 := (number 1).map _
theorem u16 : Agrees lo stop u16 u16 := (number 2).map _
theorem u32 : Agrees lo stop u32 u32 := (number 4).map _
theorem u64 : Agrees lo stop u64 u64 := (number 8).map _

/-- Nothing is left of the input, so its first number is cut short. -/
theorem u16_bind_of_empty {f : UInt16 → ByteReader α} (hempty : stop ≤ lo) :
    Agrees lo stop (ByteReader.u16 >>= f) y := by
  have hcut : ∀ s : ByteInput, lo ≤ s.position → s.position + s.rest.length = stop →
      outcome (ByteReader.u16 >>= f) s =
      (.error (.truncated s.position), ⟨s.position + s.rest.length, []⟩) :=
    fun s hlo hstop => outcome_bind_of_error
      (by rw [ByteReader.u16, outcome_map, number_cut (by omega)])
  constructor
  · intro s v after hlo hstop hrun
    rw [hcut s hlo hstop] at hrun
    cases hrun
  · intro s e after hlo hstop hrun
    rw [hcut s hlo hstop] at hrun
    cases hrun
    exact .inl ⟨s.position, by omega, rfl⟩

theorem bytes (count : Nat) : Agrees lo stop (bytes count) (bytes count) := by
  refine of_take count id (fun s h => ?_) fun s h => ?_
  · have htaken : (s.rest.take count).length = count := List.length_take_of_le h
    simp only [ByteReader.bytes, outcome_bind, outcome_get, outcome_set, htaken,
      if_true, outcome_pure, id]
  · have htaken : (s.rest.take count).length ≠ count := by rw [List.length_take]; omega
    simp only [ByteReader.bytes, outcome_bind, outcome_get, htaken, if_false, outcome_throw]

/-- What comes after an index begins two bytes later. -/
theorem u16_bind {f g : UInt16 → ByteReader β} (hf : ∀ v, Agrees (lo + 2) stop (f v) (g v)) :
    Agrees lo stop (ByteReader.u16 >>= f) (ByteReader.u16 >>= g) := by
  refine u16.bind_from fun {s v after} hlo _ hrun => ?_
  obtain ⟨taken, rfl, -, hpos⟩ := Reads.u16.sound (Nat.le_refl _) hrun
  have hlength : (Encode.u16 v).length = 2 := BigEndian.length_ofNat ..
  exact (hf v).later (by omega)

theorem lengthPrefixed : Agrees lo stop lengthPrefixed lengthPrefixed := u32.bind fun _ => bytes _

/-- After a length and as many bytes, these fit between the beginning and the end of the input. -/
theorem lengthPrefixed_bind {f g : List UInt8 → ByteReader β}
    (hf : ∀ info, lo + info.length + 4 ≤ stop → Agrees lo stop (f info) (g info)) :
    Agrees lo stop (ByteReader.lengthPrefixed >>= f) (ByteReader.lengthPrefixed >>= g) := by
  refine lengthPrefixed.bind_from fun {s info after} hlo hstop hrun => ?_
  obtain ⟨taken, ⟨-, rfl⟩, hrest, hpos⟩ := Reads.lengthPrefixed.sound (Nat.le_refl _) hrun
  have hend := (lengthPrefixed.ok hlo hstop hrun).2.1
  have hlength : (Encode.lengthPrefixed info).length = info.length + 4 := by
    simp [Encode.lengthPrefixed, Nat.add_comm]
  exact (hf info (by omega)).later (by omega)

theorem times (hx : Agrees lo stop x y) : ∀ count, Agrees lo stop (times count x) (times count y)
  | 0 => .pure []
  | count + 1 => by
    have hrest := hx.times count
    unfold ByteReader.times at hrest ⊢
    rw [List.replicate_succ, List.mapM_cons, List.mapM_cons]
    exact hx.bind fun _ => hrest.bind fun _ => .pure _

theorem table (hx : Agrees lo stop x y) : Agrees lo stop (table x) (table y) :=
  u16.bind fun _ => hx.times _

/-! ### Bodies of attributes -/

/-- A body is read on its own and has to be used up. -/
theorem outcome_readBody (name : String) (info : List UInt8) (x : ByteReader α) (s : ByteInput) :
    outcome (Attribute.readBody name info x) s = (match outcome x (.ofBytes info) with
      | (.ok v, t) => if t.rest.length = 0 then .ok v
          else .error (.malformedAttribute name .lengthMismatch)
      | (.error e, _) => .error e, s) := by
  rw [Attribute.readBody, outcome_onBytes]
  rcases hrun : outcome x (.ofBytes info) with ⟨e | v, t⟩
  · rw [outcome_bind_of_error hrun]
  · rw [outcome_bind_of_ok hrun, outcome_bind_of_ok (outcome_remaining t)]
    dsimp only
    split <;> rfl

/-- Both runs find the same body, so there its reader is not cut short by what is missing. -/
theorem readBody {name : String} {info : List UInt8} (hx : Agrees 0 info.length x y)
    (hinfo : info.length ≤ stop) :
    Agrees lo stop (Attribute.readBody name info x) (Attribute.readBody name info y) := by
  refine of_unread (outcome_readBody name info x) (outcome_readBody name info y) ?_
  have hstart : (ByteInput.ofBytes info).position + (ByteInput.ofBytes info).rest.length =
      info.length := Nat.zero_add _
  rcases hbody : outcome x (.ofBytes info) with ⟨e | v, t⟩
  · rcases hx.error (Nat.zero_le _) hstart hbody with ⟨offset, hle, rfl⟩ | hlong
    · exact .inr ⟨offset, Nat.le_trans hle hinfo, rfl⟩
    · obtain ⟨t', hlong⟩ := hlong []
      rw [ByteInput.followedBy_nil] at hlong
      exact .inl (by rw [hlong])
  · have hlong := (hx.ok (Nat.zero_le _) hstart hbody).2.2 []
    rw [ByteInput.followedBy_nil, ByteInput.followedBy_nil] at hlong
    exact .inl (by rw [hlong])

end Agrees

/-! ### The readers of the format -/

section

open Agrees

theorem VerificationType.read_agrees : Agrees lo stop VerificationType.read VerificationType.read := by
  refine Agrees.u8.bind fun tag => ?_
  split
  case h_8 | h_9 => exact Agrees.u16.bind fun _ => .pure _
  case h_10 => exact .throw _
  all_goals exact .pure _

theorem StackMapFrame.read_agrees : Agrees lo stop StackMapFrame.read StackMapFrame.read := by
  have htype : Agrees lo stop VerificationType.read VerificationType.read :=
    VerificationType.read_agrees
  refine Agrees.u8.bind fun frameType => .check (.pure _) ?_
  refine .check (htype.bind fun _ => .pure _) ?_
  refine .check (.throw _) ?_
  refine .check (Agrees.u16.bind fun _ => htype.bind fun _ => .pure _) ?_
  refine .check (Agrees.u16.bind fun _ => .pure _) ?_
  refine .check (Agrees.u16.bind fun _ => .pure _) ?_
  refine .check (Agrees.u16.bind fun _ => (htype.times _).bind fun _ => .pure _) ?_
  exact Agrees.u16.bind fun _ => htype.table.bind fun _ => htype.table.bind fun _ => .pure _

theorem HandlerEntry.read_agrees : Agrees lo stop HandlerEntry.read HandlerEntry.read :=
  Agrees.u16.bind fun _ => Agrees.u16.bind fun _ => Agrees.u16.bind fun _ =>
    Agrees.u16.bind fun _ => .pure _

theorem LineEntry.read_agrees : Agrees lo stop LineEntry.read LineEntry.read :=
  Agrees.u16.bind fun _ => Agrees.u16.bind fun _ => .pure _

namespace Attribute

variable {pool : Pool} {nested nested' : ByteReader (List Attribute)}

theorem readCode_agrees {nameIndex : UInt16} (hnested : Agrees lo stop nested nested') :
    Agrees lo stop (readCode nameIndex nested) (readCode nameIndex nested') :=
  Agrees.u16.bind fun _ => Agrees.u16.bind fun _ => Agrees.lengthPrefixed.bind fun _ => .check
    ((Agrees.throw _).bind fun _ => HandlerEntry.read_agrees.table.bind fun _ =>
      hnested.bind fun _ => .pure _)
    (HandlerEntry.read_agrees.table.bind fun _ => hnested.bind fun _ => .pure _)

/-- The nested readers have to agree on bodies, which are at least six bytes shorter than the input. -/
theorem readOne_agrees (hnested : ∀ size, lo + size + 6 ≤ stop → Agrees 0 size nested nested') :
    Agrees lo stop (readOne pool nested) (readOne pool nested') := by
  refine Agrees.u16_bind fun nameIndex => ?_
  split
  · exact .throw _
  · refine Agrees.lengthPrefixed_bind fun info hfits => ?_
    have hinfo : info.length ≤ stop := by omega
    dsimp only
    split
    · exact (readCode_agrees (hnested _ (by omega))).readBody hinfo
    · exact ((Agrees.u16.map _).map _).readBody hinfo
    · exact ((Agrees.u16.map _).map _).readBody hinfo
    · exact ((Agrees.u16.table.map _).map _).readBody hinfo
    · exact ((StackMapFrame.read_agrees.table.map _).map _).readBody hinfo
    · exact ((LineEntry.read_agrees.table.map _).map _).readBody hinfo
    · exact .pure _

/-- A reader that is deep enough for its input does what any deeper reader does. -/
theorem readAll_agrees : ∀ {depth deeper lo stop : Nat}, depth ≤ deeper → stop ≤ lo + depth →
    Agrees lo stop (readAll pool depth) (readAll pool deeper)
  | 0, _, _, _, _, hempty => Agrees.u16_bind_of_empty hempty
  | depth + 1, 0, _, _, hle, _ => absurd hle (Nat.not_succ_le_zero depth)
  | depth + 1, deeper + 1, lo, stop, hle, hstop =>
    Agrees.table (readOne_agrees fun size hsize => readAll_agrees
      (Nat.le_of_succ_le_succ hle) (by omega))

end Attribute

theorem Member.read_agrees {pool : Pool} {depth deeper : Nat} (hle : depth ≤ deeper)
    (hstop : stop ≤ lo + depth) :
    Agrees lo stop (Member.read pool depth) (Member.read pool deeper) :=
  Agrees.u16.bind fun _ => Agrees.u16.bind fun _ => Agrees.u16.bind fun _ =>
      (Agrees.ofChecked _).bind fun _ =>
    (Agrees.ofChecked _).bind fun _ => (Attribute.readAll_agrees hle hstop).bind fun _ => .pure _

namespace Pool

theorem readEntry_agrees {index : UInt16} : Agrees lo stop (readEntry index) (readEntry index) := by
  refine Agrees.u8.bind fun tag => ?_
  split
  case h_1 =>
    refine Agrees.u16.bind fun length => (Agrees.bytes _).bind fun raw => ?_
    split
    · exact .pure _
    · exact .throw _
  case h_2 | h_3 => exact Agrees.u32.bind fun _ => .pure _
  case h_4 | h_5 => exact Agrees.u64.bind fun _ => .pure _
  case h_6 | h_7 => exact Agrees.u16.bind fun _ => .pure _
  case h_12 => exact .throw _
  all_goals exact Agrees.u16.bind fun _ => Agrees.u16.bind fun _ => .pure _

theorem Progress.advance_agrees {count : UInt16} {p : Progress} (left : p.index < count) :
    Agrees lo stop (p.advance count left) (p.advance count left) := by
  refine readEntry_agrees.bind fun entry => .check ?_ (.pure _)
  split
  · exact .pure _
  · exact .throw _

theorem readFrom_agrees (count : UInt16) (p : Progress) :
    Agrees lo stop (readFrom count p) (readFrom count p) := by
  induction hmissing : count.toNat - p.index.toNat using Nat.strongRecOn generalizing p with
  | _ missing ih =>
    rw [readFrom]
    split
    · rename_i left
      refine (Progress.advance_agrees left).bind fun next => ih _ ?_ next.val rfl
      have hnext := UInt16.lt_iff_toNat_lt.mp next.property.1
      have hleft := UInt16.lt_iff_toNat_lt.mp left
      omega
    · exact .pure _

theorem read_agrees : Agrees lo stop Pool.read Pool.read :=
  Agrees.u16.bind fun _ => (readFrom_agrees _ _).bind fun _ =>
    (Agrees.ofChecked _).bind fun _ => .pure _

end Pool

namespace ClassFile

theorem readHeader_agrees : Agrees lo stop readHeader readHeader :=
  Agrees.u32.bind fun _ => .check
    ((Agrees.throw _).bind fun _ => Agrees.u16.bind fun _ => Agrees.u16.bind fun _ => .check
      (.pure _) (.throw _))
    (Agrees.u16.bind fun _ => Agrees.u16.bind fun _ => .check (.pure _) (.throw _))

/-- The parts of a class file, whatever comes after them. -/
def readParts : ByteReader ClassFile := do
  let (minorVersion, majorVersion) ← readHeader
  let pool ← Pool.read
  let depth ← remaining
  let flags ← u16
  let thisClass ← u16
  let superClass ← u16
  let interfaces ← table u16
  let fields ← table (Member.read pool depth)
  let methods ← table (Member.read pool depth)
  let attributes ← Attribute.readAll pool depth
  return { magic := expectedMagic, minorVersion, majorVersion, pool, flags := ⟨flags⟩, thisClass,
           superClass, interfaces, fields, methods, attributes }

/-- A class file is its parts, with nothing left after them and with classes where they have to be. -/
theorem read_eq : read = do
    let c ← readParts
    let left ← remaining
    if left ≠ 0 then throw (.trailingBytes left)
    ofChecked c.checkClasses
    return c := by
  simp only [read, readParts, bind_assoc, pure_bind]

theorem readParts_agrees : Agrees lo stop readParts readParts := by
  refine readHeader_agrees.bind fun version => Pool.read_agrees.bind fun pool =>
    .remaining fun left more hleft => ?_
  have hle : left ≤ left + more := Nat.le_add_right _ _
  have hstop : stop ≤ stop - left + left := by omega
  exact Agrees.u16.bind fun _ => Agrees.u16.bind fun _ => Agrees.u16.bind fun _ =>
      Agrees.u16.table.bind fun _ =>
    (Member.read_agrees hle hstop).table.bind fun _ =>
      (Member.read_agrees hle hstop).table.bind fun _ =>
    (Attribute.readAll_agrees hle hstop).bind fun _ => .pure _

theorem decode_eq (bytes : List UInt8) : decode bytes = match outcome readParts (.ofBytes bytes) with
    | (.error e, _) => .error e
    | (.ok c, t) =>
      if t.rest.length ≠ 0 then .error (.trailingBytes t.rest.length)
        else c.checkClasses.map fun _ => c := by
  have hdecode : decode bytes = (outcome read (.ofBytes bytes)).1 := rfl
  rw [hdecode, read_eq]
  rcases hrun : outcome readParts (.ofBytes bytes) with ⟨e | c, t⟩
  · rw [outcome_bind_of_error hrun]
  · rw [outcome_bind_of_ok hrun, outcome_bind_of_ok (outcome_remaining t)]
    dsimp only
    split
    · rfl
    · cases hchecked : c.checkClasses <;> rfl

/-- What is accepted ends where its parts end. -/
theorem outcome_readParts_of_decode {bytes : List UInt8} {c : ClassFile} (h : decode bytes = .ok c) :
    ∃ position, outcome readParts (.ofBytes bytes) = (.ok c, ⟨position, []⟩) := by
  rw [decode_eq] at h
  rcases hrun : outcome readParts (.ofBytes bytes) with ⟨e | parts, t⟩ <;> rw [hrun] at h
  · cases h
  · dsimp only at h
    split at h
    · cases h
    · rename_i hend
      have hrest : t.rest = [] := List.length_eq_zero_iff.mp (Decidable.not_not.mp hend)
      cases hchecked : parts.checkClasses <;> rw [hchecked] at h <;> cases h
      exact ⟨t.position, by rw [← hrest]⟩

/-- No byte string that is accepted goes on as another one that is: a strict prefix is found to be
cut short, at an offset inside of it, and bytes at the end are counted. -/
theorem accepted_prefixFree {bytes : List UInt8} {c : ClassFile} (h : decode bytes = .ok c) :
    (∀ front, front <+: bytes → front ≠ bytes →
      ∃ offset ≤ front.length, decode front = .error (.truncated offset)) ∧
      ∀ extra, extra ≠ [] → decode (bytes ++ extra) = .error (.trailingBytes extra.length) := by
  have hstart : ∀ input : List UInt8, (ByteInput.ofBytes input).position +
      (ByteInput.ofBytes input).rest.length = input.length := fun _ => Nat.zero_add _
  obtain ⟨position, hparts⟩ := outcome_readParts_of_decode h
  constructor
  · rintro front ⟨missing, rfl⟩ hstrict
    have hmissing : missing ≠ [] := fun hnil => hstrict (by rw [hnil, List.append_nil])
    rcases hfront : outcome readParts (.ofBytes front) with ⟨e | parts, t⟩
    · rcases readParts_agrees.error (Nat.zero_le _) (hstart front) hfront with
        ⟨offset, hle, rfl⟩ | hwhole
      · exact ⟨offset, hle, by rw [decode_eq, hfront]⟩
      · obtain ⟨t', hwhole⟩ := hwhole missing
        cases hparts.symm.trans hwhole
    · -- the whole input would leave at least what is missing
      have hwhole := (readParts_agrees.ok (Nat.zero_le _) (hstart front) hfront).2.2 missing
      have hleft : t.rest ++ missing = [] := congrArg (ByteInput.rest ∘ Prod.snd)
        (hwhole.symm.trans hparts)
      exact absurd (List.append_eq_nil_iff.mp hleft).2 hmissing
  · intro extra hextra
    have hmore := (readParts_agrees.ok (Nat.zero_le _) (hstart bytes) hparts).2.2 extra
    have hsplit : ByteInput.ofBytes (bytes ++ extra) = (ByteInput.ofBytes bytes).followedBy extra := rfl
    rw [decode_eq, hsplit, hmore]
    exact if_pos fun hzero => hextra (List.length_eq_zero_iff.mp hzero)

theorem accepted_prefixFree_sample :
    (∃ offset ≤ 20, decode (sampleBytes.take 20) = .error (.truncated offset)) ∧
      decode (sampleBytes ++ [0, 0]) = .error (.trailingBytes 2) := by
  have hfree := accepted_prefixFree decode_sampleBytes
  exact ⟨hfree.1 (sampleBytes.take 20) (List.take_prefix ..) (by decide), hfree.2 [0, 0] (by decide)⟩

end ClassFile

end

end JavaMachine
