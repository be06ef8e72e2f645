import JavaMachine.Proofs.AttributeCodec

/-!
Class files and their bytes.

`decode_ok`: decoding accepts exactly the bytes that spell a well-formed class file, and gives that
class file. So whatever is decoded is well formed, and a well-formed class file is read back from
its encoding (`decode_encode`).
-/

namespace JavaMachine

open ByteReader

section

variable {α : Type} {n : Nat} {p : List UInt8 → α → Prop}

/-- A reader that is told how much there is left. -/
theorem ReadsWhole.remaining {f : Nat → ByteReader α} (h : ∀ k ≤ n, ReadsWhole k (f k) p) :
    ReadsWhole n (ByteReader.remaining >>= f) p := by
  intro position bytes v hlen
  have hremaining : outcome ByteReader.remaining ⟨position, bytes⟩ =
      (.ok bytes.length, ⟨position, bytes⟩) := rfl
  rw [outcome_bind_of_ok hremaining]
  exact h bytes.length hlen position bytes v (Nat.le_refl _)

end

namespace ClassFile

theorem isSupported_iff {majorVersion : UInt16} :
    isSupported majorVersion = true ↔ 45 ≤ majorVersion ∧ majorVersion ≤ 53 := by
  simp [isSupported]

theorem reads_header {n : Nat} : Reads n readHeader fun bytes version =>
    isSupported version.2 = true ∧
      bytes = Encode.u32 expectedMagic ++ (Encode.u16 version.1 ++ Encode.u16 version.2) := by
  unfold readHeader
  refine (Reads.u32.bind_spelled fun magic _ => Reads.guard fun _ => Reads.u16.bind_spelled
    fun minorVersion _ => Reads.u16.bind_spelled fun majorVersion _ =>
    (Reads.pure (minorVersion, majorVersion)).ite (Reads.throw _)).congr fun bytes version _ => ?_
  constructor
  · rintro ⟨magic, _, rfl, hmagic, minorVersion, _, rfl, majorVersion, _, rfl, hend⟩
    by_cases hsupported : isSupported majorVersion = true
    · rw [if_pos hsupported] at hend
      obtain ⟨rfl, rfl⟩ := hend
      rw [Decidable.not_not.mp hmagic]
      exact ⟨hsupported, by simp⟩
    · rw [if_neg hsupported] at hend
      exact hend.elim
  · rintro ⟨hsupported, rfl⟩
    refine ⟨expectedMagic, _, rfl,
      by simp, version.1, _, rfl, version.2, [], (List.append_nil _).symm, ?_⟩
    rw [if_pos hsupported]
    exact ⟨rfl, rfl⟩

theorem checkClass_ok {pool : Pool} (hpool : pool.WellFormed) {index : UInt16} :
    checkClass pool index = .ok () ↔ pool.Points index PoolEntry.isClass := by
  rw [hpool.points_isClass_iff, checkClass]
  cases (pool.className? index).isSome <;> simp

/-- The class indices of a class file all are Class entries. -/
def ClassesIn (c : ClassFile) : Prop :=
  c.pool.Points c.thisClass PoolEntry.isClass ∧
    (c.superClass ≠ 0 → c.pool.Points c.superClass PoolEntry.isClass) ∧
    ∀ index ∈ c.interfaces, c.pool.Points index PoolEntry.isClass

theorem checkClasses_ok {c : ClassFile} (hpool : c.pool.WellFormed) :
    c.checkClasses = .ok () ↔ c.ClassesIn := by
  unfold checkClasses ClassesIn
  by_cases hsuper : c.superClass = 0
  · rw [if_neg (by simp [hsuper]), check_bind_ok, checkClass_ok hpool, check_forM_ok]
    simp only [checkClass_ok hpool, hsuper, ne_eq, not_true, false_implies, true_and]
  · rw [if_pos hsuper, check_bind_ok, check_bind_ok, checkClass_ok hpool,
      checkClass_ok hpool, check_forM_ok]
    simp only [checkClass_ok hpool, hsuper, ne_eq, not_false_iff, true_implies]

/-- The bytes of a class file after its pool. -/
def encodeRest (c : ClassFile) : List UInt8 :=
  Encode.u16 c.flags.bits ++ (Encode.u16 c.thisClass ++ (Encode.u16 c.superClass
    ++ (Encode.table Encode.u16 c.interfaces ++ (Encode.table Member.encode c.fields
    ++ (Encode.table Member.encode c.methods ++ Attribute.encodeTable c.attributes)))))

theorem encode_eq (c : ClassFile) :
    c.encode = Encode.u32 c.magic ++ (Encode.u16 c.minorVersion ++ Encode.u16 c.majorVersion)
      ++ (c.pool.encode ++ c.encodeRest) := by
  simp [encode, encodeRest]

/-- The bytes of a class file, whose pool need not have its texts in their shortest form. -/
def Spells (bytes : List UInt8) (c : ClassFile) : Prop :=
  ∃ poolBytes, c.pool.Spells poolBytes ∧ c.WellFormed ∧
    bytes = Encode.u32 c.magic ++ (Encode.u16 c.minorVersion ++ Encode.u16 c.majorVersion)
      ++ (poolBytes ++ c.encodeRest)

/-- At the end nothing is left and the class indices are checked. -/
theorem readsWhole_end {n : Nat} (c : ClassFile) :
    ReadsWhole n (do
      let left ← remaining
      if left ≠ 0 then throw (.trailingBytes left)
      ofChecked c.checkClasses
      return c) fun bytes v => bytes = [] ∧ c.checkClasses = .ok () ∧ v = c := by
  refine readsWhole_of_remaining ?_ fun left s hleft => ?_
  · exact (Reads.ofChecked_bind (Reads.pure c)).congr fun bytes v _ => and_left_comm
  · simp only [if_pos hleft]
    exact ⟨_, _, outcome_bind_of_error (outcome_throw ..)⟩

theorem readsWhole {n : Nat} : ReadsWhole n read fun bytes c => c.Spells bytes := by
  unfold read
  refine (reads_header.bindWhole fun version _ _ _ => Pool.reads.bindWhole fun pool _ _ _ =>
    ReadsWhole.remaining fun depth _ => Reads.u16.bindWhole fun flags _ _ _ =>
    Reads.u16.bindWhole fun thisClass _ _ _ => Reads.u16.bindWhole fun superClass _ _ _ =>
    reads_index.table.bindWhole fun interfaces _ _ _ =>
    (Member.reads pool depth (by omega)).table.bindWhole fun fields _ _ _ =>
    (Member.reads pool depth (by omega)).table.bindWhole fun methods _ _ _ =>
    ((Attribute.reads_all pool depth).mono (by omega)).bindWhole fun attributes _ _ _ =>
    readsWhole_end (.mk expectedMagic version.1 version.2 pool ⟨flags⟩
      thisClass superClass interfaces fields
      methods attributes)).congr fun bytes c _ => ?_
  constructor
  · rintro ⟨version, _, _, rfl, ⟨hversion, rfl⟩, pool, poolBytes, _, rfl, hpool, flags, _, _,
      rfl, rfl, thisClass,
      _, _, rfl, rfl, superClass, _, _, rfl, rfl, interfaces, _, _, rfl,
      ⟨⟨hinterfaces, -⟩, rfl⟩, fields, _, _,
      rfl, ⟨⟨hfields, hfield⟩, rfl⟩, methods, _, _, rfl, ⟨⟨hmethods, hmethod⟩, rfl⟩,
      attributes, _, _, rfl, ⟨hattributes, rfl⟩, rfl, hclasses, rfl⟩
    obtain ⟨hthis, hsuper, hinterface⟩ := (checkClasses_ok hpool.wellFormed).mp hclasses
    refine ⟨poolBytes, hpool, ?_, by simp [encodeRest]⟩
    exact ⟨rfl, isSupported_iff.mp hversion, hpool.wellFormed, hthis, hsuper, hinterface,
      hinterfaces, hfields, hfield, hmethods, hmethod, hattributes⟩
  · rintro ⟨poolBytes, hpool, hc, rfl⟩
    refine ⟨(c.minorVersion, c.majorVersion), _, _, rfl,
      ⟨isSupported_iff.mpr hc.version, by rw [hc.magic]⟩,
      c.pool, poolBytes, _, rfl, hpool, c.flags.bits, _, _, rfl, rfl, c.thisClass, _, _, rfl,
      rfl, c.superClass,
      _, _, rfl, rfl, c.interfaces, _, _, rfl, ⟨⟨hc.interfaces_lt, by simp⟩, rfl⟩, c.fields, _, _, rfl,
      ⟨⟨hc.fields_lt, hc.fields⟩, rfl⟩, c.methods, _, _, rfl, ⟨⟨hc.methods_lt, hc.methods⟩, rfl⟩,
      c.attributes, _, [], (List.append_nil _).symm, ⟨hc.attributes, rfl⟩, rfl, ?_, ?_⟩
    · rw [← hc.magic]
      exact (checkClasses_ok hc.pool).mpr ⟨hc.thisClass, hc.superClass, hc.interfaces⟩
    · rw [← hc.magic]

/-- Decoding accepts exactly the bytes that spell a well-formed class file. -/
theorem decode_ok {bytes : List UInt8} {c : ClassFile} : decode bytes = .ok c ↔ c.Spells bytes :=
  readsWhole 0 bytes c (Nat.le_refl _)

/-- A well-formed class file is spelled by its encoding. -/
theorem WellFormed.spells {c : ClassFile} (h : c.WellFormed) : c.Spells c.encode :=
  ⟨c.pool.encode, h.pool.spells, h, encode_eq c⟩

/-- Whatever is decoded is well formed, and a well-formed class file is decoded from its encoding. -/
theorem codec_roundtrip :
    (∀ bytes c, decode bytes = .ok c → c.WellFormed) ∧
    (∀ c : ClassFile, c.WellFormed → decode c.encode = .ok c) := by
  constructor
  · intro bytes c h
    obtain ⟨_, -, hc, -⟩ := decode_ok.mp h
    exact hc
  · intro c hc
    exact decode_ok.mpr hc.spells

/-- A class with a wide constant and with a stack map inside of its code. -/
def sample : ClassFile where
  magic := expectedMagic
  minorVersion := 0
  majorVersion := 52
  pool := #[.unusable, .utf8 [65], .classRef 1, .long 5, .unusable, .utf8 (Text.units "Code"),
    .utf8 (Text.units "StackMapTable")]
  flags := ⟨0x21⟩
  thisClass := 2
  superClass := 0
  interfaces := []
  fields := []
  methods := [⟨⟨8⟩, 1, 1, [.code 5 0 1 [0xB1] [] [.leaf 6 (.stackMapTable [.append 252 3 [.top]])]]⟩]
  attributes := []

/-- The sample with its name spelled in two bytes instead of one. -/
def sampleBytes : List UInt8 :=
  [0xCA, 0xFE, 0xBA, 0xBE, 0, 0, 0, 52, 0, 7, 1, 0, 2, 0xC1, 0x81] ++ sample.encode.drop 14

theorem decode_sampleBytes : decode sampleBytes = .ok sample := eq_ok_of_toOption (by decide +kernel)

theorem codec_roundtrip_sample :
    sampleBytes ≠ sample.encode ∧ sample.WellFormed ∧ decode sample.encode = .ok sample := by
  have hwf : sample.WellFormed := codec_roundtrip.1 sampleBytes sample decode_sampleBytes
  exact ⟨by decide +kernel, hwf, codec_roundtrip.2 sample hwf⟩

end ClassFile

end JavaMachine
