import JavaMachine.Proofs.PoolCodec

/-!
Attributes and their bytes.

`reads_all`: with a depth that is at least the length of the input, the reader of attribute tables
accepts exactly the encodings of well-formed tables.
-/

namespace JavaMachine

open ByteReader

/-! ### Frames of stack maps -/

theorem VerificationType.reads {n : Nat} :
    Reads n VerificationType.read fun bytes v => bytes = v.encode := by
  unfold VerificationType.read
  refine (Reads.u8.bind_spelled (r := fun tag back v => tag :: back = v.encode) fun tag _ => ?_).congr
    fun bytes v _ => ?_
  · split
    case h_8 | h_9 =>
      refine (Reads.u16.returning _).congr fun back v _ => ?_
      cases v <;> simp [VerificationType.encode]
    case h_10 =>
      refine (Reads.throw _).congr fun back v _ => ?_
      constructor
      · exact False.elim
      · intro h
        cases v <;> simp [VerificationType.encode] at h <;> obtain ⟨rfl, -⟩ := h <;> contradiction
    all_goals
      refine (Reads.pure _).congr fun back v _ => ?_
      cases v <;> simp [VerificationType.encode]
  · constructor
    · rintro ⟨tag, back, rfl, h⟩; exact h
    · intro h
      cases v <;> exact ⟨_, _, h, rfl⟩

theorem VerificationType.reads_encoded {n : Nat} :
    Reads n VerificationType.read (Encoded (fun _ => True) VerificationType.encode) :=
  VerificationType.reads.congr fun _ _ _ => (and_iff_right trivial).symm

theorem StackMapFrame.reads_append {n : Nat} (type : UInt8) :
    Reads n (do
      let delta ← u16
      let locals ← times (type.toNat - 251) VerificationType.read
      return StackMapFrame.append type delta locals)
      fun bytes v => ∃ delta locals, v = .append type delta locals ∧ locals.length = type.toNat - 251 ∧
        bytes = Encode.u16 delta ++ locals.flatMap VerificationType.encode := by
  refine (Reads.u16.bind_spelled fun delta _ => (VerificationType.reads_encoded.times _).bind
    fun locals _ _ _ => Reads.pure (StackMapFrame.append type delta locals)).congr fun bytes v _ => ?_
  constructor
  · rintro ⟨delta, _, rfl, locals, _, _, rfl, ⟨⟨hlen, -⟩, rfl⟩, rfl, rfl⟩
    exact ⟨delta, locals, rfl, hlen, by rw [List.append_nil]⟩
  · rintro ⟨delta, locals, rfl, hlen, rfl⟩
    exact ⟨delta, _, rfl, locals, _, [], (List.append_nil _).symm, ⟨⟨hlen, by simp⟩, rfl⟩, rfl, rfl⟩

theorem StackMapFrame.reads_full {n : Nat} :
    Reads n (do
      let delta ← u16
      let locals ← table VerificationType.read
      let stack ← table VerificationType.read
      return StackMapFrame.full delta locals stack)
      fun bytes v => ∃ delta locals stack, v = .full delta locals stack ∧ locals.length < UInt16.size ∧
        stack.length < UInt16.size ∧ bytes = Encode.u16 delta
          ++ (Encode.table VerificationType.encode locals ++
            Encode.table VerificationType.encode stack) := by
  refine (Reads.u16.bind_spelled fun delta _ => VerificationType.reads_encoded.table.bind
    fun locals _ _ _ => VerificationType.reads_encoded.table.bind
    fun stack _ _ _ => Reads.pure (StackMapFrame.full delta locals stack)).congr fun bytes v _ => ?_
  constructor
  · rintro ⟨delta, _, rfl, locals, _, _, rfl, ⟨⟨hlocals, -⟩, rfl⟩, stack, _, _, rfl, ⟨⟨hstack, -⟩, rfl⟩,
      rfl, rfl⟩
    exact ⟨delta, locals, stack, rfl, hlocals, hstack, by rw [List.append_nil]⟩
  · rintro ⟨delta, locals, stack, rfl, hlocals, hstack, rfl⟩
    exact ⟨delta, _, rfl, locals, _, _, rfl, ⟨⟨hlocals, by simp⟩, rfl⟩, stack, _, [],
      (List.append_nil _).symm, ⟨⟨hstack, by simp⟩, rfl⟩, rfl, rfl⟩

/-- The type of a frame is in the range of its kind, so it tells how to go on. -/
theorem StackMapFrame.reads {n : Nat} :
    Reads n StackMapFrame.read (Encoded StackMapFrame.WellFormed StackMapFrame.encode) := by
  unfold StackMapFrame.read
  refine (Reads.u8.bind_spelled (r := fun type back v => v.WellFormed ∧ type :: back = v.encode)
    fun type _ => ?_).congr fun bytes v _ => ?_
  · by_cases h63 : type ≤ 63
    · rw [if_pos h63]
      refine (Reads.pure _).congr fun back v _ => ?_
      cases v <;> simp only [StackMapFrame.WellFormed, StackMapFrame.encode] <;> grind
    rw [if_neg h63]
    by_cases h127 : type ≤ 127
    · rw [if_pos h127]
      refine (VerificationType.reads.returning _).congr fun back v _ => ?_
      cases v <;> simp only [StackMapFrame.WellFormed, StackMapFrame.encode] <;> grind
    rw [if_neg h127]
    by_cases h246 : type ≤ 246
    · rw [if_pos h246]
      refine (Reads.throw _).congr fun back v _ => ?_
      cases v <;> simp only [StackMapFrame.WellFormed, StackMapFrame.encode] <;> grind
    rw [if_neg h246]
    by_cases h247 : type = 247
    · rw [if_pos h247]
      refine (Reads.u16.returning_two (fun _ => VerificationType.reads) _).congr fun back v _ => ?_
      cases v <;> simp only [StackMapFrame.WellFormed, StackMapFrame.encode] <;> grind
    rw [if_neg h247]
    by_cases h250 : type ≤ 250
    · rw [if_pos h250]
      refine (Reads.u16.returning _).congr fun back v _ => ?_
      cases v <;> simp only [StackMapFrame.WellFormed, StackMapFrame.encode] <;> grind
    rw [if_neg h250]
    by_cases h251 : type = 251
    · rw [if_pos h251]
      refine (Reads.u16.returning _).congr fun back v _ => ?_
      cases v <;> simp only [StackMapFrame.WellFormed, StackMapFrame.encode] <;> grind
    rw [if_neg h251]
    by_cases h254 : type ≤ 254
    · rw [if_pos h254]
      refine (StackMapFrame.reads_append type).congr fun back v _ => ?_
      cases v <;> simp only [StackMapFrame.WellFormed, StackMapFrame.encode] <;> grind
    · rw [if_neg h254]
      refine StackMapFrame.reads_full.congr fun back v _ => ?_
      cases v <;> simp only [StackMapFrame.WellFormed, StackMapFrame.encode] <;> grind
  · constructor
    · rintro ⟨type, back, rfl, hv, h⟩; exact ⟨hv, h⟩
    · rintro ⟨hv, h⟩
      cases v <;> exact ⟨_, _, h, hv, rfl⟩

/-! ### Rows of tables -/

theorem HandlerEntry.reads {n : Nat} :
    Reads n HandlerEntry.read (Encoded (fun _ => True) HandlerEntry.encode) := by
  refine (Reads.u16.bind_spelled fun startPc _ => Reads.u16.bind_spelled fun endPc _ =>
    Reads.u16.returning_two (fun _ => Reads.u16) (HandlerEntry.mk startPc endPc)).congr
      fun bytes v _ => ?_
  constructor
  · rintro ⟨startPc, _, rfl, endPc, _, rfl, handlerPc, catchType, rfl, rfl⟩
    exact ⟨trivial, by simp [HandlerEntry.encode]⟩
  · rintro ⟨-, rfl⟩
    exact ⟨v.startPc, _,
      by simp [HandlerEntry.encode], v.endPc, _, rfl, v.handlerPc, v.catchType, rfl, rfl⟩

theorem LineEntry.reads {n : Nat} :
    Reads n LineEntry.read (Encoded (fun _ => True) LineEntry.encode) := by
  refine (Reads.u16.returning_two (fun _ => Reads.u16) LineEntry.mk).congr fun bytes v _ => ?_
  constructor
  · rintro ⟨startPc, line, rfl, rfl⟩
    exact ⟨trivial, rfl⟩
  · rintro ⟨-, rfl⟩
    exact ⟨v.startPc, v.line, rfl, rfl⟩

theorem reads_index {n : Nat} : Reads n u16 (Encoded (fun _ => True) Encode.u16) :=
  Reads.u16.congr fun _ _ _ => (and_iff_right trivial).symm

namespace Attribute

/-! ### Attributes without attributes of their own -/

/-- What the reader of the content that `name` selects accepts. -/
def SpellsContent (name : String) (bytes : List UInt8) (content : AttributeContent) : Prop :=
  content.name? = some name ∧ content.Fits ∧ bytes = content.encode

theorem reads_constantValue {n : Nat} :
    Reads n (AttributeContent.constantValue <$> u16) (SpellsContent "ConstantValue") := by
  refine (Reads.u16.map _).congr fun bytes content _ => ?_
  cases content <;>
    simp [SpellsContent, AttributeContent.name?, AttributeContent.Fits, AttributeContent.encode]

theorem reads_sourceFile {n : Nat} :
    Reads n (AttributeContent.sourceFile <$> u16) (SpellsContent "SourceFile") := by
  refine (Reads.u16.map _).congr fun bytes content _ => ?_
  cases content <;>
    simp [SpellsContent, AttributeContent.name?, AttributeContent.Fits, AttributeContent.encode]

theorem reads_exceptions {n : Nat} :
    Reads n (AttributeContent.exceptions <$> table u16) (SpellsContent "Exceptions") := by
  refine (reads_index.table.map _).congr fun bytes content _ => ?_
  cases content <;>
    simp [SpellsContent, Encoded, AttributeContent.name?, AttributeContent.Fits,
      AttributeContent.encode]

theorem reads_stackMapTable {n : Nat} :
    Reads n (AttributeContent.stackMapTable <$> table StackMapFrame.read)
      (SpellsContent "StackMapTable") := by
  refine (StackMapFrame.reads.table.map _).congr fun bytes content _ => ?_
  cases content <;>
    simp [SpellsContent, Encoded, AttributeContent.name?, AttributeContent.Fits,
      AttributeContent.encode]

theorem reads_lineNumberTable {n : Nat} :
    Reads n (AttributeContent.lineNumberTable <$> table LineEntry.read)
      (SpellsContent "LineNumberTable") := by
  refine (LineEntry.reads.table.map _).congr fun bytes content _ => ?_
  cases content <;>
    simp [SpellsContent, Encoded, AttributeContent.name?, AttributeContent.Fits,
      AttributeContent.encode]

/-! ### Code -/

theorem encodeEach_eq (attributes : List Attribute) :
    encodeEach attributes = attributes.flatMap encode := by
  induction attributes with
  | nil => simp [encodeEach]
  | cons a attributes ih => rw [encodeEach, ih, List.flatMap_cons]

theorem encodeTable_eq (attributes : List Attribute) :
    encodeTable attributes = Encode.table encode attributes := by
  rw [encodeTable, encodeEach_eq, Encode.table]

theorem reads_code {n : Nat} {pool : Pool} {nested : ByteReader (List Attribute)} (nameIndex : UInt16)
    (hnested : Reads n nested (Encoded (TableWellFormed pool) encodeTable)) :
    Reads n (readCode nameIndex nested) fun bytes v => ∃ maxStack maxLocals code handlers attributes,
      v = .code nameIndex maxStack maxLocals code handlers attributes ∧ code ≠ [] ∧
        code.length < UInt32.size ∧ handlers.length < UInt16.size ∧ TableWellFormed pool attributes ∧
        bytes = encodeCode maxStack maxLocals code handlers attributes := by
  unfold readCode
  refine (Reads.u16.bind_spelled fun maxStack _ => Reads.u16.bind_spelled fun maxLocals _ =>
    Reads.lengthPrefixed.bind fun code _ _ _ => Reads.guard fun _ => HandlerEntry.reads.table.bind
    fun handlers _ _ _ => (hnested.mono (by omega)).bind fun attributes _ _ _ =>
    Reads.pure (Attribute.code nameIndex maxStack maxLocals code handlers attributes)).congr
      fun bytes v _ => ?_
  constructor
  · rintro ⟨maxStack, _, rfl, maxLocals, _, rfl, code, _, _, rfl, ⟨hcode, rfl⟩, hempty,
      handlers, _, _, rfl,
      ⟨⟨hhandlers, -⟩, rfl⟩, attributes, _, _, rfl, ⟨hattributes, rfl⟩, rfl, rfl⟩
    exact ⟨maxStack, maxLocals, code, handlers, attributes, rfl,
      by simpa using hempty, hcode, hhandlers, hattributes, by simp [encodeCode]⟩
  · rintro ⟨maxStack, maxLocals, code, handlers, attributes, rfl, hempty, hcode,
      hhandlers, hattributes, rfl⟩
    exact ⟨maxStack, _, by simp [encodeCode], maxLocals, _, rfl, code, _, _, rfl, ⟨hcode, rfl⟩,
      by simpa using hempty, handlers, _, _, rfl, ⟨⟨hhandlers, by simp⟩, rfl⟩, attributes, _, [],
      (List.append_nil _).symm, ⟨hattributes, rfl⟩, rfl, rfl⟩

/-! ### One attribute -/

/-- The bytes of an attribute after its length. -/
def encodeBody : Attribute → List UInt8
  | code _ maxStack maxLocals bytes handlers attributes =>
    encodeCode maxStack maxLocals bytes handlers attributes
  | leaf _ content => content.encode

theorem encode_eq (a : Attribute) :
    a.encode = Encode.u16 a.nameIndex ++ Encode.lengthPrefixed a.encodeBody := by
  cases a with
  | code => simp [encode, encodeBody, encodeCode, encodeTable, nameIndex]
  | leaf => simp [encode, encodeBody, nameIndex]

/-- What the body of an attribute of that name is read as. -/
def SpellsBody (pool : Pool) (nameIndex : UInt16) (info : List UInt8) (a : Attribute) : Prop :=
  a.nameIndex = nameIndex ∧ a.WellFormed pool ∧ info = a.encodeBody

theorem not_selects_code {content : AttributeContent} : ¬ Selects "Code" content := by
  cases content <;> simp [Selects, AttributeContent.name?, decodedNames]

theorem spellsBody_leaf {pool : Pool} {nameIndex : UInt16} {name : String}
    {info : List UInt8} {a : Attribute}
    (hname : pool.text? nameIndex = some name) (hinfo : info.length < UInt32.size)
    (hcode : name ≠ "Code") :
    SpellsBody pool nameIndex info a ↔
      ∃ content, Selects name content ∧ content.Fits ∧ info = content.encode ∧
        a = .leaf nameIndex content := by
  constructor
  · rintro ⟨rfl, hwf, rfl⟩
    cases hwf with
    | code named =>
      rw [Attribute.nameIndex, named] at hname
      exact absurd (Option.some.inj hname).symm hcode
    | leaf named selects fits body_lt =>
      rw [Attribute.nameIndex, named] at hname
      obtain rfl := Option.some.inj hname
      exact ⟨_, selects, fits, rfl, rfl⟩
  · rintro ⟨content, hselects, hfits, rfl, rfl⟩
    exact ⟨rfl, .leaf hname hselects hfits hinfo, rfl⟩

theorem spellsBody_code {pool : Pool} {nameIndex : UInt16} {info : List UInt8} {a : Attribute}
    (hname : pool.text? nameIndex = some "Code") (hinfo : info.length < UInt32.size) :
    SpellsBody pool nameIndex info a ↔ ∃ maxStack maxLocals code handlers attributes,
      a = .code nameIndex maxStack maxLocals code handlers attributes ∧ code ≠ [] ∧
        code.length < UInt32.size ∧ handlers.length < UInt16.size ∧ TableWellFormed pool attributes ∧
        info = encodeCode maxStack maxLocals code handlers attributes := by
  constructor
  · rintro ⟨rfl, hwf, rfl⟩
    cases hwf with
    | code named nonempty code_lt handlers_lt attributes_lt nested body_lt =>
      exact ⟨_, _, _, _, _, rfl, nonempty, code_lt, handlers_lt, ⟨attributes_lt, nested⟩, rfl⟩
    | leaf named selects =>
      rw [Attribute.nameIndex, named] at hname
      obtain rfl := Option.some.inj hname
      exact absurd selects not_selects_code
  · rintro ⟨maxStack, maxLocals, code, handlers, attributes, rfl, hempty, hcode,
      hhandlers, hattributes, rfl⟩
    exact ⟨rfl, .code hname hempty hcode hhandlers hattributes.1 hattributes.2 hinfo, rfl⟩

theorem selects_of_mem {name : String} {content : AttributeContent} (h : name ∈ decodedNames) :
    Selects name content ↔ content.name? = some name := by
  unfold Selects
  cases hown : content.name? with
  | none => simpa using h
  | some own => simp [eq_comm]

section

variable {n : Nat} {pool : Pool} {nameIndex : UInt16} {info : List UInt8} {name : String}

/-- The body of an attribute with decoded content. -/
theorem reads_decoded {reader : ByteReader AttributeContent} (hname : pool.text? nameIndex = some name)
    (hinfo : info.length < UInt32.size) (hmem : name ∈ decodedNames) (hcode : name ≠ "Code")
    (hreader : Reads info.length reader (SpellsContent name)) :
    Reads n (readBody name info (.leaf nameIndex <$> reader))
      fun bytes a => bytes = [] ∧ SpellsBody pool nameIndex info a := by
  refine (hreader.map _).readBody.congr fun bytes a _ => and_congr_right fun _ => ?_
  rw [spellsBody_leaf hname hinfo hcode]
  constructor
  · rintro ⟨content, ⟨hown, hfits, hbytes⟩, rfl⟩
    exact ⟨content, (selects_of_mem hmem).mpr hown, hfits, hbytes, rfl⟩
  · rintro ⟨content, hselects, hfits, hbytes, rfl⟩
    exact ⟨content, ⟨(selects_of_mem hmem).mp hselects, hfits, hbytes⟩, rfl⟩

/-- The body of an attribute that is kept as it is. -/
theorem reads_other (hname : pool.text? nameIndex = some name) (hinfo : info.length < UInt32.size)
    (hmem : name ∉ decodedNames) :
    Reads n (pure (.leaf nameIndex (.other info)))
      fun bytes a => bytes = [] ∧ SpellsBody pool nameIndex info a := by
  refine (Reads.pure _).congr fun bytes a _ => and_congr_right fun _ => ?_
  rw [spellsBody_leaf hname hinfo (by rintro rfl; exact hmem (by simp [decodedNames]))]
  constructor
  · rintro rfl
    exact ⟨.other info, hmem, trivial, rfl, rfl⟩
  · rintro ⟨content, hselects, -, rfl, rfl⟩
    cases content with
    | other => rfl
    | _ => subst hselects; simp [decodedNames] at hmem

theorem reads_codeBody {nested : ByteReader (List Attribute)}
    (hname : pool.text? nameIndex = some "Code") (hinfo : info.length < UInt32.size)
    (hnested : Reads info.length nested (Encoded (TableWellFormed pool) encodeTable)) :
    Reads n (readBody "Code" info (readCode nameIndex nested))
      fun bytes a => bytes = [] ∧ SpellsBody pool nameIndex info a :=
  (reads_code nameIndex hnested).readBody.congr fun _ _ _ =>
    and_congr_right fun _ => (spellsBody_code hname hinfo).symm

end

/-- The name of an attribute that was read is text. -/
theorem WellFormed.named {pool : Pool} {a : Attribute} (h : a.WellFormed pool) :
    ∃ name, pool.text? a.nameIndex = some name := by
  cases h with
  | code named => exact ⟨_, named⟩
  | leaf named => exact ⟨_, named⟩

theorem WellFormed.body_lt {pool : Pool} {a : Attribute} (h : a.WellFormed pool) :
    a.encodeBody.length < UInt32.size := by
  cases h <;> assumption

/-- The nested attributes of an attribute are at least six bytes into it. -/
theorem reads_one {n : Nat} {pool : Pool} {nested : ByteReader (List Attribute)}
    (hnested : Reads n nested (Encoded (TableWellFormed pool) encodeTable)) :
    Reads (n + 6) (readOne pool nested) (Encoded (WellFormed pool) encode) := by
  unfold readOne
  refine (Reads.u16.bind_spelled (r := fun nameIndex bytes a => ∃ info : List UInt8,
    info.length < UInt32.size ∧ bytes = Encode.lengthPrefixed info ∧ SpellsBody pool nameIndex info a)
    fun nameIndex _ => ?_).congr fun bytes a _ => ?_
  · cases hname : pool.text? nameIndex with
    | none =>
      refine (Reads.throw _).congr fun bytes a _ => ⟨False.elim, ?_⟩
      rintro ⟨info, -, -, rfl, hwf, -⟩
      obtain ⟨name, hnamed⟩ := hwf.named
      rw [hnamed] at hname
      cases hname
    | some name =>
      refine (Reads.lengthPrefixed.bind (r := fun info bytes a => bytes = [] ∧
        SpellsBody pool nameIndex info a)
        fun info front hfront hlen => ?_).congr fun bytes a _ => ?_
      · obtain ⟨hinfo, rfl⟩ := hfront
        have hshort : info.length ≤ n := by
          simp [Encode.lengthPrefixed, Encode.u16] at hlen; omega
        dsimp only
        split
        · exact reads_codeBody hname hinfo (hnested.mono hshort)
        · exact reads_decoded hname hinfo (by simp [decodedNames]) (by simp) reads_constantValue
        · exact reads_decoded hname hinfo (by simp [decodedNames]) (by simp) reads_sourceFile
        · exact reads_decoded hname hinfo (by simp [decodedNames]) (by simp) reads_exceptions
        · exact reads_decoded hname hinfo (by simp [decodedNames]) (by simp) reads_stackMapTable
        · exact reads_decoded hname hinfo (by simp [decodedNames]) (by simp) reads_lineNumberTable
        · refine reads_other hname hinfo ?_
          simp only [decodedNames, List.mem_cons, List.not_mem_nil, or_false, not_or]
          exact ⟨‹_›, ‹_›, ‹_›, ‹_›, ‹_›, ‹_›⟩
      · constructor
        · rintro ⟨info, _, _, rfl, ⟨hinfo, rfl⟩, rfl, hspells⟩
          exact ⟨info, hinfo, List.append_nil _, hspells⟩
        · rintro ⟨info, hinfo, rfl, hspells⟩
          exact ⟨info, _, [], (List.append_nil _).symm, ⟨hinfo, rfl⟩, rfl, hspells⟩
  · constructor
    · rintro ⟨nameIndex, _, rfl, info, -, rfl, rfl, hwf, rfl⟩
      exact ⟨hwf, (encode_eq a).symm⟩
    · rintro ⟨hwf, rfl⟩
      exact ⟨a.nameIndex, _, encode_eq a, a.encodeBody, hwf.body_lt, rfl, rfl, hwf, rfl⟩

/-! ### Tables of attributes -/

/-- A depth that is at least the length of the input is enough for all of it. -/
theorem reads_all (pool : Pool) : ∀ depth,
    Reads depth (readAll pool depth) (Encoded (TableWellFormed pool) encodeTable)
  | 0 => by
    refine (Reads.u16.returning fun _ => ([] : List Attribute)).congr fun bytes attributes hlen => ?_
    obtain rfl := List.length_eq_zero_iff.mp (Nat.le_zero.mp hlen)
    constructor
    · rintro ⟨count, hcount, -⟩
      simpa [Encode.u16] using congrArg List.length hcount
    · rintro ⟨-, hnil⟩
      have hzero := congrArg List.length hnil
      simp [encodeTable] at hzero
      omega
  | depth + 1 => by
    refine (((reads_one (reads_all pool depth)).mono (by omega)).table).congr
      fun bytes attributes _ => ?_
    rw [Encoded, Encoded, encodeTable_eq]
    rfl

end Attribute

/-! ### Members -/

theorem Member.reads {n : Nat} (pool : Pool) (depth : Nat) (hdepth : n ≤ depth) :
    Reads n (Member.read pool depth) (Encoded (Member.WellFormed pool) Member.encode) := by
  unfold Member.read
  refine (Reads.u16.bind_spelled fun flags _ => Reads.u16.bind_spelled fun nameIndex _ =>
    Reads.u16.bind_spelled fun descriptorIndex _ => Reads.ofChecked_bind (Reads.ofChecked_bind
    (((Attribute.reads_all pool depth).mono (by omega)).bind fun attributes _ _ _ =>
      Reads.pure (Member.mk ⟨flags⟩ nameIndex descriptorIndex attributes)))).congr fun bytes v _ => ?_
  simp only [Pool.check_ok]
  constructor
  · rintro ⟨flags, _, rfl, nameIndex, _, rfl, descriptorIndex, _, rfl, hname,
      hdescriptor, attributes, _, _, rfl, ⟨hattributes, rfl⟩, rfl, rfl⟩
    exact ⟨⟨hname, hdescriptor, hattributes⟩, by simp [Member.encode]⟩
  · rintro ⟨⟨hname, hdescriptor, hattributes⟩, rfl⟩
    exact ⟨v.flags.bits, _,
      by simp [Member.encode], v.nameIndex, _, rfl, v.descriptorIndex, _, rfl, hname,
      hdescriptor, v.attributes, _, [], (List.append_nil _).symm, ⟨hattributes, rfl⟩, rfl, rfl⟩

end JavaMachine
