import JavaMachine.Proofs.ClassFileCodec

/-!
What becomes of the bytes of a class file that is read and written again.

`pieces` walks over the bytes of a class file and tells the text constants from all other bytes.
Reading and writing takes each piece to itself, except that texts come back in their shortest form
(`encode_of_decode`): the reader is more liberal than the writer on texts, and nowhere else.
-/

namespace JavaMachine

namespace Text.ModifiedUtf8

/-- Bytes that are the encoding of what they are read as. -/
def IsCanonical (raw : List UInt8) : Prop := (decode raw).map encode = some raw

instance (raw : List UInt8) : Decidable (IsCanonical raw) := inferInstanceAs (Decidable (_ = _))

/-- Bytes after they were read and written again; bytes that cannot be read stay as they are. -/
def rewritten (raw : List UInt8) : List UInt8 := ((decode raw).map encode).getD raw

theorem rewritten_of_decode {raw : List UInt8} {units : Units} (h : decode raw = some units) :
    rewritten raw = encode units := by
  rw [rewritten, h]
  rfl

theorem IsCanonical.rewritten_eq {raw : List UInt8} (h : IsCanonical raw) : rewritten raw = raw := by
  rw [rewritten, h]
  rfl

theorem isCanonical_of_rewritten_eq {raw : List UInt8} {units : Units} (h : decode raw = some units)
    (heq : rewritten raw = raw) : IsCanonical raw := by
  rw [rewritten_of_decode h] at heq
  rw [IsCanonical, h, Option.map_some, heq]

theorem length_rewritten_le (raw : List UInt8) : (rewritten raw).length ≤ raw.length := by
  cases h : decode raw with
  | none => rw [rewritten, h]; exact Nat.le_refl _
  | some units => rw [rewritten_of_decode h]; exact length_encode_le h

end Text.ModifiedUtf8

/-- A part of the bytes of a class file. -/
inductive Piece where
  /-- The length and the content of a text constant. -/
  | text (raw : List UInt8)
  | other (bytes : List UInt8)
  deriving DecidableEq, Repr

namespace Piece

def bytes : Piece → List UInt8
  | text raw => BigEndian.ofNat 2 raw.length ++ raw
  | other bytes => bytes

/-- The content of a text constant. -/
def text? : Piece → Option (List UInt8)
  | text raw => some raw
  | other _ => none

@[simp]
theorem text?_other (bytes : List UInt8) : (other bytes).text? = none := rfl

/-- The bytes that belong to no text constant. -/
def outside : Piece → List UInt8
  | text _ => []
  | other bytes => bytes

/-- The piece after it was read and written again. -/
def rewritten : Piece → Piece
  | text raw => text (Text.ModifiedUtf8.rewritten raw)
  | other bytes => other bytes

@[simp]
theorem outside_rewritten (p : Piece) : p.rewritten.outside = p.outside := by cases p <;> rfl

theorem length_rewritten_le (p : Piece) : p.rewritten.bytes.length ≤ p.bytes.length := by
  cases p with
  | text raw => simpa [rewritten, bytes] using Text.ModifiedUtf8.length_rewritten_le raw
  | other _ => exact Nat.le_refl _

theorem map_rewritten_eq_self {ps : List Piece} :
    ps.map rewritten = ps ↔ ∀ p ∈ ps, p.rewritten = p := by
  rw [← List.map_inj_left, List.map_id']

theorem length_map_rewritten_le (ps : List Piece) :
    ((ps.map rewritten).flatMap bytes).length ≤ (ps.flatMap bytes).length := by
  induction ps with
  | nil => exact Nat.le_refl _
  | cons p ps ih =>
    rw [List.map_cons, List.flatMap_cons, List.flatMap_cons, List.length_append, List.length_append]
    exact Nat.add_le_add p.length_rewritten_le ih

end Piece

/-- The text of a text constant. -/
def PoolEntry.units? : PoolEntry → Option Text.Units
  | .utf8 units => some units
  | _ => none

namespace Pool

/-- How many bytes come after the tag of an entry that is no text. -/
def bodyWidth (tag : UInt8) : Nat := if tag = 5 ∨ tag = 6 then 8 else if tag = 7 ∨ tag = 8 then 2 else 4

/-- The pieces of bytes that begin with the pool entries for that many indices. -/
def pieces : (indices : Nat) → List UInt8 → List Piece
  | 0, bytes => [.other bytes]
  | _ + 1, [] => []
  | indices + 1, tag :: rest =>
    if tag = 1 then
      let length := BigEndian.toNat (rest.take 2)
      .other [tag] :: .text ((rest.drop 2).take length) :: pieces indices ((rest.drop 2).drop length)
    else
      let after := rest.drop (bodyWidth tag)
      .other (tag :: rest.take (bodyWidth tag)) ::
        if tag = 5 ∨ tag = 6 then
          -- a wide entry takes up the next index as well
          match indices with
          | 0 => [.other after]
          | indices + 1 => pieces indices after
        else pieces indices after

/-- The bytes of the entries for that many indices are cut into `ps`, whatever comes after them. -/
structure Split (indices : Nat) (bytes : List UInt8) (ps : List Piece) : Prop where
  whole : ps.flatMap Piece.bytes = bytes
  pieces : ∀ more rest, Pool.pieces (indices + more) (bytes ++ rest) = ps ++ Pool.pieces more rest

namespace Split

variable {i j : Nat} {front back raw body : List UInt8} {ps qs : List Piece} {tag : UInt8}

theorem nil : Split 0 [] [] :=
  ⟨rfl, fun more rest => by rw [Nat.zero_add, List.nil_append, List.nil_append]⟩

theorem append (h : Split i front ps) (h' : Split j back qs) :
    Split (i + j) (front ++ back) (ps ++ qs) where
  whole := by rw [List.flatMap_append, h.whole, h'.whole]
  pieces more rest := by
    rw [Nat.add_assoc, List.append_assoc, h.pieces, h'.pieces, List.append_assoc]

theorem text (h : raw.length < UInt16.size) :
    Split 1 (1 :: (BigEndian.ofNat 2 raw.length ++ raw)) [.other [1], .text raw] where
  whole := by simp [Piece.bytes]
  pieces more rest := by
    have hprefix : (BigEndian.ofNat 2 raw.length).length = 2 := BigEndian.length_ofNat ..
    have hlength : BigEndian.toNat (BigEndian.ofNat 2 raw.length) = raw.length := by
      rw [BigEndian.toNat_ofNat_two, Nat.mod_eq_of_lt h]
    rw [Nat.add_comm, List.cons_append, Pool.pieces, if_pos rfl, List.append_assoc,
      List.take_left' hprefix, List.drop_left' hprefix, hlength]
    simp

theorem narrow (htext : tag ≠ 1) (hwide : ¬ (tag = 5 ∨ tag = 6)) (hbody : body.length = bodyWidth tag) :
    Split 1 (tag :: body) [.other (tag :: body)] where
  whole := List.append_nil _
  pieces more rest := by
    rw [Nat.add_comm, List.cons_append, Pool.pieces, if_neg htext, ← hbody,
      List.take_left, List.drop_left]
    simp only [if_neg hwide, List.cons_append, List.nil_append]

theorem wide (hwide : tag = 5 ∨ tag = 6) (hbody : body.length = bodyWidth tag) :
    Split 2 (tag :: body) [.other (tag :: body)] where
  whole := List.append_nil _
  pieces more rest := by
    have htext : tag ≠ 1 := by rcases hwide with rfl | rfl <;> decide
    rw [Nat.add_comm, List.cons_append, Pool.pieces, if_neg htext, ← hbody,
      List.take_left, List.drop_left]
    simp only [if_pos hwide, List.cons_append, List.nil_append]

end Split

/-- Entries and their bytes, which are cut into `ps`: written again, the entries are cut at the same
places. -/
structure Rewrites (entries : List PoolEntry) (bytes : List UInt8) (ps : List Piece) : Prop where
  split : Split entries.length bytes ps
  again : Split entries.length (entries.flatMap PoolEntry.encode) (ps.map Piece.rewritten)
  texts : (ps.filterMap Piece.text?).map Text.ModifiedUtf8.decode =
    (entries.filterMap PoolEntry.units?).map some

namespace Rewrites

variable {entries others : List PoolEntry} {entry : PoolEntry} {front back : List UInt8}
  {ps qs : List Piece}

theorem append (h : Rewrites entries front ps) (h' : Rewrites others back qs) :
    Rewrites (entries ++ others) (front ++ back) (ps ++ qs) where
  split := by
    rw [List.length_append]
    exact h.split.append h'.split
  again := by
    rw [List.length_append, List.flatMap_append, List.map_append]
    exact h.again.append h'.again
  texts := by
    rw [List.filterMap_append, List.filterMap_append, List.map_append, List.map_append,
      h.texts, h'.texts]

/-- The text of an entry is the only part of it that may be spelled in several ways. -/
theorem of_text {units : Text.Units} (h : (PoolEntry.utf8 units).Spells front) :
    ∃ ps, Rewrites [.utf8 units] front ps := by
  obtain ⟨tag, body, rfl, htag, raw, hraw, hdecode, rfl⟩ := h
  obtain rfl : 1 = tag := Option.some.inj htag
  have hshort : (Text.ModifiedUtf8.encode units).length < UInt16.size :=
    Nat.lt_of_le_of_lt (Text.ModifiedUtf8.length_encode_le hdecode) hraw
  have htexts : [Piece.other [1], .text raw].filterMap Piece.text? = [raw] := rfl
  refine ⟨_, .text hraw, ?_, by rw [htexts]; simp [PoolEntry.units?, hdecode]⟩
  have hagain : [Piece.other [1], .text raw].map Piece.rewritten =
      [.other [1], .text (Text.ModifiedUtf8.encode units)] := by
    simp [Piece.rewritten, Text.ModifiedUtf8.rewritten_of_decode hdecode]
  rw [hagain, List.flatMap_singleton]
  exact .text hshort

/-- Any other entry is spelled in one way only, and its tag says how long it is. -/
theorem spelled_once (h : entry.Spells front) (hunits : entry.units? = none) :
    ∃ tag body, front = tag :: body ∧ entry.encode = front ∧ body.length = bodyWidth tag ∧ tag ≠ 1 ∧
      (tag = 5 ∨ tag = 6 ↔ entry.isWide = true) := by
  obtain ⟨tag, body, rfl, htag, hbody⟩ := h
  refine ⟨tag, body, rfl, ?_⟩
  cases entry <;> cases htag <;> cases hunits <;> cases hbody <;>
    simp [PoolEntry.encode, PoolEntry.tag?, PoolEntry.encodeBody, bodyWidth, PoolEntry.isWide,
      Encode.u16, Encode.u32, Encode.u64]

theorem of_narrow (h : entry.Spells front) (hnarrow : entry.isWide = false) :
    ∃ ps, Rewrites [entry] front ps := by
  cases hunits : entry.units? with
  | some units =>
    cases entry <;> cases hunits
    exact of_text h
  | none =>
    obtain ⟨tag, body, rfl, hencode, hbody, htext, hwide⟩ := spelled_once h hunits
    have hsplit := Split.narrow htext (by simp [hwide, hnarrow]) hbody
    exact ⟨_, hsplit, by simpa [hencode, Piece.rewritten] using hsplit, by simp [hunits, Piece.text?]⟩

theorem of_wide (h : entry.Spells front) (hwide : entry.isWide = true) :
    ∃ ps, Rewrites [entry, .unusable] front ps := by
  have hunits : entry.units? = none := by cases entry <;> first | rfl | cases hwide
  have hunusable : PoolEntry.unusable.encode = [] := rfl
  obtain ⟨tag, body, rfl, hencode, hbody, -, htag⟩ := spelled_once h hunits
  have hsplit := Split.wide (htag.mpr hwide) hbody
  refine ⟨_, hsplit, by simpa [hencode, hunusable, Piece.rewritten] using hsplit, ?_⟩
  rw [List.filterMap_cons_none hunits]
  rfl

theorem of_spells {bytes : List UInt8} (h : SpellsEntries bytes entries) :
    ∃ ps, Rewrites entries bytes ps := by
  induction h with
  | nil => exact ⟨[], .nil, .nil, rfl⟩
  | narrow hspells hnarrow _ ih =>
    obtain ⟨ps, hps⟩ := of_narrow hspells hnarrow
    obtain ⟨qs, hqs⟩ := ih
    exact ⟨_, hps.append hqs⟩
  | wide hspells hwide _ ih =>
    obtain ⟨ps, hps⟩ := of_wide hspells hwide
    obtain ⟨qs, hqs⟩ := ih
    exact ⟨_, hps.append hqs⟩

end Rewrites

end Pool

namespace ClassFile

variable {bytes : List UInt8} {c : ClassFile}

/-- The pieces of a class file: magic, version and the count of the pool, the pieces of its entries,
and the rest. -/
def pieces (bytes : List UInt8) : List Piece :=
  .other (bytes.take 10) :: Pool.pieces (BigEndian.toNat ((bytes.drop 8).take 2) - 1) (bytes.drop 10)

/-- The contents of the text constants, in order. -/
def texts (bytes : List UInt8) : List (List UInt8) := (pieces bytes).filterMap Piece.text?

/-- The bytes outside of the text constants, their lengths and contents, in order. -/
def outside (bytes : List UInt8) : List UInt8 := (pieces bytes).flatMap Piece.outside

/-- The entries of the pool are cut as they are on their own. -/
theorem pieces_of_split {header body : List UInt8} {ps : List Piece} {count : UInt16}
    (hheader : header.length = 8)
    (hbody : Pool.Split (count.toNat - 1) body ps) (rest : List UInt8) :
    pieces (header ++ (Encode.u16 count ++ body ++ rest)) = .other (header ++ Encode.u16 count) ::
      (ps ++ [.other rest]) := by
  have hcount : (Encode.u16 count).length = 2 := BigEndian.length_ofNat ..
  have hvalue : BigEndian.toNat (Encode.u16 count) = count.toNat := by
    rw [Encode.u16, BigEndian.toNat_ofNat_two, Nat.mod_eq_of_lt count.toNat_lt]
  have hten : (header ++ Encode.u16 count).length = 10 := by rw [List.length_append, hheader, hcount]
  have hentries := hbody.pieces 0 rest
  rw [Nat.add_zero] at hentries
  rw [pieces, List.drop_left' hheader, List.append_assoc, List.take_left' hcount, hvalue,
    ← List.append_assoc header, List.take_left' hten, List.drop_left' hten, hentries]
  rfl

/-- The class files that are read have a pool with more than entry 0, so its count is the number of
its entries. -/
theorem WellFormed.one_lt_size (h : c.WellFormed) : 1 < c.pool.size := by
  obtain ⟨entry, hentry, hclass⟩ := h.thisClass
  have hlt : c.thisClass.toNat < c.pool.size := (Array.getElem?_eq_some_iff.mp hentry).1
  refine Nat.lt_of_not_le fun hsmall => ?_
  have hzero : c.thisClass.toNat = 0 := by omega
  rw [hzero, h.pool.first] at hentry
  cases hentry
  cases hclass

/-- The bytes of a class file that was accepted, cut into pieces, and the bytes that it is written
as. -/
theorem pieces_of_decode (h : decode bytes = .ok c) :
    (pieces bytes).flatMap Piece.bytes = bytes ∧ (pieces c.encode).flatMap Piece.bytes = c.encode ∧
      pieces c.encode = (pieces bytes).map Piece.rewritten ∧
      (texts bytes).map Text.ModifiedUtf8.decode =
    (c.pool.toList.filterMap PoolEntry.units?).map some := by
  obtain ⟨_, ⟨count, body, rfl, ⟨entries, hentries, hpool, hsize⟩, -⟩, hc, rfl⟩ := decode_ok.mp h
  obtain ⟨ps, hps⟩ := Pool.Rewrites.of_spells hentries
  have hlength : c.pool.size = entries.length + 1 := by rw [hpool]; simp
  have hcount : count.toNat = entries.length + 1 := by
    have hmany := hc.one_lt_size
    simp at hsize
    omega
  have hwritten : c.pool.encode = Encode.u16 count ++ entries.flatMap PoolEntry.encode := by
    rw [Pool.encode, hlength, ← hcount, Encode.u16, hpool]
    simp
  have hheader : (Encode.u32 c.magic ++
      (Encode.u16 c.minorVersion ++ Encode.u16 c.majorVersion)).length = 8 := by
    simp [Encode.u32, Encode.u16]
  have hentries : count.toNat - 1 = entries.length := by omega
  have hread := pieces_of_split hheader (hentries ▸ hps.split) c.encodeRest
  have hagain := pieces_of_split hheader (hentries ▸ hps.again) c.encodeRest
  have htexts : c.pool.toList.filterMap PoolEntry.units? = entries.filterMap PoolEntry.units? := by
    rw [hpool, Array.toList_append, List.filterMap_append]
    rfl
  rw [encode_eq, hwritten, texts, hread, hagain, htexts]
  refine ⟨?_, ?_, ?_, ?_⟩
  · simp [Piece.bytes, hps.split.whole]
  · simp [Piece.bytes, hps.again.whole]
  · simp [Piece.rewritten]
  · rw [← hps.texts]
    simp [List.filterMap_cons]

/-- What is read and written again is the same outside of the text constants, which come back in
their shortest form; so nothing changes if and only if all of them are in that form already. -/
theorem encode_of_decode (h : decode bytes = .ok c) :
    ((pieces bytes).flatMap Piece.bytes = bytes ∧
      (texts bytes).map Text.ModifiedUtf8.decode =
        (c.pool.toList.filterMap PoolEntry.units?).map some) ∧
    (c.encode = bytes ↔ ∀ raw ∈ texts bytes, Text.ModifiedUtf8.IsCanonical raw) ∧
    c.encode.length ≤ bytes.length ∧
    pieces c.encode = (pieces bytes).map Piece.rewritten ∧ outside c.encode = outside bytes := by
  obtain ⟨hwhole, hwritten, hpieces, htexts⟩ := pieces_of_decode h
  refine ⟨⟨hwhole, htexts⟩, ?_, ?_, hpieces, ?_⟩
  · constructor
    · intro hsame raw hraw
      obtain ⟨p, hp, htext⟩ := List.mem_filterMap.mp hraw
      obtain rfl : p = .text raw := by cases p <;> cases htext; rfl
      rw [hsame] at hpieces
      have hfixed : Piece.rewritten (.text raw) = .text raw :=
        Piece.map_rewritten_eq_self.mp hpieces.symm _ hp
      have hdecoded : Text.ModifiedUtf8.decode raw ∈ (c.pool.toList.filterMap PoolEntry.units?).map
          some := by
        rw [← htexts]
        exact List.mem_map_of_mem hraw
      obtain ⟨units, -, hunits⟩ := List.mem_map.mp hdecoded
      exact Text.ModifiedUtf8.isCanonical_of_rewritten_eq hunits.symm (Piece.text.inj hfixed)
    · intro hcanonical
      have hfixed : (pieces bytes).map Piece.rewritten =
          pieces bytes := Piece.map_rewritten_eq_self.mpr fun p hp => by
        cases p with
        | text raw => exact congrArg Piece.text (hcanonical raw
            (List.mem_filterMap.mpr ⟨_, hp, rfl⟩)).rewritten_eq
        | other _ => rfl
      rw [← hwritten, hpieces, hfixed, hwhole]
  · have hlength := Piece.length_map_rewritten_le (pieces bytes)
    rwa [← hpieces, hwritten, hwhole] at hlength
  · rw [outside, hpieces, List.flatMap_map]
    simp only [Piece.outside_rewritten]
    rfl

theorem encode_of_decode_sample :
    sample.encode ≠ sampleBytes ∧ outside sample.encode = outside sampleBytes := by
  have hfidelity := encode_of_decode decode_sampleBytes
  have hname : [0xC1, 0x81] ∈ texts sampleBytes ∧ ¬ Text.ModifiedUtf8.IsCanonical [0xC1, 0x81] := by
    decide +kernel
  exact ⟨fun hsame => hname.2 (hfidelity.2.1.mp hsame _ hname.1), hfidelity.2.2.2.2⟩

end ClassFile

end JavaMachine
