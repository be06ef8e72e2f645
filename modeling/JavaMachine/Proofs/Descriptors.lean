import Mathlib.Algebra.GroupWithZero.Nat
import Mathlib.Data.List.Forall2
import Mathlib.Data.List.TakeWhile
import JavaMachine.Descriptor

/-!
Descriptors and the types that they describe.

A type is read from its text and from no other, so that descriptors print back as they were read
(`descriptors_print_back`). The descriptor of a method is cut at its first closing parenthesis
before its types are read, and its result may not have a line feed. Class names may have both, so
not every descriptor that is put together from the texts of types is read:
`MethodDescriptor.parse_of_texts` says which ones are.
-/

namespace JavaMachine

/-- A name that descriptors can have for a class. -/
def ArrayName.Describable (name : String) : Prop := name ≠ "" ∧ ';' ∉ name.toList

instance : DecidablePred ArrayName.Describable :=
  fun name => inferInstanceAs (Decidable (name ≠ "" ∧ ';' ∉ name.toList))

namespace FieldType

variable {s rest : List Char} {t : FieldType} {types : List FieldType}

/-- A type whose class has a name that descriptors can have. -/
def WellFormed : FieldType → Prop
  | object name => ArrayName.Describable name
  | array component => component.WellFormed
  | _ => True

instance decidableWellFormed : DecidablePred WellFormed
  | object name => inferInstanceAs (Decidable (ArrayName.Describable name))
  | array component => decidableWellFormed component
  | boolean | byte | char | short | int | long | float | double => .isTrue trivial

/-! ### Reading one type -/

/-- A class name ends at the first semicolon. -/
theorem read_object {chars rest : List Char} (hempty : chars ≠ []) (hchars : ';' ∉ chars) :
    read ('L' :: (chars ++ ';' :: rest)) = some (.object (String.ofList chars), rest) := by
  have hall : ∀ c ∈ chars, (decide (c ≠ ';')) = true :=
    fun c hc => decide_eq_true fun heq => hchars (heq ▸ hc)
  rw [read, List.takeWhile_append_of_pos hall, List.dropWhile_append_of_pos hall]
  cases chars with
  | nil => exact absurd rfl hempty
  | cons c chars => simp

theorem read_close (rest : List Char) : read (')' :: rest) = none := by simp [read]

/-- A type is read from its text, whatever comes after it. -/
theorem read_chars_append (h : t.WellFormed) (rest : List Char) :
    read (t.chars ++ rest) = some (t, rest) := by
  induction t with
  | object name =>
    have hchars : (object name).chars ++ rest = 'L' :: (name.toList ++ ';' :: rest) := by simp [chars]
    rw [hchars, read_object (by simpa using h.1) h.2, String.ofList_toList]
  | array component ih =>
    rw [chars, List.cons_append, read, ih h]
    rfl
  | _ => rfl

/-- What is read is the text of a well-formed type, and the rest. -/
theorem wellFormed_of_read (h : read s = some (t, rest)) : t.WellFormed ∧ s = t.chars ++ rest := by
  fun_induction read s generalizing t rest with
  | case9 tail c name d after hdrop htake =>
    cases h
    have hsplit := List.takeWhile_append_dropWhile (p := (· ≠ ';')) (l := tail)
    have hname : ∀ x ∈ c :: name, x ≠ ';' := by
      intro x hx
      rw [← htake] at hx
      simpa using List.mem_takeWhile_imp hx
    have hd : d = ';' := by
      have hhead := List.head?_dropWhile_not (· ≠ ';') tail
      rw [hdrop] at hhead
      simpa using hhead
    refine ⟨⟨by simp, fun hmem => ?_⟩, ?_⟩
    · rw [String.toList_ofList] at hmem
      exact hname _ hmem rfl
    · rw [← hsplit, htake, hdrop, hd]
      simp [chars]
  | case11 tail ih =>
    obtain ⟨⟨component, after⟩, hread, hpair⟩ := Option.map_eq_some_iff.mp h
    cases hpair
    obtain ⟨hwell, rfl⟩ := ih hread
    exact ⟨hwell, rfl⟩
  | case10 | case12 => cases h
  | _ =>
    cases h
    exact ⟨trivial, rfl⟩

theorem read_eq_some_iff : read s = some (t, rest) ↔ t.WellFormed ∧ s = t.chars ++ rest :=
  ⟨wellFormed_of_read, fun ⟨h, hs⟩ => hs ▸ read_chars_append h rest⟩

theorem parse_eq_some_iff {s : String} : parse s = some t ↔ t.WellFormed ∧ t.text = s := by
  have hparse : parse s = some t ↔ read s.toList = some (t, []) := by
    unfold parse
    split <;> simp_all
  rw [hparse, read_eq_some_iff, List.append_nil, text, ← String.toList_inj, String.toList_ofList,
    eq_comm (a := s.toList)]

/-! ### Reading types to the end -/

theorem readAll_of_read (h : read s = some (t, rest)) : readAll s = (readAll rest).map (t :: ·) := by
  cases s with
  | nil => cases h
  | cons c s =>
    rw [readAll]
    split
    · rename_i hread
      rw [h] at hread
      cases hread
      rfl
    · rename_i hread
      rw [h] at hread
      cases hread

theorem readAll_eq_some_iff :
    readAll s = some types ↔ (∀ t ∈ types, t.WellFormed) ∧ s = types.flatMap chars := by
  constructor
  · intro h
    fun_induction readAll s generalizing types with
    | case1 =>
      cases h
      exact ⟨by simp, rfl⟩
    | case2 c s t rest hread ih =>
      obtain ⟨types, hrest, rfl⟩ := Option.map_eq_some_iff.mp h
      obtain ⟨hwell, hs⟩ := wellFormed_of_read hread
      obtain ⟨hwells, rfl⟩ := ih hrest
      exact ⟨List.forall_mem_cons.mpr ⟨hwell, hwells⟩, hs⟩
    | case3 => cases h
  · rintro ⟨hwell, rfl⟩
    induction types with
    | nil => rw [List.flatMap_nil, readAll]
    | cons t types ih =>
      obtain ⟨ht, hwell⟩ := List.forall_mem_cons.mp hwell
      rw [List.flatMap_cons, readAll_of_read (read_chars_append ht _), ih hwell]
      rfl

/-- Lists of types that are followed by what begins no type are told apart by their texts. -/
theorem flatMap_chars_append_injective {types types' : List FieldType} {rest' : List Char}
    (h : ∀ t ∈ types, t.WellFormed)
    (h' : ∀ t ∈ types', t.WellFormed) (hrest : read rest = none) (hrest' : read rest' = none)
    (heq : types.flatMap chars ++ rest = types'.flatMap chars ++ rest') : types = types' ∧
      rest = rest' := by
  induction types generalizing types' with
  | nil =>
    cases types' with
    | nil => exact ⟨rfl, heq⟩
    | cons t' types' =>
      rw [List.flatMap_nil, List.nil_append, List.flatMap_cons, List.append_assoc] at heq
      rw [heq, read_chars_append (List.forall_mem_cons.mp h').1] at hrest
      cases hrest
  | cons t types ih =>
    obtain ⟨ht, htypes⟩ := List.forall_mem_cons.mp h
    have hread := read_chars_append ht (types.flatMap chars ++ rest)
    rw [← List.append_assoc, ← List.flatMap_cons, heq] at hread
    cases types' with
    | nil =>
      rw [List.flatMap_nil, List.nil_append, hrest'] at hread
      cases hread
    | cons t' types' =>
      obtain ⟨ht', htypes'⟩ := List.forall_mem_cons.mp h'
      rw [List.flatMap_cons, List.append_assoc, read_chars_append ht'] at hread
      simp only [Option.some.injEq, Prod.mk.injEq] at hread
      obtain ⟨rfl, hsame⟩ := hread
      obtain ⟨rfl, rfl⟩ := ih htypes htypes' hsame.symm
      exact ⟨rfl, rfl⟩

/-- The texts that types are read from are theirs. -/
theorem texts_of_parse {texts : List String}
    (h : List.Forall₂ (fun text type => parse text = some type) texts types) :
    (∀ t ∈ types, t.WellFormed) ∧ texts = types.map text := by
  induction h with
  | nil => exact ⟨by simp, rfl⟩
  | cons hread _ ih =>
    obtain ⟨hwell, rfl⟩ := parse_eq_some_iff.mp hread
    obtain ⟨hwells, rfl⟩ := ih
    exact ⟨List.forall_mem_cons.mpr ⟨hwell, hwells⟩, rfl⟩

end FieldType

namespace ReturnType

variable {s rest : List Char} {t : ReturnType}

/-- Void, or a well-formed type. -/
def WellFormed : ReturnType → Prop
  | void => True
  | value t => t.WellFormed

theorem toList_text_value (t : FieldType) : (value t).text.toList = t.chars := String.toList_ofList

theorem read_eq_some_iff : read s = some (t, rest) ↔ t.WellFormed ∧ s = t.text.toList ++ rest := by
  cases t with
  | void =>
    have hvoid : void.text.toList = ['V'] := rfl
    simp only [hvoid, WellFormed, true_and, List.cons_append, List.nil_append]
    unfold read
    split <;> simp_all
  | value t =>
    rw [toList_text_value, WellFormed, ← FieldType.read_eq_some_iff]
    unfold read
    split
    · simp [FieldType.read]
    · simp

theorem parse_eq_some_iff : parse s = some t ↔ t.WellFormed ∧ s = t.text.toList ∧ '\n' ∉ s := by
  have hparse : parse s = some t ↔ read s = some (t, []) ∧ '\n' ∉ s := by
    unfold parse
    split
    · split <;> simp_all
    · simp_all
  rw [hparse, read_eq_some_iff, List.append_nil, and_assoc]

theorem text_injective {t' : ReturnType} (h : t.WellFormed) (h' : t'.WellFormed)
    (heq : t.text = t'.text) : t = t' := by
  have hread := read_eq_some_iff.mpr ⟨h, (List.append_nil _).symm⟩
  rw [heq, read_eq_some_iff.mpr ⟨h', (List.append_nil _).symm⟩] at hread
  cases hread
  rfl

theorem text_of_parse {text : String}
    (h : text = "V" ∧ t = .void ∨ ∃ type, FieldType.parse text = some type ∧ t = .value type) :
    t.WellFormed ∧ text = t.text := by
  rcases h with ⟨rfl, rfl⟩ | ⟨type, hread, rfl⟩
  · exact ⟨trivial, rfl⟩
  · obtain ⟨hwell, rfl⟩ := FieldType.parse_eq_some_iff.mp hread
    exact ⟨hwell, rfl⟩

end ReturnType

namespace MethodDescriptor

variable {s : String} {d d' : MethodDescriptor}

/-- A descriptor that has a text. -/
structure WellFormed (d : MethodDescriptor) : Prop where
  arguments : ∀ t ∈ d.arguments, t.WellFormed
  result : d.result.WellFormed

theorem toList_text (d : MethodDescriptor) :
    d.text.toList = '(' :: (d.arguments.flatMap FieldType.chars ++ ')' :: d.result.text.toList) := by
  simp [text]

/-! ### Cutting a descriptor -/

/-- The arguments end at the first closing parenthesis. -/
theorem parse_of_cut {arguments result : List Char}
    (hs : s.toList = '(' :: (arguments ++ ')' :: result))
    (harguments : ')' ∉ arguments) : parse s = (ReturnType.parse result).bind fun result =>
      (FieldType.readAll arguments).map fun arguments => { arguments, result } := by
  have hall : ∀ c ∈ arguments, (decide (c ≠ ')')) = true :=
    fun c hc => decide_eq_true fun heq => harguments (heq ▸ hc)
  have hdrop : (arguments ++ ')' :: result).dropWhile (· ≠ ')') = ')' :: result := by
    rw [List.dropWhile_append_of_pos hall]
    simp
  have htake : (arguments ++ ')' :: result).takeWhile (· ≠ ')') = arguments := by
    rw [List.takeWhile_append_of_pos hall]
    simp
  simp only [parse, hs, hdrop, htake]
  rcases ReturnType.parse result with _ | result
  · rfl
  · rcases FieldType.readAll arguments with _ | arguments <;> rfl

theorem exists_cut (h : parse s = some d) :
    ∃ arguments result, s.toList = '(' :: (arguments ++ ')' :: result) ∧ ')' ∉ arguments := by
  unfold parse at h
  split at h
  · rename_i s hs
    split at h
    · rename_i c result hdrop
      have hsplit := List.takeWhile_append_dropWhile (p := (· ≠ ')')) (l := s)
      have hhead := List.head?_dropWhile_not (· ≠ ')') s
      rw [hdrop] at hsplit hhead
      obtain rfl : c = ')' := by simpa using hhead
      refine ⟨s.takeWhile (· ≠ ')'), result, by rw [hsplit, hs], fun hmem => ?_⟩
      simpa using List.mem_takeWhile_imp hmem
    · cases h
  · cases h

/-- A text is read as the descriptor that it is the text of, if cutting it finds the arguments. -/
theorem parse_eq_some_iff : parse s = some d ↔ d.WellFormed ∧ d.text = s ∧
    ')' ∉ d.arguments.flatMap FieldType.chars ∧ '\n' ∉ d.result.text.toList := by
  rw [← String.toList_inj, toList_text]
  constructor
  · intro h
    obtain ⟨arguments, result, hs, hcut⟩ := exists_cut h
    rw [parse_of_cut hs hcut, Option.bind_eq_some_iff] at h
    obtain ⟨type, hresult, h⟩ := h
    obtain ⟨types, harguments, rfl⟩ := Option.map_eq_some_iff.mp h
    obtain ⟨htype, rfl, hline⟩ := ReturnType.parse_eq_some_iff.mp hresult
    obtain ⟨htypes, rfl⟩ := FieldType.readAll_eq_some_iff.mp harguments
    exact ⟨⟨htypes, htype⟩, hs.symm, hcut, hline⟩
  · rintro ⟨h, hs, hcut, hline⟩
    rw [parse_of_cut hs.symm hcut, ReturnType.parse_eq_some_iff.mpr ⟨h.result, rfl, hline⟩,
      FieldType.readAll_eq_some_iff.mpr ⟨h.arguments, rfl⟩]
    rfl

/-- Well-formed descriptors are told apart by their texts. -/
theorem text_injective (h : d.WellFormed) (h' : d'.WellFormed) (heq : d.text = d'.text) : d = d' := by
  rw [← String.toList_inj, toList_text, toList_text, List.cons_inj_right] at heq
  obtain ⟨harguments, hresult⟩ := FieldType.flatMap_chars_append_injective h.arguments h'.arguments
    (FieldType.read_close _) (FieldType.read_close _) heq
  have hresult := ReturnType.text_injective h.result h'.result
    (String.toList_inj.mp (List.cons_inj_right _ |>.mp hresult))
  cases d
  cases d'
  cases harguments
  cases hresult
  rfl

theorem text_eq (d : MethodDescriptor) :
    d.text = "(" ++ String.join (d.arguments.map FieldType.text) ++ ")" ++ d.result.text := by
  rw [← String.toList_inj, toList_text]
  simp [List.flatMap_map, FieldType.text]

/-- A descriptor made of the texts of its types is read back as these types, unless a class of its
arguments has a closing parenthesis in its name, or the class of its result a line feed. Then it is
not read at all. -/
theorem parse_of_texts {arguments : List String} {types : List FieldType} {result : String}
    {type : ReturnType}
    (harguments : List.Forall₂ (fun text type => FieldType.parse text = some type) arguments types)
    (hresult : result = "V" ∧ type = .void ∨ ∃ t, FieldType.parse result = some t ∧ type = .value t) :
    parse ("(" ++ String.join arguments ++ ")" ++ result) =
        (if (∃ text ∈ arguments, ')' ∈ text.toList) ∨ '\n' ∈ result.toList then none
          else some ⟨types, type⟩) ∧
      argumentSlots ⟨types, type⟩ = (types.map FieldType.size).sum := by
  obtain ⟨htypes, rfl⟩ := FieldType.texts_of_parse harguments
  obtain ⟨htype, rfl⟩ := ReturnType.text_of_parse hresult
  have hd : WellFormed ⟨types, type⟩ := ⟨htypes, htype⟩
  have hcut : (∃ text ∈ types.map FieldType.text, ')' ∈ text.toList) ↔
      ')' ∈ types.flatMap FieldType.chars := by
    simp [FieldType.text]
  refine ⟨?_, ?_⟩
  · rw [← text_eq ⟨types, type⟩]
    split
    · rename_i hbad
      rcases hread : parse (text ⟨types, type⟩) with _ | d
      · rfl
      · -- No other descriptor has this text, so it would be read as the one it was made of.
        obtain ⟨hd', htext, hgood, hline⟩ := parse_eq_some_iff.mp hread
        cases text_injective hd' hd htext
        exact absurd (hbad.imp_left hcut.mp) (not_or.mpr ⟨hgood, hline⟩)
    · rename_i hgood
      obtain ⟨hgood, hline⟩ := not_or.mp hgood
      exact parse_eq_some_iff.mpr ⟨hd, rfl, mt hcut.mpr hgood, hline⟩
  · rw [argumentSlots, List.sum, List.foldr_map]

/-- A class name of the arguments has a line feed, and that of the result a closing parenthesis, so
both are read. -/
theorem parse_of_texts_spelled :
    parse "(J[La\nb;)La)b;" = some ⟨[.long, .array (.object "a\nb")], .value (.object "a)b")⟩ ∧
      argumentSlots ⟨[.long, .array (.object "a\nb")], .value (.object "a)b")⟩ = 3 := by
  have harguments : List.Forall₂ (fun text type => FieldType.parse text = some type) ["J", "[La\nb;"]
      [.long, .array (.object "a\nb")] := .cons (by decide +kernel) (.cons (by decide +kernel) .nil)
  have hresult : FieldType.parse "La)b;" = some (.object "a)b") := by decide +kernel
  have hread := parse_of_texts harguments (.inr ⟨_, hresult, rfl⟩)
  rw [if_neg (by decide +kernel)] at hread
  exact hread

/-- A class name of the arguments with a closing parenthesis is cut in two. -/
theorem not_always_read : ¬ ∀ (arguments : List String) (types : List FieldType) (result : String)
      (type : ReturnType),
    List.Forall₂ (fun text type => FieldType.parse text = some type) arguments types →
      (result = "V" ∧ type = .void ∨ ∃ t, FieldType.parse result = some t ∧ type = .value t) →
        parse ("(" ++ String.join arguments ++ ")" ++ result) = some ⟨types, type⟩ := by
  intro h
  have hargument : FieldType.parse "La)b;" = some (.object "a)b") := by decide +kernel
  have hread := h ["La)b;"] [.object "a)b"] "V" .void (.cons hargument .nil) (.inl ⟨rfl, rfl⟩)
  have hnone : parse ("(" ++ String.join ["La)b;"] ++ ")" ++ "V") = none := by decide +kernel
  rw [hnone] at hread
  cases hread

end MethodDescriptor

/-! ### Printing back -/

theorem ReturnType.text_of_decode {s : String} {t : ReturnType} {length : Nat}
    (h : decode s = some (t, length)) :
    length ≤ s.utf8ByteSize ∧ t.text.toByteArray = s.toByteArray.extract 0 length := by
  obtain ⟨⟨t, rest⟩, hread, hpair⟩ := Option.map_eq_some_iff.mp h
  cases hpair
  have hs : s = t.text ++ String.ofList rest := by
    rw [← String.toList_inj, String.toList_append, String.toList_ofList]
    exact (read_eq_some_iff.mp hread).2
  have hlength : s.utf8ByteSize - (String.ofList rest).utf8ByteSize = t.text.utf8ByteSize := by
    rw [hs, String.utf8ByteSize_append]
    omega
  refine ⟨Nat.sub_le _ _, ?_⟩
  rw [hlength, hs, String.toByteArray_append,
    ByteArray.extract_append_eq_left String.size_toByteArray.symm]

/-- A text is read as a type just if it is the type's text, a type at the front of a text spans as
many bytes as its text has, and a method descriptor is made of the texts of its types. -/
theorem descriptors_print_back :
    (∀ s t, FieldType.parse s = some t ↔ t.WellFormed ∧ t.text = s) ∧
      (∀ s t length, ReturnType.decode s = some (t, length) →
        length ≤ s.utf8ByteSize ∧ t.text.toByteArray = s.toByteArray.extract 0 length) ∧
      ∀ s d, MethodDescriptor.parse s = some d →
        s = "(" ++ String.join (d.arguments.map FieldType.text) ++ ")" ++ d.result.text ∧
          ∀ t ∈ d.arguments, t.WellFormed ∧ ReturnType.value t ≠ .void := by
  refine ⟨fun _ _ => FieldType.parse_eq_some_iff, fun _ _ _ => ReturnType.text_of_decode,
    fun s d hread => ?_⟩
  obtain ⟨hd, rfl, -⟩ := MethodDescriptor.parse_eq_some_iff.mp hread
  exact ⟨d.text_eq, fun t ht => ⟨hd.arguments t ht, by simp⟩⟩

/-- The letter of the class name has two bytes. -/
theorem descriptors_print_back_accented :
    FieldType.parse "[Lé;" = some (.array (.object "é")) ∧
      (5 ≤ "[Lé;I".utf8ByteSize ∧
        (ReturnType.value (.array (.object "é"))).text.toByteArray = "[Lé;I".toByteArray.extract 0 5) ∧
      "([Lé;I)V" = "(" ++ String.join ([.array (.object "é"), .int].map FieldType.text) ++ ")" ++
        ReturnType.void.text := by
  obtain ⟨hfield, hdecode, hmethod⟩ := descriptors_print_back
  have hparse : MethodDescriptor.parse "([Lé;I)V" = some ⟨[.array (.object "é"), .int], .void⟩ := by
    decide +kernel
  exact ⟨(hfield _ _).mpr ⟨by decide +kernel, by decide +kernel⟩, hdecode _ _ _ (by decide +kernel),
    (hmethod _ _ hparse).1⟩

end JavaMachine
