import JavaMachine.Proofs.Evolution

/-!
Where the fields of a class are.

Placing gives every field of a kind the slots right after those of the field before it
(`Layout.Follow`). The instance fields of a class come right after those of its super class, so the
fields of a whole super chain take up the slots of an object one after the other: no two share a
slot and no slot is left over (`Machine.Regular.fieldsTile`).
-/

namespace JavaMachine

namespace Layout

variable {isStatic : Bool} {fields : List Field} {first last : Nat}

/-- The fields of a kind take the slots from `first` up to `last`, one field after the other. -/
inductive Follow (isStatic : Bool) : List Field → Nat → Nat → Prop where
  | none (last : Nat) : Follow isStatic [] last last
  | field {f : Field} {fields : List Field} {last : Nat} (kind : f.flags.isStatic = isStatic)
      (rest : Follow isStatic fields (f.slot + f.width) last) :
      Follow isStatic (f :: fields) f.slot last
  | other {f : Field} {fields : List Field} {first last : Nat} (kind : f.flags.isStatic ≠ isStatic)
      (rest : Follow isStatic fields first last) : Follow isStatic (f :: fields) first last

/-- Placed fields follow each other, those of either kind. -/
theorem follow_placeAll : ∀ (fields : List Field) (l : Layout),
    Follow true (l.placeAll fields).1 l.staticSlots (l.placeAll fields).2.staticSlots ∧
      Follow false (l.placeAll fields).1 l.instanceSlots (l.placeAll fields).2.instanceSlots
  | [], _ => ⟨.none _, .none _⟩
  | f :: fields, l => by
    obtain ⟨hstatics, hinstances⟩ := follow_placeAll fields (l.place f).2
    rw [placeAll]
    dsimp only
    rcases hkind : f.flags.isStatic with _ | _ <;> simp only [place, hkind] at hstatics hinstances ⊢
    · exact ⟨.other (by simp [hkind]) hstatics, .field hkind hinstances⟩
    · exact ⟨.field hkind hstatics, .other (by simp [hkind]) hinstances⟩

namespace Follow

theorem le (h : Follow isStatic fields first last) : first ≤ last := by
  induction h with
  | none => exact Nat.le_refl _
  | field _ _ ih => exact Nat.le_trans (Nat.le_add_right ..) ih
  | other _ _ ih => exact ih

theorem within (h : Follow isStatic fields first last) {f : Field} (hf : f ∈ fields)
    (hkind : f.flags.isStatic = isStatic) : first ≤ f.slot ∧ f.slot + f.width ≤ last := by
  induction h with
  | none => cases hf
  | field _ rest ih =>
    rcases List.mem_cons.mp hf with rfl | hf
    · exact ⟨Nat.le_refl _, rest.le⟩
    · exact ⟨Nat.le_trans (Nat.le_add_right ..) (ih hf).1, (ih hf).2⟩
  | other kind _ ih =>
    rcases List.mem_cons.mp hf with rfl | hf
    · exact absurd hkind kind
    · exact ih hf

/-- A field ends before the ones that come later. -/
theorem ordered (h : Follow isStatic fields first last) {i j : Nat} {f g : Field} (hij : i < j)
    (hf : fields[i]? = some f) (hg : fields[j]? = some g) (hfkind : f.flags.isStatic = isStatic)
    (hgkind : g.flags.isStatic = isStatic) : f.slot + f.width ≤ g.slot := by
  induction h generalizing i j with
  | none => cases hf
  | field _ rest ih =>
    obtain ⟨j, rfl⟩ := Nat.exists_eq_succ_of_ne_zero (Nat.ne_of_gt (Nat.zero_lt_of_lt hij))
    rw [List.getElem?_cons_succ] at hg
    rcases i with _ | i
    · cases hf
      exact (rest.within (List.mem_of_getElem? hg) hgkind).1
    · exact ih (Nat.lt_of_succ_lt_succ hij) (by simpa using hf) hg
  | other kind _ ih =>
    obtain ⟨j, rfl⟩ := Nat.exists_eq_succ_of_ne_zero (Nat.ne_of_gt (Nat.zero_lt_of_lt hij))
    rcases i with _ | i
    · cases hf
      exact absurd hfkind kind
    · exact ih (Nat.lt_of_succ_lt_succ hij) (by simpa using hf) (by simpa using hg)

/-- Every field of the kind ends before the next one. -/
theorem pairwise (h : Follow isStatic fields first last) :
    fields.Pairwise fun f g => f.flags.isStatic = isStatic → g.flags.isStatic = isStatic →
      f.slot + f.width ≤ g.slot := by
  induction h with
  | none => exact .nil
  | field _ rest ih => exact .cons (fun g hg _ hkind => (rest.within hg hkind).1) ih
  | other kind _ ih => exact .cons (fun _ _ hkind => absurd hkind kind) ih

/-- No slot is left over. -/
theorem covers (h : Follow isStatic fields first last) {n : Nat} (hfirst : first ≤ n)
    (hlast : n < last) :
    ∃ (i : Nat) (f : Field), fields[i]? = some f ∧ f.flags.isStatic = isStatic ∧ f.slot ≤ n ∧
      n < f.slot + f.width := by
  induction h with
  | none => exact absurd hlast (Nat.not_lt_of_le hfirst)
  | @field f _ _ kind _ ih =>
    by_cases hn : n < f.slot + f.width
    · exact ⟨0, f, rfl, kind, hfirst, hn⟩
    · obtain ⟨i, g, hg, hgn⟩ := ih (Nat.le_of_not_lt hn) hlast
      exact ⟨i + 1, g, by simpa using hg, hgn⟩
  | other _ _ ih =>
    obtain ⟨i, g, hg, hgn⟩ := ih hfirst hlast
    exact ⟨i + 1, g, by simpa using hg, hgn⟩

end Follow

end Layout

namespace Machine

variable {m m' : Machine} {id k : ClassId} {f : FieldId}

/-! ### Super chains -/

/-- `other` is `id` itself or one of the classes above it. -/
inductive Extends (m : Machine) : ClassId → ClassId → Prop where
  | refl (id : ClassId) : Extends m id id
  | super {id k other : ClassId} (super : (m.cls id).superClass = some k) (above : Extends m k other) :
      Extends m id other

/-- No class on the super chain is an array class. -/
def ArrayFree (m : Machine) (id : ClassId) : Prop :=
  ∀ other, m.Extends id other → (m.cls other).isArray = false

theorem arrayFree_of_root (hid : (m.cls id).isArray = false)
    (hroot : (m.cls id).superClass = none) : m.ArrayFree id := by
  intro other h
  cases h with
  | refl => exact hid
  | super super => rw [hroot] at super; cases super

theorem arrayFree_of_super (hid : (m.cls id).isArray = false) (hsuper : (m.cls id).superClass = some k)
    (h : m.ArrayFree k) : m.ArrayFree id := by
  intro other hother
  cases hother with
  | refl => exact hid
  | super super above =>
    rw [hsuper] at super
    cases super
    exact h other above

theorem ArrayFree.super (h : m.ArrayFree id) (hk : (m.cls id).superClass = some k) : m.ArrayFree k :=
  fun _ habove => h _ (.super hk habove)

theorem Extends.lt (hm : m.Sound) (hid : id.index < m.classes.size) (h : m.Extends id k) :
    k.index < m.classes.size := by
  induction h with
  | refl => exact hid
  | super super _ ih => exact ih (hm.above _ _ (.inl super))

/-- The super chain of a class that is there stays. -/
theorem Evolves.extends (hevolves : m.Evolves m') (hm : m.Sound) (hid : id.index < m.classes.size) :
    m'.Extends id k ↔ m.Extends id k := by
  constructor
  · intro h
    induction h with
    | refl id => exact .refl id
    | super super _ ih =>
      rw [(hevolves.later _ hid).superClass] at super
      exact .super super (ih (hm.above _ _ (.inl super)))
  · intro h
    induction h with
    | refl id => exact .refl id
    | super super _ ih =>
      have hk := hm.above _ _ (.inl super)
      rw [← (hevolves.later _ hid).superClass] at super
      exact .super super (ih hk)

theorem Evolves.arrayFree (hevolves : m.Evolves m') (hm : m.Sound) (hid : id.index < m.classes.size)
    (h : m.ArrayFree id) : m'.ArrayFree id := by
  intro other hother
  rw [hevolves.extends hm hid] at hother
  rw [(hevolves.later other (hother.lt hm hid)).isArray]
  exact h other hother

/-! ### Fields -/

/-- A field of the class, static or not. -/
structure Declared (m : Machine) (isStatic : Bool) (id : ClassId) (f : FieldId) : Prop where
  owner : f.owner = id
  there : f.index < (m.cls id).fields.size
  kind : (m.fieldAt f).flags.isStatic = isStatic

/-- An instance field of the class or of one above it. -/
def InstanceField (m : Machine) (id : ClassId) (f : FieldId) : Prop :=
  m.Extends id f.owner ∧ m.Declared false f.owner f

theorem Declared.getElem? {isStatic : Bool} (h : m.Declared isStatic id f) :
    (m.cls id).fields.toList[f.index]? = some (m.fieldAt f) := by
  rw [fieldAt, h.owner]
  simp [Array.getD, h.there]

theorem declared_of_getElem? {isStatic : Bool} {i : Nat} {field : Field}
    (h : (m.cls id).fields.toList[i]? = some field) (hkind : field.flags.isStatic = isStatic) :
    m.Declared isStatic id ⟨id, i⟩ ∧ m.fieldAt ⟨id, i⟩ = field := by
  obtain ⟨hlt, rfl⟩ := List.getElem?_eq_some_iff.mp h
  have hsize : i < (m.cls id).fields.size := by simpa using hlt
  have hfield : m.fieldAt ⟨id, i⟩ = (m.cls id).fields.toList[i] := by simp [fieldAt, Array.getD, hsize]
  exact ⟨⟨rfl, hsize, hfield.symm ▸ hkind⟩, hfield⟩

theorem Evolves.fieldAt (hevolves : m.Evolves m') (hf : f.owner.index < m.classes.size) :
    m'.fieldAt f = m.fieldAt f := by
  rw [Machine.fieldAt, Machine.fieldAt, (hevolves.later _ hf).fields]

theorem Evolves.declared {isStatic : Bool} (hevolves : m.Evolves m') (hid : id.index < m.classes.size) :
    m'.Declared isStatic id f ↔ m.Declared isStatic id f := by
  constructor <;> rintro ⟨rfl, there, kind⟩
  · rw [(hevolves.later _ hid).fields] at there
    rw [hevolves.fieldAt hid] at kind
    exact ⟨rfl, there, kind⟩
  · rw [← (hevolves.later _ hid).fields] at there
    rw [← hevolves.fieldAt hid] at kind
    exact ⟨rfl, there, kind⟩

theorem Evolves.instanceField (hevolves : m.Evolves m') (hm : m.Sound)
    (hid : id.index < m.classes.size) :
    m'.InstanceField id f ↔ m.InstanceField id f := by
  rw [InstanceField, InstanceField, hevolves.extends hm hid]
  exact and_congr_right fun h => hevolves.declared (h.lt hm hid)

/-! ### Tilings -/

/-- Fields take up the slots from `first` up to `last`: each of them lies there, no two share a
slot, and no slot is left over. -/
structure Tiles (m : Machine) (p : FieldId → Prop) (first last : Nat) : Prop where
  within : ∀ f, p f → first ≤ (m.fieldAt f).slot ∧ (m.fieldAt f).slot + (m.fieldAt f).width ≤ last
  disjoint : ∀ f g, p f → p g → f ≠ g → (m.fieldAt f).slot + (m.fieldAt f).width ≤ (m.fieldAt g).slot ∨
    (m.fieldAt g).slot + (m.fieldAt g).width ≤ (m.fieldAt f).slot
  covers : ∀ n, first ≤ n → n < last →
    ∃ f, p f ∧ (m.fieldAt f).slot ≤ n ∧ n < (m.fieldAt f).slot + (m.fieldAt f).width

namespace Tiles

variable {p q : FieldId → Prop} {first middle last : Nat}

/-- The fields of a class that follow each other. -/
theorem of_follow {isStatic : Bool} (h : Layout.Follow isStatic (m.cls id).fields.toList first last) :
    m.Tiles (m.Declared isStatic id) first last where
  within f hf := h.within (List.mem_of_getElem? hf.getElem?) hf.kind
  disjoint f g hf hg hne := by
    have hindex : f.index ≠ g.index := by
      intro heq
      obtain ⟨owner, index⟩ := f
      obtain ⟨owner', index'⟩ := g
      have howner : owner = owner' := hf.owner.trans hg.owner.symm
      dsimp only at heq
      exact hne (by rw [howner, heq])
    rcases Nat.lt_or_gt_of_ne hindex with hlt | hlt
    · exact .inl (h.ordered hlt hf.getElem? hg.getElem? hf.kind hg.kind)
    · exact .inr (h.ordered hlt hg.getElem? hf.getElem? hg.kind hf.kind)
  covers n hfirst hlast := by
    obtain ⟨i, field, hfield, hkind, hslot, hend⟩ := h.covers hfirst hlast
    obtain ⟨hdeclared, heq⟩ := declared_of_getElem? hfield hkind
    exact ⟨⟨id, i⟩, hdeclared, heq.symm ▸ hslot, heq.symm ▸ hend⟩

/-- Tilings one after the other. -/
theorem append {r : FieldId → Prop} (h : m.Tiles p first middle) (h' : m.Tiles q middle last)
    (hle : first ≤ middle) (hle' : middle ≤ last) (hr : ∀ f, r f ↔ p f ∨ q f) :
    m.Tiles r first last where
  within f hf := by
    rcases (hr f).mp hf with hf | hf
    · exact ⟨(h.within f hf).1, Nat.le_trans (h.within f hf).2 hle'⟩
    · exact ⟨Nat.le_trans hle (h'.within f hf).1, (h'.within f hf).2⟩
  disjoint f g hf hg hne := by
    rcases (hr f).mp hf with hf | hf <;> rcases (hr g).mp hg with hg | hg
    · exact h.disjoint f g hf hg hne
    · exact .inl (Nat.le_trans (h.within f hf).2 (h'.within g hg).1)
    · exact .inr (Nat.le_trans (h.within g hg).2 (h'.within f hf).1)
    · exact h'.disjoint f g hf hg hne
  covers n hfirst hlast := by
    by_cases hn : n < middle
    · obtain ⟨f, hf, hslot⟩ := h.covers n hfirst hn
      exact ⟨f, (hr f).mpr (.inl hf), hslot⟩
    · obtain ⟨f, hf, hslot⟩ := h'.covers n (Nat.le_of_not_lt hn) hlast
      exact ⟨f, (hr f).mpr (.inr hf), hslot⟩

theorem congr {p' : FieldId → Prop} (h : m.Tiles p first last) (hp : ∀ f, p' f ↔ p f) :
    m.Tiles p' first last := by
  rwa [show p' = p from funext fun f => propext (hp f)]

end Tiles

/-- The static fields of a class tile its static storage, and the instance fields on its super chain
tile its instances. -/
structure FieldsTile (m : Machine) (id : ClassId) : Prop where
  statics : m.Tiles (m.Declared true id) 0 (m.cls id).staticSlots
  storage : (m.cls id).statics.size = (m.cls id).staticSlots
  instances : m.Tiles (m.InstanceField id) 0 (m.cls id).instanceSlots

theorem follow_of_placed {inherited : Nat} (h : (m.cls id).Placed inherited) :
    Layout.Follow true (m.cls id).fields.toList 0 (m.cls id).staticSlots ∧
      Layout.Follow false (m.cls id).fields.toList inherited (m.cls id).instanceSlots := by
  obtain ⟨fields, hplaced⟩ := h
  have hfollow := Layout.follow_placeAll fields ⟨inherited, 0⟩
  rwa [hplaced] at hfollow

/-- The instance fields on a super chain tile the slots of its instances. By induction up the chain. -/
theorem LaidOut.tiles (h : m.LaidOut id) (harray : m.ArrayFree id) :
    m.Tiles (m.InstanceField id) 0 (m.cls id).instanceSlots := by
  induction h with
  | array array _ =>
    rw [harray _ (.refl _)] at array
    cases array
  | @after id placed super ih =>
    have hown := (follow_of_placed placed).2
    rcases hsuper : (m.cls id).superClass with _ | k
    · have hinherited : m.inherited id = 0 := by rw [inherited, hsuper]; rfl
      rw [hinherited] at hown
      refine (Tiles.of_follow hown).congr fun f => ⟨?_, fun hf => ⟨hf.owner ▸ .refl _, hf.owner ▸ hf⟩⟩
      rintro ⟨habove, hdeclared⟩
      cases habove with
      | refl => exact hdeclared
      | super super =>
        rw [hsuper] at super
        cases super
    · have hinherited : m.inherited id = (m.cls k).instanceSlots := by rw [inherited, hsuper]; rfl
      rw [hinherited] at hown
      refine (ih k hsuper (harray.super hsuper)).append (.of_follow hown) (Nat.zero_le _)
        hown.le fun f => ⟨?_, ?_⟩
      · rintro ⟨habove, hdeclared⟩
        cases habove with
        | refl => exact .inr hdeclared
        | super super above =>
          rw [hsuper] at super
          cases super
          exact .inl ⟨above, hdeclared⟩
      · rintro (⟨habove, hdeclared⟩ | hdeclared)
        · exact ⟨.super hsuper habove, hdeclared⟩
        · exact ⟨hdeclared.owner ▸ .refl _, hdeclared.owner ▸ hdeclared⟩

/-- The static fields of a class that is laid out and no array class tile its static slots. -/
theorem LaidOut.tiles_statics (h : m.LaidOut id) (harray : (m.cls id).isArray = false) :
    m.Tiles (m.Declared true id) 0 (m.cls id).staticSlots := by
  cases h with
  | array array _ =>
    rw [harray] at array
    cases array
  | after placed _ => exact .of_follow (follow_of_placed placed).1

/-- The fields of a linked class tile its storage. -/
theorem Coherent.fieldsTile (hm : m.Coherent) (hlinked : (m.cls id).linked = true)
    (harray : m.ArrayFree id) :
    m.FieldsTile id :=
  ⟨(hm.laidOut id hlinked).tiles_statics (harray id (.refl id)), hm.statics id,
    (hm.laidOut id hlinked).tiles harray⟩

end Machine

end JavaMachine
