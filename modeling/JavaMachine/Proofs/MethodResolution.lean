import JavaMachine.Proofs.Inheritance
import JavaMachine.Proofs.Natives

/-!
Resolving references to methods of classes.

A method is searched in the class and its super classes, and then among the interfaces that the
class itself leads to (`method_resolution`). Those that only a super class implements are not
searched, so a method that the class inherits from one of these is not found
(`not_always_resolved`).
-/

namespace JavaMachine

namespace Machine

variable {m : Machine} {id k owner other : ClassId} {name descriptor : String} {change : Class → Class}

/-- A change of a class that leaves the hierarchy as it is. -/
theorem extends_changeClass (h : ∀ c, (change c).superClass = c.superClass) :
    (m.changeClass other change).Extends id k ↔ m.Extends id k := by
  have hsuper : ∀ a, ((m.changeClass other change).cls a).superClass = (m.cls a).superClass :=
      fun a => by
    rcases m.cls_changeClass other change a with heq | ⟨rfl, heq⟩ <;> rw [heq]
    exact h _
  simp only [extends_iff, hsuper]

theorem chainEnds_changeClass (h : ∀ c, (change c).superClass = c.superClass) :
    (m.changeClass other change).ChainEnds id ↔ m.ChainEnds id := by
  have hsuper : ∀ a, ((m.changeClass other change).cls a).superClass = (m.cls a).superClass :=
      fun a => by
    rcases m.cls_changeClass other change a with heq | ⟨rfl, heq⟩ <;> rw [heq]
    exact h _
  simp only [ChainEnds, extends_changeClass h, hsuper]

theorem superInterface_changeClass (h : ∀ c, (change c).interfaces = c.interfaces) :
    (m.changeClass other change).SuperInterface id k ↔ m.SuperInterface id k := by
  have hinterfaces : ∀ a, ((m.changeClass other change).cls a).interfaces = (m.cls a).interfaces :=
      fun a => by
    rcases m.cls_changeClass other change a with heq | ⟨rfl, heq⟩ <;> rw [heq]
    exact h _
  simp only [SuperInterface, hinterfaces]

theorem cls_method?_changeClass (h : ∀ c, (change c).methods = c.methods) :
    ((m.changeClass other change).cls k).method? name descriptor =
    (m.cls k).method? name descriptor := by
  rcases m.cls_changeClass other change k with heq | ⟨rfl, heq⟩ <;> rw [heq]
  rw [Class.method?, h]
  rfl

end Machine

namespace VM

open Machine

variable {m m₁ : Machine} {owner id : ClassId} {index : UInt16} {ref : MemberRef Method}

/-- The failure for a method that is not there. -/
def noSuchMethod (ref : MemberRef Method) : Failure :=
  .fault (.exception ExceptionName.noSuchMethod ref.describe)

theorem outcome_constantAt {constant : Constant} (h : (m.cls owner).constantAt index = .ok constant) :
    outcome (constantAt owner index) m = (.ok constant, m) := by
  unfold constantAt
  rw [outcome_bind_of_ok (outcome_cls owner), h]
  exact outcome_ofFormat_ok constant

/-- What a search on the super chain and then among the interfaces below the class comes to, in
terms of the hierarchy. -/
theorem searchMethod_cases (ref : MemberRef Method) (hm : m.Sound)
    (hplain : (m.cls id).isInterface = false) :
    (∃ k method, searchMethod ref m id = pure method ∧
      (m.cls k).method? ref.name ref.descriptor = some method ∧ (m.Extends id k ∨
        (∀ j, m.Extends id j → (m.cls j).method? ref.name ref.descriptor = none) ∧
          m.SuperInterface id k)) ∨
    (searchMethod ref m id = throw (noSuchMethod ref) ∧ m.ChainEnds id ∧
      ∀ k, m.Extends id k ∨ m.SuperInterface id k → (m.cls k).method? ref.name ref.descriptor = none) ∨
    searchMethod ref m id = throw .endless ∧ ¬ m.ChainEnds id ∧
      ∀ k, m.Extends id k → (m.cls k).method? ref.name ref.descriptor = none := by
  unfold searchMethod
  rw [hplain, if_neg Bool.false_ne_true]
  dsimp only
  rcases hchain : m.methodSearch id ref.name ref.descriptor with method | _ | _
  · obtain ⟨k, hk, hmethod⟩ := method?_some (Search.found?_eq_some.mpr hchain)
    exact .inl ⟨k, method, rfl, hmethod, .inl hk⟩
  · obtain ⟨hends, hnone⟩ := hm.searchChain_eq_absent.mp hchain
    rcases hbelow : m.interfaceMethod? id ref.name ref.descriptor with _ | method
    · exact .inr (.inl ⟨rfl, hends, fun k hk => hk.elim (hnone k)
        (hm.interfaceMethod?_none.mp hbelow k)⟩)
    · obtain ⟨k, hk, hmethod⟩ := hm.interfaceMethod?_some hbelow
      exact .inl ⟨k, method, rfl, hmethod, .inr ⟨hnone, hk⟩⟩
  · exact .inr (.inr ⟨rfl, hm.searchChain_eq_endless.mp hchain⟩)

/-- A reference that is resolved for the first time is resolved to a method of a super class, or if
none of them declares one, to one of an interface that the class reaches through interfaces alone.
It fails with `NoSuchMethodError` just if none of these declares one, and does not end just if no
class declares one on a super chain that never ends. -/
theorem method_resolution (hm : m.Reachable)
    (hconstant : (m.cls owner).constantAt index = .ok (.method ref))
    (hfirst : ref.resolved = none) (hclass : outcome (target ref.owner) m = (.ok id, m₁))
    (hplain : (m₁.cls id).isInterface = false) :
    ∃ r m', outcome (resolveMethod owner index) m = (r, m') ∧
      ((∃ k method, r = .ok (id, method) ∧ (m₁.cls k).method? ref.name ref.descriptor = some method ∧
        (m₁.Extends id k ∨
          (∀ j, m₁.Extends id j → (m₁.cls j).method? ref.name ref.descriptor = none) ∧
            m₁.SuperInterface id k)) ∨
      (r = .error (noSuchMethod ref) ∧ m₁.ChainEnds id ∧
        ∀ k, m₁.Extends id k ∨ m₁.SuperInterface id k →
          (m₁.cls k).method? ref.name ref.descriptor = none) ∨
      r = .error .endless ∧ ¬ m₁.ChainEnds id ∧
        ∀ k, m₁.Extends id k → (m₁.cls k).method? ref.name ref.descriptor = none) := by
  -- the class is kept in the reference before the method is searched
  let kept : Constant := .method { ref with owner := { ref.owner with resolved := some id } }
  let keep (c : Class) : Class := { c with pool := c.pool.setIfInBounds index.toNat kept }
  have hkept : outcome (setConstant owner index kept) m₁ = (.ok ⟨⟩, m₁.changeClass owner keep) :=
    outcome_modifyClass _ _
  have hreachable : (m₁.changeClass owner keep).Reachable :=
    have hprogram : Program .none (target ref.owner >>= fun _ => setConstant owner index kept) :=
      .bind (Tame.target ref.owner) fun _ => .setConstant owner index kept
    have hrun : outcome (target ref.owner >>= fun _ => setConstant owner index kept) m =
        (.ok ⟨⟩, m₁.changeClass owner keep) := by
      rw [outcome_bind_of_ok hclass]
      exact hkept
    .program hm Natives.Lawful.none hprogram hrun trivial
  have hplain' : ((m₁.changeClass owner keep).cls id).isInterface = false := by
    rcases m₁.cls_changeClass owner keep id with heq | ⟨rfl, heq⟩ <;> rw [heq] <;> exact hplain
  have hsearch := searchMethod_cases ref hreachable.settled.sound hplain'
  have hsuper (c : Class) : (keep c).superClass = c.superClass := rfl
  have hinterfaces (c : Class) : (keep c).interfaces = c.interfaces := rfl
  have hmethods (c : Class) : (keep c).methods = c.methods := rfl
  simp only [extends_changeClass hsuper, chainEnds_changeClass hsuper,
    superInterface_changeClass hinterfaces, cls_method?_changeClass hmethods] at hsearch
  unfold resolveMethod
  rw [outcome_bind_of_ok (outcome_constantAt hconstant)]
  dsimp only [resolveMember]
  rw [outcome_bind_of_ok hclass, outcome_bind_of_ok hkept, hfirst]
  dsimp only
  rw [outcome_bind_of_ok (outcome_get _)]
  rcases hsearch with ⟨k, method, hfound, hdeclared⟩ | ⟨hfound, hnone⟩ | ⟨hfound, hnone⟩ <;> rw [hfound]
  · exact ⟨_, _, rfl, .inl ⟨k, method, rfl, hdeclared⟩⟩
  · exact ⟨_, _, rfl, .inr (.inl ⟨rfl, hnone⟩)⟩
  · exact ⟨_, _, rfl, .inr (.inr ⟨rfl, hnone⟩)⟩

/-- An interface with a method, a class that implements it, a class below that, and a class with
references to the method in both. -/
def defineHeirs : VM ClassId := do
  let _ ← VM.define (.build ClassName.object none (pure ()))
  let _ ← VM.define <| .build "Greeter" (some ClassName.object) do
    Builder.setFlags ⟨AccessFlags.publicBit ||| AccessFlags.interfaceBit ||| AccessFlags.abstractBit⟩
    Builder.addMethod ⟨AccessFlags.publicBit⟩ "greet" "()V" 0 1 [0xB1] []
  let _ ← VM.define (.build "Base" (some ClassName.object) (Builder.addInterface "Greeter"))
  let _ ← VM.define (.build "Heir" (some "Base") (pure ()))
  VM.define <| .build "Main" (some ClassName.object) do
    let _ ← Builder.methodRef "Base" "greet" "()V"
    let _ ← Builder.methodRef "Heir" "greet" "()V"

def heirs : Machine := (outcome defineHeirs (.start [])).2

theorem reachable_heirs : heirs.Reachable :=
  have hprogram : Program .none defineHeirs :=
    .bind (.define _) fun _ => .bind (.define _) fun _ => .bind (.define _) fun _ =>
      .bind (.define _) fun _ => .define _
  .program (.start []) Natives.Lawful.none hprogram (Prod.eta _).symm (by decide +kernel)

/-- The reference to the method in the class `name`. -/
def greeting (name : String) : MemberRef Method := ⟨⟨name, none⟩, "greet", "()V", none⟩

/-- The interface is below the two classes, and declares the method. -/
theorem heirs_hierarchy : heirs.Extends ⟨3⟩ ⟨2⟩ ∧ heirs.SuperInterface ⟨2⟩ ⟨1⟩ ∧
    ∃ method, (heirs.cls ⟨1⟩).method? "greet" "()V" = some method ∧ method.flags.isPublic = true ∧
      method.flags.isStatic = false := by
  have hdata : (heirs.cls ⟨3⟩).superClass = some ⟨2⟩ ∧ ⟨1⟩ ∈ (heirs.cls ⟨2⟩).interfaces ∧
      ∃ method ∈ (heirs.cls ⟨1⟩).method? "greet" "()V", method.flags.isPublic = true ∧
      method.flags.isStatic = false := by
    decide +kernel
  obtain ⟨hsuper, hinterface, hmethod⟩ := hdata
  exact ⟨.super hsuper (.refl _), .single hinterface, hmethod⟩

/-- The method is found in the interface of the class. -/
theorem method_resolution_heirs : ∃ k method m',
      outcome (resolveMethod ⟨4⟩ 10) heirs = (.ok (⟨2⟩, method), m') ∧
    (heirs.cls k).method? "greet" "()V" = some method := by
  obtain ⟨-, hbelow, method, hmethod, -⟩ := heirs_hierarchy
  have hclass : outcome (target (greeting "Base").owner) heirs = (.ok ⟨2⟩, heirs) :=
    outcome_load_of_bound (by decide +kernel)
  have hconstant : (heirs.cls ⟨4⟩).constantAt 10 = .ok (.method (greeting "Base")) := by decide +kernel
  obtain ⟨r, m', hrun, hanswer⟩ := method_resolution reachable_heirs hconstant rfl hclass
    (by decide +kernel)
  have hroot : (heirs.cls ⟨2⟩).superClass = some ⟨0⟩ ∧ (heirs.cls ⟨0⟩).superClass = none := by
    decide +kernel
  rcases hanswer with ⟨k, found, rfl, hfound, -⟩ | ⟨-, -, hnone⟩ | ⟨-, hnever, -⟩
  · exact ⟨k, found, m', hrun, hfound⟩
  · cases hmethod.symm.trans (hnone ⟨1⟩ (.inr hbelow))
  · exact absurd ⟨⟨0⟩, .super hroot.1 (.refl _), hroot.2⟩ hnever

/-- The method that a class inherits from the interface of its super class is not found. -/
theorem not_always_resolved :
    ¬ ∀ (m m₁ : Machine) (owner id : ClassId) (index : UInt16) (ref : MemberRef Method),
    m.Reachable → (m.cls owner).constantAt index = .ok (.method ref) →
      outcome (target ref.owner) m = (.ok id, m₁) →
      (m₁.cls id).isInterface = false → (∃ k, m₁.Extends id k ∧
        ((∃ method, (m₁.cls k).method? ref.name ref.descriptor = some method) ∨
          ∃ j method, m₁.SuperInterface k j ∧ (m₁.cls j).method? ref.name ref.descriptor = some method ∧
            method.flags.isPublic = true ∧ method.flags.isStatic = false)) →
        ∀ m', outcome (resolveMethod owner index) m ≠ (.error (noSuchMethod ref), m') := by
  intro h
  have hfails : (outcome (resolveMethod ⟨4⟩ 13) heirs).1 =
      .error (noSuchMethod (greeting "Heir")) := by decide +kernel
  have hclass : outcome (target (greeting "Heir").owner) heirs = (.ok ⟨3⟩, heirs) :=
    outcome_load_of_bound (by decide +kernel)
  obtain ⟨hextends, hbelow, method, hmethod⟩ := heirs_hierarchy
  exact h heirs heirs ⟨4⟩ ⟨3⟩ 13 (greeting "Heir") reachable_heirs (by decide +kernel) hclass
    (by decide +kernel)
    ⟨⟨2⟩, hextends, .inr ⟨⟨1⟩, method, hbelow, hmethod⟩⟩ _ (Prod.ext hfails rfl)

end VM

end JavaMachine
