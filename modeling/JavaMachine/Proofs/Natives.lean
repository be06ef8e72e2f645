import JavaMachine.Proofs.Orderly

/-!
Natives are programs.

Natives are lawful if each of them is a program that calls no other natives, and what calls lawful
natives is a program without natives. Orderly natives are lawful, and the standard ones are orderly
(`standard_orderly`).
-/

namespace JavaMachine

open VM (Program)

/-- Every native is a program by itself. -/
def Natives.Lawful (natives : Natives) : Prop :=
  ∀ key native, (key, native) ∈ natives.entries → ∀ call, Program .none (native call)

namespace VM.Program

variable {natives : Natives} {α : Type} {x : VM α}

/-- Lawful natives can be replaced by their code. -/
theorem withoutNatives (hnatives : natives.Lawful) (h : Program natives x) : Program .none x := by
  induction h with
  | pure a => exact .pure a
  | throw e => exact .throw e
  | get => exact .get
  | bind _ _ hx hf => exact hx.bind hf
  | attempt _ hx => exact .attempt hx
  | load name => exact .load name
  | define file => exact .define file
  | setStatics id statics => exact .setStatics id statics
  | startInitialization id => exact .startInitialization id
  | setConstant owner index constant => exact .setConstant owner index constant
  | setComponent id component => exact .setComponent id component
  | modifyData a change => exact .modifyData a change
  | allocate object => exact .allocate object
  | bindLiteral units string => exact .bindLiteral units string
  | native registered call => exact hnatives _ _ registered call

end VM.Program

/-! ### The standard natives -/

namespace VM.Orderly

theorem raise {α : Type} (className message : String) : Orderly (raise className message : VM α) :=
  .throw _

theorem inRange {α : Type} (a : Option α) : Orderly (inRange a) := by
  cases a with
  | none => exact .throw _
  | some a => exact .pure a

/-- A host may define a class by its bytes, too. -/
theorem defineBytes (bytes : List UInt8) : Orderly (defineBytes bytes) := by
  refine .bind ?_ fun file => .define file
  cases ClassFile.decode bytes with
  | error e => exact .throw _
  | ok file => exact .pure file

end VM.Orderly

namespace Natives

theorem orderly_nothing (call : NativeCall) : VM.Orderly (nothing call) := .pure _

theorem orderly_object (call : NativeCall) (index : Nat) : VM.Orderly (object call index) :=
  .bind (.inRange _) fun a => by
    split
    · exact .pure _
    · exact .bind .get fun _ => .raise _ _

theorem orderly_identityHash (call : NativeCall) : VM.Orderly (identityHash call) :=
  .bind (orderly_object call 0) fun _ => .pure _

theorem orderly_floatBits (call : NativeCall) : VM.Orderly (floatBits call) :=
  .bind (.inRange _) fun _ => .pure _

theorem orderly_floatOfBits (call : NativeCall) : VM.Orderly (floatOfBits call) :=
  .bind (.inRange _) fun _ => .pure _

theorem orderly_doubleBits (call : NativeCall) : VM.Orderly (doubleBits call) :=
  .bind (.inRange _) fun _ => .pure _

theorem orderly_doubleOfBits (call : NativeCall) : VM.Orderly (doubleOfBits call) :=
  .bind (.inRange _) fun _ => .pure _

theorem orderly_arrayCopy (call : NativeCall) : VM.Orderly (arrayCopy call) :=
  .bind (orderly_object call 0) fun _ => .bind (orderly_object call 2) fun _ =>
    .bind (.inRange _) fun _ => .bind (.inRange _) fun _ => .bind (.inRange _) fun _ =>
      .bind (.arrayCopy _ _ _) fun _ => .pure _

theorem Orderly.none : Natives.none.Orderly := fun _ _ h => by cases h

theorem Orderly.register {natives : Natives} (h : natives.Orderly) {native : Native}
    (hnative : ∀ call, VM.Orderly (native call)) (className name descriptor : String) :
    (natives.register className name descriptor native).Orderly :=
  forall_register h hnative className name descriptor

/-- Calling an orderly native from outside is orderly. -/
theorem Orderly.invokeNative {natives : Natives} (h : natives.Orderly) (method : Method)
    (arguments : List Slot) :
    VM.Orderly (Exec.invokeNative natives method arguments) := by
  refine .bind (.bind .get fun _ => .pure _) fun c => ?_
  rcases natives.find_cases c.name method.name method.descriptor with
    ⟨key, native, hregistered, hfind⟩ | ⟨message, hfind⟩
  · rw [hfind, pure_bind]
    refine .bind (h key native hregistered _) fun result => ?_
    split
    · exact .bind (.inRange _) fun _ => .inRange _
    · exact .bind (.pure _) fun _ => .inRange _
  · rw [hfind]
    exact .throw _

/-- Orderly natives are lawful. -/
theorem Orderly.lawful {natives : Natives} (h : natives.Orderly) : natives.Lawful :=
    fun key native hmem call =>
  (h key native hmem call).tame.program

theorem Lawful.none : Natives.none.Lawful := Orderly.none.lawful

/-- The standard natives are orderly. -/
theorem standard_orderly : standard.Orderly :=
  Orderly.none
    |>.register orderly_nothing _ _ _
    |>.register orderly_nothing _ _ _
    |>.register orderly_identityHash _ _ _
    |>.register orderly_floatBits _ _ _
    |>.register orderly_floatOfBits _ _ _
    |>.register orderly_doubleBits _ _ _
    |>.register orderly_doubleOfBits _ _ _
    |>.register orderly_arrayCopy _ _ _

/-- The standard natives are lawful. -/
theorem standard_lawful : standard.Lawful := standard_orderly.lawful

end Natives

end JavaMachine
