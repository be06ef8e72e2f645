import JavaMachine.Proofs.ArrayFilling
import JavaMachine.Proofs.Instructions
import JavaMachine.Proofs.Unwinding

/-!
Careful steps.

A careful step gets references to some of the objects of a machine, keeps the machine and the thread
safe, and gives references to objects that are there. It does so as long as the natives are guarded,
which the standard ones are (`Natives.standard_guarded`). Nothing but a native answers with an
uncaught exception in a careful step.
-/

namespace JavaMachine

/-- A native keeps the machine safe, if its arguments are there. -/
def Natives.Guarded (natives : Natives) : Prop := ∀ key native, (key, native) ∈ natives.entries →
  ∀ call m, extent call ≤ m.heap.size → VM.SecureOn m (native call)

/-- Some native may answer that an exception is uncaught. -/
def Natives.SaysUncaught (natives : Natives) (className message : String) : Prop :=
  ∃ key native, (key, native) ∈ natives.entries ∧
    ∃ call m m', outcome (native call) m = (.error (.fault (.uncaught className message)), m')

/-- An exception is uncaught because a native says so. -/
def Natives.Accounts (natives : Natives) : Failure → Prop
  | .fault (.uncaught className message) => natives.SaysUncaught className message
  | _ => True

theorem Natives.accounts_of_ordinary {natives : Natives} {e : Failure} (h : e.Ordinary) :
    natives.Accounts e := by
  rcases e with (_ | _ | _ | _ | _ | _ | _) | _ | _ | _ <;> first
    | exact trivial
    | exact h.elim

namespace VM

open Machine

variable {α β : Type} [References α] [References β] {n n' : Nat} {natives : Natives}

omit [References α] in
/-- What fails with no fault fails with nothing special. -/
theorem NoFault.ordinary {x : VM α} (h : NoFault x) : FailsOnly Failure.Ordinary x :=
    fun m e m' hrun => by
  cases e with
  | fault fault => exact absurd hrun (h m fault m')
  | outOfRange | outOfFuel | endless => exact trivial

theorem multiArray_ordinary (id : ClassId) (count : Nat) (inner : List Nat) :
    FailsOnly Failure.Ordinary (multiArray id count inner) := by
  have hnew : ∀ id count, FailsOnly Failure.Ordinary (VM.newArray id count) := fun id count =>
    (Discreet.newArray (n := 0) id count).ordinary
  induction inner generalizing id count with
  | nil => exact hnew id count
  | cons next inner ih =>
    refine .bind (hnew id count) fun array => .bind (component?_ordinary id) fun component => ?_
    split
    · exact .bind (.cls id) fun _ => .fail trivial
    · refine .bind (.object array) fun data => ?_
      split
      · exact .bind (.mapM (fun _ => ih _ next) _) fun _ => .bind (.modifyGet _) fun _ => .pure _
      · exact .pure _

/-- A careful step, on a machine that has the first `n` objects. -/
structure Careful (natives : Natives) (n : Nat) (x : VM α) : Prop where
  accounts : FailsOnly natives.Accounts x
  secure : natives.Guarded → ∀ m, n ≤ m.heap.size → SecureOn m x

namespace Careful

variable {x : VM α}

theorem of_secure (hordinary : FailsOnly Failure.Ordinary x) (h : ∀ m, n ≤ m.heap.size → SecureOn m x) :
    Careful natives n x := ⟨hordinary.mono fun _ => Natives.accounts_of_ordinary, fun _ => h⟩

/-- What leaves arrays alone is careful. -/
theorem of_discreet (htame : Tame .none x) (h : Discreet n x) : Careful natives n x :=
  of_secure h.ordinary fun m hn =>
    .of_discreet (htame.steady Natives.Orderly.none m) h hn fun _ _ _ _ _ => trivial

theorem pure {a : α} (h : extent a ≤ n) : Careful natives n (pure a : VM α) :=
  of_discreet (.pure a) (.pure h)

theorem raise (className message : String) : Careful natives n (raise className message : VM α) :=
  of_discreet (.raise _ _) (.raise _ _)

theorem get : Careful natives n (get : VM Machine) := of_discreet .get .get

theorem bind {f : α → VM β} (hx : Careful natives n x)
    (hf : ∀ n' a, n ≤ n' → extent a ≤ n' → Careful natives n' (f a)) : Careful natives n (x >>= f) where
  accounts := .bind hx.accounts fun a =>
    (hf (max n (extent a)) a (Nat.le_max_left _ _) (Nat.le_max_right _ _)).accounts
  secure hnatives m hn := .bind (hx.secure hnatives m hn) fun a m₁ _ hremembers ha _ =>
    (hf m₁.heap.size a (Nat.le_trans hn hremembers.heap) ha).secure hnatives m₁ (Nat.le_refl _)

theorem attempt (hx : Careful natives n x) : Careful natives n (attempt x) where
  accounts := (FailsOnly.attempt x).mono fun _ => Natives.accounts_of_ordinary
  secure hnatives m hn := (hx.secure hnatives m hn).attempt.secureOn

theorem inRange {a? : Option α} (h : ∀ a, a? = some a → extent a ≤ n) :
    Careful natives n (inRange a?) :=
  of_discreet (.inRange a?) (.inRange h)

theorem load (name : String) : Careful natives n (load name) := of_discreet (.load name) (.load name)

theorem component? (id : ClassId) : Careful natives n (component? id) :=
  of_secure (component?_ordinary id) fun _ _ => (component?_secure id).secureOn

theorem isInstance (a : Address) (id : ClassId) : Careful natives n (isInstance a id) :=
  of_secure (NoFault.isInstance a id).ordinary fun m _ => .reads (outcome_get m)
    (isAssignable_secure _ _)

theorem newArray (id : ClassId) (length : Nat) : Careful natives n (newArray id length) :=
  of_discreet (.newArray id length) (.newArray id length)

theorem multiArray (id : ClassId) (count : Nat) (inner : List Nat) :
    Careful natives n (multiArray id count inner) :=
  of_secure (multiArray_ordinary id count inner) fun _ _ => (multiArray_secure id count inner).secureOn

theorem native {key : String} {native : Native} (registered : (key, native) ∈ natives.entries)
    {call : NativeCall} (h : extent call ≤ n) : Careful natives n (native call) where
  accounts := fun m e m' hrun => by
    rcases e with (_ | _ | _ | ⟨className, message⟩ | _ | _ | _) | _ | _ | _ <;> first
      | exact trivial
      | exact ⟨key, native, registered, call, m, m', hrun⟩
  secure hnatives m hn := hnatives key native registered call m (Nat.le_trans h hn)

theorem catches (owner : ClassId) (exception : Address) (handler : Handler) :
    Careful natives n (catches owner exception handler) := by
  unfold VM.catches
  split
  · exact pure (Nat.zero_le _)
  · refine bind (attempt (of_discreet (.resolveClass owner _) (.resolveClass owner _)))
      fun _ resolved _ _ => ?_
    split
    · exact isInstance _ _
    · exact pure (Nat.zero_le _)

theorem handler? (frame : Frame) (exception : Address) :
    Careful natives n (handler? frame exception) := by
  have hfind : ∀ {n : Nat} (handlers : List Handler),
      Careful natives n (handlers.findM? (VM.catches frame.owner exception)) := by
    intro n handlers
    induction handlers generalizing n with
    | nil => exact pure (Nat.zero_le _)
    | cons handler handlers ih =>
      rw [List.findM?]
      refine bind (catches _ _ _) fun _ found _ _ => ?_
      cases found with
      | false => exact ih
      | true => exact pure (Nat.zero_le _)
  unfold VM.handler?
  split
  · exact pure (Nat.zero_le _)
  · exact hfind _

end Careful

end VM

/-! ### The standard natives -/

namespace Natives

open VM

variable {m : Machine} {call : NativeCall}

theorem Guarded.none : Natives.none.Guarded := fun _ _ h => by cases h

theorem Guarded.register {natives : Natives} (h : natives.Guarded) {native : Native}
    (hnative : ∀ (m : Machine) call, extent call ≤ m.heap.size → SecureOn m (native call))
    (className name descriptor : String) :
    (natives.register className name descriptor native).Guarded :=
  forall_register h (fun call m => hnative m call) className name descriptor

end Natives

end JavaMachine
