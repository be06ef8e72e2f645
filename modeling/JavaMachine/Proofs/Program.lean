import JavaMachine.Execution.Exception
import JavaMachine.Execution.Dispatch
import JavaMachine.Native.Standard
import JavaMachine.Proofs.FailingState

/-!
What code outside of the loader does to a machine.

`VM.Program` is the steps that are put together from loading and defining classes, changing the
parts of a class that running code changes, and changing objects and literals. Everything that
instructions and the interpreter do to a machine is such a program, and so are the standard natives,
so what holds of these few steps and is kept from step to step holds of all of them.
-/

namespace JavaMachine

namespace VM

/-- Steps on a machine put together from the ones that running code takes. -/
inductive Program (natives : Natives) : {α : Type} → VM α → Prop where
  | pure {α : Type} (a : α) : Program natives (pure a : VM α)
  | throw {α : Type} (e : Failure) : Program natives (throw e : VM α)
  | get : Program natives (get : VM Machine)
  | bind {α β : Type} {x : VM α} {f : α → VM β} (first : Program natives x)
      (second : ∀ a, Program natives (f a)) : Program natives (x >>= f)
  | attempt {α : Type} {x : VM α} (step : Program natives x) : Program natives (attempt x)
  | load (name : String) : Program natives (load name)
  | define (file : ClassFile) : Program natives (define file)
  | setStatics (id : ClassId) (statics : SlotTable) :
      Program natives (modifyClass id ({ · with statics }))
  | startInitialization (id : ClassId) :
      Program natives (modifyClass id ({ · with initStarted := true }))
  | setConstant (owner : ClassId) (index : UInt16) (constant : Constant) :
      Program natives (setConstant owner index constant)
  | setComponent (id component : ClassId) :
      Program natives (modifyClass id ({ · with component := some component }))
  | modifyData (a : Address) (change : ObjectData → ObjectData) : Program natives (modifyData a change)
  | allocate (object : Object) : Program natives (allocate object)
  | bindLiteral (units : Text.Units) (string : Address) : Program natives (bindLiteral units string)
  | native {key : String} {native : Native} (registered : (key, native) ∈ natives.entries)
      (call : NativeCall) : Program natives (native call)

variable {natives : Natives} {α β : Type}

namespace Program

theorem mapM {f : α → VM β} (h : ∀ a, Program natives (f a)) : ∀ as : List α,
      Program natives (as.mapM f)
  | [] => .pure []
  | a :: as => by
    rw [List.mapM_cons]
    exact (h a).bind fun b => (mapM h as).bind fun bs => .pure (b :: bs)

theorem fail (fault : Fault) : Program natives (fail fault : VM α) := .throw _

theorem raise (className message : String) : Program natives (raise className message : VM α) :=
  .throw _

theorem inRange (a : Option α) : Program natives (inRange a) := by
  cases a with
  | none => exact .throw _
  | some a => exact .pure a

theorem ofSearch (search : Search α) : Program natives (ofSearch search) := by
  cases search with
  | found a => exact .pure _
  | absent => exact .pure _
  | endless => exact .throw _

theorem cls (id : ClassId) : Program natives (cls id) := .bind .get fun _ => .pure _

theorem object (a : Address) : Program natives (object a) := .bind .get fun _ => .pure _

theorem setData (a : Address) (data : ObjectData) : Program natives (setData a data) := .modifyData a _

theorem newObject (id : ClassId) : Program natives (newObject id) := .bind (cls id) fun _ => .allocate _

theorem newArray (id : ClassId) (length : Nat) : Program natives (newArray id length) :=
  .bind (cls id) fun c => by
    dsimp only
    split
    · exact .allocate _
    · exact fail _

theorem setField (a : Address) (slot : Nat) (value : Slot) : Program natives (setField a slot value) :=
  .bind (object a) fun o => by
    split
    · exact .pure _
    · exact .bind (inRange _) fun _ => setData a _

theorem component? (id : ClassId) : Program natives (component? id) :=
  .bind (cls id) fun c => by
    split
    · exact .pure none
    · split
      · exact .pure _
      · exact .bind (.load _) fun component => .bind (.setComponent id component) fun _ => .pure _

theorem stringOfUnits (units : Text.Units) : Program natives (stringOfUnits units) :=
  .bind (.load _) fun stringClass => .bind (.load _) fun charsClass => .bind .get fun m =>
      .bind (ofSearch _) fun field => by
    split
    · exact raise _ _
    · exact .bind (.allocate _) fun chars => .bind (newObject stringClass) fun string =>
        .bind (setField string _ _) fun _ => .pure string

theorem intern (units : Text.Units) : Program natives (intern units) :=
  .bind .get fun m => by
    split
    · exact .pure _
    · exact .bind (stringOfUnits units) fun string => .bind (.bindLiteral units string)
        fun _ => .pure string

end Program

end VM

end JavaMachine
