import JavaMachine.Proofs.Stepping
import JavaMachine.Proofs.Undoing
import JavaMachine.Proofs.Unwinding

/-!
Exceptions that instructions fail with.

An instruction fails with an object that was thrown, or with an exception of the machine for which
an object is made. The object is new and holds the message (`VM.throwable_makes`), but a static
field that is found in place of the one for the message is not told from it (`not_always_makes`).
The frames that the instruction pushed are dropped, and of the others the first one that catches the
exception goes on at its handler (`exception_dispatch`).
-/

namespace JavaMachine

/-! ### Objects that are made for exceptions -/

theorem Machine.HasString.withData {m : Machine} {oldest : Nat} {string a : Address}
    {units : Text.Units}
    {data : ObjectData} (h : m.HasString oldest string units) (ha : a.index < oldest) :
    (m.withData a data).HasString oldest string units := by
  obtain ⟨stringClass, charsClass, field, chars, fields, hfield, hset, hstring, hchars, hnew,
      hsize, hnew'⟩ := h
  refine ⟨stringClass, charsClass, field, chars, fields,
    (congrArg Search.found? (fieldSearch_congr (by rfl) ..)).trans hfield, hset, ?_,
    ?_, hnew, ?_, hnew'⟩
  · rw [object_withData_ne (by rintro rfl; omega), hstring]
  · rw [object_withData_ne (by rintro rfl; omega), hchars]
  · rwa [heap_size_withData]

namespace VM

/-- `exception` is a new object of the class `id`, which no constructor was run on. All its slots
are zero, but for the one of the field, which holds a new string with the message. -/
def Carries (id : ClassId) (field : Option Field) (message : String) (m : Machine) (exception : Address)
    (m' : Machine) : Prop :=
  exception = ⟨m.heap.size⟩ ∧ ∃ fields, m'.object exception = ⟨id, .fields fields⟩ ∧
    match field with
    | none => fields = .zeros (m.cls id).instanceSlots
    | some field => ∃ string, (SlotTable.zeros (m.cls id).instanceSlots).set? field.slot
        (.ref (some string)) =
        some fields ∧ m'.HasString (exception.index + 1) string (Text.units message)

/-- The field for the message that the objects of a class have. Static fields are not in objects. -/
def messageField? (m : Machine) (id : ClassId) : Option Field :=
  ((messageSearch m id).found?.map m.fieldAt).filter (!·.flags.isStatic)

/-- `exception` is a new object of the class `className` that no constructor was run on. If its
objects have a field for the message, this holds it, and all else is zero. -/
def Makes (className message : String) (m : Machine) (exception : Address) (m' : Machine) : Prop :=
  ∃ id m₁, outcome (load className) m = (.ok id, m₁) ∧ m.heap.size ≤ m₁.heap.size ∧
    Carries id (messageField? m₁ id) message m₁ exception m'

/-- The class `className` has a static field in place of the one for the message. `exception` is a
new object of the class that has the message where the static field would be if it were in objects.
-/
def Misplaces (className message : String) (m : Machine) (exception : Address) (m' : Machine) : Prop :=
  ∃ id m₁ field, outcome (load className) m = (.ok id, m₁) ∧ m.heap.size ≤ m₁.heap.size ∧
    messageSearch m₁ id = .found field ∧ (m₁.fieldAt field).flags.isStatic = true ∧
    Carries id (some (m₁.fieldAt field)) message m₁ exception m'

theorem messageSearch_withObject (m : Machine) (object : Object) (id : ClassId) :
    messageSearch (m.withObject object) id = messageSearch m id :=
  Machine.fieldSearch_congr (by rfl) ..

theorem load_ok {name : String} {id : ClassId} {m m' : Machine} (hm : m.Sound)
    (hrun : outcome (load name) m = (.ok id, m')) : m'.Sound ∧ m.Grows (fun _ => False) m' := by
  cases load_lawful (2 * m.pending) m name hm (Nat.le_refl _) _ _ hrun with
  | ok hm' hgrows => exact ⟨hm', hgrows⟩

theorem string_ok {text : String} {string : Address} {m m' : Machine} (hm : m.Sound)
    (hrun : outcome (VM.string text) m = (.ok string, m')) :
    m.Grows (fun _ => False) m' ∧ m'.HasString m.heap.size string (Text.units text) := by
  have hloads : Loader.Loads (2 * m.pending) (fun _ => False) m (VM.string text) fun m' string =>
      m'.HasString m.heap.size string (Text.units text) ∧ m.Spares string m' :=
    Loader.stringOfUnits_loads (load_lawful _) _
  cases hloads hm (Nat.le_refl _) _ _ hrun with
  | ok _ hgrows hstring => exact ⟨hgrows, hstring.1⟩

/-- What is made for an exception of the machine carries the message in the field that is found. -/
theorem throwable_carries {className message : String} {m m' : Machine}
    {exception : Address} (hm : m.Sound)
    (hrun : outcome (throwable className message) m = (.ok exception, m')) :
    ∃ id m₁, outcome (load className) m = (.ok id, m₁) ∧ m.heap.size ≤ m₁.heap.size ∧
      Carries id ((messageSearch m₁ id).found?.map m₁.fieldAt) message m₁ exception m' := by
  obtain ⟨id, m₁, hload, hrun⟩ := outcome_bind_ok.mp hrun
  obtain ⟨hm₁, hgrows₁⟩ := load_ok hm hload
  have hnew := Machine.object_withObject_new (m := m₁) ⟨id, .fields (.zeros (m₁.cls id).instanceSlots)⟩
  refine ⟨id, m₁, hload, hgrows₁.heap, ?_⟩
  rw [outcome_bind_of_ok (outcome_newObject id), outcome_bind_of_ok (outcome_get _),
    messageSearch_withObject] at hrun
  cases hfield : messageSearch m₁ id with
  | endless =>
    rw [hfield] at hrun
    cases hrun
  | absent =>
    rw [hfield] at hrun
    cases hrun
    exact ⟨rfl, _, hnew, rfl⟩
  | found field =>
    obtain ⟨_, _, hsearch, hrun⟩ := outcome_bind_ok.mp hrun
    rw [hfield] at hsearch
    cases hsearch
    obtain ⟨string, m₃, hstring, hrun⟩ := outcome_bind_ok.mp hrun
    have hm₂ : (m₁.withObject ⟨id, .fields (.zeros (m₁.cls id).instanceSlots)⟩).Sound :=
      hm₁.of_eq rfl rfl
    obtain ⟨hgrows₃, hmessage⟩ := string_ok hm₂ hstring
    have hobject := (hgrows₃.object ⟨m₁.heap.size⟩ (by simp)).trans hnew
    have hthere : m₁.heap.size < m₃.heap.size := Nat.lt_of_lt_of_le (by simp) hgrows₃.heap
    rw [Machine.heap_size_withObject] at hmessage
    obtain ⟨_, m₄, hset, hrun⟩ := outcome_bind_ok.mp hrun
    rw [outcome_setField hobject] at hset
    have hslot : ((m₁.withObject ⟨id, .fields (.zeros (m₁.cls id).instanceSlots)⟩).fieldAt field).slot =
        (m₁.fieldAt field).slot := rfl
    rw [hslot] at hset
    cases hfields : (SlotTable.zeros (m₁.cls id).instanceSlots).set? (m₁.fieldAt field).slot
      (.ref (some string)) with
    | none => rw [hfields] at hset; cases hset
    | some fields =>
      rw [hfields] at hset
      cases hset
      cases hrun
      refine ⟨rfl, fields, ?_, string, hfields, hmessage.withData (Nat.lt_succ_self _)⟩
      rw [Machine.object_withData_self (a := ⟨m₁.heap.size⟩) hthere, Machine.classOf, hobject]

/-- What is made for an exception of the machine. -/
theorem throwable_makes {className message : String} {m m' : Machine}
    {exception : Address} (hm : m.Sound)
    (hrun : outcome (throwable className message) m = (.ok exception, m')) :
    Makes className message m exception m' ∨ Misplaces className message m exception m' := by
  obtain ⟨id, m₁, hload, hheap, hcarries⟩ := throwable_carries hm hrun
  cases hstatic : ((messageSearch m₁ id).found?.map m₁.fieldAt).any (·.flags.isStatic) with
  | false =>
    refine .inl ⟨id, m₁, hload, hheap, ?_⟩
    have hfield : messageField? m₁ id = (messageSearch m₁ id).found?.map m₁.fieldAt := by
      rw [messageField?]
      cases hfound : (messageSearch m₁ id).found?.map m₁.fieldAt with
      | none => rfl
      | some field =>
        rw [hfound, Option.any_some] at hstatic
        rw [Option.filter_some, hstatic]
        rfl
    rwa [hfield]
  | true =>
    obtain ⟨_, hfound, hstatic⟩ := Option.any_eq_true .. |>.mp hstatic
    obtain ⟨field, hsearch, rfl⟩ := Option.map_eq_some_iff.mp hfound
    rw [hfound] at hcarries
    exact .inr ⟨id, m₁, field, hload, hheap, Search.found?_eq_some.mp hsearch, hstatic, hcarries⟩

end VM

namespace Exec

variable {natives : Natives} {s t : Running} {exception : Address}

/-! ### Instructions that fail -/

/-- The instruction of the top frame fails with a Java exception: with an object that was thrown, or
with an exception of the machine for which an object can be made. The exception is dispatched in the
state `t`. -/
inductive Raises (natives : Natives) (s : Running) (exception : Address) (t : Running) : Prop where
  | thrown {i : Instruction} {u : Running} (fetches : Fetches s i u)
      (fails : outcome (execute natives i) u = (.error (.fault (.thrown exception)), t))
  | made {i : Instruction} {u v : Running} {className message : String} (fetches : Fetches s i u)
      (fails : outcome (execute natives i) u = (.error (.fault (.exception className message)), v))
      (makes : outcome (VM.throwable className message) v.machine = (.ok exception, t.machine))
      (thread : t.thread = v.thread)

theorem Raises.outcome_step (h : Raises natives s exception t) :
    outcome (step natives) s = outcome (throwFrom s.thread.depth exception) t := by
  cases h with
  | thrown fetches fails =>
    rw [Exec.outcome_step fetches, fails]
    exact outcome_handle_thrown
  | made fetches fails makes thread =>
    rw [Exec.outcome_step fetches, fails]
    dsimp only
    rw [outcome_handle_exception, makes, ← thread]

/-- The frames that the instruction pushed are above its own one, which is still there. -/
theorem Raises.frames (h : Raises natives s exception t) : ∃ top callers next,
      s.thread.frames = top :: callers ∧
    FramesAbove (top.past next :: callers) t.thread.frames := by
  cases h with
  | thrown fetches fails =>
    obtain ⟨top, callers, next, hframes, -, rfl⟩ := fetches
    exact ⟨top, callers, next, hframes, execute_fault rfl fails⟩
  | made fetches fails _ thread =>
    obtain ⟨top, callers, next, hframes, -, rfl⟩ := fetches
    exact ⟨top, callers, next, hframes, by rw [thread]; exact execute_fault rfl fails⟩

/-- A step whose instruction fails unwinds the frames that were there before. -/
theorem Raises.unwinds (h : Raises natives s exception t) : ∃ top callers next top' pushed,
    s.thread.frames = top :: callers ∧ (top.past next).Continues top' ∧
      t.thread.frames = pushed ++ top' :: callers ∧
      outcome (step natives) s = outcome (unwind exception (top' :: callers)) t := by
  obtain ⟨top, callers, next, hframes, habove⟩ := h.frames
  obtain ⟨top', hdropped, htop⟩ := habove.dropped
  obtain ⟨pushed, frame, hpushed, -⟩ := habove
  have hkept : frame :: callers = top' :: callers := by
    rw [← hdropped, hpushed]
    simp
  refine ⟨top, callers, next, top', pushed, hframes, htop, hpushed.trans (by rw [hkept]), ?_⟩
  rw [h.outcome_step, outcome_throwFrom, Thread.depth, hframes, List.length_cons, hdropped]

/-! ### Dispatch -/

/-- Exceptions are dispatched to the first frame that catches them. The object that is made for an
exception of the machine is a new one with its message, which is misplaced if the class has a static
field for it. The frames that the failing instruction pushed are dropped, and those above the
catcher as well; the catcher goes on at its handler with nothing but the exception on its operand
stack. If no frame catches the exception then none is left. A step with such an instruction
completes in no other way. -/
theorem exception_dispatch (natives : Natives) (s : Running) :
    (natives.Lawful → s.machine.Reachable → ∀ i u v className message exception m, Fetches s i u →
      outcome (execute natives i) u = (.error (.fault (.exception className message)), v) →
      outcome (VM.throwable className message) v.machine = (.ok exception, m) →
      VM.Makes className message v.machine exception m ∨
        VM.Misplaces className message v.machine exception m) ∧
    ∀ exception t, Raises natives s exception t → ∃ top callers next top' pushed,
      s.thread.frames = top :: callers ∧ (top.past next).Continues top' ∧
      t.thread.frames = pushed ++ top' :: callers ∧
      (∀ frame below handler m,
        Dispatch exception (top' :: callers) t.machine (some (frame, below, handler)) m →
        0 < frame.stack.capacity → (frame :: below) <:+ (top' :: callers) ∧ ∃ stack,
          stack.toList = [.ref (some exception)] ∧ stack.capacity = frame.stack.capacity ∧
          outcome (step natives) s = (.ok ⟨⟩, ⟨m, { t.thread with
            frames := { frame with stack, nextPc := handler.handlerPc.toUInt64 } :: below }⟩)) ∧
      (∀ m text, Dispatch exception (top' :: callers) t.machine none m →
        outcome (VM.detailMessage exception) m = (.ok text, m) →
        outcome (step natives) s =
          (.error (.fault (.uncaught (m.className exception) text)),
            ⟨m, { t.thread with frames := [] }⟩)) ∧
      (Completes (outcome (step natives) s).1 →
        (∃ frame below handler m, Dispatch exception (top' :: callers) t.machine
          (some (frame, below, handler)) m ∧ 0 < frame.stack.capacity) ∨
        ∃ m text, Dispatch exception (top' :: callers) t.machine none m ∧
          outcome (VM.detailMessage exception) m = (.ok text, m)) := by
  refine ⟨fun hnatives hm i u v className message exception m hfetch hfails hmakes => ?_,
    fun exception t h => ?_⟩
  · obtain ⟨top, callers, next, -, -, rfl⟩ := hfetch
    have hkept := Keeps.execute (Machine.Settled.keptByPrograms hnatives) i
      (s.past top callers next) _ _ hm.settled
      hfails trivial
    exact VM.throwable_makes hkept.sound hmakes
  · obtain ⟨top, callers, next, top', pushed, hframes, htop, hpushed, hstep⟩ := h.unwinds
    refine ⟨top, callers, next, top', pushed, hframes, htop, hpushed,
      fun frame below handler m hdispatch hroom => ?_,
      fun m text hdispatch htext => ?_, fun hcompletes => ?_⟩
    · obtain ⟨stack, hlist, hcapacity, hunwind⟩ := unwind_caught hdispatch hroom
      exact ⟨hdispatch.suffix, stack, hlist, hcapacity, by rw [hstep, hunwind]⟩
    · rw [hstep, unwind_uncaught hdispatch htext]
    · rw [hstep] at hcompletes
      exact unwind_completes hcompletes

/-- A class of exceptions with these members, and the classes that strings need. -/
def exceptionClasses (members : Builder Unit) : VM Unit := do
  let _ ← VM.define (.build ClassName.object none (pure ()))
  let _ ← VM.define (.build ExceptionName.arithmetic (some ClassName.object) members)
  let _ ← VM.define (Library.markerInterface ClassName.cloneable)
  let _ ← VM.define (Library.markerInterface ClassName.serializable)
  let _ ← VM.define (.build ClassName.string (some ClassName.object)
      (Builder.addField ⟨0⟩ "value" "[C"))

/-- A field for the message, and one for something else. -/
def messageMembers (flags : AccessFlags) : Builder Unit := do
  Builder.addField flags "detailMessage" "Ljava/lang/String;"
  Builder.addField ⟨0⟩ "cause" "Ljava/lang/Object;"

/-- A method that divides. -/
def dividing : Method where
  owner := ⟨1⟩
  flags := ⟨8⟩
  name := "f"
  descriptor := "()V"
  parsed := ⟨[], .void⟩
  maxStack := 2
  maxLocals := 0
  code := #[0x6C, 0xB1]
  handlers := []
  lines := []

/-- A handler for the class of exceptions. -/
def arithmeticHandler : Handler := ⟨0, 3, 4, some 2⟩

/-- A method that calls the other one, with a handler behind one that does not cover the call. -/
def guarding : Method := { dividing with
  name := "g", code := #[0xB8, 0, 1, 0xB1, 0x57, 0xB1], handlers :=
    [⟨3, 4, 4, none⟩, arithmeticHandler] }

/-- A frame that is about to divide by zero. -/
def failing : Frame := { Frame.start dividing with stack := ⟨#[.num 1, .num 0], 2⟩ }

/-- Its caller. -/
def waiting : Frame := { Frame.start guarding with nextPc := 3, pc := some 0 }

def raising (members : Builder Unit) : Running :=
  ⟨(outcome (exceptionClasses members) (.start [])).2,
    { Thread.start 8 with frames := [failing, waiting] }⟩

theorem reachable_raising {members : Builder Unit}
    (hcompletes : Completes (outcome (exceptionClasses members) (.start [])).1) :
    (raising members).machine.Reachable := by
  have hprogram : VM.Program .none (exceptionClasses members) :=
    .bind (.define _) fun _ => .bind (.define _) fun _ => .bind (.define _) fun _ =>
        .bind (.define _) fun _ =>
      .bind (.define _) fun _ => .pure ()
  exact .program (.start []) Natives.Lawful.none hprogram (Prod.eta _).symm hcompletes

theorem fetches_raising (members : Builder Unit) :
    Fetches (raising members) ⟨.idiv, .none⟩ ((raising members).past failing [waiting] 1) :=
  ⟨_, _, _, rfl, rfl, rfl⟩

theorem raising_fails (members : Builder Unit) :
    outcome (execute .standard ⟨.idiv, .none⟩) ((raising members).past failing [waiting] 1) =
      (.error (.fault (.exception ExceptionName.arithmetic "/ by zero")),
        ⟨(raising members).machine, { Thread.start 8 with
          frames := [{ failing.past 1 with stack := ⟨#[.num 0, .num 0], 0⟩ }, waiting] }⟩) := rfl

theorem exception_dispatch_raising : ∃ m stack t,
    VM.Makes ExceptionName.arithmetic "/ by zero" (raising (messageMembers ⟨0⟩)).machine ⟨0⟩ m ∧
      stack.toList = [.ref (some ⟨0⟩)] ∧
        outcome (step .standard) (raising (messageMembers ⟨0⟩)) = (.ok ⟨⟩, t) ∧
      t.thread.frames = [{ waiting with stack, nextPc := 4 }] := by
  let members := messageMembers ⟨0⟩
  let m := (outcome (VM.throwable ExceptionName.arithmetic "/ by zero") (raising members).machine).2
  have hmakes : outcome (VM.throwable ExceptionName.arithmetic "/ by zero") (raising members).machine =
      (.ok ⟨0⟩, m) := outcome_of_toOption (by decide +kernel)
  have hcatches : outcome (VM.catches ⟨1⟩ ⟨0⟩ arithmeticHandler) m = (.ok true, _) :=
    outcome_of_toOption (by decide +kernel)
  have hinstance : (outcome
      (VM.load ExceptionName.arithmetic >>= fun id => return VM.messageField? (← get) id)
      (raising members).machine).1.toOption.join.isSome = true := by decide +kernel
  obtain ⟨hobject, hdispatch⟩ := exception_dispatch .standard (raising members)
  obtain ⟨top, callers, next, top', pushed, hframes, htop, -, hcatcher, -, -⟩ :=
    hdispatch ⟨0⟩ ⟨m, _⟩ (.made (fetches_raising members) (raising_fails members) hmakes rfl)
  cases hframes
  have hpassed : top'.Answers ⟨0⟩ m none m := by
    rw [Frame.Answers, htop.pc, htop.method]
    exact .none
  have hanswers : waiting.Answers ⟨0⟩ m (some arithmeticHandler) _ :=
    .elsewhere (by decide) (.caught (by decide) (VM.outcome_catches.mp hcatches))
  obtain ⟨-, stack, hlist, -, hstep⟩ :=
    hcatcher _ _ _ _ (.passed hpassed (.caught hanswers)) (by decide)
  have hnew := hobject Natives.standard_lawful (reachable_raising (by decide +kernel)) _ _ _ _ _ _ _
    (fetches_raising members) (raising_fails members) hmakes
  refine ⟨m, stack, _, hnew.resolve_right ?_, hlist, hstep, rfl⟩
  rintro ⟨id, m₁, field, hload, -, hfound, hstatic, -⟩
  rw [outcome_bind_of_ok hload, outcome_bind_of_ok (outcome_get m₁)] at hinstance
  change (VM.messageField? m₁ id).isSome = true at hinstance
  rw [VM.messageField?, hfound, Search.found?, Option.map_some, Option.filter_some,
    hstatic] at hinstance
  cases hinstance

/-- If the field for the message is static, the message goes into another field of the object. -/
theorem not_always_makes : ¬ ∀ (natives : Natives) (s : Running), natives.Lawful → s.machine.Reachable →
    ∀ i u v className message exception m, Fetches s i u →
      outcome (execute natives i) u = (.error (.fault (.exception className message)), v) →
      outcome (VM.throwable className message) v.machine = (.ok exception, m) →
      VM.Makes className message v.machine exception m := by
  intro h
  let members := messageMembers ⟨AccessFlags.staticBit⟩
  let throwable := VM.throwable ExceptionName.arithmetic "/ by zero"
  have hnone : (outcome
      (VM.load ExceptionName.arithmetic >>= fun id => return VM.messageField? (← get) id)
      (raising members).machine).1.toOption = some none := by decide +kernel
  have hmakes : outcome throwable (raising members).machine = (.ok ⟨0⟩, _) :=
    outcome_of_toOption (by decide +kernel)
  have hcause : ((outcome throwable (raising members).machine).2.object ⟨0⟩).data.fields?.map
      (·.slot? 0) = some (some (.ref (some ⟨2⟩))) := by decide +kernel
  obtain ⟨id, m₁, hload, -, -, fields, hobject, hzero⟩ :=
    h .standard (raising members) Natives.standard_lawful
    (reachable_raising (by decide +kernel)) _ _ _ _ _ _ _ (fetches_raising members)
    (raising_fails members) hmakes
  rw [outcome_bind_of_ok hload, outcome_bind_of_ok (outcome_get m₁)] at hnone
  have hfield : VM.messageField? m₁ id = none := Option.some.inj hnone
  rw [hfield] at hzero
  rw [hobject, hzero, ObjectData.fields?, Option.map_some, SlotTable.slot?, SlotTable.zeros,
    Array.getElem?_replicate] at hcause
  split at hcause <;> cases hcause

end Exec

end JavaMachine
