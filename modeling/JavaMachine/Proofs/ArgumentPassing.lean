import Mathlib.Algebra.GroupWithZero.Nat
import JavaMachine.Proofs.DefaultMethods
import JavaMachine.Proofs.FieldStorage
import JavaMachine.Proofs.FrameShape
import JavaMachine.Proofs.StackContents

/-!
How arguments get from a caller to a method.

An invoke instruction takes them off the operand stack of the caller, a host hands them over as
values. Either way the method finds the same slots in its first local variables, and a native method
in the table of its arguments (`Method.arguments_pass_alike`).
-/

namespace JavaMachine

/-! ### Frames and native calls -/

/-- The first slots of a table, and zeros after them. -/
def SlotTable.Begins (t : SlotTable) (slots : List Slot) : Prop :=
  slots.length ≤ t.size ∧ ∀ i < t.size, t.slot? i = some (slots[i]?.getD .zero)

/-- A frame for a method before its first instruction, with the arguments in its first local
variables. -/
structure Frame.Receives (frame : Frame) (method : Method) (slots : List Slot) : Prop where
  method : frame.method = method
  fresh : frame.Fresh
  locals : frame.locals.Begins slots

theorem SlotTable.slot?_setAll?_inside : ∀ {slots : List Slot} {t u : SlotTable} {index : Nat},
    t.setAll? index slots = some u → ∀ {i : Nat}, i < slots.length → u.slot? (index + i) = slots[i]?
  | [], _, _, _, _, _, hi => absurd hi (Nat.not_lt_zero _)
  | slot :: slots, t, u, index, h, i, hi => by
    obtain ⟨v, hset, hrest⟩ := Option.bind_eq_some_iff.mp h
    cases i with
    | zero => rw [Nat.add_zero, slot?_setAll? hrest (.inl (Nat.lt_succ_self _)),
        slot?_set? hset, if_pos rfl]; rfl
    | succ i =>
      have hnext : index + (i + 1) = index + 1 + i := by omega
      rw [hnext, slot?_setAll?_inside hrest (Nat.lt_of_succ_lt_succ hi), List.getElem?_cons_succ]

theorem SlotTable.begins_of_setAll? {size : Nat} {t : SlotTable} {slots : List Slot}
    (h : (SlotTable.zeros size).setAll? 0 slots = some t) : t.Begins slots := by
  have hsize := size_setAll? h
  have hroom := length_le_of_setAll? h (Nat.zero_le _)
  refine ⟨by omega, fun i hi => ?_⟩
  by_cases hinside : i < slots.length
  · have hslot := slot?_setAll?_inside h hinside
    rw [Nat.zero_add] at hslot
    rw [hslot, List.getElem?_eq_getElem hinside, Option.getD_some]
  · have hzero : (zeros size).slot? i = some .zero := by
      rw [hsize, size_zeros] at hi
      simp [slot?, zeros, hi]
    rw [slot?_setAll? h (.inr (by omega)), hzero, List.getElem?_eq_none (by omega), Option.getD_none]

/-- There is room for as many arguments as a method has local variables. -/
theorem Frame.exists_enter? {method : Method} {slots : List Slot}
    (hroom : slots.length ≤ method.maxLocals) :
    ∃ frame, enter? method slots = some frame ∧ frame.Receives method slots := by
  have hzeros : 0 + slots.length ≤ (start method).locals.size := by
    rw [start, SlotTable.size_zeros]
    omega
  obtain ⟨locals, hset⟩ := SlotTable.exists_setAll? hzeros
  have henter : enter? method slots = some { start method with locals } := by rw [enter?, hset]; rfl
  obtain ⟨hfresh, hmethod⟩ := fresh_enter? henter
  exact ⟨_, henter, hmethod, hfresh, SlotTable.begins_of_setAll? hset⟩

/-- The call of a native method with these arguments. -/
def NativeCall.of (method : Method) (slots : List Slot) : NativeCall :=
  { method, arguments := ⟨slots.toArray⟩ }

theorem NativeCall.slot?_of (method : Method) (slots : List Slot) (i : Nat) :
    (NativeCall.of method slots).arguments.slot? i = slots[i]? := by
    simp [NativeCall.of, SlotTable.slot?]

namespace Running

/-- The same state with other frames on the thread. -/
def withFrames (s : Running) (frames : List Frame) : Running := ⟨s.machine, { s.thread with frames }⟩

theorem withFrames_self {s : Running} {frames : List Frame} (h : s.thread.frames = frames) :
    s.withFrames frames = s := by
  rw [withFrames, ← h]

end Running

namespace Exec

variable {natives : Natives} {method : Method} {s t : Running} {top : Frame} {callers : List Frame}
  {slots : List Slot} {below : OperandStack}

/-- Runs a native method and pushes its result. -/
def answer (native : Native) (given : NativeCall) : Exec Unit := do
  match ← native given with
  | some value => push value
  | none => return ()

/-! ### Calls from an operand stack -/

theorem outcome_popMany_of_hasOnTop (hframes : s.thread.frames = top :: callers)
    (htop : top.stack.HasOnTop slots below) {count : Nat} (hcount : slots.length = count) :
    outcome (popMany count) s = (.ok slots, s.withFrames ({ top with stack := below } :: callers)) := by
  rw [outcome_popMany hframes, ← hcount, htop.popped]
  rfl

/-- A method with code gets a frame with the arguments, which leave the operand stack of the caller. -/
theorem outcome_call_code (hnative : method.flags.isNative = false)
    (habstract : method.flags.isAbstract = false)
    (hframes : s.thread.frames = top :: callers) (htop : top.stack.HasOnTop slots below)
    (hcount : slots.length = method.argumentSlots) {callee : Frame}
    (henter : Frame.enter? method slots = some callee) :
    outcome (call natives method) s =
      outcome (pushFrame callee) (s.withFrames ({ top with stack := below } :: callers)) := by
  have hpop := outcome_popMany_of_hasOnTop hframes htop hcount
  unfold call
  rw [if_neg (by simp [hnative]), if_neg (by simp [habstract]), outcome_bind_of_ok hpop, henter]
  rfl

/-- A native method gets the arguments, and its result goes on what is left of the operand stack of
the caller. -/
theorem outcome_call_native (hnative : method.flags.isNative = true)
    (hframes : s.thread.frames = top :: callers)
    (htop : top.stack.HasOnTop slots below) (hcount : slots.length = method.argumentSlots)
    {native : Native}
    (hfind : natives.find (s.machine.cls method.owner).name method.name method.descriptor =
      pure native) :
    outcome (call natives method) s =
      outcome (answer native (.of method slots))
        (s.withFrames ({ top with stack := below } :: callers)) := by
  have hpop := outcome_popMany_of_hasOnTop hframes htop hcount
  have hfound : outcome
      (liftM (natives.find (s.machine.cls method.owner).name method.name method.descriptor) :
      Exec Native) s = (.ok native, s) := by rw [hfind]; rfl
  unfold call callNative
  rw [if_pos hnative, outcome_bind_of_ok (outcome_frame hframes), outcome_bind_of_ok outcome_machine,
    outcome_bind_of_ok hfound, outcome_bind_of_ok hpop]
  rfl

/-- Values that are pushed one after the other. -/
theorem outcome_push_values :
    ∀ {values : List Value} {s : Running} {top : Frame} {stack : OperandStack},
    s.thread.frames = top :: callers → top.stack.pushAll? (values.flatMap Value.slots) = some stack →
      outcome (values.forM push) s = (.ok ⟨⟩, s.withFrames ({ top with stack } :: callers))
  | [], s, top, stack, hframes, hpush => by
    cases hpush
    rw [Running.withFrames_self hframes]
    rfl
  | value :: values, s, top, stack, hframes, hpush => by
    rw [List.flatMap_cons, OperandStack.pushAll?_append] at hpush
    obtain ⟨between, hfirst, hrest⟩ := Option.bind_eq_some_iff.mp hpush
    have hpushed : outcome (push value) s =
        (.ok ⟨⟩, s.withFrames ({ top with stack := between } :: callers)) := by
      rw [outcome_push hframes, OperandStack.pushValue?, hfirst]
      rfl
    have hframes' : (s.withFrames ({ top with stack := between } :: callers)).thread.frames =
        { top with stack := between } :: callers := rfl
    rw [List.forM, outcome_bind_of_ok hpushed]
    exact (outcome_push_values hframes' hrest).trans rfl

/-- A call of values that are pushed first finds them on top; without them the caller is as it was. -/
theorem outcome_push_call {values : List Value} (hframes : s.thread.frames = top :: callers)
    (htidy : top.stack.Tidy)
    (hroom : top.stack.size + (values.flatMap Value.slots).length ≤ top.stack.capacity) :
    ∃ (caller : Frame) (t : Running), t.machine = s.machine ∧ t.thread.frames = caller :: callers ∧
      caller.stack.HasOnTop (values.flatMap Value.slots) top.stack ∧
      t.withFrames ({ caller with stack := top.stack } :: callers) = s ∧
      outcome (do values.forM push; call natives method) s = outcome (call natives method) t := by
  obtain ⟨stack, hpush⟩ := OperandStack.exists_pushAll? hroom
  refine ⟨{ top with stack }, s.withFrames ({ top with stack } :: callers), rfl, rfl,
    htidy.hasOnTop_of_pushAll? hpush,
    Running.withFrames_self hframes, outcome_bind_of_ok (outcome_push_values hframes hpush)⟩

/-! ### Calls from outside -/

/-- What a call from outside does when its method has a frame. -/
def proceed (natives : Natives) (fuel : Nat) (method : Method) : Exec (Option Value) := do
  if !((← machine).cls method.owner).initStarted then initializeClass method.owner
  finish natives fuel

/-- The result of a native method that was called from outside, by way of an operand stack of its
own. -/
def ownResult (method : Method) (result : Option Value) : VM (Option Value) := do
  let stack := OperandStack.empty (max method.argumentSlots method.parsed.result.size)
  let stack ← match result with
    | some value => VM.inRange (stack.pushValue? value)
    | none => pure stack
  VM.inRange (popResult? stack method.parsed.result)

variable {values : List Value} {fuel : Nat}

theorem length_slots_of_sizes (values : List Value) :
    (values.flatMap Value.slots).length = (values.map Value.size).sum := by
  rw [List.length_flatMap]
  simp only [Value.length_slots]

theorem outcome_invoke_code (hnative : method.flags.isNative = false)
    (hcount : (values.map Value.size).sum = method.argumentSlots) {callee : Frame}
    (henter : Frame.enter? method (values.flatMap Value.slots) = some callee) :
    outcome (invoke natives fuel method values) s =
      outcome (do pushFrame callee; proceed natives fuel method) s := by
  rw [← length_slots_of_sizes] at hcount
  unfold invoke proceed
  dsimp only
  rw [if_neg (by simp [hcount]), if_neg (by simp [hnative]), henter]
  rfl

theorem outcome_invoke_native_found (hnative : method.flags.isNative = true)
    (hcount : (values.map Value.size).sum = method.argumentSlots) {native : Native}
    (hfind : natives.find (s.machine.cls method.owner).name method.name method.descriptor =
      pure native) :
    outcome (invoke natives fuel method values) s =
      outcome (liftM (native (.of method (values.flatMap Value.slots)) >>= ownResult method) : Exec
        (Option Value)) s := by
  rw [← length_slots_of_sizes] at hcount
  unfold invoke invokeNative ownResult
  dsimp only
  have hcls : outcome (VM.cls method.owner) s.machine = (.ok (s.machine.cls method.owner), s.machine) :=
    VM.outcome_cls method.owner
  rw [if_neg (by simp [hcount]), if_pos hnative, outcome_lift, outcome_lift,
    outcome_bind_of_ok hcls, hfind, hcount]
  rfl

/-- Arguments of any other size are refused at once. -/
theorem outcome_invoke_refused (hcount : (values.map Value.size).sum ≠ method.argumentSlots) :
    outcome (invoke natives fuel method values) s = (.error (.fault (.internal (.argumentSlots
      (s.machine.methodText method) method.argumentSlots (values.map Value.size).sum))), s) := by
  rw [← length_slots_of_sizes] at hcount ⊢
  unfold invoke
  dsimp only
  rw [if_pos hcount]
  rfl

end Exec

/-! ### Receivers -/

/-- A method that comes from a class file. -/
def Method.FromFile (method : Method) : Prop :=
  ∃ owner pool member, Definition.method owner pool member = .ok method

namespace Method.FromFile

variable {method other : Method}

theorem roomy (h : method.FromFile) : method.Roomy := by
  obtain ⟨_, _, _, h⟩ := h
  exact (Loader.method_defines h).roomy

/-- Instance methods with the same descriptor take the same arguments. -/
theorem argumentSlots_eq (h : method.FromFile) (h' : other.FromFile)
    (hdescriptor : method.descriptor = other.descriptor)
    (hinstance : method.flags.isStatic = false) (hinstance' : other.flags.isStatic = false) :
    method.argumentSlots = other.argumentSlots := by
  obtain ⟨_, _, _, h⟩ := h
  obtain ⟨_, _, _, h'⟩ := h'
  have hparsed := (Loader.method_defines h).parsed
  rw [hdescriptor, (Loader.method_defines h').parsed] at hparsed
  rw [argumentSlots, argumentSlots, hinstance, hinstance', Option.some.inj hparsed]

end Method.FromFile

namespace Machine

/-- The method that an instruction calls for a receiver and the method that it refers to. A special
call does not look at the class of the receiver. -/
def Selects (m : Machine) (opcode : Opcode) (a : Address) (resolved selected : Method) : Prop :=
  match opcode with
  | .invokevirtual => if resolved.flags.isPrivate then selected = resolved
    else m.method? (m.classOf a) resolved.name resolved.descriptor = some selected
  | .invokeinterface =>
    (((m.method? (m.classOf a) resolved.name resolved.descriptor).filter
        (!·.flags.isAbstract)).orElse fun _ =>
      m.defaultMethod? (m.classOf a) resolved.name resolved.descriptor) = some selected
  | .invokespecial => selected = resolved ∨
    ∃ superClass, m.method? superClass resolved.name resolved.descriptor = some selected
  | _ => False

variable {m : Machine} {id : ClassId} {name descriptor : String} {method resolved selected : Method}

theorem descriptor_of_declared {c : Class} (h : c.method? name descriptor = some method) :
    method.descriptor = descriptor := by
  have hfound := Array.find?_some h
  simp only [Bool.and_eq_true, decide_eq_true_eq] at hfound
  exact hfound.2

theorem descriptor_of_inherited (h : m.method? id name descriptor = some method) :
    method.descriptor = descriptor := by
  obtain ⟨k, -, hmethod⟩ := method?_some h
  exact descriptor_of_declared hmethod

theorem descriptor_of_default (h : m.defaultMethod? id name descriptor = some method) :
    method.descriptor = descriptor := by
  rw [defaultMethod?_eq] at h
  obtain ⟨k, -, hmethod⟩ := List.exists_of_findSome?_eq_some h
  have hfound := (Option.filter_eq_some_iff.mp hmethod).1
  rw [interfaceMethod?, searchInterfaces_eq] at hfound
  obtain ⟨j, -, hdeclared⟩ := List.exists_of_findSome?_eq_some hfound
  exact descriptor_of_declared hdeclared

/-- Whatever is selected has the descriptor of the reference. -/
theorem Selects.descriptor_eq {opcode : Opcode} {a : Address}
    (h : m.Selects opcode a resolved selected) :
    selected.descriptor = resolved.descriptor := by
  unfold Selects at h
  split at h
  · split at h
    · rw [h]
    · exact descriptor_of_inherited h
  · rw [Option.orElse_eq_or, Option.or_eq_some_iff] at h
    rcases h with hclass | ⟨-, hdefault⟩
    · exact descriptor_of_inherited (Option.filter_eq_some_iff.mp hclass).1
    · exact descriptor_of_default hdefault
  · rcases h with rfl | ⟨superClass, hmethod⟩
    · rfl
    · exact descriptor_of_inherited hmethod
  · exact h.elim

end Machine

namespace Exec

variable {natives : Natives} {i : Instruction} {s t u : Running} {α β : Type}
  {resolved : Method} {top : Frame} {callers : List Frame}

/-- The step does what the instruction `i` says: the instruction refers to `resolved`, whose
receiver is `a`, and the step is a call of `selected` in the state `u`. -/
structure DispatchesTo (natives : Natives) (x : Exec Unit) (i : Instruction)
    (s u : Running) (a : Address) (resolved selected : Method) : Prop where
  resolves : ∃ named, outcome (resolveInstanceMethod i) s = (.ok (named, resolved), u)
  receiver : outcome (receiver resolved) u = (.ok a, u)
  selects : u.machine.Selects i.opcode a resolved selected
  calls : outcome x s = outcome (call natives selected) u

/-- The step fails and leaves the thread as it is. -/
def FailsIdle (x : Exec α) (s : Running) : Prop :=
  ∃ e t, outcome x s = (.error e, t) ∧ t.thread = s.thread

/-- A first part that leaves the thread alone fails, or the second part goes on after it. -/
theorem LeavesThread.fails_or {x : Exec α} (hx : LeavesThread x) (f : α → Exec β) (s : Running) :
    FailsIdle (x >>= f) s ∨
      ∃ a u, outcome x s = (.ok a, u) ∧ u.thread = s.thread ∧
        outcome (x >>= f) s = outcome (f a) u := by
  have hsame := hx s
  rcases hrun : outcome x s with ⟨e | a, u⟩ <;> rw [hrun] at hsame
  · exact .inl ⟨e, u, outcome_bind_of_error hrun, hsame⟩
  · exact .inr ⟨a, u, rfl, hsame, outcome_bind_of_ok hrun⟩

theorem DispatchesTo.thread {x : Exec Unit} {a : Address} {selected : Method}
    (h : DispatchesTo natives x i s u a resolved selected) : u.thread = s.thread := by
  obtain ⟨named, hresolves⟩ := h.resolves
  have hsame := LeavesThread.resolveInstanceMethod i s
  rwa [hresolves] at hsame

theorem resolveInstanceMethod_instance {named : ClassId}
    (h : outcome (resolveInstanceMethod i) s = (.ok (named, resolved), t)) :
    resolved.flags.isStatic = false := by
  obtain ⟨⟨id, method⟩, u, -, h⟩ := outcome_bind_ok.mp h
  dsimp only at h
  split at h
  · obtain ⟨m, v, -, h⟩ := outcome_bind_ok.mp h
    cases h
  · rename_i hinstance
    cases h
    simpa using hinstance

theorem outcome_topReference (hframes : s.thread.frames = top :: callers) (depth : Nat) :
    outcome (topReference depth) s = match top.stack.topReference? depth with
      | some r => (.ok r, s)
      | none => (.error .outOfRange, s) := by
  rw [topReference, onStack, outcome_onFrame, hframes]
  dsimp only
  rcases top.stack.topReference? depth with _ | r
  · rfl
  · exact congrArg (Prod.mk _) (Running.withFrames_self hframes)

/-- The receiver of a method is the first of its arguments. -/
theorem outcome_receiver_of_hasOnTop {first : Slot} {slots : List Slot} {below : OperandStack}
    (hframes : s.thread.frames = top :: callers) (htop : top.stack.HasOnTop (first :: slots) below)
    (hcount : (first :: slots).length = resolved.argumentSlots) :
    outcome (receiver resolved) s = match first.reference with
      | some a => (.ok a, s)
      | none => (.error (.fault (.exception ExceptionName.nullPointer
          s!"cannot invoke {s.machine.methodText resolved} on null")), s) := by
  have hpeek := htop.slot 0 (Nat.zero_lt_succ _)
  rw [Nat.sub_zero, hcount] at hpeek
  have hread : outcome (topReference (resolved.argumentSlots - 1)) s = (.ok first.reference, s) := by
    rw [outcome_topReference hframes, OperandStack.topReference?, ← hpeek]
    rfl
  unfold receiver
  rw [outcome_bind_of_ok hread]
  cases first.reference <;> rfl

/-- If there is a receiver, all arguments are there. -/
theorem argumentSlots_le_of_receiver {a : Address} (hframes : s.thread.frames = top :: callers)
    (h : outcome (receiver resolved) s = (.ok a, t)) (hinstance : resolved.flags.isStatic = false) :
    resolved.argumentSlots ≤ top.stack.size := by
  obtain ⟨r, u, hread, -⟩ := outcome_bind_ok.mp h
  rw [outcome_topReference hframes] at hread
  rcases hpeek : top.stack.peek? (resolved.argumentSlots - 1) with _ | slot
  · rw [OperandStack.topReference?, hpeek] at hread
    cases hread
  · have hdepth : resolved.argumentSlots - 1 < top.stack.size := by
      unfold OperandStack.peek? at hpeek
      split at hpeek
      · assumption
      · cases hpeek
    have hpositive : 1 ≤ resolved.argumentSlots := by rw [Method.argumentSlots, hinstance]; simp
    omega

/-- A receiver that has been tested is the first argument. -/
theorem exists_first_of_receiver {a : Address} (hframes : s.thread.frames = top :: callers)
    (htidy : top.stack.Tidy)
    (h : outcome (receiver resolved) s = (.ok a, s)) (hinstance : resolved.flags.isStatic = false) :
    ∃ first rest below, (first :: rest).length = resolved.argumentSlots ∧
      top.stack.HasOnTop (first :: rest) below ∧
      first.reference = some a := by
  have hsize := argumentSlots_le_of_receiver hframes h hinstance
  obtain ⟨slots, below, hcount, htop⟩ := htidy.exists_hasOnTop hsize
  cases slots with
  | nil =>
    rw [Method.argumentSlots, hinstance] at hcount
    cases hcount
  | cons first rest =>
    refine ⟨first, rest, below, hcount, htop, ?_⟩
    rw [outcome_receiver_of_hasOnTop hframes htop hcount] at h
    cases hfirst : first.reference with
    | none => rw [hfirst] at h; cases h
    | some b => rw [hfirst] at h; cases h; rfl

/-- A receiver that is tested is there, or the test fails; nothing changes. -/
theorem receiver_cases (hframes : s.thread.frames = top :: callers) (resolved : Method) :
    (∃ e, outcome (receiver resolved) s = (.error e, s)) ∨
    ∃ a, outcome (receiver resolved) s = (.ok a, s) := by
  have hread := outcome_topReference hframes (resolved.argumentSlots - 1)
  unfold receiver
  rcases hpeek : top.stack.topReference? (resolved.argumentSlots - 1) with _ | _ | a <;>
    rw [hpeek] at hread
  · exact .inl ⟨_, outcome_bind_of_error hread⟩
  · exact .inl ⟨_, outcome_bind_of_ok hread⟩
  · exact .inr ⟨a, outcome_bind_of_ok hread⟩

/-- The two ways of a step that calls a method for a receiver. -/
def Dispatches (natives : Natives) (x : Exec Unit) (i : Instruction) (s : Running) : Prop :=
  FailsIdle x s ∨ ∃ u a resolved selected, DispatchesTo natives x i s u a resolved selected

theorem Dispatches.of_outcome_eq {x y : Exec Unit} (h : outcome x s = outcome y s)
    (hy : Dispatches natives y i s) :
    Dispatches natives x i s := by
  rcases hy with ⟨e, t, hfails, ht⟩ | ⟨u, a, resolved, selected, hy⟩
  · exact .inl ⟨e, t, h.trans hfails, ht⟩
  · exact .inr ⟨u, a, resolved, selected, hy.resolves, hy.receiver, hy.selects, h.trans hy.calls⟩

/-- What an instruction does after it found the method that it refers to: it tests the receiver,
unless it fails before, and then selects the method to call. -/
theorem dispatches_of_resolves {g : ClassId × Method → Exec Unit}
    (hframes : s.thread.frames = top :: callers)
    (hg : ∀ named resolved u, (∃ e, outcome (g (named, resolved)) u = (.error e, u)) ∨
      ∃ f : Address → Exec Unit, outcome (g (named, resolved)) u = outcome (receiver resolved >>= f) u ∧
        ∀ a, (∃ e, outcome (f a) u = (.error e, u)) ∨
          ∃ selected, u.machine.Selects i.opcode a resolved selected ∧
          outcome (f a) u = outcome (call natives selected) u) :
    Dispatches natives (resolveInstanceMethod i >>= g) i s := by
  rcases (LeavesThread.resolveInstanceMethod i).fails_or g s with hfails |
    ⟨⟨named, resolved⟩, u, hresolves, hu, hrun⟩
  · exact .inl hfails
  rcases hg named resolved u with ⟨e, hfails⟩ | ⟨f, htests, hf⟩
  · exact .inl ⟨e, u, hrun.trans hfails, hu⟩
  rcases receiver_cases (hu ▸ hframes) resolved with ⟨e, hreceiver⟩ | ⟨a, hreceiver⟩
  · exact .inl ⟨e, u, hrun.trans (htests.trans (outcome_bind_of_error hreceiver)), hu⟩
  rw [htests, outcome_bind_of_ok hreceiver] at hrun
  rcases hf a with ⟨e, hfails⟩ | ⟨selected, hselects, hcalls⟩
  · exact .inl ⟨e, u, hrun.trans hfails, hu⟩
  · exact .inr ⟨u, a, resolved, selected, ⟨named, hresolves⟩, hreceiver, hselects, hrun.trans hcalls⟩

/-- The method that a search finds is called, or the call fails. -/
theorem callFound_cases (natives : Natives) (search : Search Method) (method : Method) (u : Running) :
    (∃ e, outcome (callFound natives search method) u = (.error e, u)) ∨
      ∃ selected, search = .found selected ∧
        outcome (callFound natives search method) u = outcome (call natives selected) u := by
  rw [outcome_callFound]
  cases search with
  | found selected => exact .inr ⟨selected, rfl, rfl⟩
  | absent => exact .inl ⟨_, rfl⟩
  | endless => exact .inl ⟨_, rfl⟩

theorem invokeVirtual_dispatches (hopcode : i.opcode = .invokevirtual)
    (hframes : s.thread.frames = top :: callers) :
    Dispatches natives (invokeVirtual natives i) i s := by
  refine dispatches_of_resolves hframes fun _ resolved u => .inr ⟨_, rfl, fun a => ?_⟩
  rw [hopcode]
  dsimp only [Machine.Selects]
  split
  · exact .inr ⟨resolved, rfl, rfl⟩
  · rw [outcome_bind_of_ok outcome_machine]
    refine (callFound_cases natives _ resolved u).imp_right fun ⟨selected, hfound, hcalls⟩ =>
      ⟨selected, ?_, hcalls⟩
    exact Search.found?_eq_some.mpr hfound

theorem invokeInterface_dispatches (hopcode : i.opcode = .invokeinterface)
    (hframes : s.thread.frames = top :: callers) :
    Dispatches natives (invokeInterface natives i) i s := by
  refine dispatches_of_resolves hframes fun named resolved u => .inr ⟨_, rfl, fun a => ?_⟩
  rw [hopcode, outcome_bind_of_ok outcome_machine]
  dsimp only
  rcases u.machine.implementingSearch (u.machine.classOf a) named with ⟨⟩ | _ | _
  · refine (callFound_cases natives _ resolved u).imp_right fun ⟨selected, hfound, hcalls⟩ =>
      ⟨selected, ?_, hcalls⟩
    dsimp only [Machine.Selects]
    rw [Option.orElse_eq_or, Option.or_eq_some_iff, Machine.method?, ← Search.found?_filter]
    rcases Search.orElse_eq_found.mp hfound with hclass | ⟨hclass, hdefault⟩ <;> rw [hclass]
    · exact .inl rfl
    · exact .inr ⟨rfl, Search.found?_eq_some.mpr hdefault⟩
  · exact .inl ⟨_, rfl⟩
  · exact .inl ⟨_, rfl⟩

theorem invokeSpecial_dispatches (hopcode : i.opcode = .invokespecial)
    (hframes : s.thread.frames = top :: callers) :
    Dispatches natives (invokeSpecial natives i) i s := by
  have howner : outcome owner s = (.ok top.owner, s) := outcome_bind_of_ok (outcome_frame hframes)
  unfold invokeSpecial
  refine .of_outcome_eq (outcome_bind_of_ok howner)
    (dispatches_of_resolves hframes fun named resolved u => ?_)
  rw [hopcode, outcome_bind_of_ok outcome_machine]
  dsimp only
  split
  · exact .inl ⟨_, rfl⟩
  · refine .inr ⟨_, rfl, fun a => ?_⟩
    rcases superCallSearch u.machine top.owner named resolved with ⟨⟩ | _ | _
    · refine (callFound_cases natives _ resolved u).imp_right fun ⟨selected, hfound, hcalls⟩ =>
        ⟨selected, .inr ?_, hcalls⟩
      obtain ⟨superClass, -, hmethod⟩ := Search.exists_of_first_eq hfound (by simp)
      exact ⟨superClass, Search.found?_eq_some.mpr hmethod⟩
    · exact .inr ⟨resolved, .inl rfl, rfl⟩
    · exact .inl ⟨_, rfl⟩

/-- The instructions that call a method of an object. -/
def OnReceiver (i : Instruction) : Prop :=
  (plainForm i).opcode ∈ [Opcode.invokevirtual, .invokespecial, .invokeinterface]

theorem execute_dispatches (h : OnReceiver i) (hframes : s.thread.frames = top :: callers) :
    Dispatches natives (execute natives i) (plainForm i) s := by
  unfold OnReceiver at h
  rw [execute_eq]
  generalize plainForm i = i at h
  rcases i with ⟨opcode, operands⟩
  simp only [List.mem_cons, List.not_mem_nil, or_false] at h
  rcases h with rfl | rfl | rfl
  · exact invokeVirtual_dispatches rfl hframes
  · exact invokeSpecial_dispatches rfl hframes
  · exact invokeInterface_dispatches rfl hframes

end Exec

/-! ### All ways to call a method -/

open Exec

/-- However the method is called, it finds the same arguments in the same places. -/
structure Method.PassesArguments (natives : Natives) (method : Method) : Prop where
  /-- A method with code gets a frame, and the caller loses the arguments from its operand stack. -/
  code : method.flags.isNative = false → method.flags.isAbstract = false →
    ∀ {s : Running} {top callers},
    s.thread.frames = top :: callers → top.stack.Tidy → method.argumentSlots ≤ top.stack.size →
      ∃ slots below, slots.length = method.argumentSlots ∧ top.stack.HasOnTop slots below ∧
        ∃ callee : Frame, callee.Receives method slots ∧ outcome (call natives method) s =
          outcome (pushFrame callee) (s.withFrames ({ top with stack := below } :: callers))
  /-- A native method gets them in the table of its call. -/
  native : method.flags.isNative = true → ∀ {s : Running} {top callers native},
    natives.find (s.machine.cls method.owner).name method.name method.descriptor = pure native →
      s.thread.frames = top :: callers → top.stack.Tidy → method.argumentSlots ≤ top.stack.size →
        ∃ slots below, slots.length = method.argumentSlots ∧ top.stack.HasOnTop slots below ∧
          (∀ i, (NativeCall.of method slots).arguments.slot? i = slots[i]?) ∧
          outcome (call natives method) s =
            outcome (answer native (.of method slots))
            (s.withFrames ({ top with stack := below } :: callers))
  /-- The receiver that is tested for the method of a reference is the first argument of any method
  that is called for it. -/
  tested : method.flags.isStatic = false → ∀ {resolved : Method} {s : Running}
    {top callers first rest below},
    resolved.FromFile → resolved.flags.isStatic = false → resolved.descriptor = method.descriptor →
      s.thread.frames = top :: callers → top.stack.HasOnTop (first :: rest) below →
        (first :: rest).length = method.argumentSlots →
        outcome (receiver resolved) s = match first.reference with
          | some a => (.ok a, s)
          | none => (.error (.fault (.exception ExceptionName.nullPointer
              s!"cannot invoke {s.machine.methodText resolved} on null")), s)
  /-- An instruction that calls the method for a receiver finds it as the first argument. -/
  dispatched : method.flags.isStatic = false → ∀ {x i resolved a} {s u : Running} {top callers},
    DispatchesTo natives x i s u a resolved method → resolved.FromFile →
    s.thread.frames = top :: callers → top.stack.Tidy →
      ∃ first rest below, (first :: rest).length = method.argumentSlots ∧
      top.stack.HasOnTop (first :: rest) below ∧ first.reference = some a
  /-- From outside, values get to a method with code as if they had been pushed and the method
  called. -/
  outsideCode : method.flags.isNative = false → ∀ {values : List Value},
    (values.map Value.size).sum = method.argumentSlots →
    ∃ callee : Frame, callee.Receives method (values.flatMap Value.slots) ∧
      (∀ fuel s, outcome (invoke natives fuel method values) s =
        outcome (do pushFrame callee; proceed natives fuel method) s) ∧
      (method.flags.isAbstract = false → ∀ {s : Running} {top callers},
        s.thread.frames = top :: callers → top.stack.Tidy →
        top.stack.size + method.argumentSlots ≤ top.stack.capacity →
          outcome (do values.forM push; call natives method) s = outcome (pushFrame callee) s)
  /-- The same holds for a native method. -/
  outsideNative : method.flags.isNative = true → ∀ {values : List Value},
    (values.map Value.size).sum = method.argumentSlots →
    ∀ {s : Running} {native},
    natives.find (s.machine.cls method.owner).name method.name method.descriptor = pure native →
      (∀ fuel, outcome (invoke natives fuel method values) s = outcome (liftM
        (native (.of method (values.flatMap Value.slots)) >>= ownResult method) : Exec
          (Option Value)) s) ∧
      ∀ {top callers}, s.thread.frames = top :: callers → top.stack.Tidy →
        top.stack.size + method.argumentSlots ≤ top.stack.capacity →
          outcome (do values.forM push; call natives method) s =
            outcome (answer native (.of method (values.flatMap Value.slots))) s
  /-- Values that take any other number of slots are refused. -/
  refused : ∀ {values : List Value}, (values.map Value.size).sum ≠ method.argumentSlots → ∀ fuel s,
    outcome (invoke natives fuel method values) s = (.error (.fault (.internal (.argumentSlots
      (s.machine.methodText method) method.argumentSlots (values.map Value.size).sum))), s)

namespace Method

variable {natives : Natives} {method : Method}

/-- All ways to call a method of a class file pass its arguments alike. Each instruction that calls
a method of an object does so for a receiver that it has tested, or fails and leaves the thread as
it is. -/
theorem arguments_pass_alike (h : method.FromFile) : method.PassesArguments natives ∧
    ∀ {i : Instruction} {s : Running} {top callers}, OnReceiver i → s.thread.frames = top :: callers →
      Dispatches natives (execute natives i) (plainForm i) s := by
  have hroom : ∀ {slots : List Slot}, slots.length = method.argumentSlots →
      slots.length ≤ method.maxLocals := by
    intro slots hcount
    rw [hcount]
    exact h.roomy
  refine ⟨?_, execute_dispatches⟩
  constructor
  case code =>
    intro hnative habstract s top callers hframes htidy hsize
    obtain ⟨slots, below, hcount, htop⟩ := htidy.exists_hasOnTop hsize
    obtain ⟨callee, henter, hreceives⟩ := Frame.exists_enter? (hroom hcount)
    exact ⟨slots, below, hcount, htop, callee, hreceives,
      outcome_call_code hnative habstract hframes htop hcount henter⟩
  case native =>
    intro hnative s top callers native hfind hframes htidy hsize
    obtain ⟨slots, below, hcount, htop⟩ := htidy.exists_hasOnTop hsize
    exact ⟨slots, below, hcount, htop, NativeCall.slot?_of method slots,
      outcome_call_native hnative hframes htop hcount hfind⟩
  case tested =>
    intro hinstance resolved s top callers first rest below hresolved hinstance' hdescriptor
      hframes htop hcount
    have hslots := hresolved.argumentSlots_eq h hdescriptor hinstance' hinstance
    exact outcome_receiver_of_hasOnTop hframes htop (hcount.trans hslots.symm)
  case dispatched =>
    intro hinstance x i resolved a s u top callers hdispatch hresolved hframes htidy
    obtain ⟨named, hresolves⟩ := hdispatch.resolves
    have hinstance' := resolveInstanceMethod_instance hresolves
    have hslots := hresolved.argumentSlots_eq h hdispatch.selects.descriptor_eq.symm
      hinstance' hinstance
    have hframes' : u.thread.frames = top :: callers := by rw [hdispatch.thread, hframes]
    obtain ⟨first, rest, below, hcount, hfirst⟩ :=
      exists_first_of_receiver hframes' htidy hdispatch.receiver hinstance'
    exact ⟨first, rest, below, hcount.trans hslots, hfirst⟩
  case outsideCode =>
    intro hnative values hsizes
    have hcount := (length_slots_of_sizes values).trans hsizes
    obtain ⟨callee, henter, hreceives⟩ := Frame.exists_enter? (hroom hcount)
    refine ⟨callee, hreceives, fun fuel s => outcome_invoke_code hnative hsizes henter, ?_⟩
    intro habstract s top callers hframes htidy hspace
    obtain ⟨caller, t, -, hcaller, htop, hback, hcall⟩ :=
      outcome_push_call hframes htidy (by rw [hcount]; exact hspace)
    rw [hcall, outcome_call_code hnative habstract hcaller htop hcount henter, hback]
  case outsideNative =>
    intro hnative values hsizes s native hfind
    have hcount := (length_slots_of_sizes values).trans hsizes
    refine ⟨fun fuel => outcome_invoke_native_found hnative hsizes hfind, ?_⟩
    intro top callers hframes htidy hspace
    obtain ⟨caller, t, hmachine, hcaller, htop, hback, hcall⟩ :=
      outcome_push_call hframes htidy (by rw [hcount]; exact hspace)
    rw [hcall, outcome_call_native hnative hcaller htop hcount (hmachine ▸ hfind), hback]
  case refused => exact fun hsizes fuel s => outcome_invoke_refused hsizes

/-- An instance method that takes an int and a long. -/
def weighing : Method where
  owner := ⟨0⟩
  flags := ⟨0⟩
  name := "weigh"
  descriptor := "(IJ)I"
  parsed := ⟨[.int, .long], .value .int⟩
  maxStack := 1
  maxLocals := 6
  code := #[0x1B, 0xAC]
  handlers := []
  lines := []

theorem weighing_fromFile : weighing.FromFile :=
  ⟨⟨0⟩, #[.unusable, .utf8 (Text.units "weigh"), .utf8 (Text.units "(IJ)I"), .utf8 (Text.units "Code")],
    ⟨⟨0⟩, 1, 2, [.code 3 1 6 [0x1B, 0xAC] [] []]⟩, by decide +kernel⟩

/-- A caller with an object, an int and a long on its operand stack. -/
def weighingCaller : Frame :=
  { Frame.start weighing with stack := ⟨#[.ref (some ⟨0⟩), .num 7, .num 1, .num 0], 4⟩ }

theorem arguments_pass_alike_weighing : ∃ slots below, slots.length = 4 ∧
      weighingCaller.stack.HasOnTop slots below ∧ ∃ callee : Frame, callee.Receives weighing slots ∧
      outcome (call .none weighing) ⟨.start [], { Thread.start 2 with frames := [weighingCaller] }⟩ =
        outcome (pushFrame callee)
        (Running.withFrames ⟨.start [], { Thread.start 2 with frames := [weighingCaller] }⟩
          [{ weighingCaller with stack := below }]) := by
  have htidy : weighingCaller.stack.Tidy :=
    ⟨by decide, fun i hle hlt => absurd hlt (Nat.not_lt.mpr hle)⟩
  exact (arguments_pass_alike weighing_fromFile).1.code rfl rfl rfl htidy (by decide)

end Method

end JavaMachine
