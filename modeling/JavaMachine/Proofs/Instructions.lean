import JavaMachine.Proofs.OperandStack
import JavaMachine.Proofs.Orderly

/-!
What instructions do to a thread.

`Exec.Plain` is the steps that look at and change the top frame, put fresh frames on top of it and
run programs on the machine. Every instruction but the returns is one (`plain_execute`), so a
relation between states that these few steps respect is respected by all of them.
-/

namespace JavaMachine

/-- The opcodes that return from a method. -/
def Opcode.isReturn : Opcode → Bool
  | .ireturn | .lreturn | .freturn | .dreturn | .areturn | .returnVoid => true
  | _ => false

/-- The frame of the same activation later on: only the values that it holds and the position that
it goes on at may have changed. -/
structure Frame.Continues (before after : Frame) : Prop where
  method : after.method = before.method
  pc : after.pc = before.pc
  locals : after.locals.size = before.locals.size
  stack : after.stack.capacity = before.stack.capacity

/-- The frame later on, with a tidy operand stack if it had one. -/
structure Frame.Leads (before after : Frame) : Prop extends before.Continues after where
  tidy : before.stack.Tidy → after.stack.Tidy

/-- A frame that has not run an instruction yet, with the room that its method asks for. -/
structure Frame.Fresh (frame : Frame) : Prop where
  pc : frame.pc = none
  nextPc : frame.nextPc = 0
  locals : frame.locals.size = frame.method.maxLocals
  stack : frame.stack = .empty frame.method.maxStack

namespace Frame

theorem Continues.refl (f : Frame) : f.Continues f := ⟨rfl, rfl, rfl, rfl⟩

theorem Continues.trans {f g h : Frame} (hfg : f.Continues g) (hgh : g.Continues h) : f.Continues h :=
  ⟨hgh.method.trans hfg.method, hgh.pc.trans hfg.pc, hgh.locals.trans hfg.locals,
    hgh.stack.trans hfg.stack⟩

theorem Leads.refl (f : Frame) : f.Leads f := ⟨.refl f, id⟩

/-- Only the operand stack changes. -/
theorem leads_stack {frame : Frame} {stack : OperandStack} (h : frame.stack.Leads stack) :
    frame.Leads { frame with stack } := ⟨⟨rfl, rfl, rfl, h.capacity⟩, h.tidy⟩

/-- So it is after a step on the operand stack that keeps that in order. -/
theorem leads_onStack {α : Type} {step : OperandStack → Option (α × OperandStack)}
    {f f' : Frame} {a : α} (h : OperandStack.Keeps step)
    (hf : (step f.stack).map (fun (result, stack) => (result, { f with stack })) = some (a, f')) :
    f.Leads f' := by
  obtain ⟨⟨_, stack⟩, hstep, heq⟩ := Option.map_eq_some_iff.mp hf
  cases heq
  exact leads_stack (h hstep)

/-- Only the position to go on at changes. -/
theorem leads_nextPc (frame : Frame) (nextPc : UInt64) : frame.Leads { frame with nextPc } :=
  ⟨⟨rfl, rfl, rfl, rfl⟩, id⟩

theorem fresh_start (method : Method) : (start method).Fresh := ⟨rfl, rfl, by simp [start], rfl⟩

theorem fresh_enter? {method : Method} {arguments : List Slot} {frame : Frame}
    (h : enter? method arguments = some frame) : frame.Fresh ∧ frame.method = method := by
  obtain ⟨locals, hlocals, rfl⟩ := Option.map_eq_some_iff.mp h
  exact ⟨⟨rfl, rfl, by rw [SlotTable.size_setAll? hlocals]; simp [start], rfl⟩, rfl⟩

end Frame

namespace Exec

/-- Steps put together from changes of the top frame, fresh frames on top and programs on the
machine. -/
inductive Plain (natives : Natives) : {α : Type} → Exec α → Prop where
  | pure {α : Type} (a : α) : Plain natives (pure a : Exec α)
  | throw {α : Type} (e : Failure) : Plain natives (throw e : Exec α)
  | bind {α β : Type} {x : Exec α} {f : α → Exec β} (first : Plain natives x)
      (second : ∀ a, Plain natives (f a)) : Plain natives (x >>= f)
  | lift {α : Type} {x : VM α} (program : VM.Program natives x) : Plain natives (liftM x : Exec α)
  | pc : Plain natives (Thread.pc <$> thread)
  | onFrame {α : Type} {step : Frame → Option (α × Frame)}
      (leads : ∀ f a f', step f = some (a, f') → Frame.Leads f f') : Plain natives (onFrame step)
  | pushFrame {frame : Frame} (fresh : frame.Fresh) : Plain natives (pushFrame frame)

/-- Plain steps whose programs are tame, and which begin no initialization: the frames that they put
on top have their arguments from the operand stack. -/
inductive Woven (natives : Natives) : {α : Type} → Exec α → Prop where
  | pure {α : Type} (a : α) : Woven natives (pure a : Exec α)
  | throw {α : Type} (e : Failure) : Woven natives (throw e : Exec α)
  | bind {α β : Type} {x : Exec α} {f : α → Exec β} (first : Woven natives x)
      (second : ∀ a, Woven natives (f a)) : Woven natives (x >>= f)
  | lift {α : Type} {x : VM α} (tame : VM.Tame natives x) : Woven natives (liftM x : Exec α)
  | pc : Woven natives (Thread.pc <$> thread)
  | onFrame {α : Type} {step : Frame → Option (α × Frame)}
      (leads : ∀ f a f', step f = some (a, f') → Frame.Leads f f') : Woven natives (onFrame step)
  | enter (method : Method) : Woven natives (do
      let arguments ← popMany method.argumentSlots
      pushFrame (← VM.inRange (Frame.enter? method arguments)))

variable {natives : Natives} {α β : Type}

/-- A method is entered with arguments that fit its local variables, or not at all. -/
theorem Plain.enter (method : Method) (arguments : List Slot) : Plain natives (do
    Exec.pushFrame (← VM.inRange (Frame.enter? method arguments))) := by
  cases h : Frame.enter? method arguments with
  | none => exact .throw _
  | some frame => exact .pushFrame (Frame.fresh_enter? h).1

theorem Woven.plain {x : Exec α} (h : Woven natives x) : Plain natives x := by
  induction h with
  | pure a => exact .pure a
  | throw e => exact .throw e
  | bind _ _ hx hf => exact .bind hx hf
  | lift tame => exact .lift tame.program
  | pc => exact .pc
  | onFrame leads => exact .onFrame leads
  | enter method =>
    exact .bind (.onFrame fun _ _ _ => Frame.leads_onStack (OperandStack.keeps_popMany? _))
      fun _ => .enter method _

theorem liftM_pure (a : α) : (liftM (pure a : VM α) : Exec α) = pure a := rfl

/-! ### Needed classes -/

/-- An instruction that needs a class. It refers to something that belongs to the class, and goes on
to use that if it does not have to wait for the initialization of the class. -/
structure Need where
  Ref : Type
  refer : Exec Ref
  owner : Ref → ClassId
  use : Ref → Exec Unit

/-- The instruction in one. -/
def Need.run (need : Need) : Exec Unit := do
  let ref ← need.refer
  if ← awaitsInitialization (need.owner ref) then return ()
  need.use ref

/-- Pushes the value of a static field. -/
def readStatic (id : FieldId) : Exec Unit := do
  let m ← machine
  pushSlots (← fieldSlots (m.cls id.owner).statics (m.fieldAt id))

/-- Pops a value into a static field. -/
def writeStatic (id : FieldId) : Exec Unit := do
  let field := (← machine).fieldAt id
  let slots ← popMany field.width
  VM.storeStatics id.owner field.slot slots

/-- The class that an instruction refers to, which has to have instances. -/
def instantiable (i : Instruction) : Exec ClassId := do
  let owner ← owner
  let id ← VM.resolveClass owner (← poolIndex i)
  let c := (← machine).cls id
  if c.isInterface || c.flags.isAbstract then raise ExceptionName.instantiation c.name
  return id

/-- The method that an instruction refers to, which has to be static. -/
def resolveStaticMethod (i : Instruction) : Exec (ClassId × Method) := do
  let (id, method) ← resolveMethod i
  if !method.flags.isStatic then incompatible s!"{(← machine).methodText method} is not static"
  return (id, method)

/-- How an instruction needs a class; most need none. -/
def need? (natives : Natives) (i : Instruction) : Option Need :=
  match i.opcode with
  | .getstatic => some ⟨FieldId, resolveField i true, (·.owner), readStatic⟩
  | .putstatic => some ⟨FieldId, resolveField i true, (·.owner), writeStatic⟩
  | .new => some ⟨ClassId, instantiable i, id, fun id => do pushReference (some (← VM.newObject id))⟩
  | .invokestatic => some ⟨ClassId × Method, resolveStaticMethod i, (·.2.owner),
      fun (_, method) => call natives method⟩
  | _ => none

theorem liftM_bind (x : VM α) (f : α → VM β) :
    (liftM (x >>= f) : Exec β) = (liftM x : Exec α) >>= fun a => liftM (f a) := by
  funext s
  change outcome (liftM (x >>= f) : Exec β) s = outcome ((liftM x : Exec α) >>= fun a => liftM (f a)) s
  rw [outcome_lift, outcome_bind, outcome_bind, outcome_lift]
  rcases outcome x s.machine with ⟨_ | _, _⟩ <;> rfl

theorem putStatic_eq (i : Instruction) : putStatic i = (do
    let id ← resolveField i true
    if ← awaitsInitialization id.owner then return ()
    writeStatic id) := by
  simp only [putStatic, writeStatic, VM.storeStatics, VM.cls, liftM_bind, bind_assoc]
  rfl

theorem liftM_instanceFields (a : Address) :
    (liftM (VM.instanceFields a) : Exec SlotTable) = instanceFields a := by
  rw [VM.instanceFields, liftM_bind]
  refine congrArg (machine >>= ·) (funext fun m => ?_)
  cases (m.object a).data.fields? <;> rfl

theorem liftM_storeFields (a : Address) (slot : Nat) (slots : List Slot) :
    (liftM (VM.storeFields a slot slots) : Exec Unit) = (do
      let fields ← instanceFields a
      VM.setData a (.fields (← VM.inRange (fields.setAll? slot slots)))) := by
  rw [VM.storeFields, liftM_bind, liftM_instanceFields]
  simp only [liftM_bind]

theorem putField_eq (i : Instruction) : putField i = (do
    let id ← resolveField i false
    let field := (← machine).fieldAt id
    let slots ← popMany field.width
    let a ← popObject s!"cannot assign field {field.name}"
    VM.storeFields a field.slot slots) := by
  simp only [putField, liftM_storeFields]

theorem newObject_eq (i : Instruction) : newObject i = (do
    let id ← instantiable i
    if ← awaitsInitialization id then return ()
    pushReference (some (← VM.newObject id))) := by
  simp only [newObject, instantiable, bind_assoc]
  refine congrArg (owner >>= ·) (funext fun owner => congrArg (poolIndex i >>= ·)
    (funext fun index => ?_))
  refine congrArg (_ >>= ·) (funext fun id => congrArg (machine >>= ·) (funext fun m => ?_))
  split <;> simp

theorem invokeStatic_eq (i : Instruction) : invokeStatic natives i = (do
    let (_, method) ← resolveStaticMethod i
    if ← awaitsInitialization method.owner then return ()
    call natives method) := by
  simp only [invokeStatic, resolveStaticMethod, bind_assoc]
  refine congrArg (resolveMethod i >>= ·) (funext fun resolved => ?_)
  split <;> simp

/-- An instruction that needs a class is what it does before, the question whether it has to wait,
and what it does after. -/
theorem perform_need {i : Instruction} {need : Need} (h : need? natives i = some need) :
    perform natives i = need.run := by
  rcases i with ⟨opcode, operands⟩
  unfold need? at h
  dsimp only at h
  split at h <;> cases h
  · rfl
  · exact putStatic_eq _
  · exact newObject_eq _
  · exact invokeStatic_eq _

namespace Woven

theorem check {c : Prop} [Decidable c] {x : Exec β} {y : Exec β} (hx : Woven natives x)
    (hy : Woven natives y) :
    Woven natives (if c then x else y) := by
  split
  · exact hx
  · exact hy

/-- Something that is done only in some cases, before the rest. -/
theorem checkFirst {c : Prop} [Decidable c] {x : Exec α} {rest : Exec β} (hx : Woven natives x)
    (hrest : Woven natives rest) : Woven natives (if c then x >>= fun _ => rest else rest) :=
  check (.bind hx fun _ => hrest) hrest

@[simp]
theorem fail (fault : Fault) : Woven natives (fail fault : Exec α) := .throw _

/-- Nothing comes after a fault. -/
theorem failed (fault : Fault) (f : α → Exec β) : Woven natives (Exec.fail fault >>= f) :=
  .throw (.fault fault)

theorem raise (className message : String) : Woven natives (raise className message : Exec α) :=
  .throw _

theorem machine : Woven natives machine := .lift .get

/-! ### Frames and operands -/

theorem frame : Woven natives frame := .onFrame fun f _ _ h => by cases h; exact .refl f

theorem modifyFrame {change : Frame → Frame} (h : ∀ f : Frame, f.Leads (change f)) :
    Woven natives (modifyFrame change) := .onFrame fun f _ _ hf => by cases hf; exact h f

theorem goOn (position : UInt64) : Woven natives (Exec.modifyFrame ({ · with nextPc := position })) :=
  modifyFrame fun frame => frame.leads_nextPc position

/-- What is read of a thread is the position of the instruction. -/
theorem readPc {f : UInt64 → Exec β} (h : ∀ pc, Woven natives (f pc)) :
    Woven natives (Exec.thread >>= fun t => f t.pc) := by
  rw [← bind_map_left]
  exact .bind .pc h

theorem branch (offset : Int32) : Woven natives (branch offset) :=
  readPc (f := fun pc => Exec.modifyFrame (·.branch pc offset)) fun _ => modifyFrame fun frame =>
    frame.leads_nextPc _

theorem onStack {step : OperandStack → Option (α × OperandStack)} (h : OperandStack.Keeps step) :
    Woven natives (onStack step) := .onFrame fun _ _ _ => Frame.leads_onStack h

theorem changeStack {change : OperandStack → Option OperandStack}
    (h : ∀ s t, change s = some t → s.Leads t) : Woven natives (changeStack change) :=
  onStack fun s _ t hs => by
    obtain ⟨u, hchange, heq⟩ := Option.map_eq_some_iff.mp hs
    cases heq
    exact h s _ hchange

theorem popSlot : Woven natives popSlot := onStack OperandStack.keeps_pop?
theorem popInt : Woven natives popInt := onStack OperandStack.keeps_popInt?
theorem popLong : Woven natives popLong := onStack OperandStack.keeps_popLong?
theorem popFloat : Woven natives popFloat := onStack OperandStack.keeps_popFloat?
theorem popDouble : Woven natives popDouble := onStack OperandStack.keeps_popDouble?
theorem popReference : Woven natives popReference := onStack OperandStack.keeps_popReference?
theorem popMany (count : Nat) : Woven natives (popMany count) :=
  onStack (OperandStack.keeps_popMany? count)

theorem pushSlot (slot : Slot) : Woven natives (pushSlot slot) :=
  changeStack fun _ _ => OperandStack.leads_push?

theorem pushSlots (slots : List Slot) : Woven natives (pushSlots slots) :=
  changeStack fun _ _ => OperandStack.leads_pushAll?

theorem push (value : Value) : Woven natives (push value) :=
  changeStack fun _ _ => OperandStack.leads_pushAll?
@[simp]
theorem pushInt (v : Int32) : Woven natives (pushInt v) := push _

@[simp]
theorem pushLong (v : Int64) : Woven natives (pushLong v) := push _

@[simp]
theorem pushFloat (bits : UInt32) : Woven natives (pushFloat bits) := push _

@[simp]
theorem pushDouble (bits : UInt64) : Woven natives (pushDouble bits) := push _

@[simp]
theorem pushReference (r : Option Address) : Woven natives (pushReference r) := push _

theorem topReference (depth : Nat) : Woven natives (topReference depth) := onStack fun s _ t h => by
  obtain ⟨_, -, heq⟩ := Option.map_eq_some_iff.mp h
  cases heq
  exact .refl s

theorem popObject (problem : String) : Woven natives (popObject problem) :=
  .bind popReference fun a => by
    split
    · exact .pure _
    · exact raise _ _

theorem popCount : Woven natives popCount :=
  .bind popInt fun count => by
    dsimp only
    split
    · exact .bind (raise _ _) fun _ => .pure _
    · exact .pure _

theorem getLocal (index : Nat) : Woven natives (getLocal index) := .onFrame fun f _ _ h => by
  obtain ⟨_, -, heq⟩ := Option.map_eq_some_iff.mp h
  cases heq
  exact .refl f

theorem setLocal (index : Nat) (slot : Slot) : Woven natives (setLocal index slot) :=
    .onFrame fun f _ _ h => by
  obtain ⟨locals, hset, heq⟩ := Option.map_eq_some_iff.mp h
  cases heq
  exact ⟨⟨rfl, rfl, SlotTable.size_set? hset, rfl⟩, id⟩

@[simp]
theorem badOperands (i : Instruction) : Woven natives (badOperands i : Exec α) := fail _

@[simp]
theorem wrongGroup (i : Instruction) : Woven natives (wrongGroup i : Exec α) := fail _

theorem operand (i : Instruction) (a : Option α) : Woven natives (operand i a) := by
  cases a with
  | none => exact badOperands i
  | some a => exact .pure a

theorem poolIndex (i : Instruction) : Woven natives (poolIndex i) := operand i _
theorem localIndex (i : Instruction) : Woven natives (localIndex i) := operand i _
theorem offset (i : Instruction) : Woven natives (offset i) := operand i _
theorem owner : Woven natives owner := .bind frame fun _ => .pure _

/-! ### Constants, local variables and the operand stack -/

@[simp]
theorem pushImmediate (i : Instruction) : Woven natives (pushImmediate i) :=
  .bind frame fun _ => by
    split
    · exact push _
    · exact push _
    · exact badOperands i

theorem loadConstant (i : Instruction) {value? : Constant → Option (VM Value)}
    (h : ∀ constant value, value? constant = some value → VM.Tame natives value) :
    Woven natives (loadConstant i value?) :=
  .bind owner fun owner => .bind (poolIndex i) fun index =>
    .bind (.lift (.constantAt owner index)) fun constant => by
      split
      · exact .bind (.lift (h _ _ ‹_›)) fun value => push value
      · exact fail _

theorem narrowConstant? {constant : Constant} {value : VM Value}
    (h : Exec.narrowConstant? constant = some value) : VM.Tame natives value := by
  unfold Exec.narrowConstant? at h
  split at h
  · cases h; exact .pure _
  · cases h; exact .pure _
  · cases h; exact .bind (.intern _) fun _ => .pure _
  · cases h

theorem wideConstant? {constant : Constant} {value : VM Value}
    (h : Exec.wideConstant? constant = some value) : VM.Tame natives value := by
  unfold Exec.wideConstant? at h
  split at h
  · cases h; exact .pure _
  · cases h; exact .pure _
  · cases h

@[simp]
theorem loadNarrow (i : Instruction) : Woven natives (Exec.loadConstant i Exec.narrowConstant?) :=
  loadConstant i fun _ _ => narrowConstant?

@[simp]
theorem loadWide (i : Instruction) : Woven natives (Exec.loadConstant i Exec.wideConstant?) :=
  loadConstant i fun _ _ => wideConstant?

@[simp]
theorem loadOne (index : Nat) : Woven natives (loadOne index) :=
  .bind (getLocal index) fun _ => pushSlot _

@[simp]
theorem loadTwo (index : Nat) : Woven natives (loadTwo index) := .bind (loadOne _) fun _ => loadOne _

@[simp]
theorem storeOne (index : Nat) : Woven natives (storeOne index) := .bind popSlot fun _ => setLocal _ _

@[simp]
theorem storeTwo (index : Nat) : Woven natives (storeTwo index) :=
  .bind (storeOne _) fun _ => storeOne _

@[simp]
theorem loadNamed (i : Instruction) {load : Nat → Exec Unit} (h : ∀ index, Woven natives (load index)) :
    Woven natives (loadNamed i load) :=
  .bind frame fun _ => .bind (localIndex i) fun index => h index

@[simp]
theorem incrementNamed (i : Instruction) : Woven natives (incrementNamed i) :=
  .bind frame fun _ => by
    split
    · exact .bind (getLocal _) fun _ => setLocal _ _
    · exact badOperands i

@[simp]
theorem shuffle (s : Shuffle) : Woven natives (shuffle s) :=
  changeStack fun _ _ => OperandStack.leads_shuffle?

/-! ### Arithmetic -/

@[simp]
theorem onInts (f : Int32 → Int32 → Int32) : Woven natives (onInts f) :=
  .bind popInt fun _ => .bind popInt fun _ => push _

@[simp]
theorem onLongs (f : Int64 → Int64 → Int64) : Woven natives (onLongs f) :=
  .bind popLong fun _ => .bind popLong fun _ => push _

@[simp]
theorem onFloats (f : UInt32 → UInt32 → UInt32) : Woven natives (onFloats f) :=
  .bind popFloat fun _ => .bind popFloat fun _ => push _

@[simp]
theorem onDoubles (f : UInt64 → UInt64 → UInt64) : Woven natives (onDoubles f) :=
  .bind popDouble fun _ => .bind popDouble fun _ => push _

@[simp]
theorem onDividedInts (f : Int32 → Int32 → Int32) : Woven natives (onDividedInts f) :=
  .bind popInt fun _ => .bind popInt fun _ => check (raise _ _) (push _)

@[simp]
theorem onDividedLongs (f : Int64 → Int64 → Int64) : Woven natives (onDividedLongs f) :=
  .bind popLong fun _ => .bind popLong fun _ => check (raise _ _) (push _)

@[simp]
theorem shiftInt (f : Int32 → UInt32 → Int32) : Woven natives (shiftInt f) := onInts _

@[simp]
theorem shiftLong (f : Int64 → UInt64 → Int64) : Woven natives (shiftLong f) :=
  .bind popInt fun _ => .bind popLong fun _ => push _

@[simp]
theorem compareLongs : Woven natives compareLongs :=
  .bind popLong fun _ => .bind popLong fun _ => push _

@[simp]
theorem compareFloats (unordered : Int32) : Woven natives (compareFloats unordered) :=
  .bind popFloat fun _ => .bind popFloat fun _ => push _

@[simp]
theorem compareDoubles (unordered : Int32) : Woven natives (compareDoubles unordered) :=
  .bind popDouble fun _ => .bind popDouble fun _ => push _

@[simp]
theorem mapInt (f : Int32 → Value) : Woven natives (mapInt f) := .bind popInt fun _ => push _
@[simp]
theorem mapLong (f : Int64 → Value) : Woven natives (mapLong f) := .bind popLong fun _ => push _
@[simp]
theorem mapFloat (f : UInt32 → Value) : Woven natives (mapFloat f) := .bind popFloat fun _ => push _
@[simp]
theorem mapDouble (f : UInt64 → Value) : Woven natives (mapDouble f) := .bind popDouble fun _ => push _

/-! ### Branches -/

theorem branchIf (i : Instruction) (condition : Bool) : Woven natives (branchIf i condition) :=
  check (.bind (offset i) fun _ => branch _) (.pure _)

@[simp]
theorem branchIfInt (i : Instruction) (test : Int32 → Bool) : Woven natives (branchIfInt i test) :=
  .bind popInt fun _ => branchIf i _

@[simp]
theorem branchIfInts (i : Instruction) (test : Int32 → Int32 → Bool) :
    Woven natives (branchIfInts i test) :=
  .bind popInt fun _ => .bind popInt fun _ => branchIf i _

@[simp]
theorem branchIfSame (i : Instruction) (same : Bool) : Woven natives (branchIfSame i same) :=
  .bind popReference fun _ => .bind popReference fun _ => branchIf i _

@[simp]
theorem branchIfNull (i : Instruction) (null : Bool) : Woven natives (branchIfNull i null) :=
  .bind popReference fun _ => branchIf i _

@[simp]
theorem jump (i : Instruction) : Woven natives (jump i) :=
  .bind frame fun _ => .bind (offset i) fun _ => branch _

@[simp]
theorem jumpToSubroutine (i : Instruction) : Woven natives (jumpToSubroutine i) :=
  .bind (offset i) fun _ => .bind frame fun _ => .bind (pushSlot _) fun _ => branch _

@[simp]
theorem returnFromSubroutine (i : Instruction) : Woven natives (returnFromSubroutine i) :=
  .bind frame fun _ => .bind (localIndex i) fun _ => .bind (getLocal _) fun _ => goOn _

@[simp]
theorem tableSwitch (i : Instruction) : Woven natives (tableSwitch i) :=
  .bind frame fun _ => by
    split
    · exact .bind popInt fun _ => .bind (.lift (.inRange _)) fun _ => branch _
    · exact badOperands i

@[simp]
theorem lookupSwitch (i : Instruction) : Woven natives (lookupSwitch i) :=
  .bind frame fun _ => by
    split
    · exact .bind popInt fun _ => branch _
    · exact badOperands i

/-! ### Arrays -/

theorem popElement (kind : ElementKind) : Woven natives (popElement kind) := by
  cases kind with
  | long => exact .bind popLong fun _ => .pure _
  | float => exact .bind popFloat fun _ => .pure _
  | double => exact .bind popDouble fun _ => .pure _
  | reference => exact .bind popReference fun _ => .pure _
  | int | byte | char | short => exact .bind popInt fun _ => .pure _

theorem checkIndex (index : Int32) (length : Nat) : Woven natives (checkIndex index length) :=
  check (.pure _) (raise _ _)

theorem wrongArray (i : Instruction) (array : Address) : Woven natives (wrongArray i array : Exec α) :=
  .bind machine fun _ => fail _

theorem elementIndex (array : Address) (index : Int32) : Woven natives (elementIndex array index) :=
  .bind machine fun _ => checkIndex _ _

@[simp]
theorem loadElement (i : Instruction) (kind : ElementKind) : Woven natives (loadElement i kind) :=
  .bind popInt fun _ => .bind (popObject _) fun array => .bind (elementIndex array _) fun _ =>
    .bind machine fun _ => check (.bind (.lift (.inRange _)) fun _ => push _) (wrongArray i array)

theorem checkStorable (array : Address) (value : Value) : Woven natives (checkStorable array value) :=
  .bind machine fun _ => .bind (.lift (.component? _)) fun component => by
    split
    · exact .bind (.lift (.isInstance _ _)) fun _ =>
        check (.bind machine fun _ => raise _ _) (.pure _)
    · exact .pure _

@[simp]
theorem storeElement (i : Instruction) (kind : ElementKind) : Woven natives (storeElement i kind) :=
  .bind (popElement kind) fun value => .bind popInt fun _ => .bind (popObject _) fun array =>
    checkFirst (checkStorable array value) (.bind (elementIndex array _) fun _ => .bind machine fun _ =>
      .bind machine fun _ => check (.lift (.storeElement array _ _ value)) (wrongArray i array))

@[simp]
theorem arrayLength : Woven natives arrayLength :=
  .bind (popObject _) fun _ => .bind machine fun _ => by
    split
    · exact push _
    · exact fail _

@[simp]
theorem newPrimitiveArray (i : Instruction) : Woven natives (newPrimitiveArray i) :=
  .bind frame fun _ => by
    split
    · split
      · exact fail _
      · exact .bind popCount fun _ => .bind (.lift (.load _)) fun id =>
          .bind (.lift (.newArray id _)) fun _ => push _
    · exact badOperands i

@[simp]
theorem newReferenceArray (i : Instruction) : Woven natives (newReferenceArray i) :=
  .bind owner fun owner => .bind (poolIndex i) fun index =>
      .bind (.lift (.resolveClass owner index)) fun _ =>
    .bind popCount fun _ => .bind machine fun _ => .bind (.lift (.load _)) fun id =>
      .bind (.lift (.newArray id _)) fun _ => push _

theorem popCounts : ∀ dimensions, Woven natives (popCounts dimensions)
  | 0 => .pure []
  | dimensions + 1 => .bind popCount fun _ => .bind (popCounts dimensions) fun _ => .pure _

@[simp]
theorem newMultiArray (i : Instruction) : Woven natives (newMultiArray i) := by
  unfold Exec.newMultiArray
  split
  · refine check (failed _ _) (.bind owner fun owner => .bind (.lift (.resolveClass owner _)) fun id =>
      .bind (popCounts _) fun counts => ?_)
    split
    · exact fail _
    · exact .bind (.lift (.multiArray id _ _)) fun _ => push _
  · exact badOperands i

/-! ### Fields and objects -/

theorem resolveField (i : Instruction) (isStatic : Bool) : Woven natives (resolveField i isStatic) :=
  .bind owner fun owner => .bind (poolIndex i) fun index =>
      .bind (.lift (.resolveField owner index)) fun _ =>
    .bind machine fun _ => check (.bind (raise _ _) fun _ => .pure _) (.pure _)

theorem readStatic (id : FieldId) : Woven natives (readStatic id) :=
  .bind machine fun _ => .bind (.lift (.fieldSlots _ _)) fun _ => pushSlots _

theorem writeStatic (id : FieldId) : Woven natives (writeStatic id) :=
  .bind machine fun _ => .bind (popMany _) fun _ => .lift (.storeStatics _ _ _)

theorem instanceFields (a : Address) : Woven natives (instanceFields a) :=
  .bind machine fun _ => by
    split
    · exact .pure _
    · exact raise _ _

@[simp]
theorem getField (i : Instruction) : Woven natives (getField i) :=
  .bind (resolveField i false) fun _ => .bind machine fun _ => .bind (popObject _) fun a =>
    .bind (instanceFields a) fun _ => .bind (.lift (.fieldSlots _ _)) fun _ => pushSlots _

@[simp]
theorem putField (i : Instruction) : Woven natives (putField i) := by
  rw [putField_eq]
  exact .bind (resolveField i false) fun _ => .bind machine fun _ => .bind (popMany _) fun _ =>
    .bind (popObject _) fun a => .lift (.storeFields a _ _)

theorem instantiable (i : Instruction) : Woven natives (instantiable i) :=
  .bind owner fun owner => .bind (poolIndex i) fun index =>
      .bind (.lift (.resolveClass owner index)) fun id =>
    .bind machine fun _ => check (failed _ _) (.pure id)

@[simp]
theorem checkCast (i : Instruction) : Woven natives (checkCast i) :=
  .bind (topReference 0) fun a => by
    split
    · exact .bind owner fun owner => .bind (poolIndex i) fun index =>
        .bind (.lift (.resolveClass owner index)) fun _ => .bind (.lift (.isInstance _ _)) fun _ =>
          check (.bind machine fun _ => raise _ _) (.pure _)
    · exact .pure _

@[simp]
theorem instanceOf (i : Instruction) : Woven natives (instanceOf i) :=
  .bind popReference fun a => by
    split
    · exact push _
    · exact .bind owner fun owner => .bind (poolIndex i) fun index =>
        .bind (.lift (.resolveClass owner index)) fun _ => .bind (.lift (.isInstance _ _)) fun _ =>
          push _

@[simp]
theorem throwTop : Woven natives throwTop := .bind (popObject _) fun _ => fail _

@[simp]
theorem checkMonitor : Woven natives checkMonitor := .bind (popObject _) fun _ => .pure _

/-! ### Calls -/

theorem abstractMethod (method : Method) : Woven natives (abstractMethod method : Exec α) :=
  .bind machine fun _ => raise _ _

theorem incompatible (problem : String) : Woven natives (incompatible problem : Exec α) := raise _ _

theorem callNative (method : Method) : Woven natives (callNative natives method) := by
  refine .bind frame fun _ => .bind machine fun m => ?_
  rcases natives.find_cases (m.cls method.owner).name method.name method.descriptor with
    ⟨key, native, hregistered, hfind⟩ | ⟨message, hfind⟩
  · rw [hfind, liftM_pure, pure_bind]
    exact .bind (popMany _) fun _ => .bind (.lift (.native hregistered _)) fun result => by
      split
      · exact push _
      · exact .pure _
  · rw [hfind]
    exact .throw _

theorem call (method : Method) : Woven natives (call natives method) :=
  check (callNative method) (check (abstractMethod method) (.enter method))

theorem callFound (search : Search Method) (method : Method) :
    Woven natives (callFound natives search method) :=
  .bind (.lift (.ofSearch search)) fun found => by
    split
    · exact call _
    · exact abstractMethod _

theorem resolveMethod (i : Instruction) : Woven natives (resolveMethod i) :=
  .bind owner fun owner => .bind (poolIndex i) fun index => .lift (.resolveMethod owner index)

theorem resolveInstanceMethod (i : Instruction) : Woven natives (resolveInstanceMethod i) :=
  .bind (resolveMethod i) fun _ =>
    check (.bind machine fun _ => .bind (incompatible _) fun _ => .pure _) (.pure _)

theorem receiver (method : Method) : Woven natives (receiver method) :=
  .bind (topReference _) fun a => by
    split
    · exact .pure _
    · exact .bind machine fun _ => raise _ _

theorem resolveStaticMethod (i : Instruction) : Woven natives (resolveStaticMethod i) :=
  .bind (resolveMethod i) fun _ => check (.bind machine fun _ => failed _ _) (.pure _)

@[simp]
theorem invokeSpecial (i : Instruction) : Woven natives (invokeSpecial natives i) := by
  refine .bind owner fun caller => .bind (resolveInstanceMethod i) fun resolved =>
      .bind machine fun m =>
    check (failed _ _) (.bind (receiver resolved.2) fun _ => .bind (.lift (.ofSearch _))
      fun overrides => ?_)
  split
  · exact call _
  · exact callFound _ _

@[simp]
theorem invokeVirtual (i : Instruction) : Woven natives (invokeVirtual natives i) :=
  .bind (resolveInstanceMethod i) fun resolved => .bind (receiver resolved.2) fun _ =>
    check (call _) (.bind machine fun _ => callFound _ _)

@[simp]
theorem invokeInterface (i : Instruction) : Woven natives (invokeInterface natives i) :=
  .bind (resolveInstanceMethod i) fun _ => .bind (receiver _) fun _ => .bind machine fun _ =>
    .bind (.lift (.ofSearch _)) fun _ => check (failed _ _) (callFound _ _)

/-! ### Groups -/

theorem performConstant (i : Instruction) : Woven natives (performConstant i) := by
  unfold Exec.performConstant
  split
  case h_1 => exact .bind frame fun _ => .pure _
  all_goals simp

theorem performLoad (i : Instruction) : Woven natives (performLoad i) := by
  unfold Exec.performLoad
  split <;> simp

theorem performStore (i : Instruction) : Woven natives (performStore i) := by
  unfold Exec.performStore
  split <;> simp

theorem performShuffle (i : Instruction) : Woven natives (performShuffle i) := by
  unfold Exec.performShuffle
  split <;> simp

theorem performArithmetic (i : Instruction) : Woven natives (performArithmetic i) := by
  unfold Exec.performArithmetic
  split <;> simp

theorem performConversion (i : Instruction) : Woven natives (performConversion i) := by
  unfold Exec.performConversion
  split <;> simp

theorem performComparison (i : Instruction) : Woven natives (performComparison i) := by
  unfold Exec.performComparison
  split <;> simp

theorem performControl {i : Instruction} (h : i.opcode.isReturn = false) :
    Woven natives (performControl i) := by
  unfold Exec.performControl
  split
  all_goals first
    | simp
    | (rename_i hop; rw [hop] at h; cases h)

theorem performCall {i : Instruction} (hneed : need? natives i = none) :
    Woven natives (performCall natives i) := by
  unfold Exec.performCall
  split
  all_goals first
    | simp
    | (rename_i hop; simp only [need?, hop, reduceCtorEq] at hneed)

theorem performReference {i : Instruction} (hneed : need? natives i = none) :
    Woven natives (performReference i) := by
  unfold Exec.performReference
  split
  all_goals first
    | simp
    | (rename_i hop; simp only [need?, hop, reduceCtorEq] at hneed)

theorem performExtended (i : Instruction) : Woven natives (performExtended i) := by
  unfold Exec.performExtended
  split <;> simp

/-- An instruction that needs no class and does not return is woven. -/
theorem perform {i : Instruction} (h : i.opcode.isReturn = false) (hneed : need? natives i = none) :
    Woven natives (perform natives i) := by
  unfold Exec.perform
  split
  · exact performConstant i
  · exact performLoad i
  · exact performStore i
  · exact performShuffle i
  · exact performArithmetic i
  · exact performConversion i
  · exact performComparison i
  · exact performControl h
  · exact performCall hneed
  · exact performReference hneed
  · exact performExtended i

end Woven

namespace Plain

theorem forM {f : α → Exec PUnit} (h : ∀ a, Plain natives (f a)) :
    ∀ as : List α, Plain natives (as.forM f)
  | [] => .pure _
  | a :: as => .bind (h a) fun _ => forM h as

theorem startInitialization (id : ClassId) : Plain natives (startInitialization id) :=
  .bind (.lift (.startInitialization id)) fun _ => .bind (.lift .get) fun _ => by
    split
    · exact .pushFrame (Frame.fresh_start _)
    · exact .pure _

theorem initializeClass (id : ClassId) : Plain natives (initializeClass id) :=
  .bind (.lift .get) fun _ => forM startInitialization _

theorem readPc {f : UInt64 → Exec β} (h : ∀ pc, Plain natives (f pc)) :
    Plain natives (Exec.thread >>= fun t => f t.pc) := by
  rw [← bind_map_left]
  exact .bind .pc h

theorem awaitsInitialization (id : ClassId) : Plain natives (awaitsInitialization id) :=
  .bind (.lift .get) fun _ => by
    split
    · exact .pure _
    · exact readPc (f := fun pc => do
        Exec.modifyFrame ({ · with nextPc := pc })
        Exec.initializeClass id
        return true) fun _ => .bind (Woven.goOn _).plain fun _ =>
          .bind (initializeClass id) fun _ => .pure _

end Plain

namespace Need

variable {i : Instruction} {need : Need}

theorem woven_refer (h : need? natives i = some need) : Woven natives need.refer := by
  unfold need? at h
  split at h <;> cases h
  · exact .resolveField i true
  · exact .resolveField i true
  · exact .instantiable i
  · exact .resolveStaticMethod i

theorem plain_use (h : need? natives i = some need) (ref : need.Ref) :
    Plain natives (need.use ref) := by
  unfold need? at h
  split at h <;> cases h
  · exact (Woven.readStatic ref).plain
  · exact (Woven.writeStatic ref).plain
  · exact .bind (.lift (.newObject ref)) fun _ => (Woven.push _).plain
  · exact (Woven.call ref.2).plain

theorem plain_run (h : need? natives i = some need) : Plain natives need.run :=
  .bind (woven_refer h).plain fun ref => .bind (.awaitsInitialization _) fun waits => by
    split
    · exact .pure _
    · exact plain_use h ref

end Need

/-- What an instruction is executed as: the plain form of a widened one, any other one as it is. -/
def plainForm : Instruction → Instruction
  | ⟨.wide, .wide opcode index constant⟩ => ⟨opcode, widened index constant⟩
  | i => i

theorem execute_eq (i : Instruction) : execute natives i = perform natives (plainForm i) := by
  rcases i with ⟨opcode, operands⟩
  cases opcode with
  | wide => cases operands <;> rfl
  | _ => rfl

/-- The instructions that take the top frame off. -/
def Returns (i : Instruction) : Prop := (plainForm i).opcode.isReturn = true

instance (i : Instruction) : Decidable (Returns i) := inferInstanceAs (Decidable (_ = true))

theorem plain_execute (natives : Natives) {i : Instruction} (h : ¬ Returns i) :
    Plain natives (execute natives i) := by
  rw [execute_eq]
  rcases hneed : need? natives (plainForm i) with _ | need
  · exact (Woven.perform (by simpa [Returns] using h) hneed).plain
  · rw [perform_need hneed]
    exact Need.plain_run hneed

/-- The value that a return takes from an operand stack; `return` takes none. -/
def returned? : Opcode → OperandStack → Option (Option Value)
  | .ireturn, stack => stack.popInt?.map fun (v, _) => some (.int v)
  | .lreturn, stack => stack.popLong?.map fun (v, _) => some (.long v)
  | .freturn, stack => stack.popFloat?.map fun (bits, _) => some (.float bits)
  | .dreturn, stack => stack.popDouble?.map fun (bits, _) => some (.double bits)
  | .areturn, stack => stack.popReference?.map fun (r, _) => some (.reference r)
  | _, _ => some none

/-- A return takes the top frame off, and gives back a value from its operand stack or nothing. -/
theorem execute_returns (natives : Natives) {i : Instruction} (h : Returns i) :
    (execute natives i = leaveFrame ∧ ∀ stack, returned? (plainForm i).opcode stack = some none) ∨
      ∃ (α : Type) (pop? : OperandStack → Option (α × OperandStack)) (value : α → Value),
        execute natives i = returnValue pop? value ∧
        ∀ stack, returned? (plainForm i).opcode stack = (pop? stack).map fun (a, _) =>
          some (value a) := by
  rw [execute_eq]
  unfold Returns at h
  generalize plainForm i = i at h
  rcases i with ⟨opcode, operands⟩
  dsimp only [Opcode.isReturn] at h
  split at h
  · exact .inr ⟨_, _, _, rfl, fun _ => rfl⟩
  · exact .inr ⟨_, _, _, rfl, fun _ => rfl⟩
  · exact .inr ⟨_, _, _, rfl, fun _ => rfl⟩
  · exact .inr ⟨_, _, _, rfl, fun _ => rfl⟩
  · exact .inr ⟨_, _, _, rfl, fun _ => rfl⟩
  · exact .inl ⟨rfl, fun _ => rfl⟩
  · cases h

end Exec

end JavaMachine
