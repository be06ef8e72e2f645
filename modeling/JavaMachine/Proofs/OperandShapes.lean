import JavaMachine.Proofs.SafeCode

/-!
Instructions with operands of their shape.

What an opcode is executed with depends on the opcode (`Opcode.Accepts`). An instruction with such
operands is executed in its own group and never found to lack an operand: only a native can end it
with an error of that sort (`Exec.apt_execute`).
-/

namespace JavaMachine

variable {α β : Type}

/-! ### What opcodes are executed with -/

/-- The operands that an opcode can be executed with. -/
@[simp]
def Opcode.Accepts (operands : Operands) : Opcode → Prop
  | .bipush => ∃ v, operands = .i1 v
  | .sipush => ∃ v, operands = .i2 v
  | .iload | .lload | .fload | .dload | .aload | .istore | .lstore | .fstore | .dstore
      | .astore | .ret =>
    ∃ index, operands.localIndex? = some index
  | .iinc => ∃ index constant, operands = .increment index constant
  | .ldc | .ldcW | .ldc2W | .getstatic | .putstatic | .getfield | .putfield
      | .invokevirtual | .invokespecial
  | .invokestatic | .invokeinterface | .new | .anewarray | .checkcast | .instanceof =>
    ∃ index, operands.poolIndex? = some index
  | .ifeq | .ifne | .iflt | .ifge | .ifgt | .ifle | .ifIcmpeq | .ifIcmpne | .ifIcmplt
      | .ifIcmpge | .ifIcmpgt
  | .ifIcmple | .ifAcmpeq | .ifAcmpne | .goto | .jsr | .ifnull | .ifnonnull | .gotoW | .jsrW =>
    ∃ distance, operands.offset? = some distance
  | .newarray => ∃ code, operands = .arrayType code
  | .tableswitch => ∃ default low high offsets, operands = .tableSwitch default low high offsets ∧
    low ≤ high ∧ offsets.length = (high.toInt - low.toInt + 1).toNat
  | .lookupswitch => ∃ default pairs, operands = .lookupSwitch default pairs
  | .multianewarray => ∃ index dimensions, operands = .multiArray index dimensions
  | .wide => ∃ opcode index constant, operands = .wide opcode index constant ∧
    Instruction.isWidenable opcode = true ∧ (opcode = .iinc ↔ constant.isSome = true)
  | _ => True

/-- An instruction with the operands that its opcode is executed with. -/
def Instruction.Accepted (i : Instruction) : Prop := i.opcode.Accepts i.operands

/-! ### Errors about the instruction -/

/-- An error about the instruction being executed. -/
def Failure.IsMisuse : Failure → Prop
  | .fault f => f.IsMisuse
  | .outOfRange | .outOfFuel | .endless => False

theorem Failure.Ordinary.not_isMisuse {e : Failure} (h : e.Ordinary) : ¬ e.IsMisuse := by
  cases e with
  | fault fault => exact Fault.Ordinary.not_isMisuse h
  | outOfRange | outOfFuel | endless => exact id

/-- Some native may end with the failure. -/
def Natives.Answers (natives : Natives) (e : Failure) : Prop :=
  ∃ key native, (key, native) ∈ natives.entries ∧ ∃ call m m', outcome (native call) m = (.error e, m')

namespace Exec

variable {natives : Natives} {i : Instruction}

/-- A step that ends with an error about the instruction only if a native does. -/
abbrev Apt (natives : Natives) (x : Exec α) : Prop :=
  FailsOnly (fun e => e.IsMisuse → natives.Answers e) x

namespace Apt

variable {x : VM α}

theorem throw {e : Failure} (h : ¬ e.IsMisuse) : Apt natives (throw e : Exec α) :=
  FailsOnly.throw fun hmisuse => (h hmisuse).elim

theorem fail {fault : Fault} (h : ¬ fault.IsMisuse) : Apt natives (fail fault : Exec α) := throw h

theorem raise (className message : String) : Apt natives (raise className message : Exec α) := throw id

/-- Nothing comes after an error. -/
theorem failed {fault : Fault} {f : α → Exec β} (h : ¬ fault.IsMisuse) :
    Apt natives (Exec.fail fault >>= f) :=
  throw (e := .fault fault) h

theorem raised {className message : String} {f : α → Exec β} :
    Apt natives (Exec.raise className message >>= f) :=
  throw (e := .fault (.exception className message)) id

theorem lift (h : FailsOnly Failure.Ordinary x) : Apt natives (liftM x : Exec α) :=
  failsOnly_lift (h.mono fun _ hordinary hmisuse => (hordinary.not_isMisuse hmisuse).elim)

theorem discreet [References α] (h : VM.Discreet 0 x) : Apt natives (liftM x : Exec α) :=
  lift h.ordinary

theorem check {c : Prop} [Decidable c] {x y : Exec α} (hx : Apt natives x) (hy : Apt natives y) :
    Apt natives (if c then x else y) := by
  split
  · exact hx
  · exact hy

theorem thread : Apt natives thread := .of_ok fun _ => ⟨_, _, outcome_thread⟩

theorem machine : Apt natives machine := .of_ok fun _ => ⟨_, _, outcome_machine⟩

/-! #### Frames and operands -/

theorem onFrame (step : Frame → Option (α × Frame)) : Apt natives (onFrame step) := fun s e t hrun => by
  rw [outcome_onFrame] at hrun
  split at hrun
  · cases hrun
    exact False.elim
  · split at hrun <;> cases hrun
    exact False.elim

theorem pushFrame (frame : Frame) : Apt natives (pushFrame frame) := fun s e t hrun => by
  rw [outcome_pushFrame] at hrun
  split at hrun <;> cases hrun
  exact False.elim

theorem popFrame : Apt natives popFrame := fun s e t hrun => by
  rw [outcome_popFrame] at hrun
  split at hrun <;> cases hrun
  exact False.elim

theorem frame : Apt natives frame := onFrame _

theorem owner : Apt natives owner := .bind frame fun _ => .pure _

theorem branch (distance : Int32) : Apt natives (branch distance) := .bind thread fun _ => onFrame _

theorem onStack (step : OperandStack → Option (α × OperandStack)) : Apt natives (onStack step) :=
  onFrame _

theorem changeStack (change : OperandStack → Option OperandStack) :
    Apt natives (changeStack change) := onStack _

theorem push (value : Value) : Apt natives (push value) := changeStack _

@[simp]
theorem pushInt (v : Int32) : Apt natives (pushInt v) := push _

@[simp]
theorem pushLong (v : Int64) : Apt natives (pushLong v) := push _

@[simp]
theorem pushFloat (bits : UInt32) : Apt natives (pushFloat bits) := push _

@[simp]
theorem pushDouble (bits : UInt64) : Apt natives (pushDouble bits) := push _

@[simp]
theorem pushReference (r : Option Address) : Apt natives (pushReference r) := push _

theorem getLocal (index : Nat) : Apt natives (getLocal index) := onFrame _

theorem setLocal (index : Nat) (slot : Slot) : Apt natives (setLocal index slot) := onFrame _

theorem popObject (problem : String) : Apt natives (popObject problem) :=
  .bind (onStack _) fun r => by
    split
    · exact .pure _
    · exact raise _ _

theorem popCount : Apt natives popCount :=
  .bind (onStack _) fun count => by
    dsimp only
    split
    · exact raised
    · exact .pure _

theorem poolIndex (h : ∃ index, i.operands.poolIndex? = some index) : Apt natives (poolIndex i) := by
  obtain ⟨index, hindex⟩ := h
  rw [Exec.poolIndex, hindex]
  exact .pure index

theorem localIndex (h : ∃ index, i.operands.localIndex? = some index) : Apt natives (localIndex i) := by
  obtain ⟨index, hindex⟩ := h
  rw [Exec.localIndex, hindex]
  exact .pure index

theorem offset (h : ∃ distance, i.operands.offset? = some distance) : Apt natives (offset i) := by
  obtain ⟨distance, hdistance⟩ := h
  rw [Exec.offset, hdistance]
  exact .pure distance

/-! #### Constants, local variables and the operand stack -/

@[simp]
theorem pushByte {operands : Operands} (h : ∃ v, operands = .i1 v) :
    Apt natives (pushImmediate ⟨.bipush, operands⟩) := by
  obtain ⟨v, rfl⟩ := h
  exact .bind frame fun _ => push _

@[simp]
theorem pushShort {operands : Operands} (h : ∃ v, operands = .i2 v) :
    Apt natives (pushImmediate ⟨.sipush, operands⟩) := by
  obtain ⟨v, rfl⟩ := h
  exact .bind frame fun _ => push _

theorem loadConstant {value? : Constant → Option (VM Value)}
    (h : ∃ index, i.operands.poolIndex? = some index)
    (hvalue : ∀ constant value, value? constant = some value → FailsOnly Failure.Ordinary value) :
    Apt natives (loadConstant i value?) :=
  .bind owner fun owner => .bind (poolIndex h) fun index =>
      .bind (discreet (.constantAt owner index)) fun constant => by
    split
    · exact .bind (lift (hvalue _ _ ‹_›)) fun _ => push _
    · exact fail id

@[simp]
theorem loadNarrow (h : ∃ index, i.operands.poolIndex? = some index) :
    Apt natives (Exec.loadConstant i Exec.narrowConstant?) :=
  loadConstant h fun constant value hvalue => by
    unfold Exec.narrowConstant? at hvalue
    split at hvalue <;> cases hvalue
    · exact .pure _
    · exact .pure _
    · exact .bind (VM.Discreet.intern (n := 0) _).ordinary fun _ => .pure _

@[simp]
theorem loadWide (h : ∃ index, i.operands.poolIndex? = some index) :
    Apt natives (Exec.loadConstant i Exec.wideConstant?) :=
  loadConstant h fun constant value hvalue => by
    unfold Exec.wideConstant? at hvalue
    split at hvalue <;> cases hvalue
    · exact .pure _
    · exact .pure _

@[simp]
theorem loadOne (index : Nat) : Apt natives (loadOne index) := .bind (getLocal _) fun _ => changeStack _

@[simp]
theorem loadTwo (index : Nat) : Apt natives (loadTwo index) := .bind (loadOne _) fun _ => loadOne _

@[simp]
theorem storeOne (index : Nat) : Apt natives (storeOne index) := .bind (onStack _) fun _ => setLocal _ _

@[simp]
theorem storeTwo (index : Nat) : Apt natives (storeTwo index) := .bind (storeOne _) fun _ => storeOne _

@[simp]
theorem loadNamed {load : Nat → Exec Unit} (h : ∃ index, i.operands.localIndex? = some index)
    (hload : ∀ index, Apt natives (load index)) : Apt natives (loadNamed i load) :=
  .bind frame fun _ => .bind (localIndex h) hload

@[simp]
theorem incrementNamed (h : ∃ index constant, i.operands = .increment index constant) :
    Apt natives (incrementNamed i) := by
  obtain ⟨index, constant, heq⟩ := h
  unfold Exec.incrementNamed
  rw [heq]
  exact .bind frame fun _ => .bind (getLocal _) fun _ => setLocal _ _

@[simp]
theorem shuffle (s : Shuffle) : Apt natives (shuffle s) := changeStack _

/-! #### Arithmetic -/

@[simp]
theorem onInts (f : Int32 → Int32 → Int32) : Apt natives (onInts f) :=
  .bind (onStack _) fun _ => .bind (onStack _) fun _ => push _

@[simp]
theorem onLongs (f : Int64 → Int64 → Int64) : Apt natives (onLongs f) :=
  .bind (onStack _) fun _ => .bind (onStack _) fun _ => push _

@[simp]
theorem onFloats (f : UInt32 → UInt32 → UInt32) : Apt natives (onFloats f) :=
  .bind (onStack _) fun _ => .bind (onStack _) fun _ => push _

@[simp]
theorem onDoubles (f : UInt64 → UInt64 → UInt64) : Apt natives (onDoubles f) :=
  .bind (onStack _) fun _ => .bind (onStack _) fun _ => push _

@[simp]
theorem onDividedInts (f : Int32 → Int32 → Int32) : Apt natives (onDividedInts f) :=
  .bind (onStack _) fun _ => .bind (onStack _) fun _ => check (raise _ _) (push _)

@[simp]
theorem onDividedLongs (f : Int64 → Int64 → Int64) : Apt natives (onDividedLongs f) :=
  .bind (onStack _) fun _ => .bind (onStack _) fun _ => check (raise _ _) (push _)

@[simp]
theorem shiftInt (f : Int32 → UInt32 → Int32) : Apt natives (shiftInt f) := onInts _

@[simp]
theorem shiftLong (f : Int64 → UInt64 → Int64) : Apt natives (shiftLong f) :=
  .bind (onStack _) fun _ => .bind (onStack _) fun _ => push _

@[simp]
theorem compareLongs : Apt natives compareLongs :=
  .bind (onStack _) fun _ => .bind (onStack _) fun _ => push _

@[simp]
theorem compareFloats (unordered : Int32) : Apt natives (compareFloats unordered) :=
  .bind (onStack _) fun _ => .bind (onStack _) fun _ => push _

@[simp]
theorem compareDoubles (unordered : Int32) : Apt natives (compareDoubles unordered) :=
  .bind (onStack _) fun _ => .bind (onStack _) fun _ => push _

@[simp]
theorem mapInt (f : Int32 → Value) : Apt natives (mapInt f) := .bind (onStack _) fun _ => push _

@[simp]
theorem mapLong (f : Int64 → Value) : Apt natives (mapLong f) := .bind (onStack _) fun _ => push _

@[simp]
theorem mapFloat (f : UInt32 → Value) : Apt natives (mapFloat f) := .bind (onStack _) fun _ => push _

@[simp]
theorem mapDouble (f : UInt64 → Value) : Apt natives (mapDouble f) := .bind (onStack _) fun _ => push _

/-! #### Branches -/

theorem branchIf (h : ∃ distance, i.operands.offset? = some distance) (condition : Bool) :
    Apt natives (branchIf i condition) := check (.bind (offset h) fun _ => branch _) (.pure _)

@[simp]
theorem branchIfInt (h : ∃ distance, i.operands.offset? = some distance) (test : Int32 → Bool) :
    Apt natives (branchIfInt i test) := .bind (onStack _) fun _ => branchIf h _

@[simp]
theorem branchIfInts (h : ∃ distance, i.operands.offset? = some distance)
    (test : Int32 → Int32 → Bool) :
    Apt natives (branchIfInts i test) :=
  .bind (onStack _) fun _ => .bind (onStack _) fun _ => branchIf h _

@[simp]
theorem branchIfSame (h : ∃ distance, i.operands.offset? = some distance) (same : Bool) :
    Apt natives (branchIfSame i same) :=
  .bind (onStack _) fun _ => .bind (onStack _) fun _ => branchIf h _

@[simp]
theorem branchIfNull (h : ∃ distance, i.operands.offset? = some distance) (null : Bool) :
    Apt natives (branchIfNull i null) := .bind (onStack _) fun _ => branchIf h _

@[simp]
theorem jump (h : ∃ distance, i.operands.offset? = some distance) : Apt natives (jump i) :=
  .bind frame fun _ => .bind (offset h) fun _ => branch _

@[simp]
theorem jumpToSubroutine (h : ∃ distance, i.operands.offset? = some distance) :
    Apt natives (jumpToSubroutine i) :=
  .bind (offset h) fun _ => .bind frame fun _ => .bind (changeStack _) fun _ => branch _

@[simp]
theorem returnFromSubroutine (h : ∃ index, i.operands.localIndex? = some index) :
    Apt natives (returnFromSubroutine i) :=
  .bind frame fun _ => .bind (localIndex h) fun _ => .bind (getLocal _) fun _ => onFrame _

theorem tableSwitch (h : Opcode.tableswitch.Accepts i.operands) : Apt natives (tableSwitch i) := by
  obtain ⟨default, low, high, offsets, heq, -⟩ := h
  unfold Exec.tableSwitch
  rw [heq]
  exact .bind frame fun _ => .bind (onStack _) fun _ => .bind (lift (.inRange _)) fun _ => branch _

@[simp]
theorem lookupSwitch (h : ∃ default pairs, i.operands = .lookupSwitch default pairs) :
    Apt natives (lookupSwitch i) := by
  obtain ⟨default, pairs, heq⟩ := h
  unfold Exec.lookupSwitch
  rw [heq]
  exact .bind frame fun _ => .bind (onStack _) fun _ => branch _

@[simp]
theorem returnValue (pop? : OperandStack → Option (α × OperandStack)) (value : α → Value) :
    Apt natives (returnValue pop? value) :=
  .bind popFrame fun _ => .bind (lift (.inRange _)) fun _ => .bind thread fun _ =>
    check (.of_ok fun _ => ⟨_, _, outcome_modifyThread _⟩) (push _)

@[simp]
theorem leaveFrame : Apt natives leaveFrame := .bind popFrame fun _ => .pure _

/-! #### Arrays -/

theorem popElement (kind : ElementKind) : Apt natives (popElement kind) := by
  cases kind <;> exact .bind (onStack _) fun _ => .pure _

theorem wrongArray (array : Address) : Apt natives (wrongArray i array : Exec α) :=
  .bind machine fun _ => fail id

theorem elementIndex (array : Address) (index : Int32) : Apt natives (elementIndex array index) :=
  .bind machine fun _ => check (.pure _) (raise _ _)

@[simp]
theorem loadElement (kind : ElementKind) : Apt natives (loadElement i kind) :=
  .bind (onStack _) fun _ => .bind (popObject _) fun array => .bind (elementIndex array _) fun _ =>
      .bind machine fun _ =>
    check (.bind (lift (.inRange _)) fun _ => push _) (wrongArray array)

theorem isInstance (a : Address) (id : ClassId) :
    Apt natives (liftM (VM.isInstance a id) : Exec Bool) :=
  lift (VM.NoFault.isInstance a id).ordinary

theorem checkStorable (array : Address) (value : Value) : Apt natives (checkStorable array value) :=
  .bind machine fun _ => .bind (lift (VM.component?_ordinary _)) fun component => by
    split
    · exact .bind (isInstance _ _) fun _ => check (.bind machine fun _ => raise _ _) (.pure _)
    · exact .pure _

@[simp]
theorem storeElement (kind : ElementKind) : Apt natives (storeElement i kind) := by
  have hrest : ∀ array index value, Apt natives (do
      let index ← Exec.elementIndex array index
      let isBoolean := (← Exec.machine).className array = "[Z"
      if ((← Exec.machine).object array).data.elementKind? = some kind then
        VM.modifyData array (·.store isBoolean index value)
      else Exec.wrongArray i array) := fun array index value =>
    .bind (elementIndex array index) fun _ => .bind machine fun _ => .bind machine fun _ =>
      check (.of_ok fun _ => ⟨_, _, outcome_lift (VM.modifyData array (·.store _ _ value))⟩)
        (wrongArray array)
  exact .bind (popElement kind) fun value => .bind (onStack _) fun index =>
      .bind (popObject _) fun array =>
    check (.bind (checkStorable array value) fun _ => hrest array index value) (hrest array index value)

@[simp]
theorem arrayLength : Apt natives arrayLength :=
  .bind (popObject _) fun _ => .bind machine fun _ => by
    split
    · exact push _
    · exact fail id

/-- A new array is pushed. -/
theorem pushNewArray (id : ClassId) (count : Nat) :
    Apt natives (do Exec.pushReference (some (← VM.newArray id count))) :=
  .bind (discreet (.newArray id count)) fun _ => push _

@[simp]
theorem newPrimitiveArray (h : ∃ code, i.operands = .arrayType code) :
    Apt natives (newPrimitiveArray i) := by
  obtain ⟨code, heq⟩ := h
  unfold Exec.newPrimitiveArray
  rw [heq]
  refine .bind frame fun _ => ?_
  dsimp only
  split
  · exact fail id
  · exact .bind popCount fun count => .bind (lift (VM.load_ordinary _)) fun id => pushNewArray id count

theorem resolveClass (h : ∃ index, i.operands.poolIndex? = some index) {f : ClassId → Exec α}
    (hf : ∀ id, Apt natives (f id)) (owner : ClassId) :
    Apt natives (do f (← VM.resolveClass owner (← Exec.poolIndex i))) :=
  .bind (poolIndex h) fun index => .bind (discreet (.resolveClass owner index)) hf

@[simp]
theorem newReferenceArray (h : ∃ index, i.operands.poolIndex? = some index) :
    Apt natives (newReferenceArray i) :=
  .bind owner <| resolveClass h fun _ => .bind popCount fun count => .bind machine fun _ =>
    .bind (lift (VM.load_ordinary _)) fun id => pushNewArray id count

theorem popCounts : ∀ dimensions, Apt natives (popCounts dimensions)
  | 0 => .pure _
  | dimensions + 1 => .bind popCount fun _ => .bind (popCounts dimensions) fun _ => .pure _

@[simp]
theorem newMultiArray (h : ∃ index dimensions, i.operands = .multiArray index dimensions) :
    Apt natives (newMultiArray i) := by
  obtain ⟨index, dimensions, heq⟩ := h
  unfold Exec.newMultiArray
  rw [heq]
  refine check (failed id)
      (.bind owner fun owner => .bind (discreet (.resolveClass owner index)) fun id =>
    .bind (popCounts _) fun counts => ?_)
  split
  · exact fail fun h => h
  · exact .bind (lift (VM.multiArray_ordinary id _ _)) fun _ => push _

/-! #### Fields, objects and calls -/

theorem resolveField (h : ∃ index, i.operands.poolIndex? = some index) (isStatic : Bool) :
    Apt natives (resolveField i isStatic) :=
  .bind owner fun owner => .bind (poolIndex h) fun index =>
      .bind (discreet (.resolveField owner index)) fun _ =>
    .bind machine fun _ => check raised (.pure _)

theorem fieldSlots (table : SlotTable) (field : Field) :
    Apt natives (liftM (Exec.fieldSlots table field) : Exec (List Slot)) :=
  lift (.mapM (fun _ => .inRange _) _)

theorem instanceFields (a : Address) : Apt natives (instanceFields a) :=
  .bind machine fun _ => by
    split
    · exact .pure _
    · exact raise _ _

/-- A class is initialized before an instruction goes on. -/
theorem initialized (id : ClassId) {x : Exec Unit} (hx : Apt natives x) :
    Apt natives (do if ← Exec.awaitsInitialization id then return () else x) := by
  have hstart : ∀ id, Apt natives (Exec.startInitialization id) := fun id =>
    .bind (.of_ok fun _ => ⟨_, _, rfl⟩) fun _ => .bind machine fun _ => by
      split
      · exact pushFrame _
      · exact .pure _
  have hwaits : Apt natives (Exec.awaitsInitialization id) :=
    .bind machine fun _ => check (.pure _) (.bind thread fun _ => .bind (onFrame _) fun _ =>
      .bind (.bind machine fun _ => .forM hstart _) fun _ => .pure _)
  exact .bind hwaits fun _ => check (.pure _) hx

@[simp]
theorem getStatic (h : ∃ index, i.operands.poolIndex? = some index) : Apt natives (getStatic i) :=
  .bind (resolveField h true) fun _ => initialized _ <| .bind machine fun _ =>
    .bind (fieldSlots _ _) fun _ => changeStack _

@[simp]
theorem putStatic (h : ∃ index, i.operands.poolIndex? = some index) : Apt natives (putStatic i) :=
  .bind (resolveField h true) fun _ => initialized _ <| .bind machine fun _ =>
      .bind (onStack _) fun _ =>
    .bind machine fun _ => .bind (lift (.inRange _)) fun _ => .of_ok fun _ => ⟨_, _, rfl⟩

@[simp]
theorem getField (h : ∃ index, i.operands.poolIndex? = some index) : Apt natives (getField i) :=
  .bind (resolveField h false) fun _ => .bind machine fun _ => .bind (popObject _) fun a =>
    .bind (instanceFields a) fun _ => .bind (fieldSlots _ _) fun _ => changeStack _

@[simp]
theorem putField (h : ∃ index, i.operands.poolIndex? = some index) : Apt natives (putField i) :=
  .bind (resolveField h false) fun _ => .bind machine fun _ => .bind (onStack _) fun _ =>
      .bind (popObject _) fun a =>
    .bind (instanceFields a) fun _ => .bind (lift (.inRange _)) fun _ => .of_ok fun _ => ⟨_, _, rfl⟩

@[simp]
theorem newObject (h : ∃ index, i.operands.poolIndex? = some index) : Apt natives (newObject i) :=
  .bind owner <| resolveClass h fun _ => .bind machine fun _ =>
    check raised (initialized _ <| .bind (lift (.newObject _)) fun _ => push _)

@[simp]
theorem checkCast (h : ∃ index, i.operands.poolIndex? = some index) : Apt natives (checkCast i) :=
  .bind (onStack _) fun a => by
    split
    · exact .bind owner <| resolveClass h fun _ => .bind (isInstance _ _) fun _ =>
        check (.bind machine fun _ => raise _ _) (.pure _)
    · exact .pure _

@[simp]
theorem instanceOf (h : ∃ index, i.operands.poolIndex? = some index) : Apt natives (instanceOf i) :=
  .bind (onStack _) fun a => by
    split
    · exact push _
    · exact .bind owner <| resolveClass h fun _ => .bind (isInstance _ _) fun _ => push _

@[simp]
theorem throwTop : Apt natives throwTop := .bind (popObject _) fun _ => fail id

@[simp]
theorem checkMonitor : Apt natives checkMonitor := .bind (popObject _) fun _ => .pure _

theorem abstractMethod (method : Method) : Apt natives (abstractMethod method : Exec α) :=
  .bind machine fun _ => raise _ _

/-- A native is the only one that may answer with an error about the instruction. -/
theorem callNative (method : Method) : Apt natives (callNative natives method) := by
  refine .bind frame fun _ => .bind machine fun m => ?_
  rcases natives.find_cases (m.cls method.owner).name method.name method.descriptor with
    ⟨key, native, hregistered, hfind⟩ | ⟨message, hfind⟩
  · rw [hfind, liftM_pure, pure_bind]
    have hnative : ∀ call, Apt natives (liftM (native call) : Exec (Option Value)) := fun call =>
      failsOnly_lift fun m e m' hrun _ => ⟨key, native, hregistered, call, m, m', hrun⟩
    refine .bind (onStack _) fun _ => .bind (hnative _) fun result => ?_
    split
    · exact push _
    · exact .pure _
  · rw [hfind]
    exact raised

theorem call (method : Method) : Apt natives (call natives method) :=
  check (callNative method) <| check (abstractMethod method) <|
    .bind (onStack _) fun _ => .bind (lift (.inRange _)) fun _ => pushFrame _

theorem ofSearch (search : Search α) : Apt natives (liftM (VM.ofSearch search) : Exec (Option α)) :=
  lift fun m e m' hrun => by
    cases search <;> cases hrun
    trivial

theorem callFound (search : Search Method) (method : Method) :
    Apt natives (callFound natives search method) :=
  .bind (ofSearch search) fun found => by
    cases found with
    | some selected => exact call selected
    | none => exact abstractMethod method

theorem resolveMethod (h : ∃ index, i.operands.poolIndex? = some index) :
    Apt natives (resolveMethod i) :=
  .bind owner fun owner => .bind (poolIndex h) fun index => discreet (.resolveMethod owner index)

theorem resolveInstanceMethod (h : ∃ index, i.operands.poolIndex? = some index) :
    Apt natives (resolveInstanceMethod i) :=
  .bind (resolveMethod h) fun _ => check (.bind machine fun _ => raised) (.pure _)

theorem receiver (method : Method) : Apt natives (receiver method) :=
  .bind (onStack _) fun a => by
    split
    · exact .pure _
    · exact .bind machine fun _ => raise _ _

@[simp]
theorem invokeStatic (h : ∃ index, i.operands.poolIndex? = some index) :
    Apt natives (invokeStatic natives i) :=
  .bind (resolveMethod h) fun _ => check (.bind machine fun _ => raised) (initialized _ (call _))

@[simp]
theorem invokeSpecial (h : ∃ index, i.operands.poolIndex? = some index) :
    Apt natives (invokeSpecial natives i) := by
  refine .bind owner fun caller => .bind (resolveInstanceMethod h) fun resolved =>
      .bind machine fun m =>
    check raised (.bind (receiver resolved.2) fun _ => .bind (ofSearch _) fun found => ?_)
  cases found with
  | none => exact call _
  | some _ => exact callFound _ _

@[simp]
theorem invokeVirtual (h : ∃ index, i.operands.poolIndex? = some index) :
    Apt natives (invokeVirtual natives i) :=
  .bind (resolveInstanceMethod h) fun resolved => .bind (receiver resolved.2) fun _ =>
    check (call _) (.bind machine fun _ => callFound _ _)

@[simp]
theorem invokeInterface (h : ∃ index, i.operands.poolIndex? = some index) :
    Apt natives (invokeInterface natives i) :=
  .bind (resolveInstanceMethod h) fun _ => .bind (receiver _) fun _ => .bind machine fun _ =>
    .bind (ofSearch _) fun _ => check raised (callFound _ _)

/-! #### Groups -/

variable {opcode : Opcode} {operands : Operands}

theorem performConstant (hgroup : opcode.group = .constants) (h : opcode.Accepts operands) :
    Apt natives (performConstant ⟨opcode, operands⟩) := by
  cases opcode
  case nop => exact .bind frame fun _ => .pure _
  all_goals first
    | contradiction
    | simp_all [Exec.performConstant]

theorem performLoad (hgroup : opcode.group = .loads) (h : opcode.Accepts operands) :
    Apt natives (performLoad ⟨opcode, operands⟩) := by
  cases opcode <;> first
    | contradiction
    | simp_all [Exec.performLoad]

theorem performStore (hgroup : opcode.group = .stores) (h : opcode.Accepts operands) :
    Apt natives (performStore ⟨opcode, operands⟩) := by
  cases opcode <;> first
    | contradiction
    | simp_all [Exec.performStore]

theorem performShuffle (hgroup : opcode.group = .shuffles) (h : opcode.Accepts operands) :
    Apt natives (performShuffle ⟨opcode, operands⟩) := by
  cases opcode <;> first
    | contradiction
    | simp_all [Exec.performShuffle]

theorem performArithmetic (hgroup : opcode.group = .arithmetic) (h : opcode.Accepts operands) :
    Apt natives (performArithmetic ⟨opcode, operands⟩) := by
  cases opcode <;> first
    | contradiction
    | simp_all [Exec.performArithmetic]

theorem performConversion (hgroup : opcode.group = .conversions) (h : opcode.Accepts operands) :
    Apt natives (performConversion ⟨opcode, operands⟩) := by
  cases opcode <;> first
    | contradiction
    | simp_all [Exec.performConversion]

theorem performComparison (hgroup : opcode.group = .comparisons) (h : opcode.Accepts operands) :
    Apt natives (performComparison ⟨opcode, operands⟩) := by
  cases opcode <;> first
    | contradiction
    | simp_all [Exec.performComparison]

theorem performControl (hgroup : opcode.group = .control) (h : opcode.Accepts operands) :
    Apt natives (performControl ⟨opcode, operands⟩) := by
  cases opcode
  case tableswitch => exact tableSwitch h
  all_goals first
    | contradiction
    | simp_all [Exec.performControl]

theorem performCall (hgroup : opcode.group = .calls) (h : opcode.Accepts operands) :
    Apt natives (performCall natives ⟨opcode, operands⟩) := by
  cases opcode
  case invokedynamic => exact fail id
  all_goals first
    | contradiction
    | simp_all [Exec.performCall]

theorem performReference (hgroup : opcode.group = .references) (h : opcode.Accepts operands) :
    Apt natives (performReference ⟨opcode, operands⟩) := by
  cases opcode <;> first
    | contradiction
    | simp_all [Exec.performReference]

theorem performExtended (hgroup : opcode.group = .extended) (hwide : opcode ≠ .wide)
    (h : opcode.Accepts operands) :
    Apt natives (performExtended ⟨opcode, operands⟩) := by
  cases opcode <;> first
    | contradiction
    | simp_all [Exec.performExtended]

theorem perform (hwide : opcode ≠ .wide) (h : opcode.Accepts operands) :
    Apt natives (perform natives ⟨opcode, operands⟩) := by
  unfold Exec.perform
  split
  · exact performConstant ‹_› h
  · exact performLoad ‹_› h
  · exact performStore ‹_› h
  · exact performShuffle ‹_› h
  · exact performArithmetic ‹_› h
  · exact performConversion ‹_› h
  · exact performComparison ‹_› h
  · exact performControl ‹_› h
  · exact performCall ‹_› h
  · exact performReference ‹_› h
  · exact performExtended ‹_› hwide h

end Apt

/-- A widened instruction that can be executed has a plain form that can be. -/
theorem accepts_widened {opcode : Opcode} (index : UInt16) {constant : Option Int16}
    (h : Instruction.isWidenable opcode = true) (hconstant : opcode = .iinc ↔ constant.isSome = true) :
    opcode ≠ .wide ∧ opcode.Accepts (widened index constant) := by
  cases opcode
  case iinc =>
    obtain ⟨v, rfl⟩ := Option.isSome_iff_exists.mp (hconstant.mp rfl)
    exact ⟨nofun, _, _, rfl⟩
  all_goals first
    | exact Bool.noConfusion h
    | obtain rfl : constant = none := by simpa using hconstant
      exact ⟨nofun, _, rfl⟩

/-- An instruction with operands that its opcode accepts ends with an error about itself only if a
native does. -/
theorem apt_execute {i : Instruction} (h : i.Accepted) : Apt natives (execute natives i) := by
  rcases i with ⟨opcode, operands⟩
  by_cases hwide : opcode = .wide
  · subst hwide
    obtain ⟨opcode, index, constant, rfl, hwidenable, hconstant⟩ := h
    obtain ⟨hwide, haccepts⟩ := accepts_widened index hwidenable hconstant
    exact .perform hwide haccepts
  · have hplain : execute natives ⟨opcode, operands⟩ = perform natives ⟨opcode, operands⟩ := by
      cases opcode <;> first
        | contradiction
        | rfl
    rw [hplain]
    exact .perform hwide h

end Exec

end JavaMachine
