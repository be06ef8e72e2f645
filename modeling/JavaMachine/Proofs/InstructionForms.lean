import JavaMachine.Execution.Dispatch
import JavaMachine.Native.Standard
import JavaMachine.Proofs.Running

/-!
Different instructions for one operation.

The small indices of local variables have opcodes of their own, other ones follow the opcode in one
byte or, behind `wide`, in two; jumps have narrow and wide distances. `forms_agree`: the forms of an
operation are executed alike, whatever the state they are executed in.
-/

namespace JavaMachine

namespace Exec

/-- The kinds of values that instructions move between local variables and the operand stack. -/
inductive LocalKind where
  | int | long | float | double | reference
  deriving DecidableEq, Repr

namespace LocalKind

/-- Values of the kind take two slots. -/
def isWide : LocalKind → Bool
  | long | double => true
  | int | float | reference => false

def load : LocalKind → Opcode
  | int => .iload
  | long => .lload
  | float => .fload
  | double => .dload
  | reference => .aload

def store : LocalKind → Opcode
  | int => .istore
  | long => .lstore
  | float => .fstore
  | double => .dstore
  | reference => .astore

/-- The loads that have their local variable in the opcode. -/
def shortLoads : LocalKind → Vector Opcode 4
  | int => #v[.iload0, .iload1, .iload2, .iload3]
  | long => #v[.lload0, .lload1, .lload2, .lload3]
  | float => #v[.fload0, .fload1, .fload2, .fload3]
  | double => #v[.dload0, .dload1, .dload2, .dload3]
  | reference => #v[.aload0, .aload1, .aload2, .aload3]

/-- The stores that have their local variable in the opcode. -/
def shortStores : LocalKind → Vector Opcode 4
  | int => #v[.istore0, .istore1, .istore2, .istore3]
  | long => #v[.lstore0, .lstore1, .lstore2, .lstore3]
  | float => #v[.fstore0, .fstore1, .fstore2, .fstore3]
  | double => #v[.dstore0, .dstore1, .dstore2, .dstore3]
  | reference => #v[.astore0, .astore1, .astore2, .astore3]

end LocalKind

/-- What can be written in several forms. -/
inductive Operation where
  | load (kind : LocalKind) (index : Nat)
  | store (kind : LocalKind) (index : Nat)
  /-- The return from a subroutine to the position in a local variable. -/
  | comeBack (index : Nat)
  | increment (index : Nat) (constant : Int32)
  | jump (distance : Int32)
  | enterSubroutine (distance : Int32)

namespace Operation

/-- The forms of an operation. -/
inductive Form : Operation → Instruction → Prop where
  | shortLoad (kind : LocalKind) (n : Fin 4) : Form (.load kind n) ⟨kind.shortLoads[n], .none⟩
  | load (kind : LocalKind) (index : UInt8) : Form (.load kind index.toNat) ⟨kind.load, .u1 index⟩
  | wideLoad (kind : LocalKind) (index : UInt16) : Form (.load kind index.toNat)
      ⟨.wide, .wide kind.load index none⟩
  | shortStore (kind : LocalKind) (n : Fin 4) : Form (.store kind n) ⟨kind.shortStores[n], .none⟩
  | store (kind : LocalKind) (index : UInt8) : Form (.store kind index.toNat) ⟨kind.store, .u1 index⟩
  | wideStore (kind : LocalKind) (index : UInt16) : Form (.store kind index.toNat)
      ⟨.wide, .wide kind.store index none⟩
  | ret (index : UInt8) : Form (.comeBack index.toNat) ⟨.ret, .u1 index⟩
  | wideRet (index : UInt16) : Form (.comeBack index.toNat) ⟨.wide, .wide .ret index none⟩
  | iinc (index : UInt8) (constant : Int8) :
      Form (.increment index.toNat constant.toInt32) ⟨.iinc, .increment index.toUInt16 constant.toInt16⟩
  | wideIinc (index : UInt16) (constant : Int16) :
      Form (.increment index.toNat constant.toInt32) ⟨.wide, .wide .iinc index (some constant)⟩
  | goto (distance : Int16) : Form (.jump distance.toInt32) ⟨.goto, .i2 distance⟩
  | gotoWide (distance : Int32) : Form (.jump distance) ⟨.gotoW, .i4 distance⟩
  | jsr (distance : Int16) : Form (.enterSubroutine distance.toInt32) ⟨.jsr, .i2 distance⟩
  | jsrWide (distance : Int32) : Form (.enterSubroutine distance) ⟨.jsrW, .i4 distance⟩

/-- What an operation does. -/
def perform : Operation → Exec Unit
  | load kind index => if kind.isWide then loadTwo index else loadOne index
  | store kind index => if kind.isWide then storeTwo index else storeOne index
  | comeBack index => do modifyFrame ({ · with nextPc := (← getLocal index).number.toInt64.toUInt64 })
  | increment index constant => Exec.increment index constant
  | jump distance => branch distance
  | enterSubroutine distance => do
    pushSlot (.num (← frame).nextPc.toUInt32.toInt32)
    branch distance

end Operation

/-! ### Steps that need a frame -/

/-- Looking for a frame first makes no difference. -/
def NeedsFrame {α : Type} (step : Exec α) : Prop := (do let _ ← frame; step) = step

theorem needsFrame_onFrame {α : Type} (step : Frame → Option (α × Frame)) :
    NeedsFrame (onFrame step) := by
  funext s
  change outcome (frame >>= fun _ => onFrame step) s = outcome (onFrame step) s
  rw [outcome_bind]
  rcases hframes : s.thread.frames with _ | ⟨top, callers⟩
  · rw [frame, outcome_onFrame, outcome_onFrame, hframes]
  · rw [outcome_frame hframes]

theorem needsFrame_branch (distance : Int32) : NeedsFrame (branch distance) := by
  funext s
  change outcome (frame >>= fun _ => branch distance) s = outcome (branch distance) s
  rw [outcome_bind]
  rcases hframes : s.thread.frames with _ | ⟨top, callers⟩
  · rw [frame, outcome_onFrame, hframes, branch, outcome_bind_of_ok outcome_thread, modifyFrame,
      outcome_onFrame, hframes]
  · rw [outcome_frame hframes]

theorem NeedsFrame.bind {α β : Type} {step : Exec α} (h : NeedsFrame step) (f : α → Exec β) :
    NeedsFrame (step >>= f) := by
  unfold NeedsFrame at h ⊢
  rw [← bind_assoc, h]

theorem needsFrame_increment (index : Nat) (constant : Int32) : NeedsFrame (increment index constant) :=
  (needsFrame_onFrame _).bind _

theorem needsFrame_loadOne (index : Nat) : NeedsFrame (loadOne index) := (needsFrame_onFrame _).bind _

theorem needsFrame_loadTwo (index : Nat) : NeedsFrame (loadTwo index) :=
  (needsFrame_loadOne index).bind _

theorem needsFrame_storeOne (index : Nat) : NeedsFrame (storeOne index) := (needsFrame_onFrame _).bind _

theorem needsFrame_storeTwo (index : Nat) : NeedsFrame (storeTwo index) :=
  (needsFrame_storeOne (index + 1)).bind _

/-! ### Forms -/

section

variable {i : Instruction} {index : Nat}

theorem localIndex_eq (hindex : i.operands.localIndex? = some index) : localIndex i = pure index := by
  unfold localIndex operand
  rw [hindex]

theorem loadNamed_eq (hindex : i.operands.localIndex? = some index) {load : Nat → Exec Unit}
    (hload : NeedsFrame (load index)) : loadNamed i load = load index := by
  rw [loadNamed, localIndex_eq hindex]
  exact hload

theorem returnFromSubroutine_eq (hindex : i.operands.localIndex? = some index) :
    returnFromSubroutine i = (Operation.comeBack index).perform := by
  rw [returnFromSubroutine, localIndex_eq hindex]
  exact (needsFrame_onFrame _).bind _

theorem incrementNamed_eq (opcode : Opcode) (index : UInt16) (constant : Int16) :
    incrementNamed ⟨opcode, .increment index constant⟩ =
      (Operation.increment index.toNat constant.toInt32).perform := by
  unfold incrementNamed
  exact needsFrame_increment index.toNat constant.toInt32

theorem jump_eq {distance : Int32} (hdistance : i.operands.offset? = some distance) :
    jump i = (Operation.jump distance).perform := by
  have hoffset : offset i = pure distance := by
    unfold offset operand
    rw [hdistance]
  rw [jump, hoffset, pure_bind]
  exact needsFrame_branch distance

end

namespace Operation

variable (natives : Natives)

section

variable {operands : Operands} {index : Nat} (hindex : operands.localIndex? = some index)
  (kind : LocalKind)

include hindex

theorem perform_load :
    Exec.perform natives ⟨kind.load, operands⟩ = (Operation.load kind index).perform := by
  cases kind with
  | int | float | reference => exact loadNamed_eq hindex (needsFrame_loadOne index)
  | long | double => exact loadNamed_eq hindex (needsFrame_loadTwo index)

theorem perform_store :
    Exec.perform natives ⟨kind.store, operands⟩ = (Operation.store kind index).perform := by
  cases kind with
  | int | float | reference => exact loadNamed_eq hindex (needsFrame_storeOne index)
  | long | double => exact loadNamed_eq hindex (needsFrame_storeTwo index)

end

/-- A form of an operation is executed as what the operation does. -/
theorem Form.execute_eq {operation : Operation} {i : Instruction} (h : operation.Form i) :
    execute natives i = operation.perform := by
  cases h with
  | shortLoad kind n => cases kind <;> match n with | 0 | 1 | 2 | 3 => rfl
  | shortStore kind n => cases kind <;> match n with | 0 | 1 | 2 | 3 => rfl
  | load kind index =>
    have hplain : execute natives ⟨kind.load, .u1 index⟩ = Exec.perform natives
        ⟨kind.load, .u1 index⟩ := by
      cases kind <;> rfl
    rw [hplain, perform_load natives rfl]
  | wideLoad kind index => exact perform_load natives rfl kind
  | store kind index =>
    have hplain : execute natives ⟨kind.store, .u1 index⟩ = Exec.perform natives
        ⟨kind.store, .u1 index⟩ := by
      cases kind <;> rfl
    rw [hplain, perform_store natives rfl]
  | wideStore kind index => exact perform_store natives rfl kind
  | ret index => exact returnFromSubroutine_eq rfl
  | wideRet index => exact returnFromSubroutine_eq rfl
  | iinc index constant =>
    rw [← UInt8.toNat_toUInt16, ← Int8.toInt32_toInt16]
    exact incrementNamed_eq .iinc index.toUInt16 constant.toInt16
  | wideIinc index constant => exact incrementNamed_eq .iinc index constant
  | goto distance => exact jump_eq rfl
  | gotoWide distance => exact jump_eq rfl
  | jsr distance => rfl
  | jsrWide distance => rfl

/-- Two forms of one operation are executed alike: whatever the machine and the thread, they give
the same state and the same result, be it a failure or not. -/
theorem forms_agree {operation : Operation} {i j : Instruction} (hi : operation.Form i)
    (hj : operation.Form j) :
    execute natives i = execute natives j ∧ execute natives i = operation.perform :=
  ⟨(hi.execute_eq natives).trans (hj.execute_eq natives).symm, hi.execute_eq natives⟩

/-- Three ways to load a long from the local variables 3 and 4. -/
theorem forms_agree_lload : Operation.Form (.load .long 3) ⟨.lload3, .none⟩ ∧
    Operation.Form (.load .long 3) ⟨.lload, .u1 3⟩ ∧
      Operation.Form (.load .long 3) ⟨.wide, .wide .lload 3 none⟩ ∧
    execute .standard ⟨.lload3, .none⟩ = execute .standard ⟨.lload, .u1 3⟩ ∧
    execute .standard ⟨.lload3, .none⟩ = execute .standard ⟨.wide, .wide .lload 3 none⟩ := by
  have hshort : Operation.Form (.load .long 3) ⟨.lload3, .none⟩ := .shortLoad .long 3
  have hnarrow : Operation.Form (.load .long 3) ⟨.lload, .u1 3⟩ := .load .long 3
  have hwide : Operation.Form (.load .long 3) ⟨.wide, .wide .lload 3 none⟩ := .wideLoad .long 3
  exact ⟨hshort, hnarrow, hwide, (forms_agree .standard hshort hnarrow).1,
    (forms_agree .standard hshort hwide).1⟩

end Operation

end Exec

end JavaMachine
