import JavaMachine.Proofs.OperandShapes

/-!
Decoded instructions can be executed.

Decoding gives every opcode operands that it can be executed with (`Instruction.read_gives`), and
the table of a decoded table switch has an offset for every key from `low` to `high`. The standard
natives end with no error about an instruction, so decoded code ends with none
(`Instruction.executable_of_read`).
-/

namespace JavaMachine

variable {ε σ α β : Type}

/-! ### What decoding gives -/

/-- All results of a step have a property, whatever the state. -/
def GivesOnly (p : α → Prop) (x : ExceptT ε (StateM σ) α) : Prop :=
  ∀ s a t, outcome x s = (.ok a, t) → p a

namespace GivesOnly

variable {p : α → Prop} {q : β → Prop} {x : ExceptT ε (StateM σ) α}

theorem pure {a : α} (h : p a) : GivesOnly p (pure a : ExceptT ε (StateM σ) α) := fun _ _ _ hrun => by
  cases hrun
  exact h

theorem throw (e : ε) : GivesOnly p (throw e : ExceptT ε (StateM σ) α) :=
  fun _ _ _ hrun => by cases hrun

theorem bind {f : α → ExceptT ε (StateM σ) β} (hx : GivesOnly p x) (hf : ∀ a, p a → GivesOnly q (f a)) :
    GivesOnly q (x >>= f) := fun s b t hrun => by
  obtain ⟨a, u, hfirst, hrest⟩ := outcome_bind_ok.mp hrun
  exact hf a (hx s a u hfirst) u b t hrest

/-- What comes last decides, if it does so for whatever came before. -/
theorem last {f : α → ExceptT ε (StateM σ) β} (hf : ∀ a, GivesOnly q (f a)) : GivesOnly q (x >>= f) :=
  bind (p := fun _ => True) (fun _ _ _ _ => trivial) fun a _ => hf a

theorem map {f : α → β} (h : ∀ a, q (f a)) : GivesOnly q (f <$> x) := by
  rw [map_eq_pure_bind]
  exact last fun a => pure (h a)

end GivesOnly

namespace Instruction

open CodeReader

theorem i4s_length : ∀ count, GivesOnly (·.length = count) (i4s count)
  | 0 => .pure rfl
  | count + 1 => .last fun _ => .bind (i4s_length count) fun _ h => .pure (by rw [List.length_cons, h])

theorem readTableSwitch_gives : GivesOnly (Opcode.Accepts · .tableswitch) readTableSwitch := by
  refine .last fun _ => .last fun default => .last fun low => .last fun high => ?_
  dsimp only
  split
  · exact .bind (.throw (p := fun _ => False) _) fun _ h => h.elim
  · rename_i h
    exact .bind (i4s_length _) fun offsets hlength =>
      .pure ⟨default, low, high, offsets, rfl, Int32.not_lt.mp h, hlength⟩

theorem readLookupSwitch_gives : GivesOnly (Opcode.Accepts · .lookupswitch) readLookupSwitch :=
  .last fun _ => .last fun default => .last fun _ => .last fun _ => .pure ⟨default, _, rfl⟩

theorem readWide_gives : GivesOnly (Opcode.Accepts · .wide) readWide := by
  refine .last fun start => .last fun byte => ?_
  split
  · exact .throw _
  · rename_i opcode hopcode
    have hwidenable := (Option.filter_eq_some_iff.mp hopcode).2
    refine .last fun index => ?_
    split
    · rename_i hiinc
      exact .last fun constant => .pure ⟨opcode, index, some constant, rfl, hwidenable, by simp [hiinc]⟩
    · rename_i hiinc
      exact .pure ⟨opcode, index, none, rfl, hwidenable, by simp [hiinc]⟩

theorem readOperands_gives (opcode : Opcode) :
    GivesOnly (Opcode.Accepts · opcode) (readOperands opcode) := by
  cases opcode with
  | bipush | sipush | newarray => exact .map fun v => ⟨v, rfl⟩
  | ldc | iload | lload | fload | dload | aload | istore | lstore | fstore | dstore | astore | ret =>
    exact .map fun v => ⟨_, rfl⟩
  | ldcW | ldc2W | getstatic | putstatic | getfield | putfield | invokevirtual | invokespecial
      | invokestatic | new
  | anewarray | checkcast | instanceof => exact .map fun v => ⟨v, rfl⟩
  | ifeq | ifne | iflt | ifge | ifgt | ifle | ifIcmpeq | ifIcmpne | ifIcmplt | ifIcmpge | ifIcmpgt
      | ifIcmple | ifAcmpeq
  | ifAcmpne | goto | jsr | ifnull | ifnonnull | gotoW | jsrW => exact .map fun v => ⟨_, rfl⟩
  | iinc | multianewarray => exact .last fun a => .last fun b => .pure ⟨_, _, rfl⟩
  | invokeinterface => exact .last fun index => .last fun _ => .last fun _ => .pure ⟨index, rfl⟩
  | tableswitch => exact readTableSwitch_gives
  | lookupswitch => exact readLookupSwitch_gives
  | wide => exact readWide_gives
  | _ => exact fun _ _ _ _ => trivial

/-- Decoding gives an opcode with operands that it can be executed with. -/
theorem read_gives : GivesOnly Accepted read := by
  refine .last fun start => .last fun byte => ?_
  split
  · exact .throw _
  · exact .bind (readOperands_gives _) fun _ h => .pure h

end Instruction

/-! ### Table switches -/

namespace Exec

/-- A table with an offset for every key in the range has one for each of them. -/
theorem tableIndex_lt {low high key : Int32} {offsets : List Int32}
    (hlength : offsets.length = (high.toInt - low.toInt + 1).toNat) (hlow : low ≤ key)
    (hhigh : key ≤ high) :
    (key.toInt - low.toInt).toNat < offsets.length := by
  have hlow := Int32.le_iff_toInt_le.mp hlow
  have hhigh := Int32.le_iff_toInt_le.mp hhigh
  omega

theorem tableTarget?_exists (default : Int32) {low high : Int32} {offsets : List Int32}
    (hlength : offsets.length = (high.toInt - low.toInt + 1).toNat) (key : Int32) :
    ∃ distance, tableTarget? default low high offsets key = some distance := by
  unfold tableTarget?
  split
  · exact ⟨default, rfl⟩
  · rename_i h
    obtain ⟨hlow, hhigh⟩ := not_or.mp fun hor => h (by simpa using hor)
    exact ⟨_, List.getElem?_eq_getElem (tableIndex_lt hlength (Int32.not_lt.mp hlow)
      (Int32.not_lt.mp hhigh))⟩

/-- A table switch goes on at the distance for the key on top of the operand stack. -/
theorem outcome_tableSwitch {default low high key distance : Int32} {offsets : List Int32}
    {s : Running} {top : Frame}
    {callers : List Frame} {stack : OperandStack} (hframes : s.thread.frames = top :: callers)
    (hkey : top.stack.popInt? = some (key, stack))
    (htarget : tableTarget? default low high offsets key = some distance) :
    outcome (tableSwitch ⟨.tableswitch, .tableSwitch default low high offsets⟩) s =
      (.ok ⟨⟩, ⟨s.machine, { s.thread with
        frames := Frame.branch { top with stack } s.thread.pc distance :: callers }⟩) := by
  unfold tableSwitch
  rw [outcome_bind_of_ok (outcome_frame hframes)]
  dsimp only
  rw [popInt, outcome_bind_of_ok (outcome_onStack hframes hkey), htarget]
  rfl

end Exec

/-! ### The standard natives -/

namespace ArrayCopy

open VM

theorem checkArray_ordinary (a : Address) : FailsOnly Failure.Ordinary (checkArray a) :=
  .bind .get fun _ => by
    split
    · exact .raise _ _
    · exact .pure _

theorem storable_ordinary (component : ClassId) :
    ∀ elements, FailsOnly Failure.Ordinary (storable component elements)
  | [] => .pure _
  | element :: elements => by
    unfold storable
    split
    · refine .bind (NoFault.isInstance _ component).ordinary fun fits => ?_
      dsimp only
      split
      · exact .bind (storable_ordinary component elements) fun _ => .pure _
      · exact .pure _
    · rw [pure_bind]
      exact .bind (storable_ordinary component elements) fun _ => .pure _

theorem copyReferences_ordinary (r : Range) (destination : Address) (component : Option ClassId)
    (s d : Array (Option Address)) :
    FailsOnly Failure.Ordinary (copyReferences r destination component s d) := by
  rw [Tame.copyReferences_eq]
  have hfitting : FailsOnly Failure.Ordinary (Tame.fitting r component s) := by
    cases component with
    | some component => exact storable_ordinary component _
    | none => exact .pure _
  refine .bind hfitting fun found => .bind (.modifyGet _) fun _ => ?_
  cases found.2 with
  | none => exact .pure _
  | some a => exact .bind .get fun _ => .raise _ _

theorem copyRange_ordinary (r : Range) (source destination : Address) :
    FailsOnly Failure.Ordinary (copyRange r source destination) := by
  refine .bind .get fun m => ?_
  dsimp only
  split
  · split
    · exact .modifyGet _
    · exact .pure _
  · refine .bind (component?_ordinary _) fun component => ?_
    split
    · exact copyReferences_ordinary r destination component _ _
    · split
      · exact .modifyGet _
      · exact .raise _ _

theorem copy_ordinary (r : Range) (source destination : Address) :
    FailsOnly Failure.Ordinary (copy r source destination) := by
  refine .bind (checkArray_ordinary _) fun _ => .bind (checkArray_ordinary _) fun _ =>
    .bind .get fun m => ?_
  dsimp only
  split
  · exact .raise_bind
  · split
    · exact copyRange_ordinary r source destination
    · exact .raise _ _

end ArrayCopy

namespace Natives

open VM

theorem object_ordinary (call : NativeCall) (index : Nat) :
    FailsOnly Failure.Ordinary (object call index) :=
  .bind (.inRange _) fun _ => by
    split
    · exact .pure _
    · exact .bind .get fun _ => .raise _ _

theorem arrayCopy_ordinary (call : NativeCall) : FailsOnly Failure.Ordinary (arrayCopy call) :=
  .bind (object_ordinary call 0) fun _ => .bind (object_ordinary call 2) fun _ =>
      .bind (.inRange _) fun _ =>
    .bind (.inRange _) fun _ => .bind (.inRange _) fun _ =>
      .bind (ArrayCopy.copy_ordinary _ _ _) fun _ => .pure _

/-- Every native ends only with failures that have a property. -/
def FailOnly (p : Failure → Prop) (natives : Natives) : Prop :=
  ∀ key native, (key, native) ∈ natives.entries → ∀ call, FailsOnly p (native call)

theorem FailOnly.register {p : Failure → Prop} {natives : Natives}
    (h : natives.FailOnly p) {native : Native}
    (hnative : ∀ call, FailsOnly p (native call)) (className name descriptor : String) :
    (natives.register className name descriptor native).FailOnly p :=
  forall_register h hnative className name descriptor

/-- The standard natives have no exception on its way, and blame no instruction. -/
theorem standard_ordinary : standard.FailOnly Failure.Ordinary :=
  have hnone : Natives.none.FailOnly Failure.Ordinary := fun _ _ h => by cases h
  hnone
    |>.register (fun _ => .pure _) _ _ _
    |>.register (fun _ => .pure _) _ _ _
    |>.register (fun call => .bind (object_ordinary call 0) fun _ => .pure _) _ _ _
    |>.register (fun _ => .bind (.inRange _) fun _ => .pure _) _ _ _
    |>.register (fun _ => .bind (.inRange _) fun _ => .pure _) _ _ _
    |>.register (fun _ => .bind (.inRange _) fun _ => .pure _) _ _ _
    |>.register (fun _ => .bind (.inRange _) fun _ => .pure _) _ _ _
    |>.register arrayCopy_ordinary _ _ _

theorem standard_not_answers {e : Failure} (h : e.IsMisuse) : ¬ standard.Answers e := by
  rintro ⟨key, native, hmem, call, m, m', hrun⟩
  exact (standard_ordinary key native hmem call m e m' hrun).not_isMisuse h

end Natives

open Exec in
/-- A decoded instruction can be executed. Only a native can end it with an error about its operands
or its group, and the standard ones do not; and a table switch finds an offset for every key, so
that it goes on whenever there is one. -/
theorem Instruction.executable_of_read {code : Array UInt8} {pc : UInt64}
    {i : Instruction} {c : CodeCursor}
    (h : outcome Instruction.read ⟨code, pc⟩ = (.ok i, c)) (natives : Natives) (s : Running) :
    (∀ e t, outcome (execute natives i) s = (.error e, t) → e.IsMisuse → natives.Answers e) ∧
    (∀ e t, outcome (execute .standard i) s = (.error e, t) → ¬ e.IsMisuse) ∧
    (i.opcode = .tableswitch → ∃ default low high offsets,
      i.operands = .tableSwitch default low high offsets ∧
      (∀ key, low ≤ key → key ≤ high → (key.toInt - low.toInt).toNat < offsets.length) ∧
      ∀ top callers key stack, s.thread.frames = top :: callers →
        top.stack.popInt? = some (key, stack) →
        ∃ distance, tableTarget? default low high offsets key = some distance ∧
          outcome (execute natives i) s = (.ok ⟨⟩, ⟨s.machine, { s.thread with
            frames := Frame.branch { top with stack } s.thread.pc distance :: callers }⟩)) := by
  have haccepted : i.Accepted := Instruction.read_gives _ _ _ h
  refine ⟨apt_execute haccepted s, fun e t hrun hmisuse => ?_, fun htable => ?_⟩
  · exact Natives.standard_not_answers hmisuse (apt_execute haccepted s e t hrun hmisuse)
  · rcases i with ⟨opcode, operands⟩
    obtain rfl : opcode = .tableswitch := htable
    obtain ⟨default, low, high, offsets, rfl, -, hlength⟩ := haccepted
    refine ⟨default, low, high, offsets, rfl, fun key => tableIndex_lt hlength,
      fun top callers key stack hframes hkey => ?_⟩
    obtain ⟨distance, htarget⟩ := tableTarget?_exists default hlength key
    exact ⟨distance, htarget, outcome_tableSwitch hframes hkey htarget⟩

namespace Instruction

/-- Code that switches on 1 and 2. -/
def switchCode : Array UInt8 :=
  #[0xAA, 0, 0, 0, 0, 0, 0, 20, 0, 0, 0, 1, 0, 0, 0, 2, 0, 0, 0, 30, 0, 0, 0, 40]

/-- A frame with the key 2 on its operand stack. -/
def switchFrame : Frame :=
  { Frame.start { (default : Method) with code := switchCode, maxStack := 1 } with
    stack := ⟨#[.num 2], 1⟩ }

/-- A thread that runs the switch. -/
def switchState : Running := ⟨.start [], { Thread.start 8 with frames := [switchFrame] }⟩

theorem executable_of_read_switch :
    ∃ i c t, outcome read ⟨switchCode, 0⟩ = (.ok i, c) ∧
      outcome (Exec.execute .standard i) switchState = (.ok ⟨⟩, t) ∧
      t.thread.frames.map (·.nextPc) = [40] := by
  have hread : outcome read ⟨switchCode, 0⟩ =
      (.ok ⟨.tableswitch, .tableSwitch 20 1 2 [30, 40]⟩, ⟨switchCode, 24⟩) := rfl
  obtain ⟨-, -, hswitch⟩ := executable_of_read hread .standard switchState
  obtain ⟨default, low, high, offsets, heq, -, hgoes⟩ := hswitch rfl
  cases heq
  obtain ⟨distance, htarget, hrun⟩ := hgoes switchFrame [] 2 _ rfl rfl
  cases htarget
  exact ⟨_, _, _, hread, hrun, by decide⟩

end Instruction

end JavaMachine
