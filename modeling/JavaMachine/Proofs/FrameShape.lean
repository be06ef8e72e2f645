import JavaMachine.Proofs.Ancestry
import JavaMachine.Proofs.Sessions

/-!
The shape of frames.

Whatever runs on a thread, it is no deeper than it may be, and each of its frames has the local
variables and the operand stack that its method asks for: the arguments fit, and the slots of the
operand stack that are not in use hold zero (`Thread.Shaped`). The frames of initializers have it
because methods that come from class files have room for their arguments (`Machine.Spacious`), all
others because their arguments are in their local variables when they begin.
-/

namespace JavaMachine

variable {α β : Type} {natives : Natives}

theorem SlotTable.length_le_of_setAll? : ∀ {slots : List Slot} {t u : SlotTable} {index : Nat},
    t.setAll? index slots = some u → index ≤ t.size → index + slots.length ≤ t.size
  | [], _, _, _, _, hindex => hindex
  | slot :: slots, t, u, index, h, _ => by
    obtain ⟨v, hset, hrest⟩ := Option.bind_eq_some_iff.mp h
    have hlt : index < t.size := by
      unfold set? at hset
      split at hset
      · assumption
      · cases hset
    have hsize := size_set? hset
    have hle := length_le_of_setAll? hrest (by omega)
    rw [List.length_cons]
    omega

/-! ### Methods with room for their arguments -/

/-- The local variables of the method have room for its arguments. -/
def Method.Roomy (method : Method) : Prop := method.argumentSlots ≤ method.maxLocals

namespace Loader

variable {id : ClassId}

/-- The methods of a class file have room for their arguments. -/
theorem ofClassFile_roomy {file : ClassFile} {c : Class} (h : Definition.ofClassFile id file = .ok c) :
    ∀ method ∈ c.methods, method.Roomy :=
  checked_mapM_array_ok (fun _ _ hmethod => (method_defines hmethod).roomy)
    (ofClassFile_defines h).methods

end Loader

namespace Machine

variable {m m' : Machine} {id : ClassId} {base : Nat}

/-- A settled machine whose methods have room for their arguments. -/
structure Spacious (m : Machine) : Prop extends m.Settled where
  roomy : ∀ id, ∀ method ∈ (m.cls id).methods, method.Roomy

/-- No change of the loader brings a method without room for its arguments. -/
theorem LoadStep.roomy (h : m.LoadStep base m')
    (hm : ∀ id, ∀ method ∈ (m.cls id).methods, method.Roomy) (id : ClassId) :
    ∀ method ∈ (m'.cls id).methods, method.Roomy := by
  have hadded : ∀ {c : Class}, (∀ method ∈ c.methods, method.Roomy) →
      ∀ method ∈ ((m.withClass c).cls id).methods, method.Roomy := by
    intro c hc
    by_cases hnew : id = m.nextClassId
    · subst hnew
      rwa [cls_withClass_new]
    · rw [cls_withClass_ne hnew]
      exact hm id
  have hchanged : ∀ {other : ClassId} {change : Class → Class}, (change
      (m.cls other)).methods = (m.cls other).methods →
      ∀ method ∈ ((m.changeClass other change).cls id).methods, method.Roomy := by
    intro other change hsame
    rcases cls_changeClass m other change id with heq | ⟨rfl, heq⟩ <;> rw [heq]
    · exact hm id
    · rw [hsame]
      exact hm id
  cases h with
  | beginDefinition read => exact hadded (Loader.ofClassFile_roomy read)
  | addArray => exact hadded fun method hmethod => by simp
      [Loader.arrayBelow, Definition.arrayClass] at hmethod
  | attachSuper | attachInterfaces | layOut | setStatics | link => exact hchanged (by rfl)
  | unbind | bind | allocate | keepLiteral => exact hm id

namespace Spacious

theorem traced {x : VM α} {gives : Machine → Machine → α → Prop} (hsettled : VM.Keeps Settled x)
    (h : ∀ m, Loader.Traced m.classes.size m x (gives m)) : VM.Keeps Spacious x := by
  intro m r m' hm hrun hr
  have hloading := (h m hm.sound (Nat.le_refl _) r m' hrun hr).1
  exact ⟨hsettled m r m' hm.toSettled hrun hr,
    (hloading.keeps (fun _ _ hstep _ => hstep.roomy) hm.sound hm.roomy).2⟩

theorem of_eq (hm : m.Spacious) (hclasses : m'.classes = m.classes)
    (hnames : m'.names = m.names) : m'.Spacious := by
  refine ⟨hm.toSettled.of_eq hclasses hnames, fun id => ?_⟩
  rw [cls_congr hclasses]
  exact hm.roomy id

theorem changePlaced (hm : m.Spacious) {change : Class → Class}
    (hplace : ∀ c : Class, c.SamePlace (change c))
    (hmethods : ∀ c, (change c).methods = c.methods) : (m.changeClass id change).Spacious := by
  refine ⟨hm.toSettled.changePlaced hplace, fun other => ?_⟩
  rcases m.cls_changeClass id change other with heq | ⟨rfl, heq⟩ <;> rw [heq]
  · exact hm.roomy other
  · rw [hmethods]
    exact hm.roomy other

/-- Programs keep machines spacious. -/
theorem keptByPrograms (hnatives : natives.Lawful) : VM.KeptByPrograms natives Spacious :=
  VM.KeptByPrograms.of_lawful hnatives
    (fun name => traced (Settled.keptByPrograms hnatives (.load name)) fun m => VM.load_tracing m name)
    (fun file => traced (Settled.keptByPrograms hnatives (.define file)) fun _ =>
      Loader.define_traced VM.load_tracing file)
    (fun _ _ _ hm => hm.changePlaced) fun _ _ hm => hm.of_eq

theorem start (directories : List Directory) : (start directories).Spacious := by
  refine ⟨settled_start directories, fun id method hmethod => ?_⟩
  rw [cls_of_size_le (Nat.zero_le _)] at hmethod
  exact absurd hmethod (Array.not_mem_empty _)

/-- An initializer has room for its arguments. -/
theorem initializer (hm : m.Spacious) {initializer : Method}
    (h : (m.cls id).initializer? = some initializer) :
    initializer.Roomy := by
  have hfound := (Option.filter_eq_some_iff.mp h).1
  exact hm.roomy id initializer (Array.mem_of_find?_eq_some hfound)

end Spacious

end Machine

/-! ### Frames and threads -/

/-- A frame with the room that its method asks for, in which the arguments fit, and with a tidy
operand stack. -/
structure Frame.Shaped (frame : Frame) : Prop where
  locals : frame.locals.size = frame.method.maxLocals
  arguments : frame.method.argumentSlots ≤ frame.method.maxLocals
  capacity : frame.stack.capacity = frame.method.maxStack
  tidy : frame.stack.Tidy

/-- A thread that is no deeper than it may be. -/
structure Thread.Shaped (t : Thread) : Prop where
  depth_le : t.depth ≤ t.maxDepth
  frames : ∀ frame ∈ t.frames, frame.Shaped

structure Running.Shaped (s : Running) : Prop where
  machine : s.machine.Spacious
  thread : s.thread.Shaped

namespace Frame

variable {frame frame' : Frame} {method : Method}

theorem Shaped.leads (h : frame.Shaped) (hleads : frame.Leads frame') : frame'.Shaped where
  locals := by rw [hleads.locals, hleads.method, h.locals]
  arguments := by rw [hleads.method]; exact h.arguments
  capacity := by rw [hleads.stack, hleads.method, h.capacity]
  tidy := hleads.tidy h.tidy

theorem Fresh.shaped (h : frame.Fresh) (hroom : frame.method.Roomy) : frame.Shaped where
  locals := h.locals
  arguments := hroom
  capacity := by simp [h.stack, OperandStack.empty, OperandStack.capacity]
  tidy := by rw [h.stack]; exact OperandStack.tidy_empty _

/-- A method that is entered with all of its arguments has room for them. -/
theorem shaped_enter? {arguments : List Slot} (h : enter? method arguments = some frame)
    (hcount : arguments.length = method.argumentSlots) : frame.Shaped := by
  obtain ⟨hfresh, hmethod⟩ := fresh_enter? h
  refine hfresh.shaped ?_
  obtain ⟨locals, hset, -⟩ := Option.map_eq_some_iff.mp h
  have hle := SlotTable.length_le_of_setAll? hset (Nat.zero_le _)
  have hsize : (start method).locals.size = method.maxLocals := SlotTable.size_zeros _
  rw [Method.Roomy, hmethod]
  omega

theorem Shaped.caught (h : frame.Shaped) {exception : Address} {handler : Handler}
    (hcaught : Exec.caught? frame exception handler = some frame') : frame'.Shaped := by
  obtain ⟨stack, hpush, rfl⟩ := Option.map_eq_some_iff.mp hcaught
  have hleads := OperandStack.leads_push? hpush
  refine ⟨h.locals, h.arguments, ?_, hleads.tidy (frame.stack.leads_clear.tidy h.tidy)⟩
  rw [hleads.capacity, OperandStack.capacity_clear]
  exact h.capacity

end Frame

namespace Thread

variable {t : Thread} {frame : Frame} {frames : List Frame}

theorem shaped_start (maxDepth : Nat) : (start maxDepth).Shaped :=
  ⟨Nat.zero_le _, fun _ h => by cases h⟩

theorem Shaped.withFrames (hdepth : frames.length ≤ t.maxDepth)
    (hframes : ∀ frame ∈ frames, frame.Shaped) :
    { t with frames }.Shaped := ⟨hdepth, hframes⟩

theorem Shaped.callers (h : t.Shaped) (hframes : t.frames = frame :: frames) :
    { t with frames }.Shaped := by
  have hdepth := h.depth_le
  rw [depth, hframes, List.length_cons] at hdepth
  exact .withFrames (Nat.le_of_succ_le hdepth) fun other hother =>
    h.frames other (by rw [hframes]; exact List.mem_cons_of_mem _ hother)

end Thread

namespace Exec

variable {s t : Running}

/-- A step that leaves frames and threads in shape, if it completes. -/
def ShapesOn (s : Running) (x : Exec α) : Prop :=
  s.Shaped → ∀ r t, outcome x s = (r, t) → Completes r → t.Shaped

namespace ShapesOn

variable {x : Exec α}

theorem of_same (h : (outcome x s).2 = s) : ShapesOn s x := fun hs r t hrun _ => by
  rw [hrun] at h
  cases h
  exact hs

theorem bind {f : α → Exec β} (hx : ShapesOn s x)
    (hf : ∀ a t, outcome x s = (.ok a, t) → ShapesOn t (f a)) :
    ShapesOn s (x >>= f) := by
  intro hs r t hrun hr
  obtain ⟨fault, hfirst, rfl⟩ | ⟨a, u, hfirst, hrun⟩ := outcome_bind_completes hrun hr
  · exact hx hs _ _ hfirst trivial
  · exact hf a u hfirst (hx hs _ _ hfirst trivial) r t hrun hr

theorem attempt (hx : ShapesOn s x) : ShapesOn s (attempt x) := by
  intro hs r t hrun hr
  obtain ⟨fault, hfirst, rfl⟩ | ⟨a, hfirst, rfl⟩ := outcome_attempt_completes hrun hr
  · exact hx hs _ _ hfirst trivial
  · exact hx hs _ _ hfirst trivial

theorem lift {x : VM α} (hx : VM.Keeps Machine.Spacious x) : ShapesOn s (liftM x : Exec α) := by
  intro hs r t hrun hr
  rw [outcome_lift] at hrun
  cases hrun
  exact ⟨hx s.machine _ _ hs.machine rfl hr, hs.thread⟩

theorem modifyThread {change : Thread → Thread} (h : s.thread.Shaped → (change s.thread).Shaped) :
    ShapesOn s (modifyThread change) := fun hs r t hrun _ => by
  cases hrun
  exact ⟨hs.machine, h hs.thread⟩

theorem inRange (a : Option α) : ShapesOn s (VM.inRange a : Exec α) := of_same <| by cases a <;> rfl

theorem onFrame {step : Frame → Option (α × Frame)}
    (h : ∀ f a f', step f = some (a, f') → f.Shaped → f'.Shaped) :
    ShapesOn s (onFrame step) := by
  intro hs r t hrun hr
  rw [outcome_onFrame] at hrun
  rcases hframes : s.thread.frames with _ | ⟨top, callers⟩ <;> rw [hframes] at hrun
  · cases hrun
    exact hs
  · have hcallers := hs.thread.callers hframes
    have hdepth := hs.thread.depth_le
    rw [Thread.depth, hframes] at hdepth
    dsimp only at hrun
    rcases hstep : step top with _ | ⟨a, top'⟩ <;> rw [hstep] at hrun <;> cases hrun
    · exact hr.elim
    · refine ⟨hs.machine, .withFrames hdepth (List.forall_mem_cons.mpr ⟨?_, hcallers.frames⟩)⟩
      exact h top a top' hstep (hs.thread.frames top (by rw [hframes]; exact List.mem_cons_self))

theorem pushFrame {frame : Frame} (h : frame.Shaped) : ShapesOn s (pushFrame frame) := by
  intro hs r t hrun hr
  rw [outcome_pushFrame] at hrun
  split at hrun <;> cases hrun
  · exact hs
  · rename_i hroom
    exact ⟨hs.machine, .withFrames (Nat.not_le.mp hroom)
      (List.forall_mem_cons.mpr ⟨h, hs.thread.frames⟩)⟩

theorem popFrame : ShapesOn s popFrame := by
  intro hs r t hrun hr
  rw [outcome_popFrame] at hrun
  rcases hframes : s.thread.frames with _ | ⟨top, callers⟩ <;> rw [hframes] at hrun <;> cases hrun
  · exact hs
  · exact ⟨hs.machine, hs.thread.callers hframes⟩

/-- A method is entered with arguments that fit. -/
theorem enter {method : Method} {arguments : List Slot}
    (hcount : arguments.length = method.argumentSlots) :
    ShapesOn s (do Exec.pushFrame (← VM.inRange (Frame.enter? method arguments))) := by
  rcases hframe : Frame.enter? method arguments with _ | frame
  · exact fun _ r t hrun hr => by cases hrun; exact hr.elim
  · exact pushFrame (Frame.shaped_enter? hframe hcount)

/-! ### Instructions -/

theorem woven (hp : VM.KeptByPrograms natives Machine.Spacious) (h : Woven natives x) :
    ∀ s, ShapesOn s x := by
  induction h with
  | pure a => exact fun _ => .of_same rfl
  | throw e => exact fun _ => .of_same rfl
  | bind _ _ hx hf => exact fun s => .bind (hx s) fun a t _ => hf a t
  | lift tame => exact fun _ => .lift (hp tame.program)
  | pc => exact fun _ => .of_same rfl
  | onFrame leads => exact fun _ => .onFrame fun f a f' hstep hf => hf.leads (leads f a f' hstep)
  | enter method =>
    refine fun s => .bind (.onFrame fun f a f' hstep hf => ?_) fun arguments t hrun => .enter ?_
    · exact hf.leads (Frame.leads_onStack (OperandStack.keeps_popMany? _) hstep)
    · rcases hframes : s.thread.frames with _ | ⟨top, callers⟩
      · rw [popMany, onStack, outcome_onFrame, hframes] at hrun
        cases hrun
      · rw [outcome_popMany hframes] at hrun
        split at hrun <;> cases hrun
        exact OperandStack.length_popMany? ‹_›

theorem forM {f : α → Exec PUnit} (h : ∀ a s, ShapesOn s (f a)) : ∀ (as : List α) {s : Running},
      ShapesOn s (as.forM f)
  | [], _ => of_same rfl
  | a :: as, s => by
    rw [List.forM]
    exact bind (h a s) fun _ _ _ => forM h as

theorem startInitialization (hp : VM.KeptByPrograms natives Machine.Spacious)
    (id : ClassId) (s : Running) :
    ShapesOn s (startInitialization id) := by
  refine .bind (.lift (hp (.startInitialization id))) fun _ t _ hshaped => ?_
  refine (ShapesOn.bind (.of_same rfl) fun m u hmachine => ?_) hshaped
  cases hmachine
  split
  · rename_i initializer hinitializer
    exact .pushFrame ((Frame.fresh_start initializer).shaped (hshaped.machine.initializer hinitializer))
  · exact .of_same rfl

theorem initializeClass (hp : VM.KeptByPrograms natives Machine.Spacious) (id : ClassId) :
    ShapesOn s (initializeClass id) :=
  .bind (.of_same rfl) fun _ _ _ => forM (startInitialization hp) _

theorem awaitsInitialization (hp : VM.KeptByPrograms natives Machine.Spacious) (id : ClassId) :
    ShapesOn s (awaitsInitialization id) := by
  refine .bind (.of_same rfl) fun m t _ => ?_
  split
  · exact .of_same rfl
  · refine .bind (.of_same rfl) fun thread u _ => .bind (woven hp (.goOn _) u) fun _ v _ => ?_
    exact .bind (initializeClass hp id) fun _ _ _ => .of_same rfl

theorem need (hp : VM.KeptByPrograms natives Machine.Spacious) {i : Instruction} {need : Need}
    (h : need? natives i = some need) : ShapesOn s need.run := by
  refine .bind (woven hp (Need.woven_refer h) s) fun ref t _ => .bind (awaitsInitialization hp _)
    fun waits u _ => ?_
  split
  · exact .of_same rfl
  · unfold need? at h
    split at h <;> cases h
    · exact woven hp (.readStatic ref) u
    · exact woven hp (.writeStatic ref) u
    · exact .bind (.lift (hp (.newObject ref))) fun _ v _ => woven hp (.push _) v
    · exact woven hp (.call ref.2) u

theorem returnValue (hp : VM.KeptByPrograms natives Machine.Spacious)
    (pop? : OperandStack → Option (α × OperandStack)) (value : α → Value) :
    ShapesOn s (returnValue pop? value) := by
  refine .bind .popFrame fun frame t _ => .bind (.inRange _) fun result u _ => .bind (.of_same rfl)
    fun thread v _ => ?_
  split
  · exact .modifyThread fun h => ⟨h.depth_le, h.frames⟩
  · exact woven hp (.push _) v

theorem execute (hp : VM.KeptByPrograms natives Machine.Spacious) (i : Instruction) :
    ShapesOn s (execute natives i) := by
  by_cases hreturns : Returns i
  · rcases execute_returns natives hreturns with ⟨h, -⟩ | ⟨_, pop?, value, h, -⟩ <;> rw [h]
    · exact .bind .popFrame fun _ _ _ => .of_same rfl
    · exact returnValue hp pop? value
  · rw [execute_eq]
    rcases hneed : need? natives (plainForm i) with _ | needed
    · exact woven hp (.perform (by simpa [Returns] using hreturns) hneed) s
    · rw [perform_need hneed]
      exact need hp hneed

/-! ### Steps -/

theorem unwind (hp : VM.KeptByPrograms natives Machine.Spacious) (exception : Address) :
    ∀ {frames : List Frame}
    {s : Running}, frames.length ≤ s.thread.maxDepth → (∀ frame ∈ frames, frame.Shaped) →
    ShapesOn s (unwind exception frames)
  | [], s, hdepth, hframes => by
    refine .bind (.modifyThread fun _ => .withFrames hdepth hframes) fun _ t _ =>
      .bind (.of_same rfl) fun m u _ => ?_
    exact .bind (.lift (hp (VM.Tame.detailMessage exception).program)) fun _ _ _ => .of_same rfl
  | frame :: callers, s, hdepth, hframes => by
    obtain ⟨hframe, hcallers⟩ := List.forall_mem_cons.mp hframes
    refine .bind (.lift (hp (VM.Tame.handler? frame exception).program)) fun found t hfound => ?_
    rw [outcome_lift] at hfound
    have hthread : t.thread = s.thread := by rw [← (Prod.mk.inj hfound).2]
    split
    · exact unwind hp exception (by rw [hthread]; exact Nat.le_of_succ_le hdepth) hcallers
    · rename_i handler
      rcases hcaught : caught? frame exception handler with _ | frame'
      · exact fun _ r t hrun hr => by cases hrun; exact hr.elim
      · have hall := List.forall_mem_cons.mpr ⟨hframe.caught hcaught, hcallers⟩
        refine .bind (.inRange _) fun _ u hframe' => .modifyThread fun _ => ?_
        cases hframe'
        exact .withFrames (by rw [hthread]; exact hdepth) hall

theorem throwFrom (hp : VM.KeptByPrograms natives Machine.Spacious) (depth : Nat)
    (exception : Address) :
    ShapesOn s (throwFrom depth exception) := fun hs => by
  refine ShapesOn.bind (.of_same rfl) (fun thread t hthread => ?_) hs
  cases hthread
  refine unwind hp exception (Nat.le_trans ?_ hs.thread.depth_le) fun frame hframe =>
    hs.thread.frames frame (List.mem_of_mem_drop hframe)
  rw [List.length_drop]
  exact Nat.sub_le _ _

theorem handle (hp : VM.KeptByPrograms natives Machine.Spacious) (depth : Nat) (fault : Fault) :
    ShapesOn s (handle depth fault) := by
  unfold Exec.handle
  split
  · refine .bind (.lift (hp (VM.Tame.throwable _ _).attempt.program)) fun made t _ => ?_
    split
    · exact throwFrom hp depth _
    · exact .of_same rfl
  · exact throwFrom hp depth _
  · exact .of_same rfl

theorem step (hp : VM.KeptByPrograms natives Machine.Spacious) : ShapesOn s (step natives) := by
  refine .bind (.onFrame fun f a f' h hf => by cases h; exact hf) fun top t _ => ?_
  refine .bind (.modifyThread fun h => ⟨h.depth_le, h.frames⟩) fun _ u _ =>
    .bind (.of_same ?_) fun read v _ => ?_
  · unfold decode
    split <;> rfl
  refine .bind (.onFrame fun f a f' h hf => ?_) fun _ w _ => .bind (.of_same rfl) fun thread x _ => ?_
  · cases h
    exact ⟨hf.locals, hf.arguments, hf.capacity, hf.tidy⟩
  refine .bind (execute hp read.1).attempt fun ended y _ => ?_
  split
  · exact .of_same rfl
  · exact handle hp _ _

theorem startCall (hp : VM.KeptByPrograms natives Machine.Spacious) (method : Method)
    (arguments : List Value) :
    ShapesOn s (startCall method arguments) := by
  refine .bind ?_ fun _ t _ => .bind (.of_same rfl) fun m u _ => ?_
  · unfold Exec.enter
    dsimp only
    split
    · exact .of_same rfl
    · rename_i hcount
      exact enter (Decidable.not_not.mp hcount)
  · split
    · exact initializeClass hp _
    · exact .of_same rfl

end ShapesOn

end Exec

/-- An act leaves a thread in shape. -/
theorem Act.shapes (hp : VM.KeptByPrograms natives Machine.Spacious) (act : Act) {s : Running} :
    Exec.ShapesOn s (act.run natives) := by
  cases act with
  | step => exact .step hp
  | call method arguments => exact .startCall hp method arguments
  | collect =>
    unfold Act.run
    exact .modifyThread fun h => ⟨h.depth_le, h.frames⟩

end JavaMachine
