import JavaMachine.Proofs.Calls
import JavaMachine.Proofs.Steadiness

/-!
How the initialization of a class begins.

`Exec.awaited?` is the class that the next instruction of a thread has to wait for. If there is
none, a step begins no initialization (`step_steady`); if there is one, the step is the beginning of
its initialization (`step_awaits`). That counts the scheduled classes as started, from the class
upwards, and pushes the frames of their initializers until there is no more room
(`outcome_initializeClass`). No class is scheduled twice, and none that counts as started.
-/

namespace JavaMachine

theorem not_transGen_of_acc {α : Type} {r : α → α → Prop} {a : α} (h : Acc r a) :
    ¬ Relation.TransGen r a a := by
  have hacc : Acc (Relation.TransGen r) a := h.transGen
  induction hacc with
  | intro a _ ih => exact fun ha => ih a ha h ha

variable {natives : Natives}

/-! ### Scheduled classes -/

namespace Machine

variable {m : Machine} {id k : ClassId}

/-- The machine with classes counted as started. -/
def startAll (m : Machine) : List ClassId → Machine
  | [] => m
  | id :: ids => (m.changeClass id ({ · with initStarted := true })).startAll ids

theorem advances_startAll : ∀ (ids : List ClassId) {m : Machine}, m.Regular →
      m.Advances (m.startAll ids)
  | [], _, hm => .refl hm
  | id :: ids, m, hm => by
    obtain ⟨hregular, hevolves⟩ := hm.startInitialization id
    exact .trans ⟨hregular, hevolves⟩ (advances_startAll ids hregular)

theorem cls_startAll : ∀ (ids : List ClassId) (m : Machine) (k : ClassId),
    ∃ started, (m.startAll ids).cls k = { m.cls k with initStarted := started } ∧
      (started = true ↔ (m.cls k).initStarted = true ∨ k ∈ ids ∧ k.index < m.classes.size)
  | [], m, k => ⟨(m.cls k).initStarted, rfl, by simp⟩
  | id :: ids, m, k => by
    obtain ⟨started, hcls, hstarted⟩ :=
      cls_startAll ids (m.changeClass id ({ · with initStarted := true })) k
    refine ⟨started, hcls.trans ?_, hstarted.trans ?_⟩
    · rcases cls_changeClass m id ({ · with initStarted := true }) k with heq | ⟨rfl, heq⟩ <;> rw [heq]
    · rw [size_changeClass, List.mem_cons]
      by_cases hk : k = id
      · subst hk
        by_cases hlt : k.index < m.classes.size
        · simp [cls_changeClass_self _ hlt, hlt]
        · have hafter : (m.changeClass k ({ · with initStarted := true })).classes.size ≤ k.index := by
            rw [size_changeClass]
            exact Nat.le_of_not_lt hlt
          simp [cls_of_size_le (Nat.le_of_not_lt hlt), hlt, cls_of_size_le hafter]
      · rw [cls_changeClass_ne hk]
        simp [hk]

theorem started_startAll {ids : List ClassId} : ((m.startAll ids).cls k).initStarted = true ↔
    (m.cls k).initStarted = true ∨ k ∈ ids ∧ k.index < m.classes.size := by
  obtain ⟨started, hcls, hstarted⟩ := cls_startAll ids m k
  rw [hcls]
  exact hstarted

theorem initializer?_startAll {ids : List ClassId} :
    ((m.startAll ids).cls k).initializer? = (m.cls k).initializer? := by
  obtain ⟨started, hcls, -⟩ := cls_startAll ids m k
  rw [hcls]
  rfl

/-- The frames of the initializers of classes, pushed one after the other. -/
def initializerFrames (m : Machine) (ids : List ClassId) : List Frame :=
  (ids.filterMap fun id => (m.cls id).initializer?.map Frame.start).reverse

theorem initializerFrames_cons (m : Machine) (id : ClassId) (ids : List ClassId) :
    m.initializerFrames (id :: ids) =
      m.initializerFrames ids ++ ((m.cls id).initializer?.map Frame.start).toList := by
  rw [initializerFrames, initializerFrames, List.filterMap_cons]
  cases (m.cls id).initializer? <;> simp

theorem mem_initializerFrames {ids : List ClassId} {frame : Frame} : frame ∈ m.initializerFrames ids ↔
    ∃ id ∈ ids, ∃ initializer, (m.cls id).initializer? = some initializer ∧
      frame = .start initializer := by
  simp only [initializerFrames, List.mem_reverse, List.mem_filterMap,
    Option.map_eq_some_iff, @eq_comm _ frame]

/-- An initializer belongs to its class. -/
theorem Coherent.initializer_owner (hm : m.Coherent) {initializer : Method}
    (h : (m.cls id).initializer? = some initializer) : initializer.owner = id :=
  hm.owners id initializer (Array.mem_of_find?_eq_some (Option.filter_eq_some_iff.mp h).1)

/-- A super class that is to be initialized with the class below. -/
def Follows (m : Machine) (k id : ClassId) : Prop :=
  (m.cls id).superClass = some k ∧ (m.cls k).initStarted = false

/-- What is scheduled with a class follows it, step by step. -/
theorem follows_of_mem_schedule : ∀ {depth : Nat} {id : ClassId}, k ∈ m.scheduleWithin depth id →
    k = id ∨ (m.cls k).initStarted = false ∧ Relation.TransGen m.Follows k id
  | depth + 1, id, h => by
    rw [scheduleWithin, List.mem_cons] at h
    refine h.imp_right fun h => ?_
    split at h
    · cases h
    · split at h
      · cases h
      · rename_i superClass hsuper
        split at h
        · cases h
        · rename_i hstarted
          have hfollows : m.Follows superClass id := ⟨hsuper, by simpa using hstarted⟩
          rcases follows_of_mem_schedule h with rfl | ⟨hk, habove⟩
          · exact ⟨hfollows.2, .single hfollows⟩
          · exact ⟨hk, habove.tail hfollows⟩

/-- Only what has not started is scheduled. -/
theorem not_started_of_mem_schedule {depth : Nat} (hid : (m.cls id).initStarted = false)
    (h : k ∈ m.scheduleWithin depth id) : (m.cls k).initStarted = false := by
  rcases follows_of_mem_schedule h with rfl | ⟨hk, -⟩
  · exact hid
  · exact hk

/-- Super classes that have not started end somewhere: the fields of linked classes are laid out
from above. -/
theorem LaidOut.acc (h : m.LaidOut id) (hid : (m.cls id).initStarted = false) : Acc m.Follows id := by
  induction h with
  | array _ started => rw [hid] at started; cases started
  | @after id _ _ ih => exact ⟨id, fun k hk => ih k hk.1 hk.2⟩

theorem Coherent.acc_follows (hm : m.Coherent) (hid : (m.cls id).initStarted = false) :
    Acc m.Follows id := by
  refine ⟨id, fun k hk => ?_⟩
  rcases hm.super id k hk.1 with hlinked | ⟨-, hstarted⟩
  · exact (hm.laidOut k hlinked).acc hk.2
  · rw [hid] at hstarted; cases hstarted

/-- No class is scheduled twice. -/
theorem nodup_schedule (h : Acc m.Follows id) : ∀ depth, (m.scheduleWithin depth id).Nodup := by
  induction h with
  | intro id hacc ih =>
    rintro (_ | depth)
    · exact .nil
    · rw [scheduleWithin, List.nodup_cons]
      split
      · exact ⟨List.not_mem_nil, .nil⟩
      · split
        · exact ⟨List.not_mem_nil, .nil⟩
        · rename_i superClass hsuper
          split
          · exact ⟨List.not_mem_nil, .nil⟩
          · rename_i hstarted
            have hfollows : m.Follows superClass id := ⟨hsuper, by simpa using hstarted⟩
            refine ⟨fun hmem => not_transGen_of_acc ⟨id, hacc⟩ ?_, ih superClass hfollows depth⟩
            rcases follows_of_mem_schedule hmem with rfl | ⟨-, habove⟩
            · exact .single hfollows
            · exact habove.tail hfollows

theorem mem_schedule_self (hid : id.index < m.classes.size) : id ∈ m.schedule id := by
  unfold schedule
  rcases hsize : m.classes.size with _ | depth
  · rw [hsize] at hid
    exact absurd hid (Nat.not_lt_zero _)
  · exact List.mem_cons_self ..

end Machine

/-- The state of a thread whose top frame has been set back to the start of its instruction. -/
def Running.back (s : Running) : Running :=
  match s.thread.frames with
  | [] => s
  | top :: callers => ⟨s.machine,
      { s.thread with frames := { top with nextPc := s.thread.pc } :: callers }⟩

/-- The next instruction of a thread, and the state in which it is executed. -/
def Running.next? (s : Running) : Option (Instruction × Running) :=
  match s.thread.frames with
  | [] => none
  | top :: callers => match top.fetch with
    | .ok (i, next) => some (i, s.past top callers next)
    | .error _ => none

theorem fetches_iff {s u : Running} {i : Instruction} : Fetches s i u ↔ s.next? = some (i, u) := by
  unfold Running.next?
  constructor
  · rintro ⟨top, callers, next, hframes, hfetch, rfl⟩
    rw [hframes]
    dsimp only
    rw [hfetch]
  · intro h
    split at h
    · cases h
    · rename_i top callers hframes
      split at h
      · rename_i i' next hfetch
        cases h
        exact ⟨top, callers, next, hframes, hfetch, rfl⟩
      · cases h

namespace Exec

variable {s t u v : Running} {i : Instruction} {need : Need}

/-! ### What an instruction refers to -/

theorem LeavesThread.resolveField (i : Instruction) (isStatic : Bool) :
    LeavesThread (resolveField i isStatic) :=
  owner.bind fun _ => (poolIndex i).bind fun _ => (lift _).bind fun _ => (lift _).bind fun _ => by
    dsimp only
    split
    · exact (throw _).bind fun _ => pure _
    · exact pure _

/-- An instruction changes no frame before it knows the class that it needs. -/
theorem Need.refer_thread (h : need? natives i = some need) : LeavesThread need.refer := by
  unfold need? at h
  split at h <;> cases h
  · exact .resolveField i true
  · exact .resolveField i true
  · refine LeavesThread.owner.bind fun _ => (LeavesThread.poolIndex i).bind fun _ =>
        (LeavesThread.lift _).bind fun _ =>
      (LeavesThread.lift _).bind fun _ => ?_
    dsimp only
    split
    · exact (LeavesThread.throw _).bind fun _ => .pure _
    · exact .pure _
  · refine (LeavesThread.resolveMethod i).bind fun _ => ?_
    dsimp only
    split
    · exact (LeavesThread.lift _).bind fun _ => (LeavesThread.throw _).bind fun _ => .pure _
    · exact .pure _

/-- The class of the top frame and the pool index among the operands are only read. -/
theorem outcome_poolIndex_ok {α : Type} {f : ClassId → UInt16 → Exec α} {a : α}
    (hrun : outcome (do let owner ← owner; let index ← poolIndex i; f owner index) s = (.ok a, t)) :
    ∃ owner index, outcome (f owner index) s = (.ok a, t) := by
  obtain ⟨owner, s₁, howner, hrun⟩ := outcome_bind_ok.mp hrun
  obtain ⟨index, s₂, hindex, hrun⟩ := outcome_bind_ok.mp hrun
  have hsame₁ : s₁ = s := by
    obtain ⟨top, s₀, hframe, howner⟩ := outcome_bind_ok.mp howner
    cases howner
    rcases hframes : s.thread.frames with _ | ⟨first, callers⟩
    · rw [frame, outcome_onFrame, hframes] at hframe
      cases hframe
    · rw [outcome_frame hframes] at hframe
      cases hframe
      rfl
  have hsame₂ : s₂ = s₁ := by
    unfold poolIndex operand at hindex
    split at hindex <;> cases hindex
    rfl
  rw [hsame₂, hsame₁] at hrun
  exact ⟨owner, index, hrun⟩

/-- A step on the machine. -/
theorem outcome_lift_ok {α : Type} {x : VM α} {a : α} (h : outcome (liftM x : Exec α) s = (.ok a, t)) :
    outcome x s.machine = (.ok a, t.machine) := by
  rw [outcome_lift] at h
  cases hx : outcome x s.machine
  rw [hx] at h
  cases h
  rfl

/-- A class that an instruction needs is there. -/
theorem Need.owner_lt (h : need? natives i = some need) (hs : s.machine.Regular) {ref : need.Ref}
    (hrun : outcome need.refer s = (.ok ref, t)) : (need.owner ref).index < t.machine.classes.size := by
  have hfield : ∀ {field : FieldId}, outcome (resolveField i true) s = (.ok field, t) →
      field.owner.index < t.machine.classes.size := by
    intro field hrun
    obtain ⟨owner, index, hrun⟩ := outcome_poolIndex_ok hrun
    obtain ⟨found, u, hresolve, hrun⟩ := outcome_bind_ok.mp hrun
    have hlt := (VM.resolveField_steady hs owner index).gives _ _ hs (outcome_lift_ok hresolve)
    rw [outcome_bind_of_ok outcome_machine] at hrun
    dsimp only at hrun
    split at hrun <;> cases hrun
    exact hlt
  unfold need? at h
  split at h <;> cases h
  · exact hfield hrun
  · exact hfield hrun
  · obtain ⟨owner, index, hrun⟩ := outcome_poolIndex_ok hrun
    obtain ⟨found, u, hresolve, hrun⟩ := outcome_bind_ok.mp hrun
    have hlt := (VM.resolveClass_steady hs owner index).gives _ _ hs (outcome_lift_ok hresolve)
    rw [outcome_bind_of_ok outcome_machine] at hrun
    dsimp only at hrun
    split at hrun <;> cases hrun
    exact hlt
  · obtain ⟨⟨named, method⟩, u, hresolve, hrun⟩ := outcome_bind_ok.mp hrun
    obtain ⟨owner, index, hresolve⟩ := outcome_poolIndex_ok hresolve
    have hlt := (VM.resolveMethod_steady hs owner index).gives _ _ hs (outcome_lift_ok hresolve)
    dsimp only at hrun
    split at hrun
    · rw [outcome_bind_of_ok outcome_machine] at hrun
      cases hrun
    · cases hrun
      exact hlt

/-! ### Beginning an initialization -/

theorem outcome_startInitialization (id : ClassId) : outcome (startInitialization id) s =
    match (s.machine.cls id).initializer? with
    | none => (.ok ⟨⟩, ⟨s.machine.startAll [id], s.thread⟩)
    | some initializer => outcome (pushFrame (.start initializer))
        ⟨s.machine.startAll [id], s.thread⟩ := by
  have hmarked : outcome (liftM (VM.modifyClass id ({ · with initStarted := true })) : Exec Unit) s =
      (.ok ⟨⟩, ⟨s.machine.startAll [id], s.thread⟩) := rfl
  unfold startInitialization
  rw [outcome_bind_of_ok hmarked, outcome_bind_of_ok outcome_machine]
  dsimp only
  rw [Machine.initializer?_startAll]
  cases (s.machine.cls id).initializer? <;> rfl

/-- Classes are counted as started one after the other and the frames of their initializers are
pushed, until there is no more room. -/
theorem outcome_startInitializations : ∀ (ids : List ClassId) (s : Running), ∃ r done pushed,
    done <+: ids ∧ pushed <+: done ∧
      outcome (ids.forM startInitialization) s = (r, ⟨s.machine.startAll done,
      { s.thread with frames := s.machine.initializerFrames pushed ++ s.thread.frames }⟩) ∧
    (r = .ok ⟨⟩ ∧ pushed = ids ∨ ∃ fault, r = .error (.fault fault))
  | [], s => ⟨.ok ⟨⟩, [], [], List.prefix_rfl, List.prefix_rfl, rfl, .inl ⟨rfl, rfl⟩⟩
  | id :: ids, s => by
    have hrest : ∀ frames : List Frame, outcome (startInitialization id) s =
        (.ok ⟨⟩, ⟨s.machine.startAll [id], { s.thread with frames := frames ++ s.thread.frames }⟩) →
        frames = ((s.machine.cls id).initializer?.map Frame.start).toList →
        ∃ r done pushed, done <+: id :: ids ∧ pushed <+: done ∧
          outcome ((id :: ids).forM startInitialization) s = (r, ⟨s.machine.startAll done,
            { s.thread with frames := s.machine.initializerFrames pushed ++ s.thread.frames }⟩) ∧
          (r = .ok ⟨⟩ ∧ pushed = id :: ids ∨ ∃ fault, r = .error (.fault fault)) := by
      intro frames hfirst hframes
      obtain ⟨r, done, pushed, hdone, hpushed, hrun, hr⟩ := outcome_startInitializations ids
        ⟨s.machine.startAll [id], { s.thread with frames := frames ++ s.thread.frames }⟩
      refine ⟨r, id :: done, id :: pushed, ?_, ?_, ?_, ?_⟩
      · exact (List.prefix_cons_inj id).mpr hdone
      · exact (List.prefix_cons_inj id).mpr hpushed
      · have hsame : (s.machine.startAll [id]).initializerFrames pushed =
            s.machine.initializerFrames pushed := by
          simp only [Machine.initializerFrames, Machine.initializer?_startAll]
        rw [List.forM, outcome_bind_of_ok hfirst, hrun, hsame, Machine.initializerFrames_cons,
          hframes, List.append_assoc]
        rfl
      · exact hr.imp_left fun hdone => ⟨hdone.1, congrArg (id :: ·) hdone.2⟩
    have hstart := outcome_startInitialization (s := s) id
    rcases hinitializer : (s.machine.cls id).initializer? with _ | initializer <;>
      rw [hinitializer] at hstart hrest
    · exact hrest [] hstart rfl
    · dsimp only at hstart
      rw [outcome_pushFrame] at hstart
      split at hstart
      · have hfull := outcome_bind_of_error (f := fun _ => ids.forM startInitialization) hstart
        exact ⟨_, [id], [], (List.prefix_cons_inj id).mpr (List.nil_prefix ..), List.nil_prefix ..,
          hfull, .inr ⟨_, rfl⟩⟩
      · exact hrest [.start initializer] hstart rfl

/-- How the initialization of a class begins, whether there is room for all initializers or not. -/
theorem outcome_initializeClass (id : ClassId) (s : Running) : ∃ r done pushed,
    done <+: s.machine.schedule id ∧ pushed <+: done ∧
      outcome (initializeClass id) s = (r, ⟨s.machine.startAll done,
      { s.thread with frames := s.machine.initializerFrames pushed ++ s.thread.frames }⟩) ∧
    (r = .ok ⟨⟩ ∧ pushed = s.machine.schedule id ∨ ∃ fault, r = .error (.fault fault)) :=
  outcome_startInitializations (s.machine.schedule id) s

/-! ### Waiting for a class -/

/-- The class that the next instruction of a thread needs, and the state in which it is known. -/
def needed? (natives : Natives) (s : Running) : Option (ClassId × Running) :=
  match s.next? with
  | none => none
  | some (i, u) => match need? natives (plainForm i) with
    | none => none
    | some need => match outcome need.refer u with
      | (.ok ref, v) => some (need.owner ref, v)
      | (.error _, _) => none

theorem needed?_eq_some {id : ClassId} : needed? natives s = some (id, v) ↔
      ∃ i u need ref, Fetches s i u ∧
    need? natives (plainForm i) = some need ∧ outcome need.refer u = (.ok ref, v) ∧
      id = need.owner ref := by
  unfold needed?
  constructor
  · intro h
    split at h
    · cases h
    · rename_i i u hnext
      split at h
      · cases h
      · rename_i need hneed
        split at h
        · rename_i ref w hrefer
          cases h
          exact ⟨i, u, need, ref, fetches_iff.mpr hnext, hneed, hrefer, rfl⟩
        · cases h
  · rintro ⟨i, u, need, ref, hfetch, hneed, hrefer, rfl⟩
    rw [fetches_iff.mp hfetch]
    dsimp only
    rw [hneed]
    dsimp only
    rw [hrefer]

/-- The class that the next instruction of a thread has to wait for, and the state in which its
initialization begins. -/
def awaited? (natives : Natives) (s : Running) : Option (ClassId × Running) :=
  match needed? natives s with
  | none => none
  | some (id, v) => if (v.machine.cls id).initStarted then none else some (id, v.back)

theorem awaited?_eq_some {id : ClassId} : awaited? natives s = some (id, t) ↔
      ∃ i u need ref v, Fetches s i u ∧
    need? natives (plainForm i) = some need ∧ outcome need.refer u = (.ok ref, v) ∧
    (v.machine.cls (need.owner ref)).initStarted = false ∧ id = need.owner ref ∧ t = v.back := by
  unfold awaited?
  constructor
  · intro h
    split at h
    · cases h
    · rename_i id' v hneeded
      obtain ⟨i, u, need, ref, hfetch, hneed, hrefer, rfl⟩ := needed?_eq_some.mp hneeded
      split at h
      · cases h
      · rename_i hstarted
        cases h
        exact ⟨i, u, need, ref, v, hfetch, hneed, hrefer, by simpa using hstarted, rfl, rfl⟩
  · rintro ⟨i, u, need, ref, v, hfetch, hneed, hrefer, hstarted, rfl, rfl⟩
    rw [needed?_eq_some.mpr ⟨i, u, need, ref, hfetch, hneed, hrefer, rfl⟩]
    simp [hstarted]

theorem outcome_awaitsInitialization_started {id : ClassId}
    (h : (s.machine.cls id).initStarted = true) :
    outcome (awaitsInitialization id) s = (.ok false, s) := by
  unfold awaitsInitialization
  rw [outcome_bind_of_ok outcome_machine, h]
  rfl

theorem outcome_awaitsInitialization {id : ClassId} {top : Frame} {callers : List Frame}
    (h : (s.machine.cls id).initStarted = false) (hframes : s.thread.frames = top :: callers) :
    outcome (awaitsInitialization id) s = match outcome (initializeClass id) s.back with
      | (.ok _, t) => (.ok true, t)
      | (.error e, t) => (.error e, t) := by
  have hback : outcome (modifyFrame ({ · with nextPc := s.thread.pc })) s = (.ok ⟨⟩, s.back) := by
    rw [modifyFrame, outcome_onFrame, Running.back, hframes]
  unfold awaitsInitialization
  rw [outcome_bind_of_ok outcome_machine, h]
  dsimp only
  rw [if_neg Bool.false_ne_true, outcome_bind_of_ok outcome_thread,
    outcome_bind_of_ok hback, outcome_bind]
  rcases outcome (initializeClass id) s.back with ⟨_ | _, _⟩ <;> rfl

/-- The state in which an initialization begins: the top frame is at the instruction that waits, and
goes on there. -/
theorem awaited_thread {id : ClassId} (h : awaited? natives s = some (id, t)) : ∃ top callers,
    s.thread.frames = top :: callers ∧
      t.thread = { s.thread with pc := top.nextPc, frames :=
        { top with pc := some top.nextPc } :: callers } := by
  obtain ⟨i, u, need, ref, v, ⟨top, callers, next, hframes, -, rfl⟩, hneed, hrefer, -, -, rfl⟩ :=
    awaited?_eq_some.mp h
  have hsame := Need.refer_thread hneed (s.past top callers next)
  rw [hrefer] at hsame
  refine ⟨top, callers, hframes, ?_⟩
  rw [Running.back, hsame]
  rfl

theorem awaited_not_started {id : ClassId} (h : awaited? natives s = some (id, t)) :
    (t.machine.cls id).initStarted = false := by
  obtain ⟨i, u, need, ref, v, -, -, -, hstarted, rfl, rfl⟩ := awaited?_eq_some.mp h
  rw [show v.back.machine = v.machine by unfold Running.back; split <;> rfl]
  exact hstarted

/-- Up to the beginning of an initialization a step is steady, and the class is there. -/
theorem awaited_steady {id : ClassId} (hnatives : natives.Orderly) (hs : s.machine.Regular)
    (h : awaited? natives s = some (id, t)) : s.machine.Steady t.machine ∧
      id.index < t.machine.classes.size := by
  obtain ⟨i, u, need, ref, v, ⟨top, callers, next, hframes, -, rfl⟩, hneed, hrefer, -, rfl, rfl⟩ :=
    awaited?_eq_some.mp h
  rw [show v.back.machine = v.machine by unfold Running.back; split <;> rfl]
  exact ⟨SteadyOn.refer (s := s.past top callers next) hnatives hneed _ _ hs hrefer trivial,
    Need.owner_lt (s := s.past top callers next) hneed hs hrefer⟩

/-- An instruction that has to wait for a class is the beginning of its initialization. -/
theorem execute_awaits {id : ClassId} (h : awaited? natives s = some (id, t)) : ∃ i u, Fetches s i u ∧
    outcome (execute natives i) u = match outcome (initializeClass id) t with
      | (.ok _, w) => (.ok ⟨⟩, w)
      | (.error e, w) => (.error e, w) := by
  obtain ⟨i, u, need, ref, v, hfetch, hneed, hrefer, hstarted, rfl, rfl⟩ := awaited?_eq_some.mp h
  refine ⟨i, u, hfetch, ?_⟩
  obtain ⟨top, callers, next, -, -, rfl⟩ := hfetch
  have hsame := Need.refer_thread hneed (s.past top callers next)
  rw [hrefer] at hsame
  have hthread : v.thread.frames = top.past next :: callers := by rw [hsame]; rfl
  rw [execute_eq, perform_need hneed]
  unfold Need.run
  rw [outcome_bind_of_ok hrefer, outcome_bind, outcome_awaitsInitialization hstarted hthread]
  rcases outcome (initializeClass (need.owner ref)) v.back with ⟨_ | _, _⟩ <;> rfl

/-- A step that has to wait for a class is the beginning of its initialization. -/
theorem step_awaits {id : ClassId} (h : awaited? natives s = some (id, t)) :
    outcome (step natives) s = match outcome (initializeClass id) t with
      | (.ok _, u) => (.ok ⟨⟩, u)
      | (.error (.fault fault), u) => outcome (handle s.thread.depth fault) u
      | (.error e, u) => (.error e, u) := by
  obtain ⟨i, u, hfetch, hexecute⟩ := execute_awaits h
  rw [outcome_step hfetch, hexecute]
  rcases outcome (initializeClass id) t with ⟨(_ | _ | _ | _) | _, _⟩ <;> rfl

/-- A step that has not to wait for a class begins no initialization. -/
theorem step_steady (hnatives : natives.Orderly) (h : awaited? natives s = none) :
    SteadyOn s (step natives) := by
  intro r t hs hrun hr
  rcases fetches_or_fails natives s with ⟨i, u, hfetch⟩ | ⟨fault, t', hstep, hsame, -⟩
  · have hu : u.machine = s.machine := by
      obtain ⟨top, callers, next, -, -, rfl⟩ := hfetch
      rfl
    have hexecute : SteadyOn u (execute natives i) := by
      rcases hneed : need? natives (plainForm i) with _ | need
      · exact .execute hnatives hneed
      · rw [execute_eq, perform_need hneed]
        refine (SteadyOn.refer hnatives hneed).bind fun ref v _ hrefer => ?_
        have hstarted : (v.machine.cls (need.owner ref)).initStarted = true := by
          rcases hstarted : (v.machine.cls (need.owner ref)).initStarted with _ | _
          · have hsome := awaited?_eq_some.mpr ⟨i, u, need, ref, v, hfetch, hneed, hrefer,
              hstarted, rfl, rfl⟩
            rw [h] at hsome
            cases hsome
          · rfl
        refine .bind (.of_same (by rw [outcome_awaitsInitialization_started hstarted]))
          fun waits w _ hwaits => ?_
        rw [outcome_awaitsInitialization_started hstarted] at hwaits
        cases hwaits
        exact .use hnatives hneed hstarted
    obtain ⟨fault, w, hdone, hrun⟩ | ⟨hdone, -⟩ := outcome_step_completes hfetch hrun hr
    · have hw := hexecute _ _ (hu ▸ hs) hdone trivial
      rw [hu] at hw
      exact hw.trans (SteadyOn.handle hnatives _ _ _ _ hw.regular hrun hr)
    · have hw := hexecute _ _ (hu ▸ hs) hdone trivial
      rwa [hu] at hw
  · rw [hstep] at hrun
    cases hrun
    rw [hsame]
    exact .refl hs

end Exec

end JavaMachine
