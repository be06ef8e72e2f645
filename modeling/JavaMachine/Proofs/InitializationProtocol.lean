import JavaMachine.Proofs.FieldLayout
import JavaMachine.Proofs.PendingFrames

/-!
The protocol of class initialization.

When an act has to wait for a class, frames are pushed for the initializers of the class and of the
classes above it (`Act.initializers`), at most one for each class in a whole run. The frames of the
super classes are on top, so each initializer is entered when those of the super classes have
returned, or is never entered. The instruction that waits is set back, and is executed again when
all of them have returned (`Session.initialization_protocol`).
-/

namespace JavaMachine

namespace Machine

variable {m : Machine} {id k : ClassId} {depth : Nat} {ids : List ClassId}

/-! ### The order of scheduled classes -/

theorem extends_of_follows (h : Relation.TransGen m.Follows k id) : m.Extends id k := by
  induction h with
  | single hfollows => exact .super hfollows.1 (.refl _)
  | tail _ hfollows ih => exact .super hfollows.1 ih

theorem extends_of_mem_schedule (h : k ∈ m.scheduleWithin depth id) : m.Extends id k := by
  rcases follows_of_mem_schedule h with rfl | ⟨-, habove⟩
  · exact .refl _
  · exact extends_of_follows habove

/-- A class is scheduled before the classes above it. -/
theorem pairwise_schedule : ∀ (depth : Nat) (id : ClassId),
      (m.scheduleWithin depth id).Pairwise m.Extends
  | 0, _ => .nil
  | depth + 1, id => by
    have habove : ∀ k ∈ m.scheduleWithin (depth + 1) id, m.Extends id k :=
      fun k hk => extends_of_mem_schedule hk
    rw [scheduleWithin] at habove ⊢
    refine List.pairwise_cons.mpr ⟨fun k hk => habove k (List.mem_cons_of_mem _ hk), ?_⟩
    split
    · exact .nil
    · split
      · exact .nil
      · split
        · exact .nil
        · exact pairwise_schedule depth _

/-- Super chains without array classes end somewhere. -/
theorem LaidOut.acc_super (h : m.LaidOut id) (harray : m.ArrayFree id) :
    Acc (fun k id => (m.cls id).superClass = some k) id := by
  induction h with
  | array array _ =>
    rw [harray _ (.refl _)] at array
    cases array
  | after _ _ ih => exact ⟨_, fun k hk => ih k hk (harray.super hk)⟩

theorem Extends.eq_or_transGen (h : m.Extends id k) :
    k = id ∨ Relation.TransGen (fun k id => (m.cls id).superClass = some k) k id := by
  induction h with
  | refl => exact .inl rfl
  | super super _ ih =>
    rcases ih with rfl | habove
    · exact .inr (.single super)
    · exact .inr (habove.tail super)

/-- No other class is both above and below a class. -/
theorem Coherent.not_extends (hm : m.Coherent) (harray : m.ArrayFree id) (hne : k ≠ id)
    (h : m.Extends id k) :
    ¬ m.Extends k id := by
  intro hback
  have hacc : Acc (fun k id => (m.cls id).superClass = some k) id := by
    refine ⟨id, fun k hk => ?_⟩
    rcases hm.super id k hk with hlinked | ⟨hisArray, -⟩
    · exact (hm.laidOut k hlinked).acc_super (harray.super hk)
    · rw [harray _ (.refl _)] at hisArray
      cases hisArray
  have habove := h.eq_or_transGen.resolve_left hne
  have hbelow := hback.eq_or_transGen.resolve_left hne.symm
  exact not_transGen_of_acc hacc (hbelow.trans habove)

/-! ### The frames of initializers -/

theorem lt_of_initializer (h : (m.cls id).initializer?.isSome) : id.index < m.classes.size := by
  refine Nat.lt_of_not_le fun hle => ?_
  rw [cls_of_size_le hle] at h
  cases h

/-- The frames belong to the classes that have an initializer. -/
theorem Coherent.initializerFrames_owners (hm : m.Coherent) : ∀ ids : List ClassId,
    (m.initializerFrames ids).map Frame.owner =
    (ids.filter fun id => (m.cls id).initializer?.isSome).reverse
  | [] => rfl
  | id :: ids => by
    rw [initializerFrames_cons, List.map_append, hm.initializerFrames_owners ids]
    rcases hinitializer : (m.cls id).initializer? with _ | initializer
    · simp [hinitializer]
    · have howner : (Frame.start initializer).owner = id := hm.initializer_owner hinitializer
      simp [hinitializer, howner]

theorem Coherent.mem_owners (hm : m.Coherent) : k ∈ (m.initializerFrames ids).map Frame.owner ↔
    k ∈ ids ∧ (m.cls k).initializer?.isSome := by
  rw [hm.initializerFrames_owners, List.mem_reverse, List.mem_filter]

end Machine

namespace Act

variable {natives : Natives} {act : Act} {s t u : Running} {id k : ClassId} {r : Except Failure Unit}

/-- The frames that an act pushes to initialize classes, the top one first. -/
def initializers (natives : Natives) (act : Act) (s : Running) : List Frame :=
  match act.awaited? natives s with
  | none => []
  | some (id, t) =>
    let frames := (outcome (Exec.initializeClass id) t).2.thread.frames
    frames.take (frames.length - t.thread.frames.length)

theorem initializers_of_none (h : act.awaited? natives s = none) : act.initializers natives s = [] := by
  rw [initializers, h]

theorem initializers_eq {ids : List ClassId} {m : Machine} (h : act.awaited? natives s = some (id, t))
    (hbegun : outcome (Exec.initializeClass id) t =
      (r, ⟨m, { t.thread with frames := t.machine.initializerFrames ids ++ t.thread.frames }⟩)) :
    act.initializers natives s = t.machine.initializerFrames ids := by
  rw [initializers, h]
  dsimp only
  rw [hbegun]
  simp

/-- How an act begins an initialization: the state in which it does, the classes that count as
started and those among them whose frames are pushed. -/
structure Begins (natives : Natives) (act : Act) (s : Running) (id : ClassId) (t : Running)
    (r : Except Failure Unit) (marked pushed : List ClassId) : Prop where
  steady : s.machine.Steady t.machine
  awaited : act.awaited? natives s = some (id, t)
  upwards : marked <+: t.machine.schedule id
  inOrder : pushed <+: marked
  begun : outcome (Exec.initializeClass id) t = (r, ⟨t.machine.startAll marked,
    { t.thread with frames := t.machine.initializerFrames pushed ++ t.thread.frames }⟩)
  all : r = .ok ⟨⟩ ∧ pushed = t.machine.schedule id ∨ ∃ fault, r = .error (.fault fault)
  initializers : act.initializers natives s = t.machine.initializerFrames pushed

theorem begins (hnatives : natives.Orderly) (hs : s.machine.Regular)
    (h : act.awaited? natives s = some (id, t)) :
    ∃ r marked pushed, Begins natives act s id t r marked pushed := by
  obtain ⟨r, marked, pushed, hmarked, hpushed, hbegun, hall⟩ := Exec.outcome_initializeClass id t
  exact ⟨r, marked, pushed, awaited_steady hnatives hs h, h, hmarked, hpushed, hbegun, hall,
    initializers_eq h hbegun⟩

namespace Begins

variable {marked pushed : List ClassId} {rest : Except Failure Unit}

theorem mem_schedule (h : Begins natives act s id t r marked pushed) (hk : k ∈ pushed) :
    k ∈ t.machine.schedule id :=
  h.upwards.mem (h.inOrder.mem hk)

theorem nodup (h : Begins natives act s id t r marked pushed) :
    ((act.initializers natives s).map Frame.owner).Nodup := by
  have hcoherent := h.steady.regular.coherent
  have hschedule : (t.machine.schedule id).Nodup :=
    Machine.nodup_schedule (hcoherent.acc_follows (awaited_not_started h.awaited)) _
  rw [h.initializers, hcoherent.initializerFrames_owners, List.Nodup, List.pairwise_reverse]
  exact ((List.Pairwise.sublist (h.inOrder.trans h.upwards).sublist hschedule).filter _).imp Ne.symm

/-- The machine when the classes count as started goes on to what the act leaves. -/
theorem goesOn (h : Begins natives act s id t r marked pushed) (hnatives : natives.Orderly)
    (hrun : outcome (act.run natives) s = (rest, u)) (hrest : Completes rest) :
    (t.machine.startAll marked).Steady u.machine :=
  steady_begun hnatives h.steady.regular h.begun h.awaited hrun hrest

theorem evolves (h : Begins natives act s id t r marked pushed) (hnatives : natives.Orderly)
    (hrun : outcome (act.run natives) s = (rest, u)) (hrest : Completes rest) :
    t.machine.Evolves u.machine :=
  (Machine.advances_startAll marked h.steady.regular).evolves.trans
    (h.goesOn hnatives hrun hrest).evolves

/-- The classes of the frames have not started before, and have afterwards. -/
theorem starts (h : Begins natives act s id t r marked pushed) (hnatives : natives.Orderly)
    (hrun : outcome (act.run natives) s = (rest, u)) (hrest : Completes rest)
    (hk : k ∈ (act.initializers natives s).map Frame.owner) :
    (s.machine.cls k).initStarted = false ∧ (u.machine.cls k).initStarted = true := by
  rw [h.initializers, h.steady.regular.coherent.mem_owners] at hk
  have hnot := Machine.not_started_of_mem_schedule (awaited_not_started h.awaited) (h.mem_schedule hk.1)
  constructor
  · rcases hstarted : (s.machine.cls k).initStarted with _ | _
    · rfl
    · rw [h.steady.evolves.started hstarted] at hnot
      cases hnot
  · refine (h.goesOn hnatives hrun hrest).evolves.started ?_
    exact Machine.started_startAll.mpr (.inr ⟨h.inOrder.mem hk.1, Machine.lt_of_initializer hk.2⟩)

end Begins

end Act

/-- The frames that an event pushes to initialize classes, the top one first. -/
def Event.initializers (natives : Natives) (e : Event) : List Frame :=
  e.act.initializers natives e.before

/-- The event schedules the initialization of a class, with room for all its frames. -/
def Event.Schedules (natives : Natives) (e : Event) (id : ClassId) : Prop :=
  ∃ t, e.act.awaited? natives e.before = some (id, t) ∧ (outcome (Exec.initializeClass id) t).1 = .ok ⟨⟩

namespace Session

variable {natives : Natives} {directories : List Directory} {S : Session} {es : List Event} {e : Event}

/-- The protocol of class initialization, over the events of a run. -/
structure InitializationProtocol (natives : Natives) (es : List Event) : Prop where
  /-- At most one frame is pushed for each class. -/
  once : ((es.flatMap (Event.initializers natives)).map Frame.owner).Nodup
  /-- The frames are those of the initializers of the classes, before the first instruction. -/
  frames : ∀ e ∈ es, ∀ f ∈ e.initializers natives,
    f = .start f.method ∧ (e.after.machine.cls f.owner).initializer? = some f.method
  /-- An event that has to wait for no class begins no initialization. -/
  quiet : ∀ e ∈ es, e.act.awaited? natives e.before = none → e.before.machine.Quiet e.after.machine
  /-- An event that has to wait for a class begins its initialization, and that is all, unless there
  is no room. -/
  begins : ∀ e ∈ es, ∀ id t, e.act.awaited? natives e.before = some (id, t) →
    (e.result, e.after) = match outcome (Exec.initializeClass id) t with
      | (.ok _, u) => (.ok ⟨⟩, u)
      | (.error (.fault fault), u) => outcome (e.act.recover e.before.thread.depth fault) u
      | (.error failure, u) => (.error failure, u)
  /-- A step that schedules initialization leaves its frame as it was, at the start of the same
  instruction. -/
  waits : ∀ e ∈ es, ∀ id, e.act = .step → e.Schedules natives id → ∃ top callers,
    e.before.thread.frames = top :: callers ∧
      e.after.thread.frames = e.initializers natives ++ { top with pc := some top.nextPc } :: callers
  /-- When all frames above that frame have left, the last one by a plain return, the same
  instruction is executed again in the same frame. -/
  resumes : ∀ es₁ e es₂ e' es₃ id top callers, es = es₁ ++ e :: (es₂ ++ e' :: es₃) → e.act = .step →
    e.Schedules natives id → e.before.thread.frames = top :: callers → e'.index = e.index →
    (∀ x ∈ es₂, x.index = e.index → callers.length + 1 < x.before.thread.frames.length) →
    (∀ x ∈ es₂, x.index = e.index → x.after.thread.frames.length ≤ callers.length + 1 →
      x.Returns none) → e'.before.thread.frames.length ≤ callers.length + 1 →
      e'.before.thread.frames = { top with pc := some top.nextPc } :: callers ∧
        ∀ i u, Fetches e.before i u → ∃ u', Fetches e'.before i u'
  /-- No event waits for that class again. -/
  settled : ∀ es₁ e es₂ id, es = es₁ ++ e :: es₂ → e.act = .step → e.Schedules natives id →
    ∀ e' ∈ es₂, ∀ t, e'.act.awaited? natives e'.before ≠ some (id, t)
  /-- The frames are on the thread afterwards, or they have all been discarded. -/
  pushed : ∀ e ∈ es, (∃ base, e.after.thread.frames = e.initializers natives ++ base) ∨
    e.after.thread.frames.length ≤ e.before.thread.frames.length
  /-- The frames above others belong to super classes, and no super class is further down, unless an
  array class is on the chain. -/
  superFirst : ∀ e ∈ es, (e.initializers natives).Pairwise fun g f =>
    e.after.machine.Extends f.owner g.owner ∧
    (e.after.machine.ArrayFree f.owner → ¬ e.after.machine.Extends g.owner f.owner)
  /-- When a thread comes down to one of the frames it enters it, and those above it have returned;
  or it is gone, and has never been entered. -/
  entered : ∀ es₁ e es₂ e' es₃ upper f lower base, es = es₁ ++ e :: (es₂ ++ e' :: es₃) →
    e.initializers natives = upper ++ f :: lower →
    e.after.thread.frames = e.initializers natives ++ base → e'.index = e.index →
    (∀ x ∈ es₂, x.index = e.index → (f :: (lower ++ base)).length < x.before.thread.frames.length) →
    e'.before.thread.frames.length ≤ (f :: (lower ++ base)).length →
      (∃ stack, e'.before.thread.frames = { f with stack } :: (lower ++ base)) ∧
          Returned e.index es₂ upper (f :: (lower ++ base)) ∨
        e'.before.thread.frames.length ≤ base.length
  /-- If one of the frames leaves otherwise than by a return, all frames below it are gone with it. -/
  discarded : ∀ es₁ e es₂ x es₃ upper g lower base, es = es₁ ++ e :: (es₂ ++ x :: es₃) →
    e.initializers natives = upper ++ g :: lower →
    e.after.thread.frames = e.initializers natives ++ base → x.index = e.index →
    (∀ y ∈ es₂ ++ [x], y.index = e.index → (lower ++ base).length < y.before.thread.frames.length) →
    x.after.thread.frames.length ≤ (lower ++ base).length →
      (∃ result, x.Returns result) ∨ x.after.thread.frames.length ≤ base.length

namespace Run

/-- A run up to an event, the run between it and another one, and the states in between. -/
theorem between {es₁ es₂ es₃ : List Event} {e e' : Event} {S S' : Session}
    (h : Run natives S (es₁ ++ e :: (es₂ ++ e' :: es₃)) S') : ∃ S₁ S₂ S₃, Run natives S es₁ S₁ ∧
      e.before.machine = S₁.machine ∧ Run natives S₂ es₂ S₃ ∧ S₂.machine = e.after.machine ∧
      S₂.threads[e.index]? = some e.after.thread ∧ S₃.machine = e'.before.machine ∧
      S₃.threads[e'.index]? = some e'.before.thread := by
  obtain ⟨S₁, hbefore, hthread, hmachine, hafter⟩ := h.split
  obtain ⟨S₃, hbetween, hthread', hmachine', -⟩ := hafter.split
  exact ⟨S₁, _, S₃, hbefore, hmachine, hbetween, rfl,
    List.getElem?_set_self (List.getElem?_eq_some_iff.mp hthread).1, hmachine'.symm, hthread'⟩

/-- Up to an event the machine stays regular. -/
theorem regular_before (hnatives : natives.Orderly) (h : Run natives (.start directories) es S)
    (he : e ∈ es) :
    e.before.machine.Regular := by
  obtain ⟨es₁, es₂, rfl⟩ := List.append_of_mem he
  obtain ⟨S₁, hbefore, -, hmachine, -⟩ := h.split
  rw [hmachine]
  exact hbefore.regular hnatives

/-- How an event begins an initialization. -/
theorem begins (hnatives : natives.Orderly) (h : Run natives (.start directories) es S)
    (he : e ∈ es) {id : ClassId}
    {t : Running} (hawaited : e.act.awaited? natives e.before = some (id, t)) :
    ∃ r marked pushed, e.act.Begins natives e.before id t r marked pushed :=
  Act.begins hnatives (h.regular_before hnatives he) hawaited

/-! ### At most once -/

/-- The classes of the frames of an event have not started before, and have afterwards. -/
theorem starts (hnatives : natives.Orderly) (h : Run natives (.start directories) es S)
    (he : e ∈ es) {k : ClassId} (hk : k ∈ (e.initializers natives).map Frame.owner) :
    (e.before.machine.cls k).initStarted = false ∧ (e.after.machine.cls k).initStarted = true := by
  obtain ⟨hrun, hr⟩ := h.runs he
  rcases hawaited : e.act.awaited? natives e.before with _ | ⟨id, t⟩
  · rw [Event.initializers, Act.initializers_of_none hawaited] at hk
    cases hk
  · obtain ⟨r, marked, pushed, hbegins⟩ := h.begins hnatives he hawaited
    exact hbegins.starts hnatives hrun hr hk

theorem initializers_nodup (hnatives : natives.Orderly) (h : Run natives (.start directories) es S)
    (he : e ∈ es) :
    ((e.initializers natives).map Frame.owner).Nodup := by
  rcases hawaited : e.act.awaited? natives e.before with _ | ⟨id, t⟩
  · rw [Event.initializers, Act.initializers_of_none hawaited]
    exact .nil
  · obtain ⟨r, marked, pushed, hbegins⟩ := h.begins hnatives he hawaited
    exact hbegins.nodup

/-- Frames have been pushed for classes that count as started, at most one for each. By induction on
the run. -/
theorem initializers_once (hnatives : natives.Orderly) (h : Run natives (.start directories) es S) :
    ((es.flatMap (Event.initializers natives)).map Frame.owner).Nodup ∧
      ∀ k ∈ (es.flatMap (Event.initializers natives)).map Frame.owner,
        (S.machine.cls k).initStarted = true := by
  induction h with
  | start => exact ⟨.nil, fun _ hk => nomatch hk⟩
  | host before orderly runs completes ih =>
    have hevolves := ((host .start orderly runs completes).advances hnatives
      (before.regular hnatives)).evolves
    exact ⟨ih.1, fun k hk => hevolves.started (ih.2 k hk)⟩
  | thread _ _ ih => exact ih
  | @act es S' e before thread machine runs completes ih =>
    have hrun := before.act thread machine runs completes
    have he : e ∈ es ++ [e] := by simp
    have hevolves := (Act.advances hnatives (hrun.regular_before hnatives he) runs completes).evolves
    rw [machine] at hevolves
    rw [List.flatMap_append, List.map_append, List.flatMap_singleton]
    refine ⟨List.nodup_append.mpr ⟨ih.1, hrun.initializers_nodup hnatives he,
      fun k hk k' hk' heq => ?_⟩, fun k hk => ?_⟩
    · have hnot := (hrun.starts hnatives he hk').1
      rw [machine, ← heq, ih.2 k hk] at hnot
      cases hnot
    · rcases List.mem_append.mp hk with hk | hk
      · exact hevolves.started (ih.2 k hk)
      · exact (hrun.starts hnatives he hk).2

theorem initializers_frames (hnatives : natives.Orderly) (h : Run natives (.start directories) es S)
    (he : e ∈ es) {f : Frame} (hf : f ∈ e.initializers natives) :
    f = .start f.method ∧ (e.after.machine.cls f.owner).initializer? = some f.method := by
  obtain ⟨hrun, hr⟩ := h.runs he
  rcases hawaited : e.act.awaited? natives e.before with _ | ⟨id, t⟩
  · rw [Event.initializers, Act.initializers_of_none hawaited] at hf
    cases hf
  · obtain ⟨r, marked, pushed, hbegins⟩ := h.begins hnatives he hawaited
    rw [Event.initializers, hbegins.initializers] at hf
    obtain ⟨k, -, initializer, hinitializer, rfl⟩ := Machine.mem_initializerFrames.mp hf
    have howner : (Frame.start initializer).owner = k :=
      hbegins.steady.regular.coherent.initializer_owner hinitializer
    have hlt := Machine.lt_of_initializer (Option.isSome_of_eq_some hinitializer)
    refine ⟨rfl, ?_⟩
    rw [howner, ((hbegins.evolves hnatives hrun hr).later k hlt).initializer?]
    exact hinitializer

theorem initializers_pending (hnatives : natives.Orderly)
    (h : Run natives (.start directories) es S) (he : e ∈ es)
    {f : Frame} (hf : f ∈ e.initializers natives) : f.pc = none := by
  rw [(h.initializers_frames hnatives he hf).1]
  rfl

/-- The frames above others belong to super classes. -/
theorem initializers_superFirst (hnatives : natives.Orderly)
    (h : Run natives (.start directories) es S) (he : e ∈ es) :
    (e.initializers natives).Pairwise fun g f => e.after.machine.Extends f.owner g.owner ∧
      (e.after.machine.ArrayFree f.owner → ¬ e.after.machine.Extends g.owner f.owner) := by
  obtain ⟨hrun, hr⟩ := h.runs he
  rcases hawaited : e.act.awaited? natives e.before with _ | ⟨id, t⟩
  · rw [Event.initializers, Act.initializers_of_none hawaited]
    exact .nil
  · obtain ⟨r, marked, pushed, hbegins⟩ := h.begins hnatives he hawaited
    have hcoherent := hbegins.steady.regular.coherent
    have hafter := (Act.advances hnatives (h.regular_before hnatives he) hrun hr).regular.coherent
    have hevolves := hbegins.evolves hnatives hrun hr
    have hschedule := Machine.pairwise_schedule (m := t.machine) t.machine.classes.size id
    have howners : ((e.initializers natives).map Frame.owner).Pairwise fun k k' =>
        t.machine.Extends k' k := by
      rw [Event.initializers, hbegins.initializers, hcoherent.initializerFrames_owners,
        List.pairwise_reverse]
      exact (hschedule.sublist (hbegins.inOrder.trans hbegins.upwards).sublist).filter _
    have hboth := howners.and hbegins.nodup
    refine (List.pairwise_map.mp hboth).imp_of_mem fun {g f} hg hf ⟨hextends, hne⟩ => ?_
    rw [Event.initializers, hbegins.initializers] at hf
    have hlt := Machine.lt_of_initializer (hcoherent.mem_owners.mp (List.mem_map_of_mem hf)).2
    have habove := (hevolves.extends hcoherent.sound hlt).mpr hextends
    exact ⟨habove, fun harray => hafter.not_extends harray hne habove⟩

/-! ### The waiting frame -/

/-- A step that schedules initialization puts the frames on top of its own one, at the start of the
same instruction. -/
theorem step_waits (hnatives : natives.Orderly) (h : Run natives (.start directories) es S)
    (he : e ∈ es) {id : ClassId}
    (hstep : e.act = .step) (hschedules : e.Schedules natives id) : ∃ top callers,
      e.before.thread.frames = top :: callers ∧
        e.after.thread.frames =
          e.initializers natives ++ { top with pc := some top.nextPc } :: callers := by
  obtain ⟨t, hawaited, hok⟩ := hschedules
  obtain ⟨hrun, hr⟩ := h.runs he
  obtain ⟨r, marked, pushed, hbegins⟩ := h.begins hnatives he hawaited
  rw [hbegins.begun] at hok
  cases hok
  rw [Act.run_awaits hawaited, hbegins.begun] at hrun
  have hsteps := hawaited
  rw [hstep] at hsteps
  obtain ⟨top, callers, hframes, hthread⟩ := Exec.awaited_thread hsteps
  refine ⟨top, callers, hframes, ?_⟩
  rw [Event.initializers, hbegins.initializers, ← (Prod.mk.inj hrun).2, hthread]

/-- No later event waits for a class whose initialization a step has scheduled. -/
theorem not_awaited_again {es₁ es₂ : List Event} {id : ClassId} (hnatives : natives.Orderly)
    (h : Run natives (.start directories) (es₁ ++ e :: es₂) S) (hstep : e.act = .step)
    (hschedules : e.Schedules natives id)
    {e' : Event} (he' : e' ∈ es₂) (t : Running) : e'.act.awaited? natives e'.before ≠ some (id, t) := by
  intro hagain
  obtain ⟨es₂, es₃, rfl⟩ := List.append_of_mem he'
  obtain ⟨hrun, hr⟩ := h.runs (e := e) (by simp)
  have hregular := h.regular_before (e := e) hnatives (by simp)
  have hregular' := h.regular_before (e := e') hnatives (by simp)
  obtain ⟨t', hawaited, hok⟩ := hschedules
  obtain ⟨r, marked, pushed, hbegins⟩ := h.begins hnatives (by simp) hawaited
  have hid : id.index < t'.machine.classes.size := by
    rw [hstep] at hawaited
    exact (Exec.awaited_steady hnatives hregular hawaited).2
  have hstarted : (e.after.machine.cls id).initStarted = true := by
    refine (hbegins.goesOn hnatives hrun hr).evolves.started
      (Machine.started_startAll.mpr (.inr ⟨?_, hid⟩))
    rw [hbegins.begun] at hok
    rcases hbegins.all with ⟨-, hall⟩ | ⟨fault, hfault⟩
    · exact hbegins.inOrder.mem (hall ▸ Machine.mem_schedule_self hid)
    · rw [hfault] at hok
      cases hok
  obtain ⟨S₁, S₂, S₃, -, -, hbetween, hmachine, -, hmachine', -⟩ := h.between
  have hevolves := (hbetween.advances hnatives
    (hmachine ▸ (Act.advances hnatives hregular hrun hr).regular)).evolves
  rw [hmachine, hmachine'] at hevolves
  have hnot := Act.awaited_not_started hagain
  rw [(Act.awaited_steady hnatives hregular' hagain).evolves.started (hevolves.started hstarted)]
    at hnot
  cases hnot

/-- The frame that waits is on top again as it was. -/
theorem step_resumes {es₁ es₂ es₃ : List Event} {e' : Event} {id : ClassId} {top : Frame}
    {callers : List Frame}
    (hnatives : natives.Orderly)
    (h : Run natives (.start directories) (es₁ ++ e :: (es₂ ++ e' :: es₃)) S)
    (hstep : e.act = .step) (hschedules : e.Schedules natives id)
    (hframes : e.before.thread.frames = top :: callers) (hindex : e'.index = e.index)
    (habove : ∀ x ∈ es₂, x.index = e.index → callers.length + 1 < x.before.thread.frames.length)
    (hreturns : ∀ x ∈ es₂, x.index = e.index → x.after.thread.frames.length ≤ callers.length + 1 →
      x.Returns none)
    (hdown : e'.before.thread.frames.length ≤ callers.length + 1) :
    e'.before.thread.frames = { top with pc := some top.nextPc } :: callers := by
  obtain ⟨top', callers', hsame, hafter⟩ := h.step_waits hnatives (by simp) hstep hschedules
  rw [hframes] at hsame
  cases hsame
  obtain ⟨S₁, S₂, S₃, -, -, hbetween, -, hthread, -, hthread'⟩ := h.between
  obtain ⟨t, ht, above, hat⟩ := hbetween.returns_to hthread ⟨_, hafter⟩ habove hreturns
  rw [hindex, ht] at hthread'
  cases hthread'
  have hnone : above = [] := by
    rw [hat, List.length_append, List.length_cons] at hdown
    exact List.length_eq_zero_iff.mp (by omega)
  rw [hat, hnone]
  rfl

/-! ### The frames of initializers -/

/-- The frames are on the thread afterwards, or they have all been discarded. -/
theorem initializers_pushed (hnatives : natives.Orderly) (h : Run natives (.start directories) es S)
    (he : e ∈ es) :
    (∃ base, e.after.thread.frames = e.initializers natives ++ base) ∨
      e.after.thread.frames.length ≤ e.before.thread.frames.length := by
  obtain ⟨hrun, hr⟩ := h.runs he
  rcases hawaited : e.act.awaited? natives e.before with _ | ⟨id, t⟩
  · rw [Event.initializers, Act.initializers_of_none hawaited]
    exact .inl ⟨_, rfl⟩
  · obtain ⟨r, marked, pushed, hbegins⟩ := h.begins hnatives he hawaited
    rw [Event.initializers, hbegins.initializers]
    rw [Act.run_awaits hawaited, hbegins.begun] at hrun
    rcases hbegins.all with ⟨rfl, -⟩ | ⟨fault, rfl⟩
    · exact .inl ⟨_, by rw [← (Prod.mk.inj hrun).2]⟩
    · rcases hact : e.act with _ | ⟨method, arguments⟩ | _ <;> rw [hact] at hrun
      · rcases Exec.handle_frames hrun hr with hsame | hnone | ⟨frame, callers, frame',
          hsuffix, -, -, hcaught⟩
        · exact .inl ⟨_, hsame⟩
        · exact .inr (by rw [hnone]; exact Nat.zero_le _)
        · refine .inr ?_
          have hle := hsuffix.length_le
          rw [List.length_drop] at hle
          rw [hcaught]
          simp only [List.length_cons, Thread.depth] at hle ⊢
          omega
      · rw [← (Prod.mk.inj hrun).2]
        exact .inl ⟨_, rfl⟩
      · rw [hact] at hawaited
        cases hawaited

/-- A thread that comes down to one of the frames enters it, or it is gone. -/
theorem initializers_entered {es₁ es₂ es₃ : List Event} {e' : Event}
    {upper lower base : List Frame} {f : Frame}
    (hnatives : natives.Orderly)
    (h : Run natives (.start directories) (es₁ ++ e :: (es₂ ++ e' :: es₃)) S)
    (hsplit : e.initializers natives = upper ++ f :: lower)
    (hafter : e.after.thread.frames = e.initializers natives ++ base) (hindex : e'.index = e.index)
    (habove : ∀ x ∈ es₂, x.index = e.index →
      (f :: (lower ++ base)).length < x.before.thread.frames.length)
    (hdown : e'.before.thread.frames.length ≤ (f :: (lower ++ base)).length) :
    (∃ stack, e'.before.thread.frames = { f with stack } :: (lower ++ base)) ∧
        Returned e.index es₂ upper (f :: (lower ++ base)) ∨
      e'.before.thread.frames.length ≤ base.length := by
  have hpending : ∀ frame ∈ upper ++ f :: lower, frame.pc = none := fun frame hframe =>
    h.initializers_pending hnatives (e := e) (by simp) (hsplit ▸ hframe)
  rw [hsplit, List.append_assoc, List.cons_append] at hafter
  obtain ⟨S₁, S₂, S₃, -, -, hbetween, -, hthread, -, hthread'⟩ := h.between
  obtain ⟨t, ht, hentered⟩ := hbetween.entered hthread hafter hpending habove
  rw [hindex, ht] at hthread'
  cases hthread'
  exact (hentered hdown).symm

/-- A frame that leaves otherwise than by a return takes those below it with it. -/
theorem initializers_discarded {es₁ es₂ es₃ : List Event} {x : Event}
    {upper lower base : List Frame} {g : Frame}
    (hnatives : natives.Orderly)
    (h : Run natives (.start directories) (es₁ ++ e :: (es₂ ++ x :: es₃)) S)
    (hsplit : e.initializers natives = upper ++ g :: lower)
    (hafter : e.after.thread.frames = e.initializers natives ++ base) (hindex : x.index = e.index)
    (habove : ∀ y ∈ es₂ ++ [x], y.index = e.index →
      (lower ++ base).length < y.before.thread.frames.length)
    (hdown : x.after.thread.frames.length ≤ (lower ++ base).length) :
    (∃ result, x.Returns result) ∨ x.after.thread.frames.length ≤ base.length := by
  have hpending : ∀ frame ∈ lower, frame.pc = none := fun frame hframe =>
    h.initializers_pending hnatives (e := e) (by simp) (by rw [hsplit]; simp [hframe])
  have hframes : ∃ above, e.after.thread.frames = above ++ (lower ++ base) :=
    ⟨upper ++ [g], by rw [hafter, hsplit]; simp⟩
  obtain ⟨hrun, hr⟩ := h.runs (e := x) (by simp)
  obtain ⟨S₁, S₂, S₃, -, -, hbetween, -, hthread, -, hthread'⟩ := h.between
  obtain ⟨t, ht, hkept⟩ := hbetween.keeps_below hthread hframes fun y hy =>
    habove y (List.mem_append_left _ hy)
  rw [hindex, ht] at hthread'
  cases hthread'
  have hlength := habove x (by simp) hindex
  obtain ⟨above, hat⟩ := hkept hlength
  have hne : above ≠ [] := by
    rintro rfl
    rw [hat] at hlength
    exact absurd hlength (Nat.lt_irrefl _)
  obtain ⟨hstep, ⟨_, result, -, hok, hleaves, -⟩ | ⟨-, hdrops⟩⟩ := Act.falls hrun hr hat hne hdown
  · exact .inl ⟨result, hstep, hok, hleaves⟩
  · exact .inr (hdrops.length_le hpending)

end Run

/-- Every run keeps to the protocol of class initialization. -/
theorem initialization_protocol (hnatives : natives.Orderly)
    (h : Run natives (.start directories) es S) :
    InitializationProtocol natives es where
  once := (h.initializers_once hnatives).1
  frames _ he _ hf := h.initializers_frames hnatives he hf
  quiet e he hawaited := by
    obtain ⟨hrun, hr⟩ := h.runs he
    exact (Act.run_steady hnatives hawaited _ _ (h.regular_before hnatives he) hrun hr).quiet
  begins e he id t hawaited := by
    have hrun := (h.runs he).1
    rw [Act.run_awaits hawaited] at hrun
    refine hrun.symm.trans ?_
    rcases outcome (Exec.initializeClass id) t with ⟨(_ | _ | _ | _) | _, _⟩ <;> rfl
  waits _ he _ hstep hschedules := h.step_waits hnatives he hstep hschedules
  resumes := by
    rintro es₁ e es₂ e' es₃ id top callers rfl hstep hschedules hframes hindex habove hreturns hdown
    have hresumed := h.step_resumes hnatives hstep hschedules hframes hindex habove hreturns hdown
    refine ⟨hresumed, ?_⟩
    rintro i u ⟨top', callers', next, hframes', hfetch, -⟩
    rw [hframes] at hframes'
    cases hframes'
    exact ⟨_, _, callers, next, hresumed, hfetch, rfl⟩
  settled := by
    rintro es₁ e es₂ id rfl hstep hschedules e' he' t
    exact h.not_awaited_again hnatives hstep hschedules he' t
  pushed _ he := h.initializers_pushed hnatives he
  superFirst _ he := h.initializers_superFirst hnatives he
  entered := by
    rintro es₁ e es₂ e' es₃ upper f lower base rfl hsplit hafter hindex habove hdown
    exact h.initializers_entered hnatives hsplit hafter hindex habove hdown
  discarded := by
    rintro es₁ e es₂ x es₃ upper g lower base rfl hsplit hafter hindex habove hdown
    exact h.initializers_discarded hnatives hsplit hafter hindex habove hdown

/-! ### A class and its super class -/

/-- An initializer that does nothing. -/
def idleInitializer : Builder Unit :=
  Builder.addMethod ⟨AccessFlags.staticBit⟩ "<clinit>" "()V" 0 0 [0xB1] []

/-- A class with an initializer, one below it with an initializer and a method, and one that calls
the method. -/
def defineFamily : VM ClassId := do
  let _ ← VM.define (.build ClassName.object none (pure ()))
  let _ ← VM.define (.build "Base" (some ClassName.object) idleInitializer)
  let _ ← VM.define <| .build "Sub" (some "Base") do
    idleInitializer
    Builder.addMethod ⟨AccessFlags.staticBit⟩ "f" "()V" 0 0 [0xB1] []
  VM.define <| .build "Main" (some ClassName.object) do
    let index ← Builder.methodRef "Sub" "f" "()V"
    Builder.addMethod ⟨AccessFlags.staticBit⟩ "main" "()V" 0 0 [0xB8, 0, index.toUInt8, 0xB1] []

def familyMachine : Machine := (outcome defineFamily (.start [])).2

/-- The last class is called, and its first instruction calls the method. -/
def familyEvents : List Event :=
  (play .standard 0 [.call ((familyMachine.cls ⟨3⟩).methods.getD 0 default) [], .step,
    .step, .step, .step]
    ⟨familyMachine, .start 8⟩).1

theorem run_family : ∃ S, Run .standard (.start []) familyEvents S := by
  have horderly : VM.Orderly defineFamily :=
    .bind (.define _) fun _ => .bind (.define _) fun _ => .bind (.define _) fun _ => .define _
  have hdefined : Run .standard (.start []) [] { Session.start [] with machine := familyMachine } :=
    .host .start horderly rfl (by decide +kernel)
  have hcompletes : ∀ e ∈ familyEvents, Completes e.result := by decide +kernel
  exact ⟨_, Run.of_play (s := ⟨familyMachine, .start 8⟩) (hdefined.thread 8) rfl rfl hcompletes⟩

/-- The two initializers run one after the other, the one of the super class first, and the call is
executed again. -/
theorem initialization_protocol_family : InitializationProtocol .standard familyEvents ∧
    (familyEvents.flatMap (Event.initializers .standard)).map Frame.owner = [⟨1⟩, ⟨2⟩] ∧
    (familyEvents.map fun e => e.before.thread.frames.map (·.method.name)) =
      [[], ["main"], ["<clinit>", "<clinit>", "main"], ["<clinit>", "main"], ["main"]] := by
  obtain ⟨S, hrun⟩ := run_family
  exact ⟨initialization_protocol Natives.standard_orderly hrun, by decide +kernel, by decide +kernel⟩

end Session

end JavaMachine
