import JavaMachine.Proofs.Initializing
import JavaMachine.Proofs.Invariants

/-!
Sessions: what a host does with a machine and its threads.

A host loads and defines classes, makes threads, calls methods on them and steps them, in any order.
A call from outside is its beginning, which enters the method, and the steps that follow until no
frame is left (`Run.invoke`). Every act of a thread is recorded as an event. On the way the machine
stays regular and only evolves (`Run.advances`).
-/

namespace JavaMachine

namespace Exec

/-- Enters a method from outside. -/
def enter (method : Method) (arguments : List Value) : Exec Unit := do
  let slots := arguments.flatMap Value.slots
  if slots.length ≠ method.argumentSlots then
    let text := (← machine).methodText method
    fail (.internal (.argumentSlots text method.argumentSlots slots.length))
  pushFrame (← VM.inRange (Frame.enter? method slots))

/-- The beginning of a call from outside. -/
def startCall (method : Method) (arguments : List Value) : Exec Unit := do
  enter method arguments
  if !((← machine).cls method.owner).initStarted then initializeClass method.owner

/-- A call of a method with code is its beginning, and the run that follows. -/
theorem invoke_eq {natives : Natives} {fuel : Nat} {method : Method} {arguments : List Value}
    (h : method.flags.isNative = false) :
    invoke natives fuel method arguments = (do startCall method arguments; finish natives fuel) := by
  unfold invoke startCall enter
  simp only [h, bind_assoc]
  split
  · simp only [bind_assoc]
    rfl
  · simp only [bind_assoc]
    refine congrArg (_ >>= ·) (funext fun frame => congrArg (pushFrame frame >>= ·)
      (funext fun _ => ?_))
    refine congrArg (machine >>= ·) (funext fun m => ?_)
    split <;> simp

/-- A call from outside puts a frame for the method on top, or it fails at once. -/
theorem outcome_enter (method : Method) (arguments : List Value) (s : Running) :
    (∃ frame, frame.Fresh ∧ frame.method = method ∧ outcome (enter method arguments) s =
      (.ok ⟨⟩, ⟨s.machine, { s.thread with frames := frame :: s.thread.frames }⟩)) ∨
    ∃ e, outcome (enter method arguments) s = (.error e, s) := by
  unfold enter
  dsimp only
  split
  · exact .inr ⟨_, rfl⟩
  · rcases hframe : Frame.enter? method (arguments.flatMap Value.slots) with _ | frame
    · exact .inr ⟨_, rfl⟩
    · have hpush := @outcome_pushFrame s frame
      obtain ⟨hfresh, hmethod⟩ := Frame.fresh_enter? hframe
      split at hpush
      · exact .inr ⟨_, hpush⟩
      · exact .inl ⟨frame, hfresh, hmethod, hpush⟩

theorem enter_machine (method : Method) (arguments : List Value) (s : Running) :
    (outcome (enter method arguments) s).2.machine = s.machine := by
  rcases outcome_enter method arguments s with ⟨frame, -, -, h⟩ | ⟨e, h⟩ <;> rw [h]

/-- A call of a native method is refused at once, or it is a step on the machine. -/
theorem outcome_invoke_native {natives : Natives} {fuel : Nat} {method : Method}
    {arguments : List Value} (h : method.flags.isNative = true) (s : Running) :
    (∃ fault, outcome (invoke natives fuel method arguments) s = (.error (.fault fault), s)) ∨
      outcome (invoke natives fuel method arguments) s =
        outcome (liftM (invokeNative natives method (arguments.flatMap Value.slots)) : Exec
          (Option Value)) s := by
  unfold invoke
  dsimp only
  split
  · exact .inl ⟨_, rfl⟩
  · exact .inr rfl

end Exec

/-- What a host does with a thread. -/
inductive Act where
  | step
  | call (method : Method) (arguments : List Value)
  /-- The result of a thread without frames is taken. -/
  | collect

namespace Act

variable {natives : Natives}

def run (natives : Natives) : Act → Exec Unit
  | step => Exec.step natives
  | call method arguments => Exec.startCall method arguments
  | collect => Exec.modifyThread ({ · with returnValue := none })

/-- The class whose initialization an act begins, and the state in which it does. -/
def awaited? (natives : Natives) : Act → Running → Option (ClassId × Running)
  | step, s => Exec.awaited? natives s
  | call method arguments, s => match outcome (Exec.enter method arguments) s with
    | (.ok _, t) => if (t.machine.cls method.owner).initStarted then none else some (method.owner, t)
    | (.error _, _) => none
  | collect, _ => none

/-- What becomes of a fault: a step throws it to the frames of the thread, a call gives it back. -/
def recover (depth : Nat) (fault : Fault) : Act → Exec Unit
  | step => Exec.handle depth fault
  | call _ _ | collect => Exec.fail fault

variable {act : Act} {s t : Running} {id : ClassId}

theorem awaited?_call {method : Method} {arguments : List Value} :
    (call method arguments).awaited? natives s = some (id, t) ↔
    outcome (Exec.enter method arguments) s = (.ok ⟨⟩, t) ∧
      (t.machine.cls id).initStarted = false ∧ id = method.owner := by
  rw [awaited?]
  constructor
  · intro h
    split at h
    · rename_i u henter
      split at h
      · cases h
      · rename_i hstarted
        cases h
        exact ⟨henter, by simpa using hstarted, rfl⟩
    · cases h
  · rintro ⟨henter, hstarted, rfl⟩
    rw [henter]
    simp [hstarted]

/-- An act that has to wait for a class is the beginning of its initialization. -/
theorem run_awaits (h : act.awaited? natives s = some (id, t)) :
    outcome (act.run natives) s = match outcome (Exec.initializeClass id) t with
      | (.ok _, u) => (.ok ⟨⟩, u)
      | (.error (.fault fault), u) => outcome (act.recover s.thread.depth fault) u
      | (.error e, u) => (.error e, u) := by
  cases act with
  | step => exact Exec.step_awaits h
  | collect => cases h
  | call method arguments =>
    obtain ⟨henter, hstarted, rfl⟩ := awaited?_call.mp h
    change outcome (Exec.startCall method arguments) s = _
    unfold Exec.startCall
    rw [outcome_bind_of_ok henter, outcome_bind_of_ok Exec.outcome_machine,
      if_pos (by simpa using hstarted)]
    rcases outcome (Exec.initializeClass method.owner) t with ⟨(_ | _ | _ | _) | _, _⟩ <;> rfl

theorem awaited_not_started (h : act.awaited? natives s = some (id, t)) :
    (t.machine.cls id).initStarted = false := by
  cases act with
  | step => exact Exec.awaited_not_started h
  | collect => cases h
  | call method arguments =>
    exact (awaited?_call.mp h).2.1

/-- Up to the beginning of an initialization an act is steady. -/
theorem awaited_steady (hnatives : natives.Orderly) (hs : s.machine.Regular)
    (h : act.awaited? natives s = some (id, t)) : s.machine.Steady t.machine := by
  cases act with
  | step => exact (Exec.awaited_steady hnatives hs h).1
  | collect => cases h
  | call method arguments =>
    obtain ⟨henter, -, rfl⟩ := awaited?_call.mp h
    have hmachine := Exec.enter_machine method arguments s
    rw [henter] at hmachine
    rw [hmachine]
    exact .refl hs

theorem recover_steady (hnatives : natives.Orderly) (depth : Nat) (fault : Fault) :
    Exec.SteadyOn s (act.recover depth fault) := by
  cases act with
  | step => exact .handle hnatives depth fault
  | call _ _ | collect => exact .throw _

/-- An act that has not to wait for a class begins no initialization. -/
theorem run_steady (hnatives : natives.Orderly) (h : act.awaited? natives s = none) :
    Exec.SteadyOn s (act.run natives) := by
  cases act with
  | step => exact Exec.step_steady hnatives h
  | collect => exact .of_same rfl
  | call method arguments =>
    refine .bind (.of_same (Exec.enter_machine method arguments s)) fun _ t _ henter => ?_
    refine .bind .machine fun m u _ hu => ?_
    cases hu
    rcases hstarted : (t.machine.cls method.owner).initStarted with _ | _
    · rw [awaited?_call.mpr ⟨henter, hstarted, rfl⟩] at h
      cases h
    · exact .pure _

/-- After the beginning of an initialization the rest of an act is steady. -/
theorem steady_begun (hnatives : natives.Orderly) {ids : List ClassId} {frames : List Frame}
    {r r' : Except Failure Unit} {u : Running} (ht : t.machine.Regular)
    (hbegun : outcome (Exec.initializeClass id) t =
      (r', ⟨t.machine.startAll ids, { t.thread with frames }⟩))
    (hawaited : act.awaited? natives s = some (id, t)) (hrun : outcome (act.run natives) s = (r, u))
    (hr : Completes r) :
    (t.machine.startAll ids).Steady u.machine := by
  have hids := Machine.advances_startAll ids ht
  rw [run_awaits hawaited, hbegun] at hrun
  rcases r' with (fault | _ | _ | _) | _
  · exact recover_steady hnatives _ _ _ _ hids.regular hrun hr
  · cases hrun
    exact hr.elim
  · cases hrun
    exact hr.elim
  · cases hrun
    exact hr.elim
  · cases hrun
    exact .refl hids.regular

/-- Whatever an act does, the machine stays regular and evolves. -/
theorem advances (hnatives : natives.Orderly) (hs : s.machine.Regular) {r : Except Failure Unit}
    (hrun : outcome (act.run natives) s = (r, t)) (hr : Completes r) :
    s.machine.Advances t.machine := by
  rcases hawaited : act.awaited? natives s with _ | ⟨id, v⟩
  · exact (run_steady hnatives hawaited _ _ hs hrun hr).toAdvances
  · have hv := awaited_steady hnatives hs hawaited
    obtain ⟨r', done, pushed, -, -, hbegun, -⟩ := Exec.outcome_initializeClass id v
    exact hv.toAdvances.trans ((Machine.advances_startAll done hv.regular).trans
      (steady_begun hnatives hv.regular hbegun hawaited hrun hr).toAdvances)

/-- An act keeps what programs keep. -/
theorem keeps {p : Machine → Prop} (hp : VM.KeptByPrograms natives p) (act : Act) :
    Exec.Keeps p (act.run natives) := by
  cases act with
  | step => exact .step hp
  | collect => exact .of_same fun _ => rfl
  | call method arguments =>
    refine .bind (.of_same (Exec.enter_machine method arguments)) fun _ =>
      .bind (.lift (hp .get)) fun m => ?_
    split
    · exact .plain hp (.initializeClass _)
    · exact .pure _

end Act

/-! ### Runs -/

/-- A machine, and the threads that take turns on it. -/
structure Session where
  machine : Machine
  threads : List Thread

/-- An act of a thread: the state that it finds, how it ends and the state that it leaves. -/
structure Event where
  index : Nat
  act : Act
  before : Running
  result : Except Failure Unit
  after : Running

namespace Session

/-- A machine on which nothing has been loaded, and no threads. -/
def start (directories : List Directory) : Session := ⟨.start directories, []⟩

/-- What a host does, with the events on the way. -/
inductive Run (natives : Natives) (S : Session) : List Event → Session → Prop where
  | start : Run natives S [] S
  | host {es : List Event} {S' : Session} {α : Type} {x : VM α} {r : Except Failure α} {m : Machine}
      (before : Run natives S es S') (orderly : VM.Orderly x) (runs : outcome x S'.machine = (r, m))
      (completes : Completes r) : Run natives S es { S' with machine := m }
  | thread {es : List Event} {S' : Session} (before : Run natives S es S') (maxDepth : Nat) :
      Run natives S es { S' with threads := S'.threads ++ [.start maxDepth] }
  | act {es : List Event} {S' : Session} {e : Event} (before : Run natives S es S')
      (thread : S'.threads[e.index]? = some e.before.thread) (machine : e.before.machine = S'.machine)
      (runs : outcome (e.act.run natives) e.before = (e.result, e.after))
      (completes : Completes e.result) :
      Run natives S (es ++ [e]) ⟨e.after.machine, S'.threads.set e.index e.after.thread⟩

/-- The events of acts of one thread, and the state afterwards. -/
def play (natives : Natives) (k : Nat) : List Act → Running → List Event × Running
  | [], s => ([], s)
  | act :: acts, s =>
    let done := outcome (act.run natives) s
    let (es, t) := play natives k acts done.2
    (⟨k, act, s, done.1, done.2⟩ :: es, t)

variable {natives : Natives} {S S' S'' : Session} {es es' : List Event}

/-- The steps until no frame is left are acts one after the other. -/
theorem finish_plays (k : Nat) {r : Except Failure (Option Value)} {t : Running} :
    ∀ {fuel : Nat} {s : Running}, outcome (Exec.finish natives fuel) s = (r, t) → Completes r →
      ∃ acts : List Act, (∀ act ∈ acts, act = .step ∨ act = .collect) ∧ (play natives k acts s).2 = t ∧
        ∀ e ∈ (play natives k acts s).1, Completes e.result
  | 0, _, hrun, hr => by
    cases hrun
    exact hr.elim
  | fuel + 1, s, hrun, hr => by
    unfold Exec.finish at hrun
    rw [outcome_bind_of_ok Exec.outcome_thread] at hrun
    split at hrun
    · cases hrun
      exact ⟨[.collect], by simp, rfl, List.forall_mem_singleton.mpr trivial⟩
    · obtain ⟨fault, hstep, rfl⟩ | ⟨_, v, hstep, hrun⟩ := outcome_bind_completes hrun hr
      · refine ⟨[.step], by simp, ?_⟩
        simp only [play, Act.run, hstep, List.forall_mem_singleton]
        exact ⟨trivial, trivial⟩
      · obtain ⟨acts, hplain, hend, hacts⟩ := finish_plays k hrun hr
        refine ⟨.step :: acts, List.forall_mem_cons.mpr ⟨.inl rfl, hplain⟩, ?_⟩
        simp only [play, Act.run, hstep, List.forall_mem_cons]
        exact ⟨hend, trivial, hacts⟩

/-- A call of a method with code is the beginning of the call, and the steps that follow. -/
theorem invoke_plays (k : Nat) {fuel : Nat} {method : Method} {arguments : List Value} {s t : Running}
    {r : Except Failure (Option Value)} (hcode : method.flags.isNative = false)
    (hrun : outcome (Exec.invoke natives fuel method arguments) s = (r, t)) (hr : Completes r) :
    ∃ acts : List Act, (∀ act ∈ acts, act = .step ∨ act = .collect) ∧
      (play natives k (.call method arguments :: acts) s).2 = t ∧
        ∀ e ∈ (play natives k (.call method arguments :: acts) s).1, Completes e.result := by
  rw [Exec.invoke_eq hcode] at hrun
  obtain ⟨fault, hstart, rfl⟩ | ⟨_, v, hstart, hrun⟩ := outcome_bind_completes hrun hr
  · refine ⟨[], by simp, ?_⟩
    simp only [play, Act.run, hstart, List.forall_mem_singleton]
    exact ⟨trivial, trivial⟩
  · obtain ⟨acts, hplain, hend, hacts⟩ := finish_plays k hrun hr
    refine ⟨acts, hplain, ?_⟩
    simp only [play, Act.run, hstart, List.forall_mem_cons]
    exact ⟨hend, trivial, hacts⟩

/-- A thread that stays as it is may be put back. -/
theorem set_thread {threads : List Thread} {k : Nat} {t : Thread} (h : threads[k]? = some t) :
    threads.set k t = threads := by
  obtain ⟨hlt, rfl⟩ := List.getElem?_eq_some_iff.mp h
  exact List.set_getElem_self hlt

namespace Run

theorem trans (h : Run natives S es S') (h' : Run natives S' es' S'') :
    Run natives S (es ++ es') S'' := by
  induction h' with
  | start => rwa [List.append_nil]
  | host _ orderly runs completes ih => exact .host ih orderly runs completes
  | thread _ maxDepth ih => exact .thread ih maxDepth
  | act _ thread machine runs completes ih =>
      rw [← List.append_assoc]; exact .act ih thread machine runs completes

/-- The machine stays regular and evolves. -/
theorem advances (hnatives : natives.Orderly) (hS : S.machine.Regular) (h : Run natives S es S') :
    S.machine.Advances S'.machine := by
  induction h with
  | start => exact .refl hS
  | host _ orderly runs completes ih =>
    have htame : VM.Tame natives _ := orderly.tame
    obtain ⟨hregular, hevolves, -⟩ := htame.steady hnatives _ _ _ ih.regular runs completes
    exact ih.trans ⟨hregular, hevolves⟩
  | thread _ _ ih => exact ih
  | act _ _ machine runs completes ih =>
    have hevent := Act.advances hnatives (machine ▸ ih.regular) runs completes
    rw [machine] at hevent
    exact ih.trans hevent

/-- What programs keep is kept. -/
theorem keeps {p : Machine → Prop} (hp : VM.KeptByPrograms natives p) (hS : p S.machine)
    (h : Run natives S es S') :
    p S'.machine := by
  induction h with
  | start => exact hS
  | host _ orderly runs completes ih =>
    have htame : VM.Tame natives _ := orderly.tame
    exact hp htame.program _ _ _ ih runs completes
  | thread _ _ ih => exact ih
  | act _ _ machine runs completes ih => exact Act.keeps hp _ _ _ _ (machine ▸ ih) runs completes

/-- The machine stays what it is on a session that starts. -/
theorem regular {directories : List Directory} (hnatives : natives.Orderly)
    (h : Run natives (.start directories) es S) : S.machine.Regular :=
  (h.advances hnatives (Machine.regular_start directories)).regular

/-- An event is what its act does. -/
theorem runs {e : Event} (h : Run natives S es S') (he : e ∈ es) :
    outcome (e.act.run natives) e.before = (e.result, e.after) ∧ Completes e.result := by
  induction h with
  | start => cases he
  | host _ _ _ _ ih => exact ih he
  | thread _ _ ih => exact ih he
  | act _ _ _ runs completes ih =>
    rcases List.mem_append.mp he with he | he
    · exact ih he
    · obtain rfl := List.mem_singleton.mp he
      exact ⟨runs, completes⟩

/-- A run up to an event, and the run after it. -/
theorem split {e : Event} {before after : List Event} (h : Run natives S (before ++ e :: after) S') :
    ∃ S₁, Run natives S before S₁ ∧ S₁.threads[e.index]? = some e.before.thread ∧
      e.before.machine = S₁.machine ∧
      Run natives ⟨e.after.machine, S₁.threads.set e.index e.after.thread⟩ after S' := by
  generalize hes : before ++ e :: after = es at h
  induction h generalizing after with
  | start => cases List.append_eq_nil_iff.mp hes |>.2
  | host _ orderly runs completes ih =>
    obtain ⟨S₁, hbefore, hthread, hmachine, hafter⟩ := ih hes
    exact ⟨S₁, hbefore, hthread, hmachine, .host hafter orderly runs completes⟩
  | thread _ maxDepth ih =>
    obtain ⟨S₁, hbefore, hthread, hmachine, hafter⟩ := ih hes
    exact ⟨S₁, hbefore, hthread, hmachine, .thread hafter maxDepth⟩
  | @act es S₁ last run thread machine runs completes ih =>
    rcases List.eq_nil_or_concat after with rfl | ⟨after, final, rfl⟩
    · obtain ⟨rfl, hlast⟩ := List.append_inj' hes rfl
      cases hlast
      exact ⟨S₁, run, thread, machine, .start⟩
    · rw [List.concat_eq_append, ← List.cons_append, ← List.append_assoc] at hes
      obtain ⟨rfl, hlast⟩ := List.append_inj' hes rfl
      cases hlast
      obtain ⟨S₂, hbefore, hthread, hmachine, hafter⟩ := ih rfl
      rw [List.concat_eq_append]
      exact ⟨S₂, hbefore, hthread, hmachine, .act hafter thread machine runs completes⟩

/-- What the events keep of a thread holds of it at the end. -/
theorem thread_keeps {k : Nat} {t : Thread} {p : List Event → Thread → Prop} (h : Run natives S es S')
    (ht : S.threads[k]? = some t) (hstart : p [] t)
    (hother : ∀ es e t, e.index ≠ k → p es t → p (es ++ [e]) t)
    (hact : ∀ before e after, es = before ++ e :: after → e.index = k → p before e.before.thread →
      p (before ++ [e]) e.after.thread) : ∃ t', S'.threads[k]? = some t' ∧ p es t' := by
  induction h with
  | start => exact ⟨t, ht, hstart⟩
  | host _ _ _ _ ih => exact ih hact
  | thread _ maxDepth ih =>
    obtain ⟨t', ht', hp⟩ := ih hact
    refine ⟨t', ?_, hp⟩
    rw [List.getElem?_append_left (List.getElem?_eq_some_iff.mp ht').1]
    exact ht'
  | @act es S₁ e run thread machine runs completes ih =>
    obtain ⟨t', ht', hp⟩ := ih fun before e' after hes =>
      hact before e' (after ++ [e]) (by rw [hes]; simp)
    by_cases hk : e.index = k
    · subst hk
      rw [thread] at ht'
      cases ht'
      refine ⟨e.after.thread, ?_, hact es e [] rfl rfl hp⟩
      rw [List.getElem?_set_self (List.getElem?_eq_some_iff.mp thread).1]
    · exact ⟨t', by rw [List.getElem?_set_ne hk]; exact ht', hother es e t' hk hp⟩

/-! ### Acts one after the other -/

/-- Acts that complete are a run. -/
theorem of_play {k : Nat} : ∀ {acts : List Act} {s : Running} {es : List Event} {S' : Session},
      Run natives S es S' →
    S'.threads[k]? = some s.thread → S'.machine = s.machine →
      (∀ e ∈ (play natives k acts s).1, Completes e.result) →
      Run natives S (es ++ (play natives k acts s).1)
        ⟨(play natives k acts s).2.machine, S'.threads.set k (play natives k acts s).2.thread⟩
  | [], s, es, S', h, ht, hm, _ => by
    rw [play, List.append_nil, set_thread ht, ← hm]
    exact h
  | first :: rest, s, es, S', h, ht, hm, hr => by
    let done := outcome (first.run natives) s
    let e : Event := ⟨k, first, s, done.1, done.2⟩
    have hfirst : Run natives S (es ++ [e]) ⟨done.2.machine, S'.threads.set k done.2.thread⟩ :=
      .act h ht hm.symm rfl (hr e (List.mem_cons_self ..))
    have hrest := of_play hfirst (List.getElem?_set_self (List.getElem?_eq_some_iff.mp ht).1) rfl
      fun e' he' => hr e' (List.mem_cons_of_mem _ he')
    rw [List.append_assoc, List.set_set] at hrest
    exact hrest

/-! ### Calls from outside -/

/-- A call from outside that completes is a run. -/
theorem invoke {k fuel : Nat} {t : Thread} {method : Method} {arguments : List Value}
    {r : Except Failure (Option Value)} {u : Running} (hnatives : natives.Orderly)
    (h : Run natives S es S') (ht : S'.threads[k]? = some t)
    (hrun : outcome (Exec.invoke natives fuel method arguments) ⟨S'.machine, t⟩ = (r, u))
    (hr : Completes r) :
    ∃ es', Run natives S (es ++ es') ⟨u.machine, S'.threads.set k u.thread⟩ := by
  rcases hnative : method.flags.isNative with _ | _
  · obtain ⟨acts, -, rfl, hacts⟩ := invoke_plays k hnative hrun hr
    exact ⟨_, h.of_play ht rfl hacts⟩
  · refine ⟨[], ?_⟩
    rw [List.append_nil]
    rcases Exec.outcome_invoke_native hnative ⟨S'.machine, t⟩ with ⟨fault, hrefused⟩ | hnative
    · rw [hrefused] at hrun
      cases hrun
      rwa [set_thread ht]
    · rw [hnative, Exec.outcome_lift] at hrun
      cases hrun
      rw [set_thread ht]
      exact .host h (hnatives.invokeNative method _) rfl hr

end Run

end Session

end JavaMachine
