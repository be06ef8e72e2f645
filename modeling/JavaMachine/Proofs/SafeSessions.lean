import JavaMachine.Proofs.SafeCode
import JavaMachine.Proofs.Sessions

/-!
Hosts that leave the elements of arrays to code.

Such a host loads and defines classes, makes objects, arrays and strings, and calls methods. It
refers only to objects that are there. Whatever it does, the machine stays safe, and so do the
threads (`Session.Reaches.safe`). To run a program is one of the things that it does
(`Session.Reaches.runMain`).
-/

namespace JavaMachine

variable {natives : Natives} {n : Nat}

/-! ### Calls from outside -/

namespace Exec

/-- The slots of values refer to what the values do. -/
theorem extent_valueSlots {values : List Value} (h : extent values ≤ n) :
    extent (values.flatMap Value.slots) ≤ n :=
  extent_list.mpr fun slot hslot => by
    obtain ⟨value, hvalue, hslot⟩ := List.mem_flatMap.mp hslot
    exact extent_list.mp (extent_slots (extent_list.mp h value hvalue)) slot hslot

/-- What a native method leaves is there. -/
theorem extent_popResult? {stack : OperandStack} {type : ReturnType} {result : Option Value}
    (hstack : extent stack ≤ n) (h : popResult? stack type = some result) : extent result ≤ n := by
  have hpopped : ∀ {α : Type} [References α] {pop? : OperandStack → Option (α × OperandStack)}
      {value : α → Value}, OperandStack.KeepsExtent pop? → (∀ a, extent (value a) ≤ extent a) →
        (pop? stack).map (fun popped => some (value popped.1)) = some result → extent result ≤ n := by
    intro α _ pop? value hpop hvalue h
    obtain ⟨⟨a, _⟩, hrun, rfl⟩ := Option.map_eq_some_iff.mp h
    exact Nat.le_trans (hvalue a) (hpop hstack hrun).1
  unfold popResult? at h
  split at h
  · cases h
    exact Nat.zero_le _
  · exact hpopped OperandStack.keepsExtent_popLong? (fun _ => Nat.zero_le _) h
  · exact hpopped OperandStack.keepsExtent_popFloat? (fun _ => Nat.zero_le _) h
  · exact hpopped OperandStack.keepsExtent_popDouble? (fun _ => Nat.zero_le _) h
  · exact hpopped OperandStack.keepsExtent_popReference? (fun _ => Nat.le_refl _) h
  · exact hpopped OperandStack.keepsExtent_popReference? (fun _ => Nat.le_refl _) h
  · exact hpopped OperandStack.keepsExtent_popInt? (fun _ => Nat.zero_le _) h

/-- A call of a native method from outside is careful. -/
theorem careful_invokeNative (method : Method) {arguments : List Slot} (h : extent arguments ≤ n) :
    VM.Careful natives n (invokeNative natives method arguments) := by
  have hresult : ∀ {n : Nat} {stack : OperandStack}, extent stack ≤ n →
      VM.Careful natives n (VM.inRange (popResult? stack method.parsed.result)) := fun hstack =>
    .inRange fun _ => extent_popResult? hstack
  refine .bind (.of_discreet (.cls _) (.cls _)) fun n' c hn _ => ?_
  rcases natives.find_cases c.name method.name method.descriptor with
    ⟨key, native, hregistered, hfind⟩ | ⟨message, hfind⟩
  · rw [hfind, pure_bind]
    refine .bind (.native hregistered (extent_list.mpr ?_)) fun k value hk hvalue => ?_
    · exact extent_list.mp (Nat.le_trans h hn)
    · have hempty := extent_le_of_zero (n := k)
        (OperandStack.extent_empty (max arguments.length method.parsed.result.size))
      split
      · refine .bind (.inRange fun stack hpush => OperandStack.extent_pushValue? hempty hvalue
          hpush) fun _ _ _ => hresult
      · exact hresult hempty
  · rw [hfind]
    exact .raise _ _

/-- The beginning of a call from outside is careful. -/
theorem careful_startCall (method : Method) {arguments : List Value} (h : extent arguments ≤ n) :
    Careful natives n (startCall method arguments) := by
  have hslots := extent_valueSlots h
  refine .andThen ?_ fun _ _ => .andThen .machine fun _ _ => .check (.initializeClass _)
    (.pure (Nat.zero_le _))
  exact .check (.andThen .machine fun _ _ => .throw (e := .fault (.internal _)) trivial
    (Nat.zero_le _)) (.enter method hslots)

end Exec

/-! ### What a host does -/

/-- What a host asks of a machine. The elements of arrays are left to code. -/
inductive Request where
  | load (name : String)
  | define (file : ClassFile)
  /-- An instance of a class with zeroed fields. -/
  | create (name : String)
  /-- A zeroed array. -/
  | array (name : String) (length : Nat)
  | string (text : String)
  | literal (units : Text.Units)
  /-- An array of strings. -/
  | strings (texts : List String)
  | native (method : Method) (arguments : List Slot)

namespace Request

/-- Does what a host asks for. -/
def run (natives : Natives) : Request → VM Unit
  | load name => do
    let _ ← VM.load name
  | define file => do
    let _ ← VM.define file
  | create name => do
    let _ ← VM.newObject (← VM.load name)
  | array name length => do
    let _ ← VM.newArray (← VM.load name) length
  | string text => do
    let _ ← VM.string text
  | literal units => do
    let _ ← VM.intern units
  | strings texts => do
    let _ ← Exec.stringArray texts
  | native method arguments => do
    let _ ← Exec.invokeNative natives method arguments

instance : References Request where
  extent
    | native _ arguments => extent arguments
    | _ => 0

/-- What a host asks for keeps a machine safe. -/
theorem secure (hnatives : natives.Guarded) (request : Request) {m : Machine}
    (h : extent request ≤ m.heap.size) :
    VM.SecureOn m (request.run natives) := by
  have hdone : ∀ {α : Type} [References α] {x : VM α}, VM.SecureOn m x →
      VM.SecureOn m (do let _ ← x) := fun hx =>
    .bind hx fun _ _ _ _ _ _ => .pure (Nat.zero_le _) fun _ => trivial
  have hcareful : ∀ {α : Type} [References α] {x : VM α}, VM.Careful natives 0 x →
      VM.SecureOn m x := fun hx =>
    hx.secure hnatives m (Nat.zero_le _)
  cases request with
  | load name => exact hdone (hcareful (.load name))
  | define file => exact hdone (hcareful (.of_discreet (.define file) (.define file)))
  | create name =>
    exact hcareful (.of_discreet (.create name fun _ _ => .pure _)
      (.bind (.load name) fun _ id _ _ => .bind (.newObject id) fun _ _ _ _ => .pure (Nat.zero_le _)))
  | array name length =>
    exact hcareful (.bind (.load name) fun _ id _ _ => .bind (.newArray id length) fun _ _ _ _ =>
      .pure (Nat.zero_le _))
  | string text => exact hdone (VM.string_secure text).secureOn
  | literal units => exact hdone (hcareful (.of_discreet (.intern units) (.intern units)))
  | strings texts => exact hdone (VM.stringArray_secure texts)
  | native method arguments =>
      exact hdone ((Exec.careful_invokeNative method h).secure hnatives m (Nat.le_refl _))

end Request

instance : References Act where
  extent
    | .call _ arguments => extent arguments
    | .step | .collect => 0

/-- An act of a thread whose arguments are there keeps the state safe. -/
theorem Act.secure (hnatives : natives.Guarded) {act : Act} {s : Running}
    (h : extent act ≤ s.machine.heap.size) :
    Exec.SecureOn s (act.run natives) := by
  cases act with
  | step => exact .step hnatives
  | call method arguments => exact (Exec.careful_startCall method h).secure hnatives s (Nat.le_refl _)
  | collect =>
    change Exec.SecureOn s (Exec.modifyThread ({ · with returnValue := none }))
    refine .modifyThread fun hs => ?_
    exact Thread.extent_le.mpr ⟨(Thread.extent_le.mp hs).1, Nat.zero_le _⟩

/-! ### Sessions -/

namespace Session

/-- A session without dangling references whose arrays hold what fits. -/
structure Safe (S : Session) : Prop where
  machine : S.machine.Safe
  threads : ∀ t ∈ S.threads, extent t ≤ S.machine.heap.size

/-- The sessions that a host comes to. It makes threads, asks the machine for things, and has a
thread act; all that it refers to is there. -/
inductive Reaches (natives : Natives) (S : Session) : Session → Prop where
  | start : Reaches natives S S
  | request {S' : Session} {r : Except Failure Unit} {m : Machine} (before : Reaches natives S S')
      (request : Request)
      (there : extent request ≤ S'.machine.heap.size)
      (runs : outcome (request.run natives) S'.machine = (r, m))
      (completes : Completes r) : Reaches natives S { S' with machine := m }
  | thread {S' : Session} (before : Reaches natives S S') (maxDepth : Nat) :
      Reaches natives S { S' with threads := S'.threads ++ [.start maxDepth] }
  | act {S' : Session} {k : Nat} {s t : Running} {r : Except Failure Unit}
      (before : Reaches natives S S') (act : Act)
      (thread : S'.threads[k]? = some s.thread) (machine : s.machine = S'.machine)
      (there : extent act ≤ S'.machine.heap.size) (runs : outcome (act.run natives) s = (r, t))
      (completes : Completes r) : Reaches natives S ⟨t.machine, S'.threads.set k t.thread⟩

variable {S S' : Session}

/-- A session stays safe when the machine does. -/
theorem Safe.step {m : Machine} {threads : List Thread} (hS : S.Safe) (hm : m.Safe)
    (hremembers : S.machine.Remembers m)
    (h : ∀ t ∈ threads, t ∈ S.threads ∨ extent t ≤ m.heap.size) : Safe ⟨m, threads⟩ :=
  ⟨hm, fun t ht => (h t ht).elim (fun hold => Nat.le_trans (hS.threads t hold) hremembers.heap) id⟩

/-- Whatever a host does, the session stays safe. -/
theorem Reaches.safe (hnatives : natives.Guarded) (hS : S.Safe)
    (h : Reaches natives S S') : S'.Safe := by
  induction h with
  | start => exact hS
  | @request S' r m _ request there runs completes ih =>
    have hsecured := request.secure hnatives there ih.machine r m runs completes
    exact ih.step hsecured.safe hsecured.remembers fun _ => .inl
  | @thread S' _ maxDepth ih =>
    refine ih.step ih.machine (.refl _) fun t ht => ?_
    exact (List.mem_append.mp ht).imp_right fun hnew => by
      rw [List.mem_singleton.mp hnew]; exact Nat.zero_le _
  | @act S' k s t r _ act thread machine there runs completes ih =>
    rw [← machine] at there
    have hsafe : s.Safe := ⟨machine ▸ ih.machine, machine ▸ ih.threads _ (List.mem_of_getElem? thread)⟩
    have hsecured := Act.secure hnatives there hsafe r t runs completes
    refine ih.step hsecured.safe.machine (machine ▸ hsecured.remembers) fun other hother => ?_
    refine (List.mem_or_eq_of_mem_set hother).imp_right fun heq => ?_
    exact heq ▸ hsecured.safe.thread

/-! ### Programs -/

namespace Reaches

/-- What is asked for is done. -/
theorem asks {α : Type} {x : VM α} {r : Except Failure α} {m : Machine} (h : Reaches natives S S')
    (request : Request)
    (there : extent request ≤ S'.machine.heap.size) (hrequest : request.run natives = (do let _ ← x))
    (hrun : outcome x S'.machine = (r, m)) (hr : Completes r) :
    Reaches natives S { S' with machine := m } := by
  rcases r with e | a
  · obtain ⟨fault, rfl⟩ := completes_error hr
    exact .request (r := .error (.fault fault)) h request there
      (by rw [hrequest, outcome_bind_of_error hrun]) trivial
  · exact .request (r := .ok ⟨⟩) h request there (by rw [hrequest, outcome_bind_of_ok hrun]; rfl)
      trivial

/-- Steps one after the other. -/
theorem of_play {k : Nat} : ∀ {acts : List Act} {s : Running} {S' : Session}, Reaches natives S S' →
    S'.threads[k]? = some s.thread → s.machine = S'.machine →
      (∀ act ∈ acts, act = .step ∨ act = .collect) →
      (∀ e ∈ (play natives k acts s).1, Completes e.result) →
        Reaches natives S ⟨(play natives k acts s).2.machine,
          S'.threads.set k (play natives k acts s).2.thread⟩
  | [], s, S', h, ht, hm, _, _ => by
    rw [play, set_thread ht, hm]
    exact h
  | first :: rest, s, S', h, ht, hm, hplain, hr => by
    obtain ⟨hfirst, hrest⟩ := List.forall_mem_cons.mp hplain
    obtain ⟨hcompletes, hr⟩ := List.forall_mem_cons.mp hr
    have there : extent first ≤ S'.machine.heap.size := by
      rcases hfirst with rfl | rfl <;> exact Nat.zero_le _
    have hnext := of_play (.act h first ht hm there rfl hcompletes)
      (List.getElem?_set_self (List.getElem?_eq_some_iff.mp ht).1) rfl hrest hr
    rw [List.set_set] at hnext
    exact hnext

/-- A call from outside that completes. -/
theorem invoke {k fuel : Nat} {t : Thread} {method : Method} {arguments : List Value}
    {r : Except Failure (Option Value)} {u : Running} (h : Reaches natives S S')
    (ht : S'.threads[k]? = some t) (there : extent arguments ≤ S'.machine.heap.size)
    (hrun : outcome (Exec.invoke natives fuel method arguments) ⟨S'.machine, t⟩ = (r, u))
    (hr : Completes r) :
    Reaches natives S ⟨u.machine, S'.threads.set k u.thread⟩ := by
  rcases hnative : method.flags.isNative with _ | _
  · obtain ⟨acts, hplain, rfl, hacts⟩ := invoke_plays k hnative hrun hr
    obtain ⟨hcall, hacts⟩ := List.forall_mem_cons.mp hacts
    have hrest := of_play (.act h (.call method arguments) ht rfl there rfl hcall)
      (List.getElem?_set_self (List.getElem?_eq_some_iff.mp ht).1) rfl hplain hacts
    rw [List.set_set] at hrest
    exact hrest
  · rcases Exec.outcome_invoke_native hnative ⟨S'.machine, t⟩ with ⟨fault, hrefused⟩ | hnative
    · rw [hrefused] at hrun
      cases hrun
      rwa [set_thread ht]
    · rw [hnative, Exec.outcome_lift] at hrun
      cases hrun
      rw [set_thread ht]
      exact h.asks (.native method _) (Exec.extent_valueSlots there) rfl rfl hr

/-- A program that completes, also one that fails. -/
theorem runMain {k fuel : Nat} {t : Thread} {name : String} {arguments : List String}
    {r : Except Failure Unit}
    {u : Running} (hS' : S'.Safe) (h : Reaches natives S S') (ht : S'.threads[k]? = some t)
    (hrun : outcome (Exec.runMain natives fuel name arguments) ⟨S'.machine, t⟩ = (r, u))
    (hr : Completes r) :
    Reaches natives S ⟨u.machine, S'.threads.set k u.thread⟩ := by
  unfold Exec.runMain at hrun
  obtain ⟨fault, m₁, hload, rfl, rfl⟩ | ⟨id, m₁, hload, hrun⟩ :=
    Exec.outcome_lift_bind_completes hrun hr
  · rw [set_thread ht]
    exact h.asks (.load _) (Nat.zero_le _) rfl hload trivial
  have h₁ := h.asks (.load _) (Nat.zero_le _) rfl hload trivial
  have hm₁ := (VM.load_secure _ hS'.machine _ _ hload trivial).safe
  rw [outcome_bind_of_ok Exec.outcome_machine] at hrun
  dsimp only at hrun
  split at hrun
  · cases hrun
    rwa [set_thread ht]
  obtain ⟨fault, m₂, hstrings, rfl, rfl⟩ | ⟨array, m₂, hstrings, hrun⟩ :=
    Exec.outcome_lift_bind_completes hrun hr
  · rw [set_thread ht]
    exact h₁.asks (.strings _) (Nat.zero_le _) rfl hstrings trivial
  have h₂ := h₁.asks (.strings _) (Nat.zero_le _) rfl hstrings trivial
  have harray := (VM.stringArray_secure _ hm₁ _ _ hstrings trivial).there
  obtain ⟨fault, hinvoke, rfl⟩ | ⟨result, v, hinvoke, hrun⟩ := outcome_bind_completes hrun hr
  · exact h₂.invoke ht (extent_list.mpr (List.forall_mem_singleton.mpr harray)) hinvoke trivial
  · cases hrun
    exact h₂.invoke ht (extent_list.mpr (List.forall_mem_singleton.mpr harray)) hinvoke trivial

end Reaches

end Session

end JavaMachine
