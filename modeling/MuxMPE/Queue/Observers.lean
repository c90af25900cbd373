import MuxMPE.Queue.Lossless

/-!
# Queue/Observers — `notify`, `empty` and `size`

    accepted   7 8 9 ⋯            size() = accepted − returned so far
    returned   7                  empty() where there are as many

The member functions that change nothing: `empty` and `size` look at the queue under the mutex, and
`notify` wakes a consumer that may find nothing and sleep on.  So whatever holds of every run of the
other calls holds of the runs with these, and what they report is the state of the store at that moment
(`observers_tell`).
-/

variable {T ι : Type*}

namespace QueueThreads

/-- The calls of every member function. -/
inductive Call (ι T : Type*)
  | act (a : Action ι T)
  | notify (i : ι) (sleeper : Option ι)
  | empty (i : ι)
  | size (i : ι)

inductive Reply (T : Type*)
  | event (e : Event T)
  | empty (isEmpty : Bool)
  | size (n : ℕ)

/-- What the other calls are told. -/
def Reply.see : Reply T → List (Event T)
  | .event e => [e]
  | .empty _ | .size _ => []

theorem flatMap_see_event (es : List (Event T)) : (es.map Reply.event).flatMap Reply.see = es := by
  rw [List.flatMap_map]
  exact List.flatMap_singleton' es

/-- The threads, calling whatever there is. -/
def callMachine (ι T : Type*) [DecidableEq ι] [Fintype ι] :
    Machine (State ι T) (Call ι T) (Reply T) where
  init := {}
  step s
    | .act a => ((machine ι T).step s a).map fun r => (r.1, r.2.map .event)
    | .notify i sleeper =>
      match s.pc i with
      | .idle => (notifyOne s i true sleeper).map fun t => (t, [])
      | _ => none
    | .empty i =>
      match s.pc i with
      | .idle => some (s, [.empty s.queue.empty])
      | _ => none
    | .size i =>
      match s.pc i with
      | .idle => some (s, [.size s.queue.size])
      | _ => none

/-! ## One step -/

section Step

variable [DecidableEq ι] [Fintype ι] {s t : State ι T} {i : ι} {r : State ι T × List (Reply T)}

theorem step_act {a : Action ι T} : (callMachine ι T).step s (.act a) = some r ↔
    ∃ t es, (machine ι T).step s a = some (t, es) ∧ (t, es.map .event) = r := by
  simp [callMachine]

theorem step_notify {sleeper : Option ι} : (callMachine ι T).step s (.notify i sleeper) = some r ↔
    s.pc i = .idle ∧ ∃ t, notifyOne s i true sleeper = some t ∧ (t, []) = r := by
  cases h : s.pc i <;> simp [callMachine, h]

theorem step_empty : (callMachine ι T).step s (.empty i) = some r ↔
    s.pc i = .idle ∧ (s, [.empty s.queue.empty]) = r := by
  cases h : s.pc i <;> simp [callMachine, h]

theorem step_size : (callMachine ι T).step s (.size i) = some r ↔
    s.pc i = .idle ∧ (s, [.size s.queue.size]) = r := by
  cases h : s.pc i <;> simp [callMachine, h]

/-- **`notify` is a wakeup for no reason**, or nothing. -/
theorem steps_of_notify {sleeper : Option ι} (hi : s.pc i = .idle)
    (h : notifyOne s i true sleeper = some t) : ∃ as, (machine ι T).Steps s as [] t := by
  obtain ⟨q, pcs⟩ := t
  obtain ⟨rfl, ⟨-, -, rfl⟩ | ⟨j, pc, -, hwoken, rfl⟩⟩ := notifyOne_cases h
  · have hsame : Function.update s.pc i .idle = s.pc := by rw [← hi, Function.update_eq_self]
    refine ⟨[], ?_⟩
    rw [hsame]
    exact .refl
  · have hne : i ≠ j := by
      rintro rfl
      rw [hi] at hwoken
      nomatch hwoken
    have hsame : Function.update (Function.update s.pc j pc) i .idle = Function.update s.pc j pc := by
      have hi' : Function.update s.pc j pc i = .idle := by rw [Function.update_of_ne hne, hi]
      rw [← hi', Function.update_eq_self]
    have hstep := step_spuriousWakeup.mpr ⟨true, pc, hwoken, rfl⟩
    refine ⟨[.spuriousWakeup j], ?_⟩
    rw [hsame]
    exact .single hstep

/-- The calls that look on make no difference to the others. -/
def unobserved : Machine.Simulation (callMachine ι T) (machine ι T) Reply.see where
  rel s t := s = t
  init := rfl
  step := by
    rintro s t c rs _ rfl hstep
    cases c with
    | act a =>
      obtain ⟨u, es, hact, heq⟩ := step_act.mp hstep
      obtain ⟨rfl, rfl⟩ := Prod.mk.inj heq
      exact ⟨[a], u, by rw [flatMap_see_event]; exact .single hact, rfl⟩
    | notify i sleeper =>
      obtain ⟨hi, u, hnotify, heq⟩ := step_notify.mp hstep
      obtain ⟨rfl, rfl⟩ := Prod.mk.inj heq
      obtain ⟨as, has⟩ := steps_of_notify hi hnotify
      exact ⟨as, u, has, rfl⟩
    | empty i =>
      obtain ⟨-, heq⟩ := step_empty.mp hstep
      obtain ⟨rfl, rfl⟩ := Prod.mk.inj heq
      exact ⟨[], s, .refl, rfl⟩
    | size i =>
      obtain ⟨-, heq⟩ := step_size.mp hstep
      obtain ⟨rfl, rfl⟩ := Prod.mk.inj heq
      exact ⟨[], s, .refl, rfl⟩

/-- **A size or emptiness is told by the step that shows it**, of the queue as it is there. -/
theorem reply_of_step {c : Call ι T} {rs₁ rs₂ : List (Reply T)} {e : Reply T}
    (hstep : (callMachine ι T).step s c = some (t, rs₁ ++ e :: rs₂)) :
    (∃ v, e = .event v) ∨ (rs₁ = [] ∧ (e = .size s.queue.size ∨ e = .empty s.queue.empty)) := by
  cases c with
  | act a =>
    obtain ⟨u, es, -, heq⟩ := step_act.mp hstep
    have hmem : e ∈ es.map Reply.event := by simp [(Prod.mk.inj heq).2]
    obtain ⟨v, -, rfl⟩ := List.mem_map.mp hmem
    exact .inl ⟨v, rfl⟩
  | notify i sleeper =>
    obtain ⟨-, u, -, heq⟩ := step_notify.mp hstep
    simp at heq
  | empty i =>
    obtain ⟨-, heq⟩ := step_empty.mp hstep
    obtain ⟨rfl, hcons⟩ | ⟨ks, -, hks⟩ := List.cons_eq_append_iff.mp (Prod.mk.inj heq).2
    · exact .inr ⟨rfl, .inr (List.cons.inj hcons).1⟩
    · simp at hks
  | size i =>
    obtain ⟨-, heq⟩ := step_size.mp hstep
    obtain ⟨rfl, hcons⟩ | ⟨ks, -, hks⟩ := List.cons_eq_append_iff.mp (Prod.mk.inj heq).2
    · exact .inr ⟨rfl, .inl (List.cons.inj hcons).1⟩
    · simp at hks

end Step

/-! ## Every run -/

section Run

variable [DecidableEq ι] [Fintype ι] {cs : List (Call ι T)} {rs : List (Reply T)} {s : State ι T}

/-- What was returned, then the content, is what was accepted. -/
theorem returned_append_queue (hrun : (callMachine ι T).Run cs rs s) :
    returned (rs.flatMap Reply.see) ++ s.queue.theQueue = accepted (rs.flatMap Reply.see) := by
  obtain ⟨as, u, hthreads, rfl⟩ := unobserved.run hrun
  obtain ⟨ops, q, hfifo, rfl⟩ := store.run hthreads
  have hhist := Fifo.run_history hfifo
  rwa [puts_flatMap_see, takes_flatMap_see] at hhist

/-- **The observers tell the truth and leave no trace**: the other calls go as they could without them,
`size` is what has been accepted and not returned until then, and `empty` that there is none of it. -/
theorem observers_tell (hrun : (callMachine ι T).Run cs rs s) :
    (∃ as, (machine ι T).Run as (rs.flatMap Reply.see) s) ∧
      ∀ rs₁ r rs₂, rs = rs₁ ++ r :: rs₂ →
        (∀ n, r = .size n → (returned (rs₁.flatMap Reply.see)).length + n
          = (accepted (rs₁.flatMap Reply.see)).length) ∧
        ∀ b, r = .empty b → (b = true ↔
          returned (rs₁.flatMap Reply.see) = accepted (rs₁.flatMap Reply.see)) := by
  refine ⟨?_, fun rs₁ r rs₂ hrs => ?_⟩
  · obtain ⟨as, u, hthreads, rfl⟩ := unobserved.run hrun
    exact ⟨as, hthreads⟩
  · obtain ⟨ds, c, gs, u, v, fs₁, fs₂, hprefix, hstep, rfl⟩ := hrun.shown hrs
    have hstore := returned_append_queue hprefix
    obtain ⟨w, rfl⟩ | ⟨rfl, rfl | rfl⟩ := reply_of_step hstep
    · exact ⟨nofun, nofun⟩
    · refine ⟨fun n hn => ?_, nofun⟩
      obtain rfl := Reply.size.inj hn
      rw [List.append_nil, ← hstore, List.length_append]
      rfl
    · refine ⟨nofun, fun b hb => ?_⟩
      obtain rfl := Reply.empty.inj hb
      rw [List.append_nil, ← hstore, ThreadsafeQueue.empty, List.isEmpty_iff, List.self_eq_append_right]

/-- A size reported while an element is there and another has been taken. -/
theorem observers_tell_one : ∃ s rs, (callMachine (Fin 2) ℕ).Run [.act (.push 0 .copy 7 0),
      .act (.notifyOne 0 none), .act (.push 0 .copy 8 0), .act (.notifyOne 0 none), .notify 0 none,
      .act (.tryPop 1), .size 0] rs s ∧
    ∃ as, (machine (Fin 2) ℕ).Run as (rs.flatMap Reply.see) s := by
  refine ⟨_, _, Machine.steps_get (by decide), (observers_tell (Machine.steps_get (by decide))).1⟩

end Run

end QueueThreads
