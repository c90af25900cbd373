import MuxMPE.Machinery.Fifo
import MuxMPE.Queue.ThreadsafeQueue
import Mathlib.Data.Fintype.Basic

/-!
# Queue/Threads — any number of threads on one `ThreadsafeQueue`

    idle ──call──▸ critical section ──▸ notifyRx / notifyTx ──notify_one──▸ idle
                        │ ▲
                   wait ▼ │ mutex retaken
                  asleep ─┴─▸ awake

A critical section is one step, evaluating a `while` condition and going to sleep included; the
`notify_one` after the unlock is a step of its own and wakes one sleeper if there is one.  A sleeper
may also wake for no reason.
-/

variable {T ι : Type*}

namespace QueueThreads

/-- Where a thread stands in the member function it is running. -/
inductive Pc (T : Type*)
  | idle
  /-- in `the_tx_notification.wait` of `push_wait_if_full` -/
  | txAsleep (val : T) (threshold : ℕ)
  /-- woken, before it retakes the mutex -/
  | txAwake (val : T) (threshold : ℕ)
  /-- in `the_rx_notification.wait` of `wait_and_pop` -/
  | rxAsleep (prebuffering : ℕ)
  | rxAwake (prebuffering : ℕ)
  /-- unlocked, `the_rx_notification.notify_one` still to come -/
  | notifyRx
  | notifyTx
  /-- past `front()` of an empty queue: undefined, so no step leads out -/
  | stuck

/-- The queue, and where each thread stands. -/
structure State (ι T : Type*) where
  queue : ThreadsafeQueue T := {}
  pc : ι → Pc T := fun _ => .idle

/-- Which overload of `push` a call names. -/
inductive Overload
  | copy
  | move

/-- What a thread may do next. -/
inductive Action (ι T : Type*)
  | push (i : ι) (overload : Overload) (val : T) (maxSize : ℕ)
  | pushWaitIfFull (i : ι) (val : T) (threshold : ℕ)
  | tryPop (i : ι)
  | waitAndPop (i : ι) (prebuffering : ℕ)
  | triggerWakeup (i : ι)
  /-- a woken thread retakes the mutex and evaluates its `while` again -/
  | retake (i : ι)
  /-- the outstanding `notify_one` of `i`, and the sleeper it wakes -/
  | notifyOne (i : ι) (sleeper : Option ι)
  | spuriousWakeup (i : ι)

/-- What a caller can tell from its call: its element went in, or was discarded, it was handed one,
or `ThreadsafeQueueWakeup` was thrown at it. -/
inductive Event (T : Type*)
  | accepted (val : T)
  | dropped (val : T)
  | returned (val : T)
  | thrown

/-- The two ends of the queue, as a store sees them. -/
def Event.see : Event T → List (Fifo.Event T)
  | .accepted v => [.put v]
  | .returned v => [.take v]
  | .dropped _ | .thrown => []

section Sections

variable [DecidableEq ι]

/-- The critical section of `push`.  Whether the element went in is read off the size returned. -/
def pushSection (s : State ι T) (i : ι) (overload : Overload) (val : T) (maxSize : ℕ) :
    State ι T × List (Event T) :=
  let r :=
    match overload with
    | .copy => s.queue.push val maxSize
    | .move => s.queue.pushMove val maxSize
  ({ queue := r.1, pc := Function.update s.pc i .notifyRx },
    [if s.queue.theQueue.length < r.2 then .accepted val else .dropped val])

/-- The critical section of `push_wait_if_full`: the element goes in, or its thread to sleep. -/
def pushWaitSection (s : State ι T) (i : ι) (val : T) (threshold : ℕ) :
    State ι T × List (Event T) :=
  match s.queue.pushWaitIfFull val threshold with
  | none => ({ s with pc := Function.update s.pc i (.txAsleep val threshold) }, [])
  | some r => ({ queue := r.1, pc := Function.update s.pc i .notifyRx }, [.accepted val])

/-- The critical section of `try_pop`; an empty queue is left alone. -/
def tryPopSection (s : State ι T) (i : ι) : State ι T × List (Event T) :=
  match s.queue.tryPop with
  | none => (s, [])
  | some (val, q) => ({ queue := q, pc := Function.update s.pc i .notifyTx }, [.returned val])

/-- The critical section of `wait_and_pop`. -/
def waitAndPopSection (s : State ι T) (i : ι) (prebuffering : ℕ) : State ι T × List (Event T) :=
  match s.queue.waitAndPop prebuffering with
  | .wait => ({ s with pc := Function.update s.pc i (.rxAsleep prebuffering) }, [])
  -- the `unique_lock` unlocks as the exception leaves; there is no notification on this path
  | .wakeup q => ({ queue := q, pc := Function.update s.pc i .idle }, [.thrown])
  | .popped val q => ({ queue := q, pc := Function.update s.pc i .notifyTx }, [.returned val])
  | .emptyFront => ({ s with pc := Function.update s.pc i .stuck }, [])

/-- The critical section of `trigger_wakeup`. -/
def triggerWakeupSection (s : State ι T) (i : ι) : State ι T × List (Event T) :=
  ({ queue := s.queue.triggerWakeup, pc := Function.update s.pc i .notifyRx }, [])

/-- The sleeper a `notify_one` on one of the two condition variables may choose, woken. -/
def Pc.wokenOn (rx : Bool) : Pc T → Option (Pc T)
  | .rxAsleep p => if rx then some (.rxAwake p) else none
  | .txAsleep v t => if rx then none else some (.txAwake v t)
  | _ => none

/-- `notify_one` by `i`: it wakes nobody only when nobody sleeps there. -/
def notifyOne [Fintype ι] (s : State ι T) (i : ι) (rx : Bool) : Option ι → Option (State ι T)
  | none =>
    if ∀ j, ((s.pc j).wokenOn rx).isNone then some { s with pc := Function.update s.pc i .idle }
    else none
  | some j => ((s.pc j).wokenOn rx).map fun pc =>
      { s with pc := Function.update (Function.update s.pc j pc) i .idle }

end Sections

/-- The threads of a program on one queue; a call is enabled in a thread that runs none. -/
def machine (ι T : Type*) [DecidableEq ι] [Fintype ι] :
    Machine (State ι T) (Action ι T) (Event T) where
  init := {}
  step s
    | .push i overload val maxSize =>
      match s.pc i with
      | .idle => some (pushSection s i overload val maxSize)
      | _ => none
    | .pushWaitIfFull i val threshold =>
      match s.pc i with
      | .idle => some (pushWaitSection s i val threshold)
      | _ => none
    | .tryPop i =>
      match s.pc i with
      | .idle => some (tryPopSection s i)
      | _ => none
    | .waitAndPop i prebuffering =>
      match s.pc i with
      | .idle => some (waitAndPopSection s i prebuffering)
      | _ => none
    | .triggerWakeup i =>
      match s.pc i with
      | .idle => some (triggerWakeupSection s i)
      | _ => none
    | .retake i =>
      match s.pc i with
      | .txAwake val threshold => some (pushWaitSection s i val threshold)
      | .rxAwake prebuffering => some (waitAndPopSection s i prebuffering)
      | _ => none
    | .notifyOne i sleeper =>
      match s.pc i with
      | .notifyRx => (notifyOne s i true sleeper).map fun t => (t, [])
      | .notifyTx => (notifyOne s i false sleeper).map fun t => (t, [])
      | _ => none
    | .spuriousWakeup i =>
      match s.pc i with
      | .rxAsleep prebuffering =>
        some ({ s with pc := Function.update s.pc i (.rxAwake prebuffering) }, [])
      | .txAsleep val threshold =>
        some ({ s with pc := Function.update s.pc i (.txAwake val threshold) }, [])
      | _ => none

/-! ## What a step can do

The guards, one lemma for each action, then the ways each critical section ends. -/

section Steps

variable [DecidableEq ι] [Fintype ι] {s t : State ι T} {i : ι} {r : State ι T × List (Event T)}

theorem step_push {overload : Overload} {val : T} {maxSize : ℕ} :
    (machine ι T).step s (.push i overload val maxSize) = some r ↔
      s.pc i = .idle ∧ pushSection s i overload val maxSize = r := by
  rcases h : s.pc i <;> simp [machine, h]

theorem step_pushWaitIfFull {val : T} {threshold : ℕ} :
    (machine ι T).step s (.pushWaitIfFull i val threshold) = some r ↔
      s.pc i = .idle ∧ pushWaitSection s i val threshold = r := by
  rcases h : s.pc i <;> simp [machine, h]

theorem step_tryPop :
    (machine ι T).step s (.tryPop i) = some r ↔ s.pc i = .idle ∧ tryPopSection s i = r := by
  rcases h : s.pc i <;> simp [machine, h]

theorem step_waitAndPop {prebuffering : ℕ} :
    (machine ι T).step s (.waitAndPop i prebuffering) = some r ↔
      s.pc i = .idle ∧ waitAndPopSection s i prebuffering = r := by
  rcases h : s.pc i <;> simp [machine, h]

theorem step_triggerWakeup :
    (machine ι T).step s (.triggerWakeup i) = some r ↔
      s.pc i = .idle ∧ triggerWakeupSection s i = r := by
  rcases h : s.pc i <;> simp [machine, h]

theorem step_retake : (machine ι T).step s (.retake i) = some r ↔
    (∃ val threshold, s.pc i = .txAwake val threshold ∧ pushWaitSection s i val threshold = r) ∨
      ∃ prebuffering, s.pc i = .rxAwake prebuffering ∧ waitAndPopSection s i prebuffering = r := by
  rcases h : s.pc i <;> simp [machine, h]

theorem step_notifyOne {sleeper : Option ι} :
    (machine ι T).step s (.notifyOne i sleeper) = some r ↔
      ∃ rx t, s.pc i = (if rx then .notifyRx else .notifyTx) ∧
        notifyOne s i rx sleeper = some t ∧ (t, []) = r := by
  rcases h : s.pc i <;> simp [machine, h]

theorem step_spuriousWakeup : (machine ι T).step s (.spuriousWakeup i) = some r ↔
    ∃ rx pc, (s.pc i).wokenOn rx = some pc ∧
      ({ s with pc := Function.update s.pc i pc }, []) = r := by
  rcases h : s.pc i <;> simp [machine, Pc.wokenOn, h]

end Steps

section Sections

variable [DecidableEq ι] (s : State ι T) (i : ι)

/-- `push` discards at a full queue and appends otherwise. -/
theorem pushSection_cases (overload : Overload) (val : T) (maxSize : ℕ) :
    (0 < maxSize ∧ maxSize ≤ s.queue.theQueue.length ∧
      pushSection s i overload val maxSize
        = ({ s with pc := Function.update s.pc i .notifyRx }, [.dropped val])) ∨
    (¬ (0 < maxSize ∧ maxSize ≤ s.queue.theQueue.length) ∧
      pushSection s i overload val maxSize
        = ({ queue := { s.queue with theQueue := s.queue.theQueue ++ [val] }
             pc := Function.update s.pc i .notifyRx }, [.accepted val])) := by
  have hbody : pushSection s i overload val maxSize
      = ({ queue := (s.queue.pushBody val maxSize).1, pc := Function.update s.pc i .notifyRx },
          [if s.queue.theQueue.length < (s.queue.pushBody val maxSize).2 then .accepted val
            else .dropped val]) := by
    rcases overload <;> rfl
  rw [hbody]
  obtain ⟨hpos, hle, heq⟩ | ⟨hnot, heq⟩ := s.queue.pushBody_cases val maxSize
  · exact Or.inl ⟨hpos, hle, by simp [heq]⟩
  · exact Or.inr ⟨hnot, by simp [heq]⟩

/-- `push_wait_if_full` sleeps at the threshold and appends below it. -/
theorem pushWaitSection_cases (val : T) (threshold : ℕ) :
    (threshold ≤ s.queue.theQueue.length ∧
      pushWaitSection s i val threshold
        = ({ s with pc := Function.update s.pc i (.txAsleep val threshold) }, [])) ∨
    (s.queue.theQueue.length < threshold ∧
      pushWaitSection s i val threshold
        = ({ queue := { s.queue with theQueue := s.queue.theQueue ++ [val] }
             pc := Function.update s.pc i .notifyRx }, [.accepted val])) := by
  rcases h : s.queue.pushWaitIfFull val threshold with _ | r
  · exact Or.inl ⟨ThreadsafeQueue.pushWaitIfFull_eq_none.mp h, by simp [pushWaitSection, h]⟩
  · obtain ⟨hlt, rfl⟩ := ThreadsafeQueue.pushWaitIfFull_eq_some.mp h
    exact Or.inr ⟨hlt, by simp [pushWaitSection, h]⟩

/-- `try_pop` hands out the front, if there is one. -/
theorem tryPopSection_cases :
    (s.queue.theQueue = [] ∧ tryPopSection s i = (s, [])) ∨
    (∃ val q, s.queue.theQueue = val :: q.theQueue ∧
      q.wakeupRequested = s.queue.wakeupRequested ∧ tryPopSection s i
        = ({ queue := q, pc := Function.update s.pc i .notifyTx }, [.returned val])) := by
  rcases h : s.queue.tryPop with _ | ⟨val, q⟩
  · exact Or.inl ⟨ThreadsafeQueue.tryPop_eq_none.mp h, by simp [tryPopSection, h]⟩
  · obtain ⟨hq, hw⟩ := ThreadsafeQueue.tryPop_eq_some.mp h
    exact Or.inr ⟨val, q, hq, hw, by simp [tryPopSection, h]⟩

/-- The four ways out of `wait_and_pop`; the last is `front()` of an empty queue. -/
theorem waitAndPopSection_cases (prebuffering : ℕ) :
    (s.queue.theQueue.length < prebuffering ∧ s.queue.wakeupRequested = false ∧
      waitAndPopSection s i prebuffering
        = ({ s with pc := Function.update s.pc i (.rxAsleep prebuffering) }, [])) ∨
    (s.queue.wakeupRequested = true ∧ waitAndPopSection s i prebuffering
        = ({ queue := { s.queue with wakeupRequested := false }
             pc := Function.update s.pc i .idle }, [.thrown])) ∨
    (∃ val q, prebuffering ≤ s.queue.theQueue.length ∧ s.queue.wakeupRequested = false ∧
      s.queue.theQueue = val :: q.theQueue ∧ q.wakeupRequested = false ∧
      waitAndPopSection s i prebuffering
        = ({ queue := q, pc := Function.update s.pc i .notifyTx }, [.returned val])) ∨
    (prebuffering = 0 ∧ s.queue.theQueue = [] ∧ s.queue.wakeupRequested = false ∧
      waitAndPopSection s i prebuffering
        = ({ s with pc := Function.update s.pc i .stuck }, [])) := by
  rcases h : s.queue.waitAndPop prebuffering with _ | q | ⟨val, q⟩ | _
  · obtain ⟨hlt, hw⟩ := ThreadsafeQueue.waitAndPop_eq_wait.mp h
    exact Or.inl ⟨hlt, hw, by simp [waitAndPopSection, h]⟩
  · obtain ⟨hw, rfl⟩ := ThreadsafeQueue.waitAndPop_eq_wakeup.mp h
    exact Or.inr (Or.inl ⟨hw, by simp [waitAndPopSection, h]⟩)
  · obtain ⟨hle, hw, hq, hw'⟩ := ThreadsafeQueue.waitAndPop_eq_popped.mp h
    exact Or.inr (Or.inr (Or.inl ⟨val, q, hle, hw, hq, hw', by simp [waitAndPopSection, h]⟩))
  · obtain ⟨hp, hq, hw⟩ := ThreadsafeQueue.waitAndPop_eq_emptyFront.mp h
    exact Or.inr (Or.inr (Or.inr ⟨hp, hq, hw, by simp [waitAndPopSection, h]⟩))

variable [Fintype ι] {s i}

/-- A notification leaves the queue alone and moves its sender to `idle`; another thread it moves
was asleep there, and only when nobody is does it move none. -/
theorem notifyOne_cases {t : State ι T} {rx : Bool} {sleeper : Option ι}
    (h : notifyOne s i rx sleeper = some t) :
    t.queue = s.queue ∧
      ((sleeper = none ∧ (∀ j, (s.pc j).wokenOn rx = none) ∧ t.pc = Function.update s.pc i .idle) ∨
        ∃ j pc, sleeper = some j ∧ (s.pc j).wokenOn rx = some pc ∧
          t.pc = Function.update (Function.update s.pc j pc) i .idle) := by
  obtain _ | j := sleeper
  · rw [notifyOne] at h
    split_ifs at h with hall
    obtain rfl := Option.some.inj h
    exact ⟨rfl, Or.inl ⟨rfl, by simpa using hall, rfl⟩⟩
  · obtain ⟨pc, hpc, rfl⟩ := Option.map_eq_some_iff.mp h
    exact ⟨rfl, Or.inr ⟨j, pc, rfl, hpc, rfl⟩⟩

end Sections

end QueueThreads
