import Mathlib.Data.List.Basic

/-!
# Queue/ThreadsafeQueue — the critical sections of `ThreadsafeQueue<T>`

Every member function takes `the_mutex` first, so between two lock operations it is one function on
the data members.  These are those functions; which thread runs them, and the two condition
variables, are `Queue/Threads`.
-/

variable {T : Type*}

/-- The data `the_mutex` protects. -/
structure ThreadsafeQueue (T : Type*) where
  theQueue : List T := []
  wakeupRequested : Bool := false

namespace ThreadsafeQueue

/-- The text the two overloads of `push` share: the queue after it, and the size it returns. -/
def pushBody (q : ThreadsafeQueue T) (val : T) (maxSize : ℕ) : ThreadsafeQueue T × ℕ :=
  let queueSizeBefore := q.theQueue.length
  let q' : ThreadsafeQueue T :=
    if maxSize = 0 then { q with theQueue := q.theQueue ++ [val] }
    else if queueSizeBefore < maxSize then { q with theQueue := q.theQueue ++ [val] }
    else q
  (q', q'.theQueue.length)

/-- `push(T const& val, size_t max_size)`. -/
def push (q : ThreadsafeQueue T) (val : T) (maxSize : ℕ := 0) : ThreadsafeQueue T × ℕ :=
  q.pushBody val maxSize

/-- `push(T&& val, size_t max_size)`: it constructs the element in place. -/
def pushMove (q : ThreadsafeQueue T) (val : T) (maxSize : ℕ := 0) : ThreadsafeQueue T × ℕ :=
  q.pushBody val maxSize

/-- One pass of `push_wait_if_full` through its `while`: `none` is `the_tx_notification.wait`. -/
def pushWaitIfFull (q : ThreadsafeQueue T) (val : T) (threshold : ℕ) :
    Option (ThreadsafeQueue T × ℕ) :=
  if q.theQueue.length ≥ threshold then none
  else
    let q' : ThreadsafeQueue T := { q with theQueue := q.theQueue ++ [val] }
    some (q', q'.theQueue.length)

/-- `trigger_wakeup`; its notification is not among the data. -/
def triggerWakeup (q : ThreadsafeQueue T) : ThreadsafeQueue T := { q with wakeupRequested := true }

def empty (q : ThreadsafeQueue T) : Bool := q.theQueue.isEmpty

def size (q : ThreadsafeQueue T) : ℕ := q.theQueue.length

/-- `none` is `return false`. -/
def tryPop (q : ThreadsafeQueue T) : Option (T × ThreadsafeQueue T) :=
  match q.theQueue with
  | [] => none
  | front :: rest => some (front, { q with theQueue := rest })

/-- How one pass of `wait_and_pop` through its `while` ends. -/
inductive PopResult (T : Type*)
  /-- `the_rx_notification.wait` -/
  | wait
  /-- `throw ThreadsafeQueueWakeup()` -/
  | wakeup (q : ThreadsafeQueue T)
  | popped (val : T) (q : ThreadsafeQueue T)
  /-- `front()` of an empty `std::queue`, which is undefined -/
  | emptyFront

/-- One pass of `wait_and_pop` through its `while`. -/
def waitAndPop (q : ThreadsafeQueue T) (prebuffering : ℕ := 1) : PopResult T :=
  if q.theQueue.length < prebuffering ∧ ¬ q.wakeupRequested then .wait
  else if q.wakeupRequested then .wakeup { q with wakeupRequested := false }
  else
    match q.theQueue with
    | [] => .emptyFront
    | front :: rest => .popped front { q with theQueue := rest }

/-! ## What each section does

One lemma for each function, with every way it can end; nothing below unfolds them. -/

/-- `push` drops exactly when there is a bound and the queue has reached it. -/
theorem pushBody_cases (q : ThreadsafeQueue T) (val : T) (maxSize : ℕ) :
    (0 < maxSize ∧ maxSize ≤ q.theQueue.length ∧ q.pushBody val maxSize = (q, q.theQueue.length)) ∨
    (¬ (0 < maxSize ∧ maxSize ≤ q.theQueue.length) ∧
      q.pushBody val maxSize
        = ({ q with theQueue := q.theQueue ++ [val] }, q.theQueue.length + 1)) := by
  obtain rfl | hpos := Nat.eq_zero_or_pos maxSize
  · exact Or.inr ⟨by simp, by simp [pushBody]⟩
  · have hne : maxSize ≠ 0 := Nat.ne_of_gt hpos
    by_cases hlt : q.theQueue.length < maxSize
    · exact Or.inr ⟨by omega, by simp [pushBody, hlt]⟩
    · exact Or.inl ⟨hpos, by omega, by simp [pushBody, hne, hlt]⟩

/-- It waits at the threshold. -/
theorem pushWaitIfFull_eq_none {q : ThreadsafeQueue T} {val : T} {threshold : ℕ} :
    q.pushWaitIfFull val threshold = none ↔ threshold ≤ q.theQueue.length := by
  simp [pushWaitIfFull]

/-- Below the threshold it appends. -/
theorem pushWaitIfFull_eq_some {q : ThreadsafeQueue T} {val : T} {threshold : ℕ}
    {r : ThreadsafeQueue T × ℕ} : q.pushWaitIfFull val threshold = some r ↔
      q.theQueue.length < threshold ∧
        r = ({ q with theQueue := q.theQueue ++ [val] }, q.theQueue.length + 1) := by
  simp [pushWaitIfFull, eq_comm]

theorem tryPop_eq_none {q : ThreadsafeQueue T} : q.tryPop = none ↔ q.theQueue = [] := by
  cases h : q.theQueue <;> simp [tryPop, h]

/-- It hands out the front and keeps the request. -/
theorem tryPop_eq_some {q q' : ThreadsafeQueue T} {val : T} : q.tryPop = some (val, q') ↔
    q.theQueue = val :: q'.theQueue ∧ q'.wakeupRequested = q.wakeupRequested := by
  obtain ⟨items, w⟩ := q
  obtain ⟨items', w'⟩ := q'
  cases items <;> simp [tryPop, and_assoc, eq_comm]

/-- It waits below the prebuffering, unless a wakeup is requested. -/
theorem waitAndPop_eq_wait {q : ThreadsafeQueue T} {p : ℕ} : q.waitAndPop p = .wait ↔
    q.theQueue.length < p ∧ q.wakeupRequested = false := by
  unfold waitAndPop
  split_ifs with h hw
  · simpa using h
  · simp [hw]
  · cases hq : q.theQueue <;> simp_all

/-- A request is thrown and taken back. -/
theorem waitAndPop_eq_wakeup {q q' : ThreadsafeQueue T} {p : ℕ} : q.waitAndPop p = .wakeup q' ↔
    q.wakeupRequested = true ∧ q' = { q with wakeupRequested := false } := by
  unfold waitAndPop
  split_ifs with h hw
  · simp_all
  · simp [hw, eq_comm]
  · cases hq : q.theQueue <;> simp_all

/-- Without a request it hands out the front. -/
theorem waitAndPop_eq_popped {q q' : ThreadsafeQueue T} {val : T} {p : ℕ} :
    q.waitAndPop p = .popped val q' ↔ p ≤ q.theQueue.length ∧ q.wakeupRequested = false ∧
      q.theQueue = val :: q'.theQueue ∧ q'.wakeupRequested = false := by
  obtain ⟨items, w⟩ := q
  obtain ⟨items', w'⟩ := q'
  unfold waitAndPop
  split_ifs with h hw
  · exact iff_of_false (by simp) fun hp => absurd h.1 (Nat.not_lt.mpr hp.1)
  · simp_all
  · cases items <;> simp_all [eq_comm, and_assoc]

/-- The undefined `front()` is reached only by asking for no elements at all. -/
theorem waitAndPop_eq_emptyFront {q : ThreadsafeQueue T} {p : ℕ} :
    q.waitAndPop p = .emptyFront ↔ p = 0 ∧ q.theQueue = [] ∧ q.wakeupRequested = false := by
  unfold waitAndPop
  split_ifs with h hw
  · exact iff_of_false (by simp) fun hp => by simp [hp.1] at h
  · simp_all
  · cases hq : q.theQueue <;> simp_all

end ThreadsafeQueue
