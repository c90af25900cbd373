import MuxMPE.Queue.Threads

/-!
# Queue/Lossless — the queue of any number of threads is a first-in first-out store

`store` simulates the threads by `Fifo.machine`: every critical section that touches `the_queue` is
one `put`, one `take`, or none.  The law of the store is then the law of the queue
(`lossless_fifo`), together with what the callers are told: who is dropped, that a throw takes
nothing, and how far the bounds of the pushes reach.
-/

variable {T ι : Type*}

namespace QueueThreads

/-! ## Histories -/

/-- The elements whose push went in, in the order of the critical sections. -/
def accepted (es : List (Event T)) : List T :=
  es.filterMap fun | .accepted v => some v | _ => none

/-- The elements handed to a caller of `try_pop` or `wait_and_pop`. -/
def returned (es : List (Event T)) : List T :=
  es.filterMap fun | .returned v => some v | _ => none

/-- What went in. -/
theorem puts_flatMap_see (es : List (Event T)) : Fifo.puts (es.flatMap Event.see) = accepted es := by
  induction es with
  | nil => rfl
  | cons e es ih =>
    rw [List.flatMap_cons, Fifo.puts_append, ih]
    rcases e <;> rfl

/-- What was handed out. -/
theorem takes_flatMap_see (es : List (Event T)) :
    Fifo.takes (es.flatMap Event.see) = returned es := by
  induction es with
  | nil => rfl
  | cons e es ih =>
    rw [List.flatMap_cons, Fifo.takes_append, ih]
    rcases e <;> rfl

section Store

/-! ## One step on the store -/

/-- What a step does to `the_queue`, with the events it shows. -/
inductive StoreEffect (s t : State ι T) : List (Event T) → Prop
  | put (v : T) (h : t.queue.theQueue = s.queue.theQueue ++ [v]) : StoreEffect s t [.accepted v]
  | take (v : T) (h : s.queue.theQueue = v :: t.queue.theQueue) : StoreEffect s t [.returned v]
  | silent (h : t.queue.theQueue = s.queue.theQueue) : StoreEffect s t []
  | thrown (h : t.queue.theQueue = s.queue.theQueue) : StoreEffect s t [.thrown]
  | dropped (v : T) (h : t.queue.theQueue = s.queue.theQueue) : StoreEffect s t [.dropped v]

variable [DecidableEq ι]

theorem storeEffect_pushWait {s t : State ι T} {i : ι} {val : T} {threshold : ℕ}
    {es : List (Event T)} (h : pushWaitSection s i val threshold = (t, es)) :
    StoreEffect s t es := by
  obtain ⟨_, heq⟩ | ⟨_, heq⟩ := pushWaitSection_cases s i val threshold <;>
    obtain ⟨rfl, rfl⟩ := Prod.mk.inj (heq.symm.trans h)
  · exact .silent rfl
  · exact .put val rfl

theorem storeEffect_waitAndPop {s t : State ι T} {i : ι} {prebuffering : ℕ} {es : List (Event T)}
    (h : waitAndPopSection s i prebuffering = (t, es)) : StoreEffect s t es := by
  rcases waitAndPopSection_cases s i prebuffering with ⟨_, _, heq⟩ | ⟨_, heq⟩ |
      ⟨val, q, _, _, hq, _, heq⟩ | ⟨_, _, _, heq⟩ <;>
    obtain ⟨rfl, rfl⟩ := Prod.mk.inj (heq.symm.trans h)
  · exact .silent rfl
  · exact .thrown rfl
  · exact .take val hq
  · exact .silent rfl

/-- **Every step is one of a store.** -/
theorem storeEffect_of_step [Fintype ι] {s t : State ι T} {a : Action ι T} {es : List (Event T)}
    (h : (machine ι T).step s a = some (t, es)) : StoreEffect s t es := by
  cases a with
  | push i o v m =>
    obtain ⟨_, h⟩ := step_push.mp h
    obtain ⟨_, _, heq⟩ | ⟨_, heq⟩ := pushSection_cases s i o v m <;>
      obtain ⟨rfl, rfl⟩ := Prod.mk.inj (heq.symm.trans h)
    · exact .dropped v rfl
    · exact .put v rfl
  | pushWaitIfFull i v th =>
    exact storeEffect_pushWait (step_pushWaitIfFull.mp h).2
  | tryPop i =>
    obtain ⟨_, h⟩ := step_tryPop.mp h
    obtain ⟨_, heq⟩ | ⟨v, q, hq, _, heq⟩ := tryPopSection_cases s i <;>
      obtain ⟨rfl, rfl⟩ := Prod.mk.inj (heq.symm.trans h)
    · exact .silent rfl
    · exact .take v hq
  | waitAndPop i p =>
    exact storeEffect_waitAndPop (step_waitAndPop.mp h).2
  | triggerWakeup i =>
    obtain ⟨_, h⟩ := step_triggerWakeup.mp h
    obtain ⟨rfl, rfl⟩ := Prod.mk.inj h
    exact .silent rfl
  | retake i =>
    obtain ⟨_, _, _, h⟩ | ⟨_, _, h⟩ := step_retake.mp h
    · exact storeEffect_pushWait h
    · exact storeEffect_waitAndPop h
  | notifyOne i j =>
    obtain ⟨_, u, _, hu, heq⟩ := step_notifyOne.mp h
    obtain ⟨rfl, rfl⟩ := Prod.mk.inj heq
    exact .silent (congrArg _ (notifyOne_cases hu).1)
  | spuriousWakeup i =>
    obtain ⟨_, _, _, heq⟩ := step_spuriousWakeup.mp h
    obtain ⟨rfl, rfl⟩ := Prod.mk.inj heq
    exact .silent rfl

/-- **The threads' queue is a store**: a critical section is one operation on it, or none. -/
def store [Fintype ι] : Machine.Simulation (machine ι T) (Fifo.machine T) Event.see where
  rel s q := s.queue.theQueue = q
  init := rfl
  step := by
    rintro s t a es q rfl hstep
    cases storeEffect_of_step hstep with
    | put v h => exact ⟨[.put v], _, .single rfl, h⟩
    | take v h => exact ⟨[.take], _, .single (by rw [h]; rfl), rfl⟩
    | silent h | thrown h | dropped _ h => exact ⟨[], _, .refl, h⟩

/-! ## Bounds -/

/-- The bound a call pushes under: `max_size`, or the threshold it waits for. -/
def Action.bound : Action ι T → Option ℕ
  | .push _ _ _ maxSize => some maxSize
  | .pushWaitIfFull _ _ threshold => some threshold
  | _ => none

/-- The threshold a thread inside `push_wait_if_full` waits for. -/
def Pc.threshold : Pc T → Option ℕ
  | .txAsleep _ threshold | .txAwake _ threshold => some threshold
  | _ => none

/-- A woken thread still waits for the same threshold. -/
theorem Pc.threshold_of_wokenOn {pc pc' : Pc T} {rx : Bool} (h : pc.wokenOn rx = some pc') :
    pc'.threshold = pc.threshold := by
  rcases pc with _ | _ | _ | _ | _ | _ | _ | _ <;> rcases rx <;>
    simp only [Pc.wokenOn, Option.some.injEq, reduceCtorEq, Bool.false_eq_true, if_false,
      if_true] at h <;>
    subst h <;> rfl

/-- What keeps the queue within `B`: its length, and the thresholds still being waited for. -/
structure Bounded (B : ℕ) (s : State ι T) : Prop where
  length_le : s.queue.theQueue.length ≤ B
  threshold_le : ∀ i, ∀ b ∈ (s.pc i).threshold, b ≤ B

/-- The bound is kept by a bounded queue and a thread that waits within it. -/
theorem Bounded.update {B : ℕ} {s : State ι T} (h : Bounded B s) {q : ThreadsafeQueue T} {i : ι}
    {pc : Pc T} (hq : q.theQueue.length ≤ B) (hpc : ∀ b ∈ pc.threshold, b ≤ B) :
    Bounded B { queue := q, pc := Function.update s.pc i pc } := by
  refine ⟨hq, fun j b hb => ?_⟩
  obtain rfl | hne := eq_or_ne j i
  · exact hpc b (by simpa using hb)
  · exact h.threshold_le j b (by simpa [hne] using hb)

theorem Bounded.pushWait {B : ℕ} {s t : State ι T} (h : Bounded B s) {i : ι} {val : T}
    {threshold : ℕ} {es : List (Event T)} (hB : threshold ≤ B)
    (hsec : pushWaitSection s i val threshold = (t, es)) : Bounded B t := by
  obtain ⟨_, heq⟩ | ⟨hlt, heq⟩ := pushWaitSection_cases s i val threshold <;>
    obtain ⟨rfl, rfl⟩ := Prod.mk.inj (heq.symm.trans hsec)
  · exact h.update h.length_le fun b hb => by simp [Pc.threshold] at hb; omega
  · exact h.update (by simp; omega) (by simp [Pc.threshold])

theorem Bounded.waitAndPop {B : ℕ} {s t : State ι T} (h : Bounded B s) {i : ι} {prebuffering : ℕ}
    {es : List (Event T)} (hsec : waitAndPopSection s i prebuffering = (t, es)) :
    Bounded B t := by
  have hlen := h.length_le
  rcases waitAndPopSection_cases s i prebuffering with ⟨_, _, heq⟩ | ⟨_, heq⟩ |
      ⟨val, q, _, _, hq, _, heq⟩ | ⟨_, _, _, heq⟩ <;>
    obtain ⟨rfl, rfl⟩ := Prod.mk.inj (heq.symm.trans hsec)
  · exact h.update hlen (by simp [Pc.threshold])
  · exact h.update hlen (by simp [Pc.threshold])
  · rw [hq, List.length_cons] at hlen
    exact h.update (by omega) (by simp [Pc.threshold])
  · exact h.update hlen (by simp [Pc.threshold])

/-- **The bound is kept by every step** within it. -/
theorem Bounded.step [Fintype ι] {B : ℕ} {s t : State ι T} {a : Action ι T} {es : List (Event T)}
    (ha : ∀ b ∈ a.bound, 1 ≤ b ∧ b ≤ B) (h : Bounded B s)
    (hstep : (machine ι T).step s a = some (t, es)) : Bounded B t := by
  have hlen := h.length_le
  cases a with
  | push i o v m =>
    obtain ⟨_, hsec⟩ := step_push.mp hstep
    obtain ⟨hpos, hle⟩ := ha m rfl
    obtain ⟨_, _, heq⟩ | ⟨hroom, heq⟩ := pushSection_cases s i o v m <;>
      obtain ⟨rfl, rfl⟩ := Prod.mk.inj (heq.symm.trans hsec)
    · exact h.update hlen (by simp [Pc.threshold])
    · exact h.update (by simp; omega) (by simp [Pc.threshold])
  | pushWaitIfFull i v th =>
    exact h.pushWait (ha th rfl).2 (step_pushWaitIfFull.mp hstep).2
  | tryPop i =>
    obtain ⟨_, hsec⟩ := step_tryPop.mp hstep
    obtain ⟨_, heq⟩ | ⟨v, q, hq, _, heq⟩ := tryPopSection_cases s i <;>
      obtain ⟨rfl, rfl⟩ := Prod.mk.inj (heq.symm.trans hsec)
    · exact h
    · rw [hq, List.length_cons] at hlen
      exact h.update (by omega) (by simp [Pc.threshold])
  | waitAndPop i p =>
    exact h.waitAndPop (step_waitAndPop.mp hstep).2
  | triggerWakeup i =>
    obtain ⟨_, hsec⟩ := step_triggerWakeup.mp hstep
    obtain ⟨rfl, rfl⟩ := Prod.mk.inj hsec
    exact h.update hlen (by simp [Pc.threshold])
  | retake i =>
    obtain ⟨v, th, hpc, hsec⟩ | ⟨p, _, hsec⟩ := step_retake.mp hstep
    · exact h.pushWait (h.threshold_le i th (by simp [hpc, Pc.threshold])) hsec
    · exact h.waitAndPop hsec
  | notifyOne i j =>
    obtain ⟨_, u, _, hu, heq⟩ := step_notifyOne.mp hstep
    obtain ⟨rfl, rfl⟩ := Prod.mk.inj heq
    obtain ⟨hq, hpc⟩ := notifyOne_cases hu
    obtain ⟨uq, upc⟩ := u
    subst hq
    obtain ⟨_, _, rfl⟩ | ⟨k, pc, _, hk, rfl⟩ := hpc
    · exact h.update hlen (by simp [Pc.threshold])
    · have hwoken : Bounded B { s with pc := Function.update s.pc k pc } :=
        h.update hlen fun b hb => h.threshold_le k b (Pc.threshold_of_wokenOn hk ▸ hb)
      exact hwoken.update hlen (by simp [Pc.threshold])
  | spuriousWakeup i =>
    obtain ⟨_, pc, hpc, heq⟩ := step_spuriousWakeup.mp hstep
    obtain ⟨rfl, rfl⟩ := Prod.mk.inj heq
    exact h.update hlen fun b hb => h.threshold_le i b (Pc.threshold_of_wokenOn hpc ▸ hb)

/-- **So it holds throughout a run.** -/
theorem Bounded.run [Fintype ι] {B : ℕ} {as : List (Action ι T)} {es : List (Event T)} {s : State ι T}
    (hrun : (machine ι T).Run as es s) (has : ∀ a ∈ as, ∀ b ∈ a.bound, 1 ≤ b ∧ b ≤ B) :
    Bounded B s :=
  hrun.invariant has ⟨Nat.zero_le B, by simp [machine, Pc.threshold]⟩
    fun _ _ _ _ ha h hstep => h.step ha hstep

/-! ## The contract of the queue -/

/-- What a caller is told by the step `s ──a / es──▸ t`. -/
structure CallerTold (s : State ι T) (a : Action ι T) (t : State ι T) (es : List (Event T)) :
    Prop where
  /-- a push is dropped exactly when it has a bound and the queue has reached it -/
  push : ∀ i overload val maxSize, a = .push i overload val maxSize →
    es = [if 0 < maxSize ∧ maxSize ≤ s.queue.theQueue.length then .dropped val else .accepted val]
  /-- nothing else drops -/
  dropped : ∀ val, .dropped val ∈ es → ∃ i overload maxSize, a = .push i overload val maxSize
  /-- a `push_wait_if_full` goes in or keeps its element waiting -/
  pushWait : ∀ i val threshold, a = .pushWaitIfFull i val threshold ∨
      (a = .retake i ∧ s.pc i = .txAwake val threshold) →
    es = [.accepted val] ∨ (es = [] ∧ t.pc i = .txAsleep val threshold)
  /-- a throw leaves the queue as it was -/
  thrown : .thrown ∈ es → t.queue.theQueue = s.queue.theQueue

/-- `push_wait_if_full` has accepted its element or sleeps with it. -/
theorem told_pushWaitSection {s t : State ι T} {i : ι} {val : T} {threshold : ℕ}
    {es : List (Event T)} (h : pushWaitSection s i val threshold = (t, es)) :
    es = [.accepted val] ∨ (es = [] ∧ t.pc i = .txAsleep val threshold) := by
  obtain ⟨_, heq⟩ | ⟨_, heq⟩ := pushWaitSection_cases s i val threshold <;>
    obtain ⟨rfl, rfl⟩ := Prod.mk.inj (heq.symm.trans h)
  · exact Or.inr ⟨rfl, by simp⟩
  · exact Or.inl rfl

theorem not_dropped_waitAndPopSection {s t : State ι T} {i : ι} {prebuffering : ℕ}
    {es : List (Event T)} (h : waitAndPopSection s i prebuffering = (t, es)) (val : T) :
    .dropped val ∉ es := by
  rcases waitAndPopSection_cases s i prebuffering with ⟨_, _, heq⟩ | ⟨_, heq⟩ |
      ⟨_, q, _, _, _, _, heq⟩ | ⟨_, _, _, heq⟩ <;>
    obtain ⟨rfl, rfl⟩ := Prod.mk.inj (heq.symm.trans h) <;> simp

theorem not_dropped_pushWaitSection {s t : State ι T} {i : ι} {val : T} {threshold : ℕ}
    {es : List (Event T)} (h : pushWaitSection s i val threshold = (t, es)) (v : T) :
    .dropped v ∉ es := by
  obtain rfl | ⟨rfl, _⟩ := told_pushWaitSection h <;> simp

/-- Only `push` discards, and it tells its caller. -/
theorem callerTold_of_step [Fintype ι] {s t : State ι T} {a : Action ι T} {es : List (Event T)}
    (h : (machine ι T).step s a = some (t, es)) : CallerTold s a t es where
  push := by
    rintro i o v m rfl
    obtain ⟨_, hsec⟩ := step_push.mp h
    obtain ⟨hpos, hle, heq⟩ | ⟨hroom, heq⟩ := pushSection_cases s i o v m <;>
      obtain ⟨rfl, rfl⟩ := Prod.mk.inj (heq.symm.trans hsec)
    · rw [if_pos ⟨hpos, hle⟩]
    · rw [if_neg hroom]
  dropped := by
    intro v hv
    cases a with
    | push i o w m =>
      obtain ⟨_, hsec⟩ := step_push.mp h
      obtain ⟨_, _, heq⟩ | ⟨_, heq⟩ := pushSection_cases s i o w m <;>
        obtain ⟨rfl, rfl⟩ := Prod.mk.inj (heq.symm.trans hsec)
      · obtain rfl : v = w := by simpa using hv
        exact ⟨i, o, m, rfl⟩
      · simp at hv
    | pushWaitIfFull i w th =>
      exact absurd hv (not_dropped_pushWaitSection (step_pushWaitIfFull.mp h).2 v)
    | tryPop i =>
      obtain ⟨_, hsec⟩ := step_tryPop.mp h
      obtain ⟨_, heq⟩ | ⟨_, _, _, _, heq⟩ := tryPopSection_cases s i <;>
        obtain ⟨rfl, rfl⟩ := Prod.mk.inj (heq.symm.trans hsec) <;> simp at hv
    | waitAndPop i p =>
      exact absurd hv (not_dropped_waitAndPopSection (step_waitAndPop.mp h).2 v)
    | triggerWakeup i =>
      obtain ⟨rfl, rfl⟩ := Prod.mk.inj (step_triggerWakeup.mp h).2
      simp at hv
    | retake i =>
      obtain ⟨_, _, _, hsec⟩ | ⟨_, _, hsec⟩ := step_retake.mp h
      · exact absurd hv (not_dropped_pushWaitSection hsec v)
      · exact absurd hv (not_dropped_waitAndPopSection hsec v)
    | notifyOne i j =>
      obtain ⟨_, _, _, _, heq⟩ := step_notifyOne.mp h
      obtain ⟨rfl, rfl⟩ := Prod.mk.inj heq
      simp at hv
    | spuriousWakeup i =>
      obtain ⟨_, _, _, heq⟩ := step_spuriousWakeup.mp h
      obtain ⟨rfl, rfl⟩ := Prod.mk.inj heq
      simp at hv
  pushWait := by
    rintro i v th (rfl | ⟨rfl, hpc⟩)
    · exact told_pushWaitSection (step_pushWaitIfFull.mp h).2
    · obtain ⟨v', th', hpc', hsec⟩ | ⟨p, hpc', _⟩ := step_retake.mp h
      · obtain ⟨rfl, rfl⟩ : v = v' ∧ th = th' := by simpa using hpc.symm.trans hpc'
        exact told_pushWaitSection hsec
      · simp [hpc] at hpc'
  thrown := by
    intro hthrown
    cases storeEffect_of_step h with
    | put | take => simp at hthrown
    | silent hq | thrown hq | dropped _ hq => exact hq

/-- **`ThreadsafeQueue` is a lossless FIFO**, whatever the threads call and however they interleave:
what the pops returned, then the content, is what the pushes put in; every caller is told the truth;
and pushes that all use a bound up to `B` keep the queue within `B`. -/
theorem lossless_fifo [Fintype ι] {as : List (Action ι T)} {es : List (Event T)} {s : State ι T}
    (hrun : (machine ι T).Run as es s) :
    returned es ++ s.queue.theQueue = accepted es ∧
      (∀ a t fs, (machine ι T).step s a = some (t, fs) → CallerTold s a t fs) ∧
      ∀ B, (∀ a ∈ as, ∀ b ∈ a.bound, 1 ≤ b ∧ b ≤ B) → s.queue.theQueue.length ≤ B := by
  obtain ⟨_, q, hfifo, hq⟩ := store.run hrun
  have hhist := Fifo.run_history hfifo
  rw [puts_flatMap_see, takes_flatMap_see, ← hq] at hhist
  exact ⟨hhist, fun _ _ _ => callerTold_of_step, fun _ hB => (Bounded.run hrun hB).length_le⟩

/-- A producer and a consumer: the consumer sleeps first, the second element is dropped, the wakeup
comes after the first was handed over. -/
theorem lossless_fifo_two_threads : ∃ s es,
    (machine (Fin 2) ℕ).Run [.waitAndPop 1 1, .push 0 .copy 7 1, .notifyOne 0 (some 1),
      .push 0 .move 8 1, .notifyOne 0 none, .retake 1, .notifyOne 1 none, .push 0 .copy 9 0,
      .notifyOne 0 none, .triggerWakeup 0, .waitAndPop 1 1] es s ∧
    returned es ++ s.queue.theQueue = accepted es ∧ accepted es = [7, 9] ∧
    s.queue.theQueue = [9] := by
  refine ⟨_, _, Machine.steps_get (by decide),
    (lossless_fifo (Machine.steps_get (by decide))).1, ?_, ?_⟩ <;> decide

end Store

end QueueThreads
