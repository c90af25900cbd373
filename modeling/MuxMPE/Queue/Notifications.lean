import MuxMPE.Queue.Threads

/-!
# Queue/Notifications — no notification is lost

One thread consumes with `wait_and_pop`, one may block in `push_wait_if_full`; every thread may
`push`, `try_pop` and `trigger_wakeup`.  Between the unlock of a critical section and its
`notify_one` a sleeper's condition can already hold.  `Waits` is the invariant of that window: a
sleeper whose condition holds is owed a notification by a thread that has not sent it yet.

The two condition variables are told apart by a `Bool`, `true` being `the_rx_notification`.
-/

variable {T ι : Type*}

namespace QueueThreads

/-! ## The two condition variables -/

/-- The thread owes a `notify_one` on this condition variable. -/
def Pc.notify : Bool → Pc T
  | true => .notifyRx
  | false => .notifyTx

/-- The prebuffering, or threshold, of a thread asleep on this condition variable. -/
def Pc.asleepOn : Bool → Pc T → Option ℕ
  | true, .rxAsleep prebuffering => some prebuffering
  | false, .txAsleep _ threshold => some threshold
  | _, _ => none

/-- The same, for a thread that has not left the waiting loop. -/
def Pc.waitsOn : Bool → Pc T → Option ℕ
  | true, .rxAsleep prebuffering | true, .rxAwake prebuffering => some prebuffering
  | false, .txAsleep _ threshold | false, .txAwake _ threshold => some threshold
  | _, _ => none

/-- The condition of the waiting loop is false: its thread could go on. -/
def Ready : Bool → ℕ → ThreadsafeQueue T → Prop
  | true, prebuffering, q => prebuffering ≤ q.theQueue.length ∨ q.wakeupRequested = true
  | false, threshold, q => q.theQueue.length < threshold

theorem Pc.waitsOn_of_asleepOn {b : Bool} {pc : Pc T} {n : ℕ} (h : pc.asleepOn b = some n) :
    pc.waitsOn b = some n := by
  rcases b <;> rcases pc <;> simp_all [Pc.asleepOn, Pc.waitsOn]

theorem Pc.asleepOn_of_wokenOn {b : Bool} {pc pc' : Pc T} (h : pc.wokenOn b = some pc') :
    ∃ n, pc.asleepOn b = some n := by
  rcases b <;> rcases pc <;> simp_all [Pc.asleepOn, Pc.wokenOn]

/-- Waking changes nothing but that the thread sleeps no more. -/
theorem Pc.woken_spec {b : Bool} {pc pc' : Pc T} (h : pc.wokenOn b = some pc') (c : Bool) :
    pc'.asleepOn c = none ∧ pc'.waitsOn c = pc.waitsOn c ∧ pc ≠ .notify c ∧ pc' ≠ .notify c := by
  rcases b <;> rcases pc <;> simp only [Pc.wokenOn, Bool.false_eq_true, if_false, if_true,
    Option.some.injEq, reduceCtorEq] at h <;> subst h <;> rcases c <;>
    simp [Pc.asleepOn, Pc.waitsOn, Pc.notify]

theorem Pc.wokenOn_eq_none {b : Bool} {pc : Pc T} (h : pc.wokenOn b = none) :
    pc.asleepOn b = none := by
  rcases b <;> rcases pc <;> simp_all [Pc.asleepOn, Pc.wokenOn]

/-! ## The roles and the invariant -/

/-- Who blocks on the queue, and on what. -/
structure Roles (ι : Type*) where
  consumer : ι
  prebuffering : ℕ
  producer : ι
  threshold : ℕ

/-- The calls the roles leave to each thread. -/
def Roles.Allows (r : Roles ι) : Action ι T → Prop
  | .waitAndPop i prebuffering => i = r.consumer ∧ prebuffering = r.prebuffering
  | .pushWaitIfFull i _ threshold => i = r.producer ∧ threshold = r.threshold
  | _ => True

/-- The thread that blocks on a condition variable, and what it blocks with. -/
def Roles.on (r : Roles ι) : Bool → ι × ℕ
  | true => (r.consumer, r.prebuffering)
  | false => (r.producer, r.threshold)

/-- **The invariant of the window**: waiting keeps to the roles, and a sleeper that could go on is
owed a notification. -/
structure Waits (r : Roles ι) (s : State ι T) : Prop where
  role : ∀ b i n, (s.pc i).waitsOn b = some n → (i, n) = r.on b
  owed : ∀ b i n, (s.pc i).asleepOn b = some n → Ready b n s.queue → ∃ j, s.pc j = .notify b

section Window

variable [DecidableEq ι] {r : Roles ι} {s t : State ι T}

/-- **The rule for a critical section.**  `i` owed nothing; where the section makes a condition true
`i` now owes the notification, and where it puts `i` to sleep the condition is false. -/
theorem Waits.update (h : Waits r s) {i : ι} {q : ThreadsafeQueue T} {pc : Pc T}
    (hi : ∀ b, s.pc i ≠ .notify b) (hrole : ∀ b n, pc.waitsOn b = some n → (i, n) = r.on b)
    (howed : ∀ b, pc = .notify b ∨ ∀ n, Ready b n q → Ready b n s.queue)
    (hsleep : ∀ b n, pc.asleepOn b = some n → ¬ Ready b n q) :
    Waits r { queue := q, pc := Function.update s.pc i pc } where
  role b j n hj := by
    obtain rfl | hne := eq_or_ne j i
    · exact hrole b n (by simpa using hj)
    · exact h.role b j n (by simpa [hne] using hj)
  owed b j n hj hready := by
    obtain rfl | hne := eq_or_ne j i
    · exact absurd hready (hsleep b n (by simpa using hj))
    obtain rfl | howed := howed b
    · exact ⟨i, by simp⟩
    · obtain ⟨k, hk⟩ := h.owed b j n (by simpa [hne] using hj) (howed n hready)
      have hki : k ≠ i := fun heq => hi b (heq ▸ hk)
      exact ⟨k, by simpa [hki] using hk⟩

theorem not_notify_of_waitsOn {pc : Pc T} {b : Bool} {n : ℕ} (h : pc.waitsOn b = some n)
    (c : Bool) : pc ≠ .notify c := by
  rintro rfl
  rcases b <;> rcases c <;> simp [Pc.notify, Pc.waitsOn] at h

theorem Waits.pushWait (h : Waits r s) {i : ι} {val : T} {threshold : ℕ} {es : List (Event T)}
    (hi : ∀ b, s.pc i ≠ .notify b) (hrole : (i, threshold) = r.on false)
    (hsec : pushWaitSection s i val threshold = (t, es)) : Waits r t := by
  obtain ⟨hfull, heq⟩ | ⟨_, heq⟩ := pushWaitSection_cases s i val threshold <;>
    obtain ⟨rfl, rfl⟩ := Prod.mk.inj (heq.symm.trans hsec)
  · refine h.update hi (fun b n hn => ?_) (fun _ => Or.inr fun _ => id) fun b n hn => ?_ <;>
      rcases b <;> simp only [Pc.waitsOn, Pc.asleepOn, Option.some.injEq, reduceCtorEq] at hn <;>
      subst hn
    · exact hrole
    · exact Nat.not_lt.mpr hfull
  · refine h.update hi (by simp [Pc.waitsOn]) (fun b => ?_) (by simp [Pc.asleepOn])
    cases b with
    | false =>
      refine Or.inr fun n hn => ?_
      simp only [Ready, List.length_append, List.length_singleton] at hn ⊢
      omega
    | true =>
      exact Or.inl rfl

theorem Waits.waitAndPop (h : Waits r s) {i : ι} {prebuffering : ℕ} {es : List (Event T)}
    (hi : ∀ b, s.pc i ≠ .notify b) (hrole : (i, prebuffering) = r.on true)
    (hsec : waitAndPopSection s i prebuffering = (t, es)) : Waits r t := by
  rcases waitAndPopSection_cases s i prebuffering with ⟨hlt, hw, heq⟩ | ⟨hw, heq⟩ |
      ⟨val, q, _, hw, hq, hw', heq⟩ | ⟨_, _, _, heq⟩ <;>
    obtain ⟨rfl, rfl⟩ := Prod.mk.inj (heq.symm.trans hsec)
  · refine h.update hi (fun b n hn => ?_) (fun _ => Or.inr fun _ => id) fun b n hn => ?_ <;>
      rcases b <;> simp only [Pc.waitsOn, Pc.asleepOn, Option.some.injEq, reduceCtorEq] at hn <;>
      subst hn
    · exact hrole
    · simp only [Ready, hw, Bool.false_eq_true, or_false]
      omega
  · refine h.update hi (by simp [Pc.waitsOn]) (fun b => Or.inr fun n hn => ?_)
      (by simp [Pc.asleepOn])
    cases b with
    | false =>
      exact hn
    | true =>
      exact Or.inr hw
  · refine h.update hi (by simp [Pc.waitsOn]) (fun b => ?_) (by simp [Pc.asleepOn])
    cases b with
    | false =>
      exact Or.inl rfl
    | true =>
      refine Or.inr fun n hn => Or.inl ?_
      have hle : n ≤ q.theQueue.length := by simpa [Ready, hw'] using hn
      rw [hq, List.length_cons]
      omega
  · exact h.update hi (by simp [Pc.waitsOn]) (fun _ => Or.inr fun _ => id) (by simp [Pc.asleepOn])

theorem Waits.push (h : Waits r s) {i : ι} {overload : Overload} {val : T} {maxSize : ℕ}
    {es : List (Event T)} (hi : ∀ b, s.pc i ≠ .notify b)
    (hsec : pushSection s i overload val maxSize = (t, es)) : Waits r t := by
  obtain ⟨_, _, heq⟩ | ⟨_, heq⟩ := pushSection_cases s i overload val maxSize <;>
    obtain ⟨rfl, rfl⟩ := Prod.mk.inj (heq.symm.trans hsec)
  · exact h.update hi (by simp [Pc.waitsOn]) (fun _ => Or.inr fun _ => id) (by simp [Pc.asleepOn])
  · refine h.update hi (by simp [Pc.waitsOn]) (fun b => ?_) (by simp [Pc.asleepOn])
    cases b with
    | false =>
      refine Or.inr fun n hn => ?_
      simp only [Ready, List.length_append, List.length_singleton] at hn ⊢
      omega
    | true =>
      exact Or.inl rfl

theorem Waits.tryPop (h : Waits r s) {i : ι} {es : List (Event T)}
    (hi : ∀ b, s.pc i ≠ .notify b) (hsec : tryPopSection s i = (t, es)) : Waits r t := by
  obtain ⟨_, heq⟩ | ⟨v, q, hq, hw, heq⟩ := tryPopSection_cases s i <;>
    obtain ⟨rfl, rfl⟩ := Prod.mk.inj (heq.symm.trans hsec)
  · exact h
  · refine h.update hi (by simp [Pc.waitsOn]) (fun b => ?_) (by simp [Pc.asleepOn])
    cases b with
    | false =>
      exact Or.inl rfl
    | true =>
      refine Or.inr fun n hn => hn.imp (fun hle => ?_) fun hwakeup => hw ▸ hwakeup
      rw [hq, List.length_cons]
      omega

/-- **The notification is sent**: afterwards nobody sleeps on that condition variable, since who
slept there was the one thread that may, and it is the one woken. -/
theorem Waits.notifyOne [Fintype ι] (h : Waits r s) {i : ι} {b : Bool} {sleeper : Option ι}
    (hi : s.pc i = .notify b) (hn : notifyOne s i b sleeper = some t) : Waits r t := by
  obtain ⟨hq, hpc⟩ := notifyOne_cases hn
  have hwaits : ∀ j c n, (t.pc j).waitsOn c = some n → (s.pc j).waitsOn c = some n := by
    intro j c n hj
    obtain ⟨_, _, hpc⟩ | ⟨k, pc, _, hk, hpc⟩ := hpc <;> rw [hpc] at hj <;>
      obtain rfl | hne := eq_or_ne j i
    · simp [Pc.waitsOn] at hj
    · simpa [hne] using hj
    · simp [Pc.waitsOn] at hj
    · obtain rfl | hne' := eq_or_ne j k
      · simpa [hne, (Pc.woken_spec hk c).2.1] using hj
      · simpa [hne, hne'] using hj
  have hasleep : ∀ j c n, (t.pc j).asleepOn c = some n → c ≠ b ∧ (s.pc j).asleepOn c = some n := by
    intro j c n hj
    obtain ⟨_, hnone, hpc⟩ | ⟨k, pc, _, hk, hpc⟩ := hpc <;> rw [hpc] at hj <;>
      obtain rfl | hne := eq_or_ne j i
    · simp [Pc.asleepOn] at hj
    · have hj' : (s.pc j).asleepOn c = some n := by simpa [hne] using hj
      exact ⟨fun heq => by simp [Pc.wokenOn_eq_none (heq ▸ hnone j)] at hj', hj'⟩
    · simp [Pc.asleepOn] at hj
    · obtain rfl | hne' := eq_or_ne j k
      · simp [hne, (Pc.woken_spec hk c).1] at hj
      · have hj' : (s.pc j).asleepOn c = some n := by simpa [hne, hne'] using hj
        refine ⟨?_, hj'⟩
        rintro rfl
        obtain ⟨m, hm⟩ := Pc.asleepOn_of_wokenOn hk
        have hrole := (h.role c j n (Pc.waitsOn_of_asleepOn hj')).trans
          (h.role c k m (Pc.waitsOn_of_asleepOn hm)).symm
        exact hne' (Prod.mk.inj hrole).1
  refine ⟨fun c j n hj => h.role c j n (hwaits j c n hj), fun c j n hj hready => ?_⟩
  obtain ⟨hcb, hj'⟩ := hasleep j c n hj
  obtain ⟨k, hk⟩ := h.owed c j n hj' (hq ▸ hready)
  have hki : k ≠ i := by
    rintro rfl
    rcases c <;> rcases b <;> simp_all [Pc.notify]
  obtain ⟨_, _, hpc⟩ | ⟨l, pc, _, hl, hpc⟩ := hpc
  · exact ⟨k, by simpa [hpc, hki] using hk⟩
  · have hkl : k ≠ l := fun heq => (Pc.woken_spec hl c).2.2.1 (heq ▸ hk)
    exact ⟨k, by simpa [hpc, hki, hkl] using hk⟩

theorem Waits.step [Fintype ι] {a : Action ι T} {es : List (Event T)} (ha : r.Allows a)
    (h : Waits r s) (hstep : (machine ι T).step s a = some (t, es)) : Waits r t := by
  have hidle : ∀ {i : ι}, s.pc i = .idle → ∀ b, s.pc i ≠ .notify b := by
    intro i hi b
    rcases b <;> simp [hi, Pc.notify]
  cases a with
  | push i o v m =>
    obtain ⟨hi, hsec⟩ := step_push.mp hstep
    exact h.push (hidle hi) hsec
  | pushWaitIfFull i v th =>
    obtain ⟨hi, hsec⟩ := step_pushWaitIfFull.mp hstep
    exact h.pushWait (hidle hi) (Prod.ext ha.1 ha.2) hsec
  | tryPop i =>
    obtain ⟨hi, hsec⟩ := step_tryPop.mp hstep
    exact h.tryPop (hidle hi) hsec
  | waitAndPop i p =>
    obtain ⟨hi, hsec⟩ := step_waitAndPop.mp hstep
    exact h.waitAndPop (hidle hi) (Prod.ext ha.1 ha.2) hsec
  | triggerWakeup i =>
    obtain ⟨hi, hsec⟩ := step_triggerWakeup.mp hstep
    obtain ⟨rfl, rfl⟩ := Prod.mk.inj hsec
    refine h.update (hidle hi) (by simp [Pc.waitsOn]) (fun b => ?_) (by simp [Pc.asleepOn])
    cases b with
    | false =>
      exact Or.inr fun _ => id
    | true =>
      exact Or.inl rfl
  | retake i =>
    obtain ⟨v, th, hpc, hsec⟩ | ⟨p, hpc, hsec⟩ := step_retake.mp hstep
    · have hwait : (s.pc i).waitsOn false = some th := by rw [hpc]; rfl
      exact h.pushWait (not_notify_of_waitsOn hwait) (h.role false i th hwait) hsec
    · have hwait : (s.pc i).waitsOn true = some p := by rw [hpc]; rfl
      exact h.waitAndPop (not_notify_of_waitsOn hwait) (h.role true i p hwait) hsec
  | notifyOne i j =>
    obtain ⟨b, u, hi, hu, heq⟩ := step_notifyOne.mp hstep
    obtain ⟨rfl, rfl⟩ := Prod.mk.inj heq
    exact h.notifyOne (b := b) (by rw [hi]; rcases b <;> rfl) hu
  | spuriousWakeup i =>
    obtain ⟨b, pc, hpc, heq⟩ := step_spuriousWakeup.mp hstep
    obtain ⟨rfl, rfl⟩ := Prod.mk.inj heq
    refine h.update (fun c => (Pc.woken_spec hpc c).2.2.1) (fun c n hn => h.role c i n ?_)
      (fun _ => Or.inr fun _ => id) fun c n hn => ?_
    · rw [← (Pc.woken_spec hpc c).2.1, hn]
    · simp [(Pc.woken_spec hpc c).1] at hn

/-- The invariant holds along every run that keeps to the roles. -/
theorem Waits.run [Fintype ι] {as : List (Action ι T)} {es : List (Event T)}
    (hrun : (machine ι T).Run as es s) (has : ∀ a ∈ as, r.Allows a) : Waits r s :=
  hrun.invariant has
    ⟨fun b i n hn => by rcases b <;> simp [machine, Pc.waitsOn] at hn,
      fun b i n hn => by rcases b <;> simp [machine, Pc.asleepOn] at hn⟩
    fun _ _ _ _ ha h hstep => h.step ha hstep

/-! ## No lost notification, no deadlock -/

/-- **No notification is lost.**  A consumer asleep while it could be served, or a wakeup is
requested, is about to be notified; so is a blocking producer asleep while there is room.  Where
`prebuffering ≤ threshold` the two conditions are never both false, so the two threads are never
both left asleep.  No bound on the prebuffering is needed: with none the consumer never sleeps. -/
theorem no_lost_notification [Fintype ι] {as : List (Action ι T)} {es : List (Event T)}
    (hrun : (machine ι T).Run as es s) (has : ∀ a ∈ as, r.Allows a) :
    ((∃ p, s.pc r.consumer = .rxAsleep p) →
      r.prebuffering ≤ s.queue.theQueue.length ∨ s.queue.wakeupRequested = true →
      ∃ j, s.pc j = .notifyRx) ∧
    ((∃ v th, s.pc r.producer = .txAsleep v th) → s.queue.theQueue.length < r.threshold →
      ∃ j, s.pc j = .notifyTx) ∧
    (r.prebuffering ≤ r.threshold →
      ¬ ((∃ p, s.pc r.consumer = .rxAsleep p) ∧ (∃ v th, s.pc r.producer = .txAsleep v th) ∧
        ∀ j, s.pc j ≠ .notifyRx ∧ s.pc j ≠ .notifyTx)) := by
  have h := Waits.run hrun has
  have hrx : (∃ p, s.pc r.consumer = .rxAsleep p) →
      r.prebuffering ≤ s.queue.theQueue.length ∨ s.queue.wakeupRequested = true →
      ∃ j, s.pc j = .notifyRx := by
    rintro ⟨p, hp⟩ hready
    have hasleep : (s.pc r.consumer).asleepOn true = some p := by rw [hp]; rfl
    obtain rfl : p = r.prebuffering :=
      (Prod.mk.inj (h.role true _ p (Pc.waitsOn_of_asleepOn hasleep))).2
    exact h.owed true _ _ hasleep hready
  have htx : (∃ v th, s.pc r.producer = .txAsleep v th) →
      s.queue.theQueue.length < r.threshold → ∃ j, s.pc j = .notifyTx := by
    rintro ⟨v, th, hp⟩ hready
    have hasleep : (s.pc r.producer).asleepOn false = some th := by rw [hp]; rfl
    obtain rfl : th = r.threshold :=
      (Prod.mk.inj (h.role false _ th (Pc.waitsOn_of_asleepOn hasleep))).2
    exact h.owed false _ _ hasleep hready
  refine ⟨hrx, htx, fun hle => ?_⟩
  rintro ⟨hrxAsleep, htxAsleep, hnone⟩
  obtain hlt | hge := Nat.lt_or_ge s.queue.theQueue.length r.threshold
  · obtain ⟨j, hj⟩ := htx htxAsleep hlt
    exact (hnone j).2 hj
  · obtain ⟨j, hj⟩ := hrx hrxAsleep (Or.inl (hle.trans hge))
    exact (hnone j).1 hj

/-- Three threads with threshold 1: the consumer and the producer both asleep, an element in the
queue, and the one notification that saves them still to be sent. -/
theorem no_lost_notification_window : ∃ s es,
    (machine (Fin 3) ℕ).Run [.waitAndPop 1 1, .push 0 .move 7 0, .pushWaitIfFull 2 8 1] es s ∧
    s.pc 1 = .rxAsleep 1 ∧ s.pc 2 = .txAsleep 8 1 ∧ ∃ j, s.pc j = .notifyRx := by
  refine ⟨_, _, Machine.steps_get (by decide), rfl, rfl,
    (no_lost_notification (r := ⟨1, 1, 2, 1⟩) (Machine.steps_get (by decide)) ?_).1
      ⟨1, rfl⟩ (Or.inl (by decide))⟩
  simp [Roles.Allows]

end Window

end QueueThreads
