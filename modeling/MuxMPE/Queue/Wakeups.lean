import MuxMPE.Queue.Threads

/-!
# Queue/Wakeups — a wakeup requested is thrown once

    trigger_wakeup   trigger_wakeup      wait_and_pop
         │ set            │ still set        │ thrown, cleared
    ░░░░░▓▓▓▓▓▓▓▓▓▓▓▓▓▓▓▓▓▓▓▓▓▓▓▓▓▓▓▓▓▓▓▓▓▓▓▓░░░░░░

`wakeup_requested` is a latch: requests that nobody has been thrown for are one, and a throw clears
them.  So one is pending exactly while nothing has been thrown since the last, and there are no more
throws than requests (`wakeups_delivered`).
-/

variable {T ι : Type*}

namespace QueueThreads

/-! ## Histories -/

def Event.isThrown : Event T → Bool
  | .thrown => true
  | _ => false

def Action.isTrigger : Action ι T → Bool
  | .triggerWakeup _ => true
  | _ => false

/-- What a step does to `wakeup_requested`, with the events it shows. -/
inductive WakeupEffect (s t : State ι T) : Action ι T → List (Event T) → Prop
  | set (i : ι) (h : t.queue.wakeupRequested = true) : WakeupEffect s t (.triggerWakeup i) []
  | throw (a : Action ι T) (h : s.queue.wakeupRequested = true)
      (h' : t.queue.wakeupRequested = false) : WakeupEffect s t a [.thrown]
  | keep (a : Action ι T) (es : List (Event T)) (ha : a.isTrigger = false)
      (hes : es.countP Event.isThrown = 0)
      (h : t.queue.wakeupRequested = s.queue.wakeupRequested) : WakeupEffect s t a es

/-! ## One step -/

section Step

variable [DecidableEq ι] {s t : State ι T} {es : List (Event T)}

theorem wakeupEffect_pushWait {i : ι} {val : T} {threshold : ℕ} {a : Action ι T}
    (ha : a.isTrigger = false) (hsec : pushWaitSection s i val threshold = (t, es)) :
    WakeupEffect s t a es := by
  obtain ⟨-, heq⟩ | ⟨-, heq⟩ := pushWaitSection_cases s i val threshold <;>
    obtain ⟨rfl, rfl⟩ := Prod.mk.inj (heq.symm.trans hsec)
  · exact .keep a _ ha rfl rfl
  · exact .keep a _ ha rfl rfl

theorem wakeupEffect_waitAndPop {i : ι} {prebuffering : ℕ} {a : Action ι T}
    (ha : a.isTrigger = false) (hsec : waitAndPopSection s i prebuffering = (t, es)) :
    WakeupEffect s t a es := by
  obtain ⟨-, -, heq⟩ | ⟨hw, heq⟩ | ⟨val, q, -, hw, -, hw', heq⟩ | ⟨-, -, -, heq⟩ :=
      waitAndPopSection_cases s i prebuffering <;>
    obtain ⟨rfl, rfl⟩ := Prod.mk.inj (heq.symm.trans hsec)
  · exact .keep a _ ha rfl rfl
  · exact .throw a hw rfl
  · exact .keep a _ ha rfl (hw'.trans hw.symm)
  · exact .keep a _ ha rfl rfl

variable [Fintype ι]

/-- **Only a trigger requests, only a throw takes back.** -/
theorem wakeupEffect_of_step {a : Action ι T} (hstep : (machine ι T).step s a = some (t, es)) :
    WakeupEffect s t a es := by
  cases a with
  | push i overload val maxSize =>
    obtain ⟨-, hsec⟩ := step_push.mp hstep
    obtain ⟨-, -, heq⟩ | ⟨-, heq⟩ := pushSection_cases s i overload val maxSize <;>
      obtain ⟨rfl, rfl⟩ := Prod.mk.inj (heq.symm.trans hsec)
    · exact .keep _ _ rfl rfl rfl
    · exact .keep _ _ rfl rfl rfl
  | pushWaitIfFull i val threshold =>
    exact wakeupEffect_pushWait rfl (step_pushWaitIfFull.mp hstep).2
  | tryPop i =>
    obtain ⟨-, hsec⟩ := step_tryPop.mp hstep
    obtain ⟨-, heq⟩ | ⟨val, q, -, hw, heq⟩ := tryPopSection_cases s i <;>
      obtain ⟨rfl, rfl⟩ := Prod.mk.inj (heq.symm.trans hsec)
    · exact .keep _ _ rfl rfl rfl
    · exact .keep _ _ rfl rfl hw
  | waitAndPop i prebuffering =>
    exact wakeupEffect_waitAndPop rfl (step_waitAndPop.mp hstep).2
  | triggerWakeup i =>
    obtain ⟨-, hsec⟩ := step_triggerWakeup.mp hstep
    obtain ⟨rfl, rfl⟩ := Prod.mk.inj hsec
    exact .set i rfl
  | retake i =>
    obtain ⟨val, threshold, -, hsec⟩ | ⟨prebuffering, -, hsec⟩ := step_retake.mp hstep
    · exact wakeupEffect_pushWait rfl hsec
    · exact wakeupEffect_waitAndPop rfl hsec
  | notifyOne i sleeper =>
    obtain ⟨rx, u, -, hnotify, heq⟩ := step_notifyOne.mp hstep
    obtain ⟨rfl, rfl⟩ := Prod.mk.inj heq
    exact .keep _ _ rfl rfl (congrArg _ (notifyOne_cases hnotify).1)
  | spuriousWakeup i =>
    obtain ⟨rx, pc, -, heq⟩ := step_spuriousWakeup.mp hstep
    obtain ⟨rfl, rfl⟩ := Prod.mk.inj heq
    exact .keep _ _ rfl rfl rfl

end Step

/-! ## Every run -/

section Run

variable [DecidableEq ι] [Fintype ι] {s t : State ι T} {as : List (Action ι T)}
  {es : List (Event T)}

/-- **A request stays until it is thrown.** -/
theorem wakeup_stays (hsteps : (machine ι T).Steps s as es t) (hes : es.countP Event.isThrown = 0)
    (h : s.queue.wakeupRequested = true) : t.queue.wakeupRequested = true := by
  induction hsteps with
  | refl => exact h
  | tail _ hstep ih =>
    rw [List.countP_append, Nat.add_eq_zero_iff] at hes
    cases wakeupEffect_of_step hstep with
    | set i hset => exact hset
    | throw a hs ht => nomatch hes.2
    | keep a es ha hnone hkeep => exact hkeep.trans (ih hes.1)

/-- There are no more throws than requests, one that is pending counted in. -/
theorem throws_le (hrun : (machine ι T).Run as es s) :
    es.countP Event.isThrown + s.queue.wakeupRequested.toNat ≤ as.countP Action.isTrigger := by
  induction hrun with
  | refl => exact Nat.le_refl _
  | @tail as es fs t u a _ hstep ih =>
    rw [List.countP_append, List.countP_append]
    cases wakeupEffect_of_step hstep with
    | set i hset =>
      rw [hset]
      exact Nat.add_le_add (Nat.le_of_add_right_le ih) (Nat.le_refl 1)
    | throw a hs ht =>
      rw [hs] at ih
      rw [ht]
      exact ih.trans (Nat.le_add_right _ _)
    | keep a fs ha hnone hkeep =>
      rw [hnone, hkeep]
      exact ih.trans (Nat.le_add_right _ _)

/-- The part of the run since the last request, and nothing is thrown in it. -/
def PendingSince (as : List (Action ι T)) (es : List (Event T)) (s : State ι T) : Prop :=
  ∃ bs i cs es₁ es₂ t, as = bs ++ .triggerWakeup i :: cs ∧ es = es₁ ++ es₂ ∧
    (machine ι T).Run (bs ++ [.triggerWakeup i]) es₁ t ∧ (machine ι T).Steps t cs es₂ s ∧
    es₂.countP Event.isThrown = 0

/-- A request has its trigger. -/
theorem pendingSince_of_requested (hrun : (machine ι T).Run as es s)
    (h : s.queue.wakeupRequested = true) : PendingSince as es s := by
  induction hrun with
  | refl => nomatch h
  | @tail as es fs t u a hrun hstep ih =>
    cases wakeupEffect_of_step hstep with
    | set i hset =>
      exact ⟨as, i, [], es ++ [], [], u, rfl, (List.append_nil _).symm, hrun.tail hstep, .refl, rfl⟩
    | throw a hs ht => nomatch h.symm.trans ht
    | keep a fs ha hnone hkeep =>
      obtain ⟨bs, i, cs, es₁, es₂, v, rfl, rfl, hbs, hcs, hes₂⟩ := ih (hkeep.symm.trans h)
      refine ⟨bs, i, cs ++ [a], es₁, es₂ ++ fs, v, ?_, List.append_assoc _ _ _, hbs, hcs.tail hstep, ?_⟩
      · rw [List.append_assoc, List.cons_append]
      · rw [List.countP_append, hes₂, hnone]

/-- A trigger no throw has answered is still requested. -/
theorem requested_of_pendingSince (h : PendingSince as es s) : s.queue.wakeupRequested = true := by
  obtain ⟨bs, i, cs, es₁, es₂, t, -, -, hbs, hcs, hes₂⟩ := h
  obtain ⟨u, fs, gs, -, hstep, -⟩ := hbs.snoc_inv
  obtain ⟨-, hsec⟩ := step_triggerWakeup.mp hstep
  obtain ⟨rfl, -⟩ := Prod.mk.inj hsec
  exact wakeup_stays hcs hes₂ rfl

/-- **A wakeup is thrown once**: one is requested exactly while nothing has been thrown since the last
`trigger_wakeup`, so that none is lost, and there are no more throws than calls. -/
theorem wakeups_delivered (hrun : (machine ι T).Run as es s) :
    (s.queue.wakeupRequested = true ↔ PendingSince as es s) ∧
      es.countP Event.isThrown + s.queue.wakeupRequested.toNat ≤ as.countP Action.isTrigger :=
  ⟨⟨pendingSince_of_requested hrun, requested_of_pendingSince⟩, throws_le hrun⟩

/-- Two requests and one throw, the second request made after it. -/
theorem wakeups_delivered_twice : ∃ s es, (machine (Fin 2) ℕ).Run [.triggerWakeup 0,
      .notifyOne 0 none, .waitAndPop 1 1, .triggerWakeup 0] es s ∧
    s.queue.wakeupRequested = true ∧
    es.countP Event.isThrown + s.queue.wakeupRequested.toNat ≤ 2 :=
  ⟨_, _, Machine.steps_get (by decide), rfl,
    (wakeups_delivered (Machine.steps_get (by decide))).2⟩

end Run

end QueueThreads
