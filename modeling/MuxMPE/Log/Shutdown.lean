import MuxMPE.Log.History

/-!
# Log/Shutdown — what `~Logger` loses

    logstr c₀ c₁ c₂ ── ~Logger: trigger_wakeup ── io_process: throw ── join ── clear
                                      │
                                      └─ c₁ c₂ still queued here are never dispatched

`wait_and_pop` looks at `wakeup_requested` before it looks at the content of the queue, so the io
thread leaves its loop at its first pop after the request, and what is queued stays queued.
-/

variable {ι β : Type*}

namespace Log

/-- No message is lost: every non-empty one pushed before `~Logger` was entered has been handed to
every backend that was registered when it was pushed. -/
def NoLoss (es : List (Event ι β)) : Prop :=
  ∀ p ∈ enqueued es, p.2.beforeDestructor = true → p.2.msg.message ≠ [] →
    ∀ k < p.2.registered, p.2.handedAs ∈ handed k es

/-- In `s₁` the run `as` from the start to `s` requests the wakeup. -/
def TriggersIn (as : List (Action ι β)) (es : List (Event ι β)) (s s₁ : State β) : Prop :=
  ∃ pre post es₁ es₂, as = pre ++ .triggerWakeup :: post ∧ es = es₁ ++ es₂ ∧
    (machine ι β).Run pre es₁ s₁ ∧ (machine ι β).Steps s₁ (.triggerWakeup :: post) es₂ s

/-! ## After the request -/

/-- Once the wakeup is requested nothing more is popped, and no push counts as made before
`~Logger` was entered. -/
structure Abandoned (es : List (Event ι β)) (s : State β) : Prop where
  wakeup : s.messageQueue.wakeupRequested = true ∨ s.io = .exited
  entered : s.destructor ≠ .notEntered
  dequeued_eq : dequeued es = []
  late : ∀ p ∈ enqueued es, p.2.beforeDestructor = false

section Step

variable {es : List (Event ι β)} {s t : State β}

/-- A step that shows no push and no pop. -/
theorem Abandoned.quiet {fs : List (Event ι β)} (h : Abandoned es s)
    (hwakeup : t.messageQueue.wakeupRequested = true ∨ t.io = .exited)
    (hentered : t.destructor ≠ .notEntered) (hdeq : dequeued fs = []) (henq : enqueued fs = []) :
    Abandoned (es ++ fs) t where
  wakeup := hwakeup
  entered := hentered
  dequeued_eq := by rw [dequeued_append, h.dequeued_eq, hdeq, List.append_nil]
  late := by
    rw [enqueued_append, henq, List.append_nil]
    exact h.late

theorem Abandoned.step (h : Abandoned es s) {a : Action ι β} {fs : List (Event ι β)}
    (hstep : (machine ι β).step s a = some (t, fs)) : Abandoned (es ++ fs) t := by
  have hentered := h.entered
  cases effect_of_step hstep with
  | enqueued i level message hd hlevel =>
    refine ⟨h.wakeup, hentered, ?_, fun p hp => ?_⟩
    · rw [dequeued_append, h.dequeued_eq]
      rfl
    · obtain hp | hp := List.mem_append.mp (enqueued_append es _ ▸ hp)
      · exact h.late p hp
      · rw [List.mem_singleton.mp hp]
        exact decide_eq_false hentered
  | waiting hio hq hw => exact absurd (h.wakeup.resolve_right (by simp [hio])) (by simp [hw])
  | woken hio hw => exact h.quiet (.inr rfl) hentered rfl rfl
  | dequeued x q hio hq hw hw' =>
    exact absurd (h.wakeup.resolve_right (by simp [hio])) (by simp [hw])
  | dispatched x cerrLine hio hne =>
    exact h.quiet (.inl (h.wakeup.resolve_right (by simp [hio]))) hentered
      (dequeued_dispatchEvents x s.backends cerrLine)
      (enqueued_dispatchEvents x s.backends cerrLine)
  | undefined x hio hempty =>
    exact h.quiet (.inl (h.wakeup.resolve_right (by simp [hio]))) hentered rfl rfl
  | triggered hd => exact h.quiet (.inl rfl) (by simp) rfl rfl
  | discarded i message hd => exact h.quiet h.wakeup hentered rfl rfl
  | registered backend hd => exact h.quiet h.wakeup hentered rfl rfl
  | entered hd => exact h.quiet h.wakeup (by simp) rfl rfl
  | joined hd hio => exact h.quiet h.wakeup (by simp) rfl rfl
  | cleared hd => exact h.quiet h.wakeup (by simp) rfl rfl

theorem Abandoned.steps (h : Abandoned es s) {as : List (Action ι β)} {fs : List (Event ι β)}
    (hsteps : (machine ι β).Steps s as fs t) : Abandoned (es ++ fs) t := by
  induction hsteps with
  | refl => rwa [List.append_nil]
  | tail _ hstep ih =>
    rw [← List.append_assoc]
    exact ih.step hstep

/-- **What follows the request abandons the queue.** -/
theorem Abandoned.of_triggerWakeup {post : List (Action ι β)}
    (h : (machine ι β).Steps s (.triggerWakeup :: post) es t) : Abandoned es t := by
  obtain ⟨u, es₁, es₂, htrigger, hpost, rfl⟩ := h.cons_inv
  have hstart : Abandoned es₁ u := by
    cases effect_of_step htrigger with
    | triggered hd => exact ⟨.inl rfl, by simp, rfl, by simp [enqueued]⟩
  exact hstart.steps hpost

end Step

/-! ## Exactly what is lost -/

section Run

variable {as : List (Action ι β)} {es : List (Event ι β)} {s : State β}

/-- Past its first line `~Logger` has requested the wakeup. -/
theorem triggerWakeup_mem (hrun : (machine ι β).Run as es s)
    (hd : s.destructor ≠ .notEntered) (hd' : s.destructor ≠ .entered) : .triggerWakeup ∈ as := by
  induction hrun with
  | refl => exact absurd rfl hd
  | @tail as es fs t u a _ hstep ih =>
    have hprior : a = .triggerWakeup ∨ t.destructor ≠ .notEntered ∧ t.destructor ≠ .entered := by
      cases effect_of_step hstep <;> simp_all
    obtain rfl | ⟨ht, ht'⟩ := hprior
    · exact List.mem_append_right _ (List.mem_singleton_self _)
    · exact List.mem_append_left _ (ih ht ht')

theorem exists_triggersIn (hrun : (machine ι β).Run as es s) (hret : s.destructor = .returned) :
    ∃ s₁, TriggersIn as es s s₁ := by
  have hmem := triggerWakeup_mem hrun (by simp [hret]) (by simp [hret])
  obtain ⟨pre, post, rfl⟩ := List.append_of_mem hmem
  obtain ⟨s₁, es₁, es₂, hpre, hpost, rfl⟩ := hrun.split
  exact ⟨s₁, pre, post, es₁, es₂, rfl, rfl, hpre, hpost⟩

/-- When the destructor has returned, what was dispatched is what was popped before the request. -/
theorem dispatched_of_returned {pre post : List (Action ι β)} {es₁ es₂ : List (Event ι β)}
    {s₁ : State β} (hpre : (machine ι β).Run pre es₁ s₁)
    (hpost : (machine ι β).Steps s₁ (.triggerWakeup :: post) es₂ s)
    (hret : s.destructor = .returned) : dispatched (es₁ ++ es₂) = dequeued es₁ := by
  have h := History.run (hpre.trans hpost)
  have hio : s.io.hand = [] := by
    rw [h.joined (.inr hret)]
    rfl
  have hhand := h.hand
  rw [hio, List.append_nil, dequeued_append, (Abandoned.of_triggerWakeup hpost).dequeued_eq,
    List.append_nil] at hhand
  exact hhand.symm

/-- What a run loses is what it leaves in the queue when it requests the wakeup. -/
theorem TriggersIn.loses_queue {s₁ : State β} (h : TriggersIn as es s s₁)
    (hret : s.destructor = .returned) :
    NoLoss es ↔ ∀ x ∈ s₁.messageQueue.theQueue, x.beforeDestructor = true →
      x.msg.message ≠ [] → x.registered = 0 := by
  obtain ⟨pre, post, es₁, es₂, rfl, rfl, hpre, hpost⟩ := h
  have hdispatched := dispatched_of_returned hpre hpost hret
  have h₁ := History.run hpre
  have h₂ := History.run (hpre.trans hpost)
  constructor
  · intro hno x hx hbefore hne
    by_contra hreg
    obtain ⟨p, hp, rfl⟩ : ∃ p ∈ enqueued es₁, p.2 = x :=
      List.mem_map.mp (h₁.store ▸ List.mem_append_right _ hx)
    have hmem := hno p (enqueued_append es₁ es₂ ▸ List.mem_append_left _ hp) hbefore hne 0
      (Nat.pos_of_ne_zero hreg)
    obtain ⟨y, hy, hyp⟩ := h₂.mem_handed hmem
    -- one serial, popped and still queued
    have hnodup := h₁.serials_nodup
    rw [← h₁.hand, List.map_append] at hnodup
    rw [hdispatched] at hy
    have hserial : y.serial = p.2.serial := congrArg Prod.fst hyp
    exact (List.nodup_append.mp hnodup).2.2 _ (List.mem_map_of_mem hy) _ (List.mem_map_of_mem hx)
      hserial
  · intro hqueue p hp hbefore hne k hk
    have hp₁ : p ∈ enqueued es₁ := by
      obtain hp | hp := List.mem_append.mp (enqueued_append es₁ es₂ ▸ hp)
      · exact hp
      · have hlate := (Abandoned.of_triggerWakeup hpost).late p hp
        simp [hlate] at hbefore
    have hstore : p.2 ∈ dequeued es₁ ++ s₁.messageQueue.theQueue :=
      h₁.store ▸ List.mem_map_of_mem hp₁
    obtain hdeq | hq := List.mem_append.mp hstore
    · exact h₂.delivered p.2 (hdispatched ▸ hdeq) k hk
    · exact absurd (hqueue p.2 hq hbefore hne) (by omega)

/-- **What `~Logger` loses**: a run loses no message exactly when, at the request for the wakeup, no
non-empty message is queued that was pushed before `~Logger` was entered and with a backend
registered. -/
theorem noLoss_iff (hrun : (machine ι β).Run as es s) (hret : s.destructor = .returned) :
    NoLoss es ↔ ∃ s₁, TriggersIn as es s s₁ ∧ ∀ x ∈ s₁.messageQueue.theQueue,
      x.beforeDestructor = true → x.msg.message ≠ [] → x.registered = 0 := by
  constructor
  · intro hno
    obtain ⟨s₁, h₁⟩ := exists_triggersIn hrun hret
    exact ⟨s₁, h₁, (h₁.loses_queue hret).mp hno⟩
  · rintro ⟨s₁, h₁, hqueue⟩
    exact (h₁.loses_queue hret).mpr hqueue

end Run

/-- A message that is popped before the destructor comes is not lost. -/
theorem noLoss_iff_popped : ∃ s es as,
    as = [.registerBackend 0, .logstr 0 .emerg "failed".toList, .ioPop, .enterDestructor,
      .triggerWakeup, .ioDispatch, .ioPop, .joinIoThread, .clearBackends] ∧
    (machine (Fin 1) ℕ).Run as es s ∧ s.destructor = .returned ∧
    (NoLoss es ↔ ∃ s₁, TriggersIn as es s s₁ ∧ ∀ x ∈ s₁.messageQueue.theQueue,
      x.beforeDestructor = true → x.msg.message ≠ [] → x.registered = 0) :=
  ⟨_, _, _, rfl, Machine.steps_get (by decide), rfl,
    noLoss_iff (Machine.steps_get (by decide)) rfl⟩

/-- **The last message before the destructor can be lost**: it is queued, `~Logger` requests the
wakeup, and the io thread leaves without popping it. -/
theorem last_message_lost : ∃ s es,
    (machine (Fin 1) ℕ).Run [.registerBackend 0, .logstr 0 .emerg "failed".toList,
      .enterDestructor, .triggerWakeup, .ioPop, .joinIoThread, .clearBackends] es s ∧
    s.destructor = .returned ∧ ¬ NoLoss es := by
  refine ⟨_, _, Machine.steps_get (by decide), rfl, ?_⟩
  unfold NoLoss
  decide

end Log
