import MuxMPE.Log.Progress
import MuxMPE.Log.Threads

/-!
# Log/Draining — the logger comes to rest, and `~Logger` returns

    logstr ── … nobody calls any more … ── queue empty, io asleep
    ~Logger: trigger_wakeup ── … ── io exited ── join ── clear

The threads have calls to carry out, the io thread iterations to go through.  Each step of these
uses up some of what there was, so they come to an end; and an end is where the io thread sleeps
over an empty queue, or has left its loop.  It never sleeps over a message, since the push that
brought it owes a notification (`Queue/Notifications`), nor over the wakeup the destructor waits for.
-/

variable {ι β : Type*}

namespace Log

/-! ## Without the threads in the queue -/

/-- **The io thread logs nothing and leaves the destructor where it is.** -/
theorem kept_of_io {s t : State β} {as : List (Action ι β)} {es : List (Event ι β)}
    (hsteps : (machine ι β).Steps s as es t) (has : ∀ a ∈ as, a.isIo = true) :
    enqueued es = [] ∧ t.destructor = s.destructor := by
  induction hsteps with
  | refl => exact ⟨rfl, rfl⟩
  | @tail as es fs t u a _ hstep ih =>
    rw [List.forall_mem_append, List.forall_mem_singleton] at has
    obtain ⟨henqueued, hd⟩ := ih has.1
    have hio := has.2
    rw [enqueued_append, henqueued, ← hd, List.nil_append]
    cases effect_of_step hstep with
    | waiting | woken | dequeued | undefined => exact ⟨rfl, rfl⟩
    | dispatched x cerrLine hio hne => exact ⟨enqueued_dispatchEvents x t.backends cerrLine, rfl⟩
    | discarded | enqueued | registered | entered | triggered | joined | cleared => nomatch hio

/-- The wakeup that `~Logger` requests is pending until the io thread has gone. -/
theorem told_step {s t : State β} {a : Action ι β} {es : List (Event ι β)}
    (h : s.destructor = .triggered → s.messageQueue.wakeupRequested = true ∨ s.io = .exited)
    (hstep : (machine ι β).step s a = some (t, es)) :
    t.destructor = .triggered → t.messageQueue.wakeupRequested = true ∨ t.io = .exited := by
  cases effect_of_step hstep with
  | woken hio hw => exact fun _ => .inr rfl
  | waiting hio hq hw => exact h
  | dequeued x q hio hq hw hw' =>
    intro hd
    obtain hwakeup | hexited := h hd
    · exact absurd (hw.symm.trans hwakeup) Bool.false_ne_true
    · exact absurd (hio.symm.trans hexited) nofun
  | dispatched x cerrLine hio hne =>
    exact fun hd => .inl ((h hd).resolve_right fun hexited => absurd (hio.symm.trans hexited) nofun)
  | undefined x hio hempty =>
    exact fun hd => .inl ((h hd).resolve_right fun hexited => absurd (hio.symm.trans hexited) nofun)
  | triggered hd => exact fun _ => .inl rfl
  | discarded | enqueued | registered => exact h
  | entered | joined | cleared => exact nofun

/-- The io thread leaves its loop only at a message that is empty. -/
theorem undefined_step {s t : State β} {a : Action ι β} {es : List (Event ι β)}
    (h : ∀ x, s.io = .undefined x → x.msg.message = [])
    (hstep : (machine ι β).step s a = some (t, es)) :
    ∀ x, t.io = .undefined x → x.msg.message = [] := by
  cases effect_of_step hstep with
  | undefined y hio hempty =>
    intro x hx
    obtain rfl := Io.undefined.inj hx
    exact hempty
  | woken | dequeued | dispatched => exact nofun
  | discarded | enqueued | registered | waiting | entered | triggered | joined | cleared => exact h

/-- **Where no empty message was logged, everything the io thread does is defined.** -/
theorem not_undefined {s : State β} {as : List (Action ι β)} {es : List (Event ι β)}
    (hrun : (machine ι β).Run as es s) (hne : ∀ p ∈ enqueued es, p.2.msg.message ≠ [])
    (x : Queued) : s.io ≠ .undefined x := by
  intro hx
  have hempty : ∀ y, s.io = .undefined y → y.msg.message = [] := hrun.always nofun undefined_step
  have hmem : x ∈ (enqueued es).map Prod.snd := by
    have h := History.run hrun
    rw [← h.order, hx]
    simp [Io.hand]
  obtain ⟨p, hp, rfl⟩ := List.mem_map.mp hmem
  exact hne p hp (hempty p.2 hx)

end Log

namespace LogThreads

open Log
open QueueThreads (waitAndPopSection)

/-! ## What is to be done -/

/-- A step that needs no new call: of the io thread, or of a call already made.  A spurious wakeup is
none: nothing bounds how often they come. -/
def Action.isRunning : Action ι β → Bool
  | .waitAndPop | .dispatch => true
  | .goOn a => a.isSettling
  | _ => false

/-- What the io thread has before it in this iteration, apart from its steps in the queue. -/
def toCome : Io → QueueThreads.Pc Queued → ℕ
  | .popping, .idle => 3
  | .holding _, _ => 4
  | _, _ => 0

theorem toCome_le (io : Io) (pc : QueueThreads.Pc Queued) : toCome io pc ≤ 4 := by
  cases io <;> cases pc <;> simp [toCome]

def State.work [Fintype ι] (s : State ι β) : ℕ :=
  s.messageQueue.work + 4 * s.messageQueue.queue.theQueue.length
    + toCome s.io (s.messageQueue.pc .io)

section Step

variable [DecidableEq ι] [Fintype ι] {s t : State ι β} {a : Action ι β} {es : List (Event ι β)}
  {q : QueueThreads.State (Thread ι) Queued} {fs : List (QueueThreads.Event Queued)}

omit [DecidableEq ι] in
theorem work_le (s : State ι β) :
    s.work ≤ 3 * Fintype.card (Thread ι) + 4 * s.messageQueue.queue.theQueue.length + 4 := by
  have hqueue := QueueThreads.work_le s.messageQueue
  have hio := toCome_le s.io (s.messageQueue.pc .io)
  rw [State.work]
  omega

omit [Fintype ι] in
/-- A pass through `wait_and_pop` pays with the message it takes for what is done with it. -/
theorem toCome_pass (hio : s.io = .popping)
    (hsec : waitAndPopSection s.messageQueue .io 1 = (q, fs)) :
    4 * q.queue.theQueue.length + toCome (resumed s.io fs) (q.pc .io)
      ≤ 4 * s.messageQueue.queue.theQueue.length := by
  obtain ⟨-, -, heq⟩ | ⟨-, heq⟩ | ⟨x, r, -, -, hq, -, heq⟩ | ⟨hzero, -⟩ :=
    QueueThreads.waitAndPopSection_cases s.messageQueue .io 1
  · obtain ⟨rfl, rfl⟩ := Prod.mk.inj (heq.symm.trans hsec)
    have hpc : toCome (resumed s.io [])
        (Function.update s.messageQueue.pc .io (.rxAsleep 1) .io) = 0 := by
      rw [hio, Function.update_self]
      rfl
    exact Nat.le_of_eq (congrArg (4 * s.messageQueue.queue.theQueue.length + ·) hpc)
  · obtain ⟨rfl, rfl⟩ := Prod.mk.inj (heq.symm.trans hsec)
    exact Nat.le_refl _
  · obtain ⟨rfl, rfl⟩ := Prod.mk.inj (heq.symm.trans hsec)
    rw [hq, List.length_cons]
    exact Nat.le_refl _
  · exact absurd hzero Nat.one_ne_zero

/-- A notification brings the io thread nothing to do but its steps in the queue. -/
theorem toCome_notify (h : Consistent s) {i : Thread ι} {sleeper : Option (Thread ι)}
    (hqueue : (QueueThreads.machine _ _).step s.messageQueue (.notifyOne i sleeper) = some (q, fs)) :
    toCome s.io (q.pc .io) ≤ toCome s.io (s.messageQueue.pc .io) := by
  obtain ⟨rx, u, hi, hnotify, heq⟩ := QueueThreads.step_notifyOne.mp hqueue
  obtain ⟨rfl, rfl⟩ := Prod.mk.inj heq
  obtain rfl | hne := eq_or_ne i .io
  · -- it is out of `wait_and_pop` with a message
    have hfits := h.fits
    rw [hi] at hfits ⊢
    cases hio : s.io <;> rw [hio] at hfits <;> cases rx <;>
      first
        | exact hfits.elim
        | exact Nat.le_refl 4
  · obtain ⟨-, ⟨-, -, hpc⟩ | ⟨j, pc, -, hwoken, hpc⟩⟩ := QueueThreads.notifyOne_cases hnotify
    · rw [hpc, Function.update_of_ne hne.symm]
    · rw [hpc, Function.update_of_ne hne.symm]
      obtain rfl | hne' := eq_or_ne j .io
      · rw [Function.update_self]
        cases hj : s.messageQueue.pc .io <;> rw [hj] at hwoken <;>
          simp only [QueueThreads.Pc.wokenOn, reduceCtorEq] at hwoken <;> split_ifs at hwoken <;>
          obtain rfl := Option.some.inj hwoken <;> cases s.io <;> exact Nat.le_refl _
      · rw [Function.update_of_ne hne'.symm]

/-- **A running step uses up some of the work.** -/
theorem work_step (h : Consistent s) (ha : a.isRunning = true)
    (hstep : (machine ι β).step s a = some (t, es)) : t.work < s.work := by
  cases effect_of_step hstep with
  | called hio hqueue =>
    obtain ⟨hidle, hsec⟩ := QueueThreads.step_waitAndPop.mp hqueue
    have hwork := QueueThreads.work_step hqueue
    have hpass := toCome_pass hio hsec
    have hbefore : toCome s.io (s.messageQueue.pc .io) = 3 := by rw [hio, hidle]; rfl
    simp only [State.work, State.taken, hbefore]
    simp only [QueueThreads.Action.isSettling, QueueThreads.Action.credit,
      QueueThreads.Action.isCall, QueueThreads.Action.isSpurious, Bool.toNat_true,
      Bool.toNat_false] at hwork
    omega
  | @wentOn b q fs hb hqueue =>
    have hsettling : b.isSettling = true := ha
    have hwork := QueueThreads.work_lt hsettling hqueue
    obtain ⟨hio, ⟨i, rfl⟩, hsec⟩ | ⟨hnone, rfl, hsame, -⟩ := quiet_of_goOn h hb hqueue
    · have hpass := toCome_pass hio hsec
      simp only [State.work, State.taken]
      omega
    · have hio : toCome s.io (q.pc .io) ≤ toCome s.io (s.messageQueue.pc .io) := by
        cases b with
        | retake i => exact absurd hnone (List.cons_ne_nil _ _)
        | notifyOne i sleeper => exact toCome_notify h hqueue
        | _ => exact absurd hsettling Bool.false_ne_true
      simp only [State.work, State.taken, resumed, hsame]
      omega
  | dispatched x hio hidle =>
    have hbefore : toCome s.io (s.messageQueue.pc .io) = 4 := by rw [hio]; rfl
    have hafter : toCome (ioDispatch (ι := ι) s.atomic x).1.io (s.messageQueue.pc .io) ≤ 3 := by
      rw [hidle, ioDispatch]
      split
      · exact Nat.zero_le 3
      · exact Nat.le_refl 3
    simp only [State.work, hbefore]
    omega
  | discarded | pushed | registered | entered | triggered | joined | cleared =>
    exact absurd ha Bool.false_ne_true

/-! ## Where nothing is left to do -/

/-- No running step can be taken. -/
def Stopped (s : State ι β) : Prop := ∀ a, a.isRunning = true → (machine ι β).step s a = none

theorem Stopped.settled (h : Stopped s) : QueueThreads.Settled s.messageQueue := by
  intro a ha
  have hcall : a.isCall = false := by
    cases a with
    | retake i | notifyOne i sleeper => rfl
    | _ => nomatch ha
  have hstep := h (.goOn a) ha
  simp only [machine, hcall, Bool.false_eq_true, if_false] at hstep
  exact Option.map_eq_none_iff.mp hstep

/-- **Nobody else is in a call.** -/
theorem Stopped.idle (h : Stopped s) (hs : Consistent s) {i : Thread ι} (hi : i ≠ .io) :
    s.messageQueue.pc i = .idle := by
  obtain hpc | hpc | ⟨prebuffering, hpc⟩ | ⟨x, threshold, hpc⟩ := h.settled.pc_cases i
  · exact hpc
  · have hcareful := hs.careful i
    rw [hpc] at hcareful
    exact hcareful.elim
  · have hwaits : (s.messageQueue.pc i).waitsOn true = some prebuffering := by rw [hpc]; rfl
    exact absurd (Prod.mk.inj ((hs.waits 0).role true i prebuffering hwaits)).1 hi
  · have hwaits : (s.messageQueue.pc i).waitsOn false = some threshold := by rw [hpc]; rfl
    exact absurd (Prod.mk.inj ((hs.waits 0).role false i threshold hwaits)).1 hi

/-- **The io thread sleeps over an empty queue, with no wakeup requested**, or it has come to the
end of `io_process`. -/
theorem Stopped.io_cases (h : Stopped s) (hs : Consistent s) :
    (s.io = .popping ∧ s.messageQueue.queue.theQueue = [] ∧
      s.messageQueue.queue.wakeupRequested = false) ∨
    s.io = .exited ∨ ∃ x, s.io = .undefined x := by
  have hfits := hs.fits
  obtain hpc | hpc | ⟨prebuffering, hpc⟩ | ⟨x, threshold, hpc⟩ := h.settled.pc_cases .io
  · cases hio : s.io with
    | popping =>
      -- it would call `wait_and_pop`
      have hstep := h .waitAndPop rfl
      simp only [machine, hio] at hstep
      have hcall : (QueueThreads.machine _ _).step s.messageQueue (.waitAndPop .io 1)
          = some (waitAndPopSection s.messageQueue .io 1) :=
        QueueThreads.step_waitAndPop.mpr ⟨hpc, rfl⟩
      exact absurd (hcall.symm.trans (Option.map_eq_none_iff.mp hstep)) (Option.some_ne_none _)
    | holding x =>
      have hstep := h .dispatch rfl
      simp [machine, hio, hpc] at hstep
    | exited => exact .inr (.inl rfl)
    | undefined x => exact .inr (.inr ⟨x, rfl⟩)
  · rw [hpc] at hfits
    cases hio : s.io <;> rw [hio] at hfits <;> exact hfits.elim
  · rw [hpc] at hfits
    cases hio : s.io <;> rw [hio] at hfits
    · obtain rfl : prebuffering = 1 := hfits
      have hasleep : (s.messageQueue.pc .io).asleepOn true = some 1 := by rw [hpc]; rfl
      have hnot : ¬ QueueThreads.Ready true 1 s.messageQueue.queue := by
        intro hready
        obtain ⟨j, hj⟩ := (hs.waits 0).owed true .io 1 hasleep hready
        exact h.settled.not_notify j true hj
      rw [QueueThreads.Ready, not_or, Bool.not_eq_true, Nat.not_le, Nat.lt_one_iff] at hnot
      exact .inl ⟨rfl, List.length_eq_zero_iff.mp hnot.1, hnot.2⟩
    all_goals exact hfits.elim
  · rw [hpc] at hfits
    cases hio : s.io <;> rw [hio] at hfits <;> exact hfits.elim

end Step

/-! ## What the running steps leave alone -/

/-- A running step is one of the io thread of `Log/Logger`, or none. -/
theorem isIo_of_running {a : Action ι β} (ha : a.isRunning = true) :
    ∀ b ∈ a.atomic, b.isIo = true := by
  cases a with
  | waitAndPop | dispatch => exact List.forall_mem_singleton.mpr rfl
  | goOn b =>
    cases b with
    | retake i => exact List.forall_mem_singleton.mpr rfl
    | notifyOne i sleeper => exact nofun
    | _ => nomatch ha
  | _ => nomatch ha

theorem isIo_of_all_running {bs : List (Action ι β)} (hbs : ∀ b ∈ bs, b.isRunning = true) :
    ∀ c ∈ bs.flatMap Action.atomic, c.isIo = true := by
  intro c hc
  obtain ⟨b, hb, hc⟩ := List.mem_flatMap.mp hc
  exact isIo_of_running (hbs b hb) c hc

/-- The wakeup is requested only where it was. -/
theorem triggerWakeup_notMem {as : List (Action ι β)} (has : .triggerWakeup ∉ as) :
    .triggerWakeup ∉ as.flatMap Action.atomic := by
  intro hmem
  obtain ⟨a, ha, hmem⟩ := List.mem_flatMap.mp hmem
  cases a with
  | triggerWakeup => exact has ha
  | goOn b => cases b <;> simp [Action.atomic] at hmem
  | _ => simp [Action.atomic] at hmem

/-! ## Every run -/

section Run

variable [DecidableEq ι] [Fintype ι] {as bs : List (Action ι β)} {es fs : List (Event ι β)}
  {s t : State ι β}

theorem running_step (ha : a.isRunning = true) (h : Consistent s)
    (hstep : (machine ι β).step s a = some (t, es)) : Consistent t ∧ t.work < s.work :=
  ⟨(atomic_step h hstep).1, work_step h ha hstep⟩

/-- **Running steps are a run of the io thread**: nothing is logged meanwhile, the destructor stays
where it is. -/
theorem running_run (hrun : (machine ι β).Run as es s) (hsteps : (machine ι β).Steps s bs fs t)
    (hbs : ∀ b ∈ bs, b.isRunning = true) :
    (Log.machine ι β).Run ((as ++ bs).flatMap Action.atomic) (es ++ fs) t.atomic ∧
      enqueued (es ++ fs) = enqueued es ∧ t.destructor = s.destructor := by
  have hs := (Consistent.init.steps hrun).1
  obtain ⟨henqueued, hd⟩ := kept_of_io (hs.steps hsteps).2 (isIo_of_all_running hbs)
  refine ⟨atomic_run (hrun.trans hsteps), ?_, hd⟩
  rw [enqueued_append, henqueued, List.append_nil]

/-- **The logger drains.**  From every state a run leads to before the wakeup is requested, no
message being empty: however the threads are scheduled, spurious wakeups apart, they come to rest
within three steps for each thread, four for each queued message and four more.  There the io thread
sleeps over an empty queue, everything that was logged has been dispatched, in order, and every
backend has been handed all of it that was not dispatched before its registration. -/
theorem drains (hrun : (machine ι β).Run as es s) (has : .triggerWakeup ∉ as)
    (hne : ∀ p ∈ enqueued es, p.2.msg.message ≠ []) :
    (machine ι β).ComesToRest (fun a => a.isRunning = true) s
      (3 * Fintype.card (Thread ι) + 4 * s.messageQueue.queue.theQueue.length + 4)
      fun fs t =>
        t.io = .popping ∧ t.messageQueue.queue.theQueue = [] ∧
        dispatched (es ++ fs) = (enqueued es).map Prod.snd ∧
        ∀ k n, (starts 0 es)[k]? = some n →
          handed k (es ++ fs) = (((enqueued es).map Prod.snd).drop n).map Queued.handedAs := by
  have hs := (Consistent.init.steps hrun).1
  refine .of_measure hs running_step (work_le s) fun {bs fs t} hsteps hbs ht hhalt => ?_
  obtain ⟨hrun', hall, -⟩ := running_run hrun hsteps hbs
  have hhistory := History.run hrun'
  have hnot : .triggerWakeup ∉ (as ++ bs).flatMap Action.atomic := by
    refine triggerWakeup_notMem fun hmem => ?_
    obtain hmem | hmem := List.mem_append.mp hmem
    · exact has hmem
    · exact absurd (hbs _ hmem) Bool.false_ne_true
  obtain ⟨hio, hempty, -⟩ | hexited | ⟨x, hx⟩ := Stopped.io_cases hhalt ht
  · have horder := hhistory.order
    have hhand : t.atomic.io.hand = [] := congrArg Io.hand hio
    have hqueue : t.atomic.messageQueue.theQueue = [] := hempty
    rw [hall, hhand, hqueue, List.append_nil, List.append_nil] at horder
    refine ⟨hio, hempty, horder, fun k n hk => ?_⟩
    rw [← horder]
    refine hhistory.handed_eq k n ?_
    obtain ⟨hlt, -⟩ := List.getElem?_eq_some_iff.mp hk
    rw [starts_append, List.getElem?_append_left hlt, hk]
  · exact absurd hexited ((Working.init (ι := ι)).steps hnot hrun').running
  · exact absurd hx (not_undefined hrun' (hall.symm ▸ hne) x)

/-- **`~Logger` returns.**  Once it has requested the wakeup, no message being empty: however the
threads are scheduled, spurious wakeups apart, they come to rest within so many steps, and there the
io thread has left `io_process`, so that it is joined and the destructor clears the backends. -/
theorem destructor_returns (hrun : (machine ι β).Run as es s) (hd : s.destructor = .triggered)
    (hne : ∀ p ∈ enqueued es, p.2.msg.message ≠ []) :
    (machine ι β).ComesToRest (fun a => a.isRunning = true) s
      (3 * Fintype.card (Thread ι) + 4 * s.messageQueue.queue.theQueue.length + 4)
      fun _ t => ∃ u, (machine ι β).Steps t [.joinIoThread, .clearBackends] [] u ∧
        u.io = .exited ∧ u.destructor = .returned ∧ u.backends = [] := by
  have hs := (Consistent.init.steps hrun).1
  refine .of_measure hs running_step (work_le s) fun {bs fs t} hsteps hbs ht hhalt => ?_
  obtain ⟨hrun', hall, hkept⟩ := running_run hrun hsteps hbs
  have htriggered : t.destructor = .triggered := hkept.trans hd
  have htold : t.atomic.destructor = .triggered →
      t.atomic.messageQueue.wakeupRequested = true ∨ t.atomic.io = .exited :=
    hrun'.always nofun told_step
  have hexited : t.io = .exited := by
    obtain ⟨hio, -, hnone⟩ | hexited | ⟨x, hx⟩ := Stopped.io_cases hhalt ht
    · -- it would sleep over the wakeup
      obtain hwakeup | hexited := htold htriggered
      · exact absurd (hnone.symm.trans hwakeup) Bool.false_ne_true
      · exact hexited
    · exact hexited
    · exact absurd hx (not_undefined hrun' (hall.symm ▸ hne) x)
  have hidle : t.messageQueue.pc .destroyer = .idle := Stopped.idle hhalt ht (by simp)
  have hjoin : (machine ι β).step t .joinIoThread
      = some ({ t with destructor := .joined }, []) := by
    simp only [machine, htriggered, hexited, hidle]
  exact ⟨_, (Machine.Steps.single hjoin).tail rfl, hexited, rfl, rfl⟩

/-- Two messages are queued while the io thread is still asleep: both reach the backend. -/
theorem drains_asleep : ∃ s es, (machine (Fin 1) ℕ).Run [.registerBackend 0, .waitAndPop,
      .logstr 0 .warn "late".toList, .goOn (.notifyOne (.producer 0) (some .io)),
      .logstr 0 .info "up".toList] es s ∧
    ∃ bs fs t, (machine (Fin 1) ℕ).Steps s bs fs t ∧ (∀ b ∈ bs, b.isRunning = true) ∧
      bs.length ≤ 3 * 3 + 4 * 2 + 4 ∧ (dispatched (es ++ fs)).length = 2 ∧
      (handed 0 (es ++ fs)).length = 2 := by
  obtain ⟨s, es, hrun, hne, hcounts⟩ : ∃ s es,
      (machine (Fin 1) ℕ).Run [.registerBackend 0, .waitAndPop, .logstr 0 .warn "late".toList,
        .goOn (.notifyOne (.producer 0) (some .io)), .logstr 0 .info "up".toList] es s ∧
      (∀ p ∈ enqueued es, p.2.msg.message ≠ []) ∧
      s.messageQueue.queue.theQueue.length = 2 ∧ (enqueued es).length = 2 ∧
        (starts 0 es)[0]? = some 0 :=
    ⟨_, _, Machine.steps_get (by decide), by decide, by decide⟩
  obtain ⟨hqueue, henqueued, hstart⟩ := hcounts
  have hcard : Fintype.card (Thread (Fin 1)) = 3 := rfl
  obtain ⟨bs, fs, t, hsteps, hbs, hlen, -, -, hdispatched, hhanded⟩ :=
    (drains hrun (by simp) hne).exists
  refine ⟨s, es, hrun, bs, fs, t, hsteps, hbs, ?_, ?_, ?_⟩
  · rwa [hqueue, hcard] at hlen
  · rw [hdispatched, List.length_map, henqueued]
  · rw [hhanded 0 0 hstart, List.length_map, List.length_drop, List.length_map, henqueued]

/-- The wakeup is requested while the io thread is asleep over an empty queue. -/
theorem destructor_returns_asleep : ∃ s es, (machine (Fin 1) ℕ).Run [.registerBackend 0, .waitAndPop,
      .enterDestructor, .triggerWakeup] es s ∧
    ∃ bs fs t u, (machine (Fin 1) ℕ).Steps s bs fs t ∧ (∀ b ∈ bs, b.isRunning = true) ∧
      (machine (Fin 1) ℕ).Steps t [.joinIoThread, .clearBackends] [] u ∧
      u.destructor = .returned := by
  obtain ⟨s, es, hrun, hd, hne⟩ : ∃ s es, (machine (Fin 1) ℕ).Run [.registerBackend 0, .waitAndPop,
        .enterDestructor, .triggerWakeup] es s ∧
      s.destructor = .triggered ∧ (∀ p ∈ enqueued es, p.2.msg.message ≠ []) :=
    ⟨_, _, Machine.steps_get (by decide), rfl, by decide⟩
  obtain ⟨bs, fs, t, hsteps, hbs, -, u, hlast, -, hu, -⟩ := (destructor_returns hrun hd hne).exists
  exact ⟨s, es, hrun, bs, fs, t, u, hsteps, hbs, hlast, hu⟩

end Run

end LogThreads
