import Mathlib.Data.Fintype.Sum
import Mathlib.Tactic.DeriveFintype
import MuxMPE.Log.Logger
import MuxMPE.Queue.Prebuffering
import MuxMPE.Queue.Quiescence

/-!
# Log/Threads — the logger on the steps of its queue

    producer i    push ── notify_one
    io            wait_and_pop ── asleep ── awake ── … ── notify_one ── backends, cerr
    destroyer     trigger_wakeup ── notify_one ── join ── clear

`Log/Logger` takes each pass of a member function of the queue as one step.  Here the threads sleep,
are notified and retake the mutex as in `Queue/Threads`, any number of producers at once, and the
destructor goes on only when its own notification is out.  Where the threads are in the queue is
forgotten by `atomic`, and what is left is a run of `Log/Logger` that shows the same events
(`atomic_run`): whatever holds of those runs holds of these.
-/

variable {ι β : Type*}

namespace LogThreads

open Log
open QueueThreads (waitAndPopSection notifyOne)

/-! ## The threads -/

inductive Thread (ι : Type*)
  | producer (i : ι)
  | io
  | destroyer
  deriving DecidableEq, Fintype

structure State (ι β : Type*) where
  messageQueue : QueueThreads.State (Thread ι) Queued := {}
  backends : List β := []
  io : Io := .popping
  destructor : Destructor := .notEntered
  pushes : ℕ := 0

/-- The logger, without where its threads are in the queue. -/
def State.atomic (s : State ι β) : Log.State β where
  messageQueue := s.messageQueue.queue
  backends := s.backends
  io := s.io
  destructor := s.destructor
  pushes := s.pushes

inductive Action (ι β : Type*)
  | logstr (i : ι) (level : LogLevel) (message : List Char)
  | registerBackend (backend : β)
  /-- `io_process` calls `wait_and_pop` -/
  | waitAndPop
  /-- a step of a call already made: a notification, a mutex retaken, a spurious wakeup -/
  | goOn (a : QueueThreads.Action (Thread ι) Queued)
  /-- the rest of the iteration of `io_process` -/
  | dispatch
  | enterDestructor
  | triggerWakeup
  | joinIoThread
  | clearBackends

/-- How `io_process` goes on from what `wait_and_pop` tells it. -/
def resumed (io : Io) : List (QueueThreads.Event Queued) → Io
  | [.returned x] => .holding x
  | [.thrown] => .exited
  | _ => io

def shown : List (QueueThreads.Event Queued) → List (Event ι β)
  | [.returned x] => [.dequeued x]
  | _ => []

/-- A step of the queue, taken by the logger. -/
def State.taken (s : State ι β)
    (r : QueueThreads.State (Thread ι) Queued × List (QueueThreads.Event Queued)) :
    State ι β × List (Event ι β) :=
  ({ s with messageQueue := r.1, io := resumed s.io r.2 }, shown r.2)

def machine (ι β : Type*) [DecidableEq ι] [Fintype ι] :
    Machine (State ι β) (Action ι β) (Event ι β) where
  init := {}
  step s
    | .logstr i level message =>
      if s.destructor = .returned then none
      else if level = .discard then some (s, [])
      else
        let x := stamp s.atomic level message
        ((QueueThreads.machine _ _).step s.messageQueue (.push (.producer i) .move x 0)).map
          fun r => ({ s with messageQueue := r.1, pushes := s.pushes + 1 }, [.enqueued i x])
    | .registerBackend backend =>
      if s.destructor = .returned then none
      else some ({ s with backends := s.backends ++ [backend] }, [.registered backend])
    | .waitAndPop =>
      match s.io with
      | .popping =>
        ((QueueThreads.machine _ _).step s.messageQueue (.waitAndPop .io 1)).map s.taken
      | _ => none
    | .goOn a =>
      if a.isCall then none else ((QueueThreads.machine _ _).step s.messageQueue a).map s.taken
    | .dispatch =>
      match s.io, s.messageQueue.pc .io with
      | .holding x, .idle =>
        some ({ s with io := (ioDispatch (ι := ι) s.atomic x).1.io }, (ioDispatch s.atomic x).2)
      | _, _ => none
    | .enterDestructor =>
      match s.destructor with
      | .notEntered => some ({ s with destructor := .entered }, [])
      | _ => none
    | .triggerWakeup =>
      match s.destructor with
      | .entered =>
        ((QueueThreads.machine _ _).step s.messageQueue (.triggerWakeup .destroyer)).map
          fun r => ({ s with messageQueue := r.1, destructor := .triggered }, [])
      | _ => none
    | .joinIoThread =>
      match s.destructor, s.io, s.messageQueue.pc .destroyer with
      | .triggered, .exited, .idle => some ({ s with destructor := .joined }, [])
      | _, _, _ => none
    | .clearBackends =>
      match s.destructor with
      | .joined => some ({ s with backends := [], destructor := .returned }, [])
      | _ => none

/-- The steps of `Log/Logger` an action stands for. -/
def Action.atomic : Action ι β → List (Log.Action ι β)
  | .logstr i level message => [.logstr i level message]
  | .registerBackend backend => [.registerBackend backend]
  | .waitAndPop | .goOn (.retake _) => [.ioPop]
  | .goOn _ => []
  | .dispatch => [.ioDispatch]
  | .enterDestructor => [.enterDestructor]
  | .triggerWakeup => [.triggerWakeup]
  | .joinIoThread => [.joinIoThread]
  | .clearBackends => [.clearBackends]

/-! ## The threads in the queue -/

/-- The io thread is the one that waits on the queue. -/
def roles (threshold : ℕ) : QueueThreads.Roles (Thread ι) where
  consumer := .io
  prebuffering := 1
  producer := .io
  threshold := threshold

/-- Where the io thread can be in the queue, for where it is in `io_process`. -/
def Fits : QueueThreads.Pc Queued → Io → Prop
  | .idle, _ => True
  | .rxAsleep prebuffering, .popping | .rxAwake prebuffering, .popping => prebuffering = 1
  | .notifyTx, .holding _ => True
  | _, _ => False

/-- What is true of the threads whenever the lock is free. -/
structure Consistent (s : State ι β) : Prop where
  /-- for every threshold: nobody waits in `push_wait_if_full` -/
  waits : ∀ threshold, QueueThreads.Waits (roles threshold) s.messageQueue
  careful : ∀ i, (s.messageQueue.pc i).Careful
  fits : Fits (s.messageQueue.pc .io) s.io

/-- The calls the logger makes, and the steps that carry them out. -/
inductive Made : QueueThreads.Action (Thread ι) Queued → Prop
  | push (i : ι) (x : Queued) : Made (.push (.producer i) .move x 0)
  | waitAndPop : Made (.waitAndPop .io 1)
  | triggerWakeup : Made (.triggerWakeup .destroyer)
  | goOn {a : QueueThreads.Action (Thread ι) Queued} (ha : a.isCall = false) : Made a

theorem Made.allows {a : QueueThreads.Action (Thread ι) Queued} (h : Made a) (threshold : ℕ) :
    (roles threshold).Allows a := by
  cases h with
  | push i x => trivial
  | waitAndPop => exact ⟨rfl, rfl⟩
  | triggerWakeup => trivial
  | goOn ha =>
    cases a with
    | retake i | notifyOne i sleeper | spuriousWakeup i => trivial
    | _ => nomatch ha

theorem Made.passes {a : QueueThreads.Action (Thread ι) Queued} (h : Made a) : a.Passes {1} := by
  cases h with
  | push i x => trivial
  | waitAndPop => rfl
  | triggerWakeup => trivial
  | goOn ha =>
    cases a with
    | retake i | notifyOne i sleeper | spuriousWakeup i => trivial
    | _ => nomatch ha

section Queue

variable [DecidableEq ι] {s : State ι β} {q : QueueThreads.State (Thread ι) Queued}
  {es : List (QueueThreads.Event Queued)}

/-- **A pass through `wait_and_pop` is the step of `Log/Logger`**, whatever comes of it. -/
theorem ioPop_atomic (hsec : waitAndPopSection s.messageQueue .io 1 = (q, es)) :
    ioPop (ι := ι) s.atomic = ((s.taken (ι := ι) (q, es)).1.atomic, (s.taken (q, es)).2) := by
  have hqueue : s.atomic.messageQueue = s.messageQueue.queue := rfl
  rw [waitAndPopSection] at hsec
  rw [ioPop, hqueue]
  cases hpop : s.messageQueue.queue.waitAndPop 1 <;> rw [hpop] at hsec <;>
    obtain ⟨rfl, rfl⟩ := Prod.mk.inj hsec <;> rfl

theorem fits_waitAndPop (hio : s.io = .popping)
    (hsec : waitAndPopSection s.messageQueue .io 1 = (q, es)) :
    Fits (q.pc .io) (resumed s.io es) := by
  obtain ⟨-, -, heq⟩ | ⟨-, heq⟩ | ⟨x, r, -, -, -, -, heq⟩ | ⟨hzero, -⟩ :=
    QueueThreads.waitAndPopSection_cases s.messageQueue .io 1
  · obtain ⟨rfl, rfl⟩ := Prod.mk.inj (heq.symm.trans hsec)
    change Fits (Function.update s.messageQueue.pc .io _ .io) _
    rw [hio, Function.update_self]
    rfl
  · obtain ⟨rfl, rfl⟩ := Prod.mk.inj (heq.symm.trans hsec)
    change Fits (Function.update s.messageQueue.pc .io _ .io) _
    rw [Function.update_self]
    trivial
  · obtain ⟨rfl, rfl⟩ := Prod.mk.inj (heq.symm.trans hsec)
    change Fits (Function.update s.messageQueue.pc .io _ .io) _
    rw [Function.update_self]
    trivial
  · exact absurd hzero Nat.one_ne_zero

/-- Where a thread stands that is not the io thread, does not matter. -/
theorem fits_update {pcs : Thread ι → QueueThreads.Pc Queued} {io : Io} (h : Fits (pcs .io) io)
    {i : Thread ι} (hi : i ≠ .io) (pc : QueueThreads.Pc Queued) :
    Fits (Function.update pcs i pc .io) io := by
  rwa [Function.update_of_ne hi.symm]

/-- Being woken changes nothing of what is waited for. -/
theorem fits_woken {pcs : Thread ι → QueueThreads.Pc Queued} {io : Io} (h : Fits (pcs .io) io)
    {i : Thread ι} {rx : Bool} {pc : QueueThreads.Pc Queued}
    (hwoken : (pcs i).wokenOn rx = some pc) :
    Fits (Function.update pcs i pc .io) io := by
  obtain rfl | hne := eq_or_ne i .io
  · rw [Function.update_self]
    cases hpc : pcs .io <;> rw [hpc] at h hwoken <;>
      simp only [QueueThreads.Pc.wokenOn, reduceCtorEq] at hwoken
    · cases io <;> exact h.elim
    · split_ifs at hwoken
      obtain rfl := Option.some.inj hwoken
      cases io <;> exact h
  · exact fits_update h hne pc

theorem fits_idle {pcs : Thread ι → QueueThreads.Pc Queued} {io : Io} (h : Fits (pcs .io) io)
    (i : Thread ι) : Fits (Function.update pcs i .idle .io) io := by
  obtain rfl | hne := eq_or_ne i .io
  · rw [Function.update_self]
    trivial
  · exact fits_update h hne .idle

variable [Fintype ι]

/-- **A step of the queue keeps the threads in order**, if the io thread is then where it says. -/
theorem Consistent.queue (h : Consistent s) {a : QueueThreads.Action (Thread ι) Queued}
    (ha : Made a) (hstep : (QueueThreads.machine _ _).step s.messageQueue a = some (q, es))
    {t : State ι β} (ht : t.messageQueue = q) (hfits : Fits (q.pc .io) t.io) : Consistent t := by
  subst ht
  have hzero : 0 ∉ ({1} : Set ℕ) := by simp
  exact {
    waits := fun threshold => (h.waits threshold).step (ha.allows threshold) hstep
    careful := QueueThreads.careful_step hzero ha.passes h.careful hstep
    fits := hfits }

/-- Only the io thread is ever woken to retake the mutex, and only in `wait_and_pop`. -/
theorem Consistent.retake (h : Consistent s) {i : Thread ι}
    (hstep : (QueueThreads.machine _ _).step s.messageQueue (.retake i) = some (q, es)) :
    i = .io ∧ s.io = .popping ∧ waitAndPopSection s.messageQueue .io 1 = (q, es) := by
  obtain ⟨x, threshold, hi, -⟩ | ⟨prebuffering, hi, hsec⟩ := QueueThreads.step_retake.mp hstep
  · have hwaits : (s.messageQueue.pc i).waitsOn false = some threshold := by rw [hi]; rfl
    have h₀ := (Prod.mk.inj ((h.waits 0).role false i threshold hwaits)).2
    have h₁ := (Prod.mk.inj ((h.waits 1).role false i threshold hwaits)).2
    exact absurd (h₀.symm.trans h₁) Nat.zero_ne_one
  · have hwaits : (s.messageQueue.pc i).waitsOn true = some prebuffering := by rw [hi]; rfl
    obtain ⟨rfl, rfl⟩ : i = .io ∧ prebuffering = 1 :=
      Prod.mk.inj ((h.waits 0).role true i prebuffering hwaits)
    have hfits := h.fits
    rw [hi] at hfits
    refine ⟨rfl, ?_, hsec⟩
    cases hio : s.io with
    | popping => rfl
    | holding x | exited | undefined x =>
      rw [hio] at hfits
      exact hfits.elim

end Queue

/-! ## What a step can do -/

/-- The enabled steps out of `s`, what they do to the queue, where they lead and what they show. -/
inductive Effect [DecidableEq ι] [Fintype ι] (s : State ι β) :
    Action ι β → State ι β → List (Event ι β) → Prop
  | discarded (i : ι) (message : List Char) (hd : s.destructor ≠ .returned) :
      Effect s (.logstr i .discard message) s []
  | pushed (i : ι) (level : LogLevel) (message : List Char)
      {q : QueueThreads.State (Thread ι) Queued} {es : List (QueueThreads.Event Queued)}
      (hd : s.destructor ≠ .returned) (hlevel : level ≠ .discard)
      (hstep : (QueueThreads.machine _ _).step s.messageQueue
        (.push (.producer i) .move (stamp s.atomic level message) 0) = some (q, es)) :
      Effect s (.logstr i level message) { s with messageQueue := q, pushes := s.pushes + 1 }
        [.enqueued i (stamp s.atomic level message)]
  | registered (backend : β) (hd : s.destructor ≠ .returned) :
      Effect s (.registerBackend backend) { s with backends := s.backends ++ [backend] }
        [.registered backend]
  | called {q : QueueThreads.State (Thread ι) Queued} {es : List (QueueThreads.Event Queued)}
      (hio : s.io = .popping)
      (hstep : (QueueThreads.machine _ _).step s.messageQueue (.waitAndPop .io 1) = some (q, es)) :
      Effect s .waitAndPop (s.taken (ι := ι) (q, es)).1 (s.taken (q, es)).2
  | wentOn {a : QueueThreads.Action (Thread ι) Queued}
      {q : QueueThreads.State (Thread ι) Queued} {es : List (QueueThreads.Event Queued)}
      (ha : a.isCall = false)
      (hstep : (QueueThreads.machine _ _).step s.messageQueue a = some (q, es)) :
      Effect s (.goOn a) (s.taken (ι := ι) (q, es)).1 (s.taken (q, es)).2
  | dispatched (x : Queued) (hio : s.io = .holding x) (hidle : s.messageQueue.pc .io = .idle) :
      Effect s .dispatch { s with io := (ioDispatch (ι := ι) s.atomic x).1.io }
        (ioDispatch s.atomic x).2
  | entered (hd : s.destructor = .notEntered) :
      Effect s .enterDestructor { s with destructor := .entered } []
  | triggered {q : QueueThreads.State (Thread ι) Queued} {es : List (QueueThreads.Event Queued)}
      (hd : s.destructor = .entered)
      (hstep : (QueueThreads.machine _ _).step s.messageQueue (.triggerWakeup .destroyer)
        = some (q, es)) :
      Effect s .triggerWakeup { s with messageQueue := q, destructor := .triggered } []
  | joined (hd : s.destructor = .triggered) (hio : s.io = .exited)
      (hidle : s.messageQueue.pc .destroyer = .idle) :
      Effect s .joinIoThread { s with destructor := .joined } []
  | cleared (hd : s.destructor = .joined) :
      Effect s .clearBackends { s with backends := [], destructor := .returned } []

section Step

variable [DecidableEq ι] [Fintype ι] {s t : State ι β} {a : Action ι β} {es : List (Event ι β)}

/-- **Every enabled step is one of these.** -/
theorem effect_of_step (h : (machine ι β).step s a = some (t, es)) : Effect s a t es := by
  cases a with
  | logstr i level message =>
    have hd : s.destructor ≠ .returned := by
      intro hd
      simp [machine, hd] at h
    by_cases hlevel : level = .discard
    · subst hlevel
      simp only [machine, if_neg hd, if_true, Option.some.injEq] at h
      obtain ⟨rfl, rfl⟩ := Prod.mk.inj h
      exact .discarded i message hd
    · simp only [machine, if_neg hd, if_neg hlevel] at h
      obtain ⟨⟨q, fs⟩, hstep, heq⟩ := Option.map_eq_some_iff.mp h
      obtain ⟨rfl, rfl⟩ := Prod.mk.inj heq
      exact .pushed i level message hd hlevel hstep
  | registerBackend backend =>
    by_cases hd : s.destructor = .returned <;> simp only [machine, hd, if_true, if_false,
      Option.some.injEq, reduceCtorEq] at h
    obtain ⟨rfl, rfl⟩ := Prod.mk.inj h
    exact .registered backend hd
  | waitAndPop =>
    cases hio : s.io <;> simp only [machine, hio, reduceCtorEq] at h
    obtain ⟨⟨q, fs⟩, hstep, heq⟩ := Option.map_eq_some_iff.mp h
    obtain ⟨rfl, rfl⟩ := Prod.mk.inj heq
    exact .called hio hstep
  | goOn b =>
    cases hb : b.isCall <;> simp only [machine, hb, Bool.false_eq_true, if_true, if_false,
      reduceCtorEq] at h
    obtain ⟨⟨q, fs⟩, hstep, heq⟩ := Option.map_eq_some_iff.mp h
    obtain ⟨rfl, rfl⟩ := Prod.mk.inj heq
    exact .wentOn hb hstep
  | dispatch =>
    simp only [machine] at h
    split at h
    · next x hio hpc =>
      obtain ⟨rfl, rfl⟩ := Prod.mk.inj (Option.some.inj h)
      exact .dispatched x hio hpc
    · cases h
  | enterDestructor =>
    cases hd : s.destructor <;> simp only [machine, hd, Option.some.injEq, reduceCtorEq] at h
    obtain ⟨rfl, rfl⟩ := Prod.mk.inj h
    exact .entered hd
  | triggerWakeup =>
    cases hd : s.destructor <;> simp only [machine, hd, reduceCtorEq] at h
    obtain ⟨⟨q, fs⟩, hstep, heq⟩ := Option.map_eq_some_iff.mp h
    obtain ⟨rfl, rfl⟩ := Prod.mk.inj heq
    exact .triggered hd hstep
  | joinIoThread =>
    simp only [machine] at h
    split at h
    · next hd hio hpc =>
      obtain ⟨rfl, rfl⟩ := Prod.mk.inj (Option.some.inj h)
      exact .joined hd hio hpc
    · cases h
  | clearBackends =>
    cases hd : s.destructor <;> simp only [machine, hd, Option.some.injEq, reduceCtorEq] at h
    obtain ⟨rfl, rfl⟩ := Prod.mk.inj h
    exact .cleared hd

omit [DecidableEq ι] [Fintype ι] in
/-- A dispatch moves nobody but the io thread. -/
theorem ioDispatch_io (s : Log.State β) (x : Queued) :
    { s with io := (ioDispatch (ι := ι) s x).1.io } = (ioDispatch (ι := ι) s x).1 := by
  rw [ioDispatch]
  split <;> rfl

/-- A step of the queue that is no pass through `wait_and_pop` tells the io thread nothing. -/
theorem quiet_of_goOn (h : Consistent s) {b : QueueThreads.Action (Thread ι) Queued}
    {q : QueueThreads.State (Thread ι) Queued} {fs : List (QueueThreads.Event Queued)}
    (hb : b.isCall = false)
    (hstep : (QueueThreads.machine _ _).step s.messageQueue b = some (q, fs)) :
    (s.io = .popping ∧ (∃ i, b = .retake i) ∧
      waitAndPopSection s.messageQueue .io 1 = (q, fs)) ∨
    ((Action.goOn b : Action ι β).atomic = [] ∧ fs = [] ∧ q.queue = s.messageQueue.queue ∧
      Fits (q.pc .io) s.io) := by
  cases b with
  | retake i =>
    obtain ⟨-, hio, hsec⟩ := h.retake hstep
    exact .inl ⟨hio, ⟨i, rfl⟩, hsec⟩
  | notifyOne i sleeper =>
    obtain ⟨rx, u, hi, hnotify, heq⟩ := QueueThreads.step_notifyOne.mp hstep
    obtain ⟨rfl, rfl⟩ := Prod.mk.inj heq
    obtain ⟨hqueue, ⟨-, -, hpc⟩ | ⟨j, pc, -, hwoken, hpc⟩⟩ := QueueThreads.notifyOne_cases hnotify
    · refine .inr ⟨rfl, rfl, hqueue, ?_⟩
      rw [hpc]
      exact fits_idle h.fits i
    · refine .inr ⟨rfl, rfl, hqueue, ?_⟩
      rw [hpc]
      exact fits_idle (fits_woken h.fits hwoken) i
  | spuriousWakeup i =>
    obtain ⟨rx, pc, hwoken, heq⟩ := QueueThreads.step_spuriousWakeup.mp hstep
    obtain ⟨rfl, rfl⟩ := Prod.mk.inj heq
    exact .inr ⟨rfl, rfl, rfl, fits_woken h.fits hwoken⟩
  | _ => nomatch hb

/-- **One step is one of the logger, or none.** -/
theorem atomic_step (h : Consistent s) (hstep : (machine ι β).step s a = some (t, es)) :
    Consistent t ∧ (Log.machine ι β).Steps s.atomic a.atomic es t.atomic := by
  cases effect_of_step hstep with
  | discarded i message hd =>
    refine ⟨h, .single ?_⟩
    simp [Log.machine, Log.logstr, hd, State.atomic]
  | pushed i level message hd hlevel hqueue =>
    obtain ⟨-, hsec⟩ := QueueThreads.step_push.mp hqueue
    obtain ⟨rfl, -⟩ := Prod.mk.inj hsec
    have hfits := fits_update (i := .producer i) h.fits (by simp) .notifyRx
    refine ⟨h.queue (.push i _) hqueue rfl hfits, .single ?_⟩
    have hatomic : s.atomic.destructor ≠ .returned := hd
    simp only [Log.machine, if_neg hatomic, Log.logstr, if_neg hlevel]
    rfl
  | registered backend hd =>
    refine ⟨⟨h.waits, h.careful, h.fits⟩, .single ?_⟩
    simp [Log.machine, hd, State.atomic]
  | called hio hqueue =>
    obtain ⟨-, hsec⟩ := QueueThreads.step_waitAndPop.mp hqueue
    refine ⟨h.queue .waitAndPop hqueue rfl (fits_waitAndPop hio hsec), .single ?_⟩
    have hpopping : s.atomic.io = .popping := hio
    simp only [Log.machine, hpopping]
    rw [ioPop_atomic hsec]
  | @wentOn b q fs ha hqueue =>
    obtain ⟨hio, ⟨i, rfl⟩, hsec⟩ | ⟨hnone, rfl, hsame, hfits⟩ := quiet_of_goOn h ha hqueue
    · refine ⟨h.queue (.goOn ha) hqueue rfl (fits_waitAndPop hio hsec), .single ?_⟩
      have hpopping : s.atomic.io = .popping := hio
      simp only [Log.machine, hpopping]
      rw [ioPop_atomic hsec]
    · refine ⟨h.queue (.goOn ha) hqueue rfl hfits, ?_⟩
      have hleft : (s.taken (ι := ι) (q, [])).1.atomic = s.atomic := by
        simp only [State.taken, State.atomic, resumed, hsame]
      rw [hnone, hleft]
      exact .refl
  | dispatched x hio hidle =>
    have hfits : Fits (s.messageQueue.pc .io) (ioDispatch (ι := ι) s.atomic x).1.io := by
      rw [hidle]
      trivial
    have hholding : s.atomic.io = .holding x := hio
    refine ⟨⟨h.waits, h.careful, hfits⟩, .single ?_⟩
    simp only [Log.machine, hholding]
    exact congrArg some (Prod.ext (ioDispatch_io s.atomic x).symm rfl)
  | entered hd =>
    refine ⟨⟨h.waits, h.careful, h.fits⟩, .single ?_⟩
    simp [Log.machine, hd, State.atomic]
  | triggered hd hqueue =>
    obtain ⟨-, hsec⟩ := QueueThreads.step_triggerWakeup.mp hqueue
    obtain ⟨rfl, -⟩ := Prod.mk.inj hsec
    have hfits := fits_update (i := .destroyer) h.fits (by simp) .notifyRx
    refine ⟨h.queue .triggerWakeup hqueue rfl hfits, .single ?_⟩
    simp [Log.machine, hd, State.atomic]
  | joined hd hio hidle =>
    refine ⟨⟨h.waits, h.careful, h.fits⟩, .single ?_⟩
    simp [Log.machine, hd, hio, State.atomic]
  | cleared hd =>
    refine ⟨⟨h.waits, h.careful, h.fits⟩, .single ?_⟩
    simp [Log.machine, hd, State.atomic]

end Step

/-! ## Every run -/

section Run

variable [DecidableEq ι] [Fintype ι] {as : List (Action ι β)} {es : List (Event ι β)}
  {s t : State ι β}

theorem Consistent.init : Consistent (machine ι β).init where
  waits _ := QueueThreads.Waits.run .refl nofun
  careful _ := True.intro
  fits := True.intro

theorem Consistent.steps (h : Consistent s) (hsteps : (machine ι β).Steps s as es t) :
    Consistent t ∧ (Log.machine ι β).Steps s.atomic (as.flatMap Action.atomic) es t.atomic :=
  hsteps.forget h atomic_step

/-- **The steps of the queue are not seen.**  Every run of the threads, however they sleep, are woken
and overtake each other, shows the events of a run of the logger whose steps are the critical
sections, with the same calls in the same order. -/
theorem atomic_run (hrun : (machine ι β).Run as es s) :
    (Log.machine ι β).Run (as.flatMap Action.atomic) es s.atomic :=
  (Consistent.init.steps hrun).2

/-- The io thread is asleep when a message comes, the destructor requests its wakeup after the
dispatch. -/
theorem atomic_run_asleep : ∃ s es,
    (machine (Fin 1) ℕ).Run [.registerBackend 0, .waitAndPop, .logstr 0 .warn "late".toList,
      .goOn (.notifyOne (.producer 0) (some .io)), .goOn (.retake .io), .enterDestructor,
      .goOn (.notifyOne .io none), .dispatch, .triggerWakeup, .goOn (.notifyOne .destroyer none),
      .waitAndPop, .joinIoThread, .clearBackends] es s ∧
    (Log.machine (Fin 1) ℕ).Run [.registerBackend 0, .ioPop, .logstr 0 .warn "late".toList, .ioPop,
      .enterDestructor, .ioDispatch, .triggerWakeup, .ioPop, .joinIoThread, .clearBackends] es
      s.atomic := by
  obtain ⟨s, es, hrun⟩ : ∃ s es, (machine (Fin 1) ℕ).Run [.registerBackend 0, .waitAndPop,
      .logstr 0 .warn "late".toList, .goOn (.notifyOne (.producer 0) (some .io)), .goOn (.retake .io),
      .enterDestructor, .goOn (.notifyOne .io none), .dispatch, .triggerWakeup,
      .goOn (.notifyOne .destroyer none), .waitAndPop, .joinIoThread, .clearBackends] es s :=
    ⟨_, _, Machine.steps_get (by decide)⟩
  exact ⟨s, es, hrun, atomic_run hrun⟩

end Run

end LogThreads
