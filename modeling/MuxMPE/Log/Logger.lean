import Mathlib.Algebra.Group.Nat.Defs
import MuxMPE.Machinery.Fifo
import MuxMPE.Queue.ThreadsafeQueue

/-!
# Log/Logger — the logger: producers, backends, the io thread, the destructor

    logstr ──push──▸ m_message_queue ──wait_and_pop──▸ io_process ──▸ every backend, cerr
                          ▲                                ▲
                   trigger_wakeup ◂──── ~Logger ────▸ join, clear

The queue is used through its critical sections (`Queue/ThreadsafeQueue`), one step each; handing a
message to the backends happens under `m_backend_mutex` and is one step too, as is a registration.
The io thread may evaluate the condition of `wait_and_pop` at any time, which covers every order of
notifications and spurious wakeups.

A pushed message carries the stamps of its push (`Queued`): they name it in the history and are read
by no step.
-/

namespace Log

/-! ## Messages -/

/-- `log_level_t`. -/
inductive LogLevel
  | debug | info | warn | error | alert | emerg | trace | discard
  deriving DecidableEq

def levelsAsStr : LogLevel → List Char
  | .debug => "     ".toList
  | .info => "     ".toList
  | .warn => "WARN ".toList
  | .error => "ERROR".toList
  | .alert => "ALERT".toList
  | .emerg => "EMERG".toList
  | .trace => "TRACE".toList
  | .discard => "-----".toList

/-- `log_message_t`. -/
structure LogMessage where
  level : LogLevel := .debug
  message : List Char := []

/-- `message.length()-1`, in `size_t`. -/
def lastIndex (message : List Char) : ℕ :=
  if message.length = 0 then 2 ^ 64 - 1 else message.length - 1

/-- The removal of a trailing newline in `io_process`; `none` is `operator[]` past the end, which is
undefined. -/
def trimNewline (message : List Char) : Option (List Char) :=
  match message[lastIndex message]? with
  | none => none
  | some c => some (if c = '\n' then message.take (lastIndex message) else message)

/-- What a backend is handed: the text without the one newline it may end in. -/
def withoutNewline (message : List Char) : List Char :=
  if message.getLast? = some '\n' then message.dropLast else message

theorem trimNewline_eq {message : List Char} (h : message ≠ []) :
    trimNewline message = some (withoutNewline message) := by
  have hlen : message.length ≠ 0 := fun h0 => h (List.length_eq_zero_iff.mp h0)
  have hlast : message[lastIndex message]? = message.getLast? := by
    rw [lastIndex, if_neg hlen, List.getLast?_eq_getElem?]
  rw [trimNewline, hlast, withoutNewline]
  rcases hc : message.getLast? with _ | c
  · exact absurd (List.getLast?_eq_none_iff.mp hc) h
  · rw [lastIndex, if_neg hlen, List.dropLast_eq_take]
    by_cases hn : c = '\n' <;> simp [hn]

/-- Only the empty message is indexed out of range. -/
theorem trimNewline_eq_none {message : List Char} :
    trimNewline message = none ↔ message = [] := by
  constructor
  · intro h
    by_contra hne
    simp [trimNewline_eq hne] at h
  · rintro rfl
    rfl

/-! ## The state -/

variable {ι β : Type*}

/-- A message in the queue, with the stamps of its push: its place among all pushes, how many
backends were registered, and whether `~Logger` had not been entered. -/
structure Queued where
  serial : ℕ
  registered : ℕ
  beforeDestructor : Bool
  msg : LogMessage

/-- Where the io thread is in `io_process`. -/
inductive Io
  /-- in `wait_and_pop`, or on its way there -/
  | popping
  /-- the message is popped, its dispatch still to come -/
  | holding (x : Queued)
  /-- past the `break` -/
  | exited
  /-- past an undefined operation on `x`: no step leads out -/
  | undefined (x : Queued)

/-- Where the destroying thread is in `~Logger`. -/
inductive Destructor
  | notEntered
  | entered
  | triggered
  | joined
  | returned
  deriving DecidableEq

structure State (β : Type*) where
  messageQueue : ThreadsafeQueue Queued := {}
  backends : List β := []
  io : Io := .popping
  destructor : Destructor := .notEntered
  /-- pushes so far, for the stamps -/
  pushes : ℕ := 0

inductive Action (ι β : Type*)
  | logstr (i : ι) (level : LogLevel) (message : List Char)
  | registerBackend (backend : β)
  /-- one evaluation of the loop condition of `wait_and_pop` by the io thread -/
  | ioPop
  /-- the rest of the iteration: newline, backends, `cerr` -/
  | ioDispatch
  | enterDestructor
  | triggerWakeup
  | joinIoThread
  | clearBackends

/-- What happens, in the order it happens.  A backend is named by its place in `backends`. -/
inductive Event (ι β : Type*)
  | enqueued (i : ι) (x : Queued)
  | registered (backend : β)
  | dequeued (x : Queued)
  | handed (k : ℕ) (backend : β) (serial : ℕ) (level : LogLevel) (text : List Char)
  | cerr (line : List Char)
  | dispatched (x : Queued)

/-! ## The steps -/

/-- The `for` over the backends, the first of them having place `k`. -/
def handOver (x : Queued) (text : List Char) : ℕ → List β → List (Event ι β)
  | _, [] => []
  | k, backend :: backends =>
    .handed k backend x.serial x.msg.level text :: handOver x text (k + 1) backends

/-- `Logger::logstr`. -/
def logstr (s : State β) (i : ι) (level : LogLevel) (message : List Char) :
    State β × List (Event ι β) :=
  if level = .discard then (s, [])
  else
    let x : Queued :=
      { serial := s.pushes
        registered := s.backends.length
        beforeDestructor := s.destructor = .notEntered
        msg := { level := level, message := message } }
    ({ s with messageQueue := (s.messageQueue.pushMove x).1, pushes := s.pushes + 1 },
      [.enqueued i x])

def ioPop (s : State β) : State β × List (Event ι β) :=
  match s.messageQueue.waitAndPop with
  | .wait => (s, [])
  -- `catch (const ThreadsafeQueueWakeup&) { break; }`
  | .wakeup q => ({ s with messageQueue := q, io := .exited }, [])
  | .popped x q => ({ s with messageQueue := q, io := .holding x }, [.dequeued x])
  -- unreachable: the default prebuffering is 1
  | .emptyFront => (s, [])

/-- The `cerr` line is shown without the time in front of it. -/
def ioDispatch (s : State β) (x : Queued) : State β × List (Event ι β) :=
  match trimNewline x.msg.message with
  | none => ({ s with io := .undefined x }, [])
  | some text =>
    ({ s with io := .popping },
      handOver x text 0 s.backends ++
        (if x.msg.level ≠ .trace then [.cerr (levelsAsStr x.msg.level ++ ' ' :: text)] else []) ++
        [.dispatched x])

/-- The program around one `Logger`; once `~Logger` has returned there is no logger to call. -/
def machine (ι β : Type*) : Machine (State β) (Action ι β) (Event ι β) where
  init := {}
  step s
    | .logstr i level message =>
      if s.destructor = .returned then none else some (logstr s i level message)
    | .registerBackend backend =>
      if s.destructor = .returned then none
      else some ({ s with backends := s.backends ++ [backend] }, [.registered backend])
    | .ioPop =>
      match s.io with
      | .popping => some (ioPop s)
      | _ => none
    | .ioDispatch =>
      match s.io with
      | .holding x => some (ioDispatch s x)
      | _ => none
    | .enterDestructor =>
      match s.destructor with
      | .notEntered => some ({ s with destructor := .entered }, [])
      | _ => none
    | .triggerWakeup =>
      match s.destructor with
      | .entered =>
        some ({ s with messageQueue := s.messageQueue.triggerWakeup, destructor := .triggered }, [])
      | _ => none
    | .joinIoThread =>
      match s.destructor, s.io with
      | .triggered, .exited => some ({ s with destructor := .joined }, [])
      | _, _ => none
    | .clearBackends =>
      match s.destructor with
      | .joined => some ({ s with backends := [], destructor := .returned }, [])
      | _ => none

/-! ## What a step can do -/

/-- The stamped message a `logstr` pushes. -/
def stamp (s : State β) (level : LogLevel) (message : List Char) : Queued where
  serial := s.pushes
  registered := s.backends.length
  beforeDestructor := s.destructor = .notEntered
  msg := { level := level, message := message }

/-- The enabled steps out of `s`, with their guards, where they lead and what they show. -/
inductive Effect (s : State β) : Action ι β → State β → List (Event ι β) → Prop
  | discarded (i : ι) (message : List Char) (hd : s.destructor ≠ .returned) :
      Effect s (.logstr i .discard message) s []
  | enqueued (i : ι) (level : LogLevel) (message : List Char) (hd : s.destructor ≠ .returned)
      (hlevel : level ≠ .discard) :
      Effect s (.logstr i level message)
        { s with
          messageQueue :=
            { s.messageQueue with
              theQueue := s.messageQueue.theQueue ++ [stamp s level message] }
          pushes := s.pushes + 1 }
        [.enqueued i (stamp s level message)]
  | registered (backend : β) (hd : s.destructor ≠ .returned) :
      Effect s (.registerBackend backend) { s with backends := s.backends ++ [backend] }
        [.registered backend]
  | waiting (hio : s.io = .popping) (hq : s.messageQueue.theQueue = [])
      (hw : s.messageQueue.wakeupRequested = false) : Effect s .ioPop s []
  | woken (hio : s.io = .popping) (hw : s.messageQueue.wakeupRequested = true) :
      Effect s .ioPop
        { s with messageQueue := { s.messageQueue with wakeupRequested := false }, io := .exited }
        []
  | dequeued (x : Queued) (q : ThreadsafeQueue Queued) (hio : s.io = .popping)
      (hq : s.messageQueue.theQueue = x :: q.theQueue)
      (hw : s.messageQueue.wakeupRequested = false) (hw' : q.wakeupRequested = false) :
      Effect s .ioPop { s with messageQueue := q, io := .holding x } [.dequeued x]
  | dispatched (x : Queued) (cerrLine : List (List Char)) (hio : s.io = .holding x)
      (hne : x.msg.message ≠ []) :
      Effect s .ioDispatch { s with io := .popping }
        (handOver x (withoutNewline x.msg.message) 0 s.backends ++ cerrLine.map .cerr ++
          [.dispatched x])
  | undefined (x : Queued) (hio : s.io = .holding x) (hempty : x.msg.message = []) :
      Effect s .ioDispatch { s with io := .undefined x } []
  | entered (hd : s.destructor = .notEntered) :
      Effect s .enterDestructor { s with destructor := .entered } []
  | triggered (hd : s.destructor = .entered) :
      Effect s .triggerWakeup
        { s with messageQueue := s.messageQueue.triggerWakeup, destructor := .triggered } []
  | joined (hd : s.destructor = .triggered) (hio : s.io = .exited) :
      Effect s .joinIoThread { s with destructor := .joined } []
  | cleared (hd : s.destructor = .joined) :
      Effect s .clearBackends { s with backends := [], destructor := .returned } []

theorem effect_logstr {s t : State β} {i : ι} {level : LogLevel} {message : List Char}
    {es : List (Event ι β)} (h : (machine ι β).step s (.logstr i level message) = some (t, es)) :
    Effect s (.logstr i level message) t es := by
  have hstep : s.destructor ≠ .returned ∧ logstr s i level message = (t, es) := by
    simpa [machine] using h
  obtain ⟨hd, hlog⟩ := hstep
  rw [logstr] at hlog
  split_ifs at hlog with hlevel <;> obtain ⟨rfl, rfl⟩ := Prod.mk.inj hlog
  · subst hlevel
    exact .discarded i message hd
  · exact .enqueued i level message hd hlevel

theorem effect_ioPop {s t : State β} {es : List (Event ι β)}
    (h : (machine ι β).step s .ioPop = some (t, es)) : Effect s .ioPop t es := by
  have hstep : s.io = .popping ∧ ioPop s = (t, es) := by
    rcases hio : s.io <;> simp_all [machine]
  obtain ⟨hio, hpop⟩ := hstep
  rw [ioPop] at hpop
  rcases hq : s.messageQueue.waitAndPop with _ | q | ⟨x, q⟩ | _ <;> rw [hq] at hpop <;>
    obtain ⟨rfl, rfl⟩ := Prod.mk.inj hpop
  · obtain ⟨hlt, hw⟩ := ThreadsafeQueue.waitAndPop_eq_wait.mp hq
    exact .waiting hio (List.length_eq_zero_iff.mp (by omega)) hw
  · obtain ⟨hw, rfl⟩ := ThreadsafeQueue.waitAndPop_eq_wakeup.mp hq
    exact .woken hio hw
  · obtain ⟨_, hw, hq, hw'⟩ := ThreadsafeQueue.waitAndPop_eq_popped.mp hq
    exact .dequeued x q hio hq hw hw'
  · exact absurd (ThreadsafeQueue.waitAndPop_eq_emptyFront.mp hq).1 Nat.one_ne_zero

theorem effect_ioDispatch {s t : State β} {es : List (Event ι β)}
    (h : (machine ι β).step s .ioDispatch = some (t, es)) : Effect s .ioDispatch t es := by
  obtain ⟨x, hio, hdisp⟩ : ∃ x, s.io = .holding x ∧ ioDispatch s x = (t, es) := by
    rcases hio : s.io <;> simp_all [machine]
  rw [ioDispatch] at hdisp
  by_cases hempty : x.msg.message = []
  · rw [trimNewline_eq_none.mpr hempty] at hdisp
    obtain ⟨rfl, rfl⟩ := Prod.mk.inj hdisp
    exact .undefined x hio hempty
  · rw [trimNewline_eq hempty] at hdisp
    obtain ⟨rfl, rfl⟩ := Prod.mk.inj hdisp
    have hcerr : ∀ (c : Prop) [Decidable c] (line : List Char),
        (if c then [Event.cerr line] else [] : List (Event ι β))
          = (if c then [line] else []).map .cerr := by
      intro c _ line
      split_ifs <;> rfl
    rw [hcerr]
    exact .dispatched x _ hio hempty

/-- **Every enabled step is one of these.** -/
theorem effect_of_step {s t : State β} {a : Action ι β} {es : List (Event ι β)}
    (h : (machine ι β).step s a = some (t, es)) : Effect s a t es := by
  cases a with
  | logstr i level message =>
    exact effect_logstr h
  | registerBackend backend =>
    by_cases hd : s.destructor = .returned <;> simp only [machine, hd, if_true, if_false,
      Option.some.injEq, reduceCtorEq] at h
    obtain ⟨rfl, rfl⟩ := Prod.mk.inj h
    exact .registered backend hd
  | ioPop =>
    exact effect_ioPop h
  | ioDispatch =>
    exact effect_ioDispatch h
  | enterDestructor =>
    rcases hd : s.destructor <;> simp only [machine, hd, Option.some.injEq, reduceCtorEq] at h
    obtain ⟨rfl, rfl⟩ := Prod.mk.inj h
    exact .entered hd
  | triggerWakeup =>
    rcases hd : s.destructor <;> simp only [machine, hd, Option.some.injEq, reduceCtorEq] at h
    obtain ⟨rfl, rfl⟩ := Prod.mk.inj h
    exact .triggered hd
  | joinIoThread =>
    obtain ⟨hd, hio, heq⟩ : s.destructor = .triggered ∧ s.io = .exited ∧
        (({ s with destructor := .joined }, []) : State β × List (Event ι β)) = (t, es) := by
      rcases hd : s.destructor <;> rcases hio : s.io <;> simp_all [machine]
    obtain ⟨rfl, rfl⟩ := Prod.mk.inj heq
    exact .joined hd hio
  | clearBackends =>
    rcases hd : s.destructor <;> simp only [machine, hd, Option.some.injEq, reduceCtorEq] at h
    obtain ⟨rfl, rfl⟩ := Prod.mk.inj h
    exact .cleared hd

end Log
