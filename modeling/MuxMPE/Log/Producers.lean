import MuxMPE.Log.Format
import MuxMPE.Log.Logger

/-!
# Log/Producers — the three ways to a message, and what becomes of it

    Logger::log ──format──┐
    Logger::logstr ───────┼─▸ push ──▸ ⋯ ──▸ io_process: message[length - 1], resize, backends
    LogLine << ⋯ ── ~ ────┘

No producer looks at the length of its text, and the consumer takes one off it in `size_t`.  A text of
any length but zero is handed on without the newline it may end in; an empty one, which a `LogLine`
has that nothing was streamed into, is indexed out of range.
-/

namespace Log

/-! ## The producers -/

structure LogLine where
  os : List Char := []
  level : LogLevel

/-- `operator<<`, `text` being what the stream makes of its operand. -/
def LogLine.stream (l : LogLine) (text : List Char) : LogLine :=
  if l.level ≠ .discard then { l with os := l.os ++ text } else l

/-- `~LogLine`: the arguments of its call of `logstr`, if it makes one. -/
def LogLine.destroy (l : LogLine) : Option (LogLevel × List Char) :=
  if l.level ≠ .discard then some (l.level, l.os) else none

inductive Call
  /-- `Logger::log` of a format that makes `text`, on a `vsnprintf` that does as `outcomes` says -/
  | log (level : LogLevel) (text : List Char) (outcomes : ℕ → Outcome)
  | logstr (level : LogLevel) (message : List Char)
  /-- a `LogLine` with `pieces` streamed into it -/
  | logLine (level : LogLevel) (pieces : List (List Char))

/-- The text the caller means. -/
def Call.text : Call → List Char
  | .log _ text _ => text
  | .logstr _ message => message
  | .logLine _ pieces => pieces.flatten

/-- `call` comes to `logstr(level, message)`. -/
inductive Call.Passes : Call → LogLevel → List Char → Prop
  | log {level : LogLevel} {text : List Char} {outcomes : ℕ → Outcome} {k : ℕ} {str : List Char} :
      level ≠ .discard → loop text outcomes k = .finished str →
        Passes (.log level text outcomes) level str
  | logstr {level : LogLevel} {message : List Char} : Passes (.logstr level message) level message
  | logLine {level level' : LogLevel} {pieces : List (List Char)} {message : List Char} :
      (pieces.foldl LogLine.stream { level := level }).destroy = some (level', message) →
        Passes (.logLine level pieces) level' message

/-- **What is streamed is what is logged.** -/
theorem foldl_stream {l : LogLine} (h : l.level ≠ .discard) (pieces : List (List Char)) :
    pieces.foldl LogLine.stream l = { l with os := l.os ++ pieces.flatten } := by
  induction pieces generalizing l with
  | nil => rw [List.foldl_nil, List.flatten_nil, List.append_nil]
  | cons piece pieces ih =>
    have hstream : l.stream piece = { l with os := l.os ++ piece } := if_pos h
    rw [List.foldl_cons, hstream, ih (l := { l with os := l.os ++ piece }) h, List.flatten_cons,
      List.append_assoc]

theorem level_foldl_stream (l : LogLine) (pieces : List (List Char)) :
    (pieces.foldl LogLine.stream l).level = l.level := by
  induction pieces generalizing l with
  | nil => rfl
  | cons piece pieces ih =>
    rw [List.foldl_cons, ih, LogLine.stream]
    split <;> rfl

/-- **No producer changes its text**, whatever its length. -/
theorem Call.Passes.message_eq {call : Call} {level : LogLevel} {message : List Char}
    (h : call.Passes level message) : message = call.text := by
  cases h with
  | log _ hfinished => exact (loop_sound _ _ _).whole _ hfinished
  | logstr => rfl
  | @logLine lineLevel _ pieces _ hdestroy =>
    rw [LogLine.destroy, level_foldl_stream] at hdestroy
    split_ifs at hdestroy with hlevel
    rw [foldl_stream hlevel, Option.some.injEq, Prod.mk.injEq] at hdestroy
    exact hdestroy.2.symm

/-- `m` is in the queue after `call`. -/
def Call.Enqueues (call : Call) (m : LogMessage) : Prop :=
  call.Passes m.level m.message ∧ m.level ≠ .discard

/-! ## The consumer -/

section Consumer

variable {ι β : Type*}

/-- Nothing on its way through the logger is empty, and nothing was. -/
structure NonemptyOnly (s : State β) : Prop where
  queued : ∀ x ∈ s.messageQueue.theQueue, x.msg.message ≠ []
  held : ∀ x, s.io = .holding x → x.msg.message ≠ []
  defined : ∀ x, s.io ≠ .undefined x

theorem NonemptyOnly.step {s t : State β} {a : Action ι β} {es : List (Event ι β)}
    (h : NonemptyOnly s) (ha : ∀ i level message, a = .logstr i level message → message ≠ [])
    (hstep : (machine ι β).step s a = some (t, es)) : NonemptyOnly t := by
  cases effect_of_step hstep with
  | enqueued i level message hd hlevel =>
    refine ⟨fun x hx => ?_, h.held, h.defined⟩
    obtain hx | hx := List.mem_append.mp hx
    · exact h.queued x hx
    · rw [List.mem_singleton.mp hx]
      exact ha i level message rfl
  | dequeued x q hio hq hw hw' =>
    refine ⟨fun y hy => h.queued y (hq ▸ List.mem_cons_of_mem x hy), ?_, nofun⟩
    rintro y ⟨⟩
    exact h.queued x (hq ▸ List.mem_cons_self)
  | undefined x hio hempty => exact absurd hempty (h.held x hio)
  | woken hio hw => exact ⟨h.queued, nofun, nofun⟩
  | dispatched x cerrLine hio hne => exact ⟨h.queued, nofun, nofun⟩
  | discarded i message hd => exact h
  | registered backend hd => exact ⟨h.queued, h.held, h.defined⟩
  | waiting hio hq hw => exact h
  | entered hd => exact ⟨h.queued, h.held, h.defined⟩
  | triggered hd => exact ⟨h.queued, h.held, h.defined⟩
  | joined hd hio => exact ⟨h.queued, h.held, h.defined⟩
  | cleared hd => exact ⟨h.queued, h.held, h.defined⟩

/-- **A program that logs no empty text** never takes the io thread out of range. -/
theorem io_defined {as : List (Action ι β)} {es : List (Event ι β)} {s : State β}
    (hrun : (machine ι β).Run as es s)
    (hne : ∀ a ∈ as, ∀ i level message, a = .logstr i level message → message ≠ []) (x : Queued) :
    s.io ≠ .undefined x := by
  have hinit : NonemptyOnly (machine ι β).init := ⟨by rintro x ⟨⟩, nofun, nofun⟩
  exact (hrun.invariant hne hinit fun _ _ _ _ ha h hstep => h.step ha hstep).defined x

/-- What `io_process` is to do with `m`, once it has popped it: nothing undefined, and every backend is
handed the text without the one newline it may end in. -/
def Handled (ι β : Type*) (m : LogMessage) : Prop :=
  ∀ (as : List (Action ι β)) (es : List (Event ι β)) (s : State β) (x : Queued),
    (machine ι β).Run as es s → s.io = .holding x → x.msg = m →
      ∃ cerrLine : List (List Char), (machine ι β).step s .ioDispatch =
        some ({ s with io := .popping },
          handOver x (withoutNewline m.message) 0 s.backends ++ cerrLine.map .cerr ++
            [.dispatched x])

theorem handled_of_ne_nil {m : LogMessage} (hne : m.message ≠ []) : Handled ι β m := by
  rintro as es s x - hio rfl
  obtain ⟨t, fs, hstep⟩ : ∃ t fs, (machine ι β).step s .ioDispatch = some (t, fs) :=
    ⟨_, _, by simp only [machine, hio]; rfl⟩
  cases effect_ioDispatch hstep with
  | dispatched y cerrLine hio' hne' =>
    obtain rfl : x = y := Io.holding.inj (hio.symm.trans hio')
    exact ⟨cerrLine, hstep⟩
  | undefined y hio' hempty =>
    obtain rfl : x = y := Io.holding.inj (hio.symm.trans hio')
    exact absurd hempty hne

/-- **An empty message ends the io thread.** -/
theorem not_handled_of_nil (β : Type*) (i : ι) {m : LogMessage} (hlevel : m.level ≠ .discard)
    (hempty : m.message = []) : ¬ Handled ι β m := by
  intro h
  let x : Queued := stamp (machine ι β).init m.level m.message
  have hpush : (machine ι β).step (machine ι β).init (.logstr i m.level m.message) =
      some ({ messageQueue := { theQueue := [x] }, pushes := 1 }, [.enqueued i x]) := by
    simp [machine, logstr, hlevel, x, stamp, ThreadsafeQueue.pushMove, ThreadsafeQueue.pushBody]
  have hpop : (machine ι β).step { messageQueue := { theQueue := [x] }, pushes := 1 } .ioPop =
      some ({ io := .holding x, pushes := 1 }, [.dequeued x]) := rfl
  obtain ⟨cerrLine, hstep⟩ := h _ _ _ x ((Machine.Steps.single hpush).tail hpop) rfl rfl
  generalize handOver x (withoutNewline m.message) 0 [] ++ cerrLine.map .cerr ++ [.dispatched x] = fs
    at hstep
  cases effect_ioDispatch hstep with
  | dispatched y cerrLine hio hne =>
    obtain rfl : x = y := Io.holding.inj hio
    exact hne hempty

/-- **Every message is handled** exactly if its text is not empty, whoever made it. -/
theorem handled_iff (ι β : Type*) [Nonempty ι] (call : Call) (m : LogMessage) (h : call.Enqueues m) :
    Handled ι β m ↔ call.text ≠ [] := by
  obtain ⟨i⟩ := ‹Nonempty ι›
  obtain ⟨hpasses, hlevel⟩ := h
  rw [← hpasses.message_eq]
  exact ⟨fun hhandled hempty => not_handled_of_nil β i hlevel hempty hhandled, handled_of_ne_nil⟩

end Consumer

/-- A line that ends in a newline. -/
theorem handled_iff_logLine :
    Handled (Fin 1) ℕ { level := .info, message := ['u', 'p', '\n'] } :=
  (handled_iff (Fin 1) ℕ (.logLine .info [['u', 'p'], ['\n']]) _ ⟨.logLine rfl, by decide⟩).mpr
    (by decide)

/-- **A `LogLine` into which nothing was streamed** is enqueued, and ends the io thread. -/
theorem not_handled_emptyLine :
    (Call.logLine .info []).Enqueues { level := .info, message := [] } ∧
      ¬ Handled (Fin 1) ℕ { level := .info, message := [] } :=
  ⟨⟨.logLine rfl, by decide⟩, not_handled_of_nil ℕ 0 (by decide) rfl⟩

end Log
