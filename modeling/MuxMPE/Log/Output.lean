import Mathlib.Data.List.TakeWhile
import MuxMPE.Log.Backends
import MuxMPE.Machinery.Records

/-!
# Log/Output — what the backends write, read back

    LogToFile      ODR-MuxMPE: WARN: text↵          every level but trace
    LogToSyslog    LOG_WARNING, ODR-MuxMPE text
    LogTracer      0,TRACER,startup at 17↵          trace only
                   4,text↵                          microseconds since

A backend's record is a function of what it was handed, and what was handed is a segment of the calls
(`Log/Backends`).  Where no text has a newline or a NUL of its own, the record gives the segment back:
the log file and the syslog the messages of every level but `trace` (`records_readBack`), the trace file
those of that level, with their times (`trace_readBack`).
-/

namespace Log

/-! ## The three backends -/

def SYSLOG_IDENT : List Char := "ODR-MuxMPE".toList

/-- What `%s` makes of a string's `c_str()`. -/
def cStr (message : List Char) : List Char := message.takeWhile (· ≠ Char.ofNat 0)

/-- The value of the enumerator. -/
def LogLevel.toNat : LogLevel → ℕ
  | .debug => 0
  | .info => 1
  | .warn => 2
  | .error => 3
  | .alert => 4
  | .emerg => 5
  | .trace => 6
  | .discard => 7

/-- The levels that the log file and the syslog pass on. -/
def LogLevel.passes (level : LogLevel) : Bool := ¬ (level = .trace ∨ level = .discard)

namespace LogToFile

/-- The texts of the levels, by their number. -/
def logLevelText : List (List Char) :=
  ["DEBUG".toList, "INFO".toList, "WARN".toList, "ERROR".toList, "ALERT".toList, "EMERG".toList]

/-- What is appended to the file; `none` is a level behind the end of the table. -/
def log (level : LogLevel) (message : List Char) : Option (List Char) :=
  if level.passes then do
    let text ← logLevelText[level.toNat]?
    return SYSLOG_IDENT ++ ": ".toList ++ text ++ ": ".toList ++ cStr message ++ ['\n']
  else some []

/-- The file after these calls. -/
def contents : List (LogLevel × List Char) → Option (List Char)
  | [] => some []
  | p :: ps => do
    let line ← log p.1 p.2
    let lines ← contents ps
    return line ++ lines

end LogToFile

namespace LogToSyslog

def LOG_EMERG : ℕ := 0
def LOG_ALERT : ℕ := 1
def LOG_CRIT : ℕ := 2
def LOG_ERR : ℕ := 3
def LOG_WARNING : ℕ := 4
def LOG_INFO : ℕ := 6
def LOG_DEBUG : ℕ := 7

/-- The `switch` over the levels; what it has no case for is `LOG_CRIT`. -/
def syslogLevel : LogLevel → ℕ
  | .debug => LOG_DEBUG
  | .info => LOG_INFO
  | .warn => LOG_WARNING
  | .error => LOG_ERR
  | .alert => LOG_ALERT
  | .emerg => LOG_EMERG
  | .trace | .discard => LOG_CRIT

/-- The call of `syslog`, if there is one. -/
def log (level : LogLevel) (message : List Char) : Option (ℕ × List Char) :=
  if level.passes then some (syslogLevel level, SYSLOG_IDENT ++ ' ' :: cStr message) else none

def contents (ps : List (LogLevel × List Char)) : List (ℕ × List Char) :=
  ps.filterMap fun p => log p.1 p.2

end LogToSyslog

namespace LogTracer

def startupAt : List Char := "0,TRACER,startup at ".toList

/-- The line the constructor writes. -/
def opened (microsStartup : UInt64) : List Char :=
  startupAt ++ Nat.toDigits 10 microsStartup.toNat ++ ['\n']

/-- What is appended to the file when the clock shows `micros`. -/
def log (microsStartup micros : UInt64) (level : LogLevel) (message : List Char) : List Char :=
  if level = .trace then
    Nat.toDigits 10 (micros - microsStartup).toNat ++ ',' :: cStr message ++ ['\n']
  else []

/-- The file after these calls, each with what the clock showed. -/
def contents (microsStartup : UInt64) (ps : List (UInt64 × LogLevel × List Char)) : List Char :=
  opened microsStartup ++ ps.flatMap fun p => log microsStartup p.1 p.2.1 p.2.2

end LogTracer

/-! ## Reading back -/

/-- A text without a newline or a NUL. -/
def Plain (text : List Char) : Prop := '\n' ∉ text ∧ Char.ofNat 0 ∉ text

instance : DecidablePred Plain := fun _ => inferInstanceAs (Decidable (_ ∧ _))

theorem cStr_eq {text : List Char} (h : Char.ofNat 0 ∉ text) : cStr text = text := by
  rw [cStr, List.takeWhile_eq_self_iff]
  intro c hc
  exact decide_eq_true fun heq => h (heq ▸ hc)

def passing : List LogLevel := [.debug, .info, .warn, .error, .alert, .emerg]

theorem mem_passing {level : LogLevel} (h : level.passes = true) : level ∈ passing := by
  cases level with
  | trace | discard => nomatch h
  | _ => decide

/-- The messages that the log file and the syslog pass on. -/
def passed (ps : List (LogLevel × List Char)) : List (LogLevel × List Char) := ps.filter (·.1.passes)

/-- **Records that are each read as what they were made of** are read together. -/
theorem mapM_map_eq_some {α γ δ : Type*} {read : γ → Option δ} {write : α → γ} {meant : α → δ}
    {l : List α} (h : ∀ a ∈ l, read (write a) = some (meant a)) :
    (l.map write).mapM read = some (l.map meant) := by
  induction l with
  | nil => rfl
  | cons a l ih =>
    rw [List.forall_mem_cons] at h
    rw [List.map_cons, List.mapM_cons, h.1, ih h.2]
    rfl

/-- What is passed on is plain, if all of it is. -/
theorem plain_passed {ps : List (LogLevel × List Char)} (h : ∀ p ∈ ps, Plain p.2)
    {p : LogLevel × List Char} (hp : p ∈ passed ps) : p.1 ∈ passing ∧ Plain p.2 ∧ cStr p.2 = p.2 := by
  obtain ⟨hp, hpasses⟩ := List.mem_filter.mp hp
  exact ⟨mem_passing hpasses, h p hp, cStr_eq (h p hp).2⟩

namespace LogToFile

/-- What a line starts with. -/
def tag (level : LogLevel) : List Char :=
  SYSLOG_IDENT ++ ": ".toList ++ logLevelText[level.toNat]?.getD [] ++ ": ".toList

def readBack (file : List Char) : Option (List (LogLevel × List Char)) :=
  (Records.split '\n' file).mapM (Records.untag tag passing)

/-- **No level's line starts as another's.** -/
theorem tag_apart : ∀ l ∈ passing, ∀ l' ∈ passing, tag l <+: tag l' → l = l' := by decide +kernel

theorem log_eq {level : LogLevel} (h : level.passes = true) (message : List Char) :
    log level message = some (tag level ++ cStr message ++ ['\n']) := by
  rw [log, if_pos h, tag]
  cases level with
  | trace | discard => nomatch h
  | _ => simp [logLevelText, LogLevel.toNat]

/-- **The file is its lines**: no level is looked up behind the end of the table. -/
theorem contents_eq (ps : List (LogLevel × List Char)) : contents ps
    = some (Records.terminated '\n' ((passed ps).map fun p => tag p.1 ++ cStr p.2)) := by
  induction ps with
  | nil => rfl
  | cons p ps ih =>
    have hpassed : passed (p :: ps) = if p.1.passes then p :: passed ps else passed ps :=
      List.filter_cons
    rw [contents, ih, hpassed]
    by_cases h : p.1.passes = true
    · rw [log_eq h, if_pos h]
      rfl
    · rw [log, if_neg h, if_neg h]
      rfl

/-- **The log file tells what was handed over.** -/
theorem readBack_contents {ps : List (LogLevel × List Char)} (h : ∀ p ∈ ps, Plain p.2) :
    ∃ file, contents ps = some file ∧ readBack file = some (passed ps) := by
  refine ⟨_, contents_eq ps, ?_⟩
  have htag : ∀ l ∈ passing, '\n' ∉ tag l := by decide
  have hlines : ∀ r ∈ (passed ps).map fun p => tag p.1 ++ cStr p.2, '\n' ∉ r := by
    intro r hr
    obtain ⟨p, hp, rfl⟩ := List.mem_map.mp hr
    obtain ⟨hlevel, hplain, htext⟩ := plain_passed h hp
    rw [htext, List.mem_append, not_or]
    exact ⟨htag p.1 hlevel, hplain.1⟩
  have hread : ∀ p ∈ passed ps, Records.untag tag passing (tag p.1 ++ cStr p.2) = some (id p) := by
    intro p hp
    obtain ⟨hlevel, -, htext⟩ := plain_passed h hp
    rw [htext]
    exact Records.untag_append tag_apart hlevel p.2
  rw [readBack, Records.split_terminated hlines, mapM_map_eq_some hread, List.map_id]

end LogToFile

namespace LogToSyslog

def readCall (call : ℕ × List Char) : Option (LogLevel × List Char) := do
  let level ← passing.find? fun level => syslogLevel level = call.1
  let text ← call.2.dropPrefix? (SYSLOG_IDENT ++ [' '])
  return (level, text)

def readBack (calls : List (ℕ × List Char)) : Option (List (LogLevel × List Char)) :=
  calls.mapM readCall

/-- **No two levels have one priority.** -/
theorem find?_syslogLevel : ∀ l ∈ passing,
    passing.find? (fun level => syslogLevel level = syslogLevel l) = some l := by decide

/-- **The syslog tells what was handed over.** -/
theorem readBack_contents {ps : List (LogLevel × List Char)} (h : ∀ p ∈ ps, Plain p.2) :
    readBack (contents ps) = some (passed ps) := by
  have hcalls : contents ps
      = (passed ps).map fun p => (syslogLevel p.1, SYSLOG_IDENT ++ ' ' :: cStr p.2) := by
    rw [contents, passed, ← List.filterMap_eq_map, List.filterMap_filter]
    rfl
  have hread : ∀ p ∈ passed ps,
      readCall (syslogLevel p.1, SYSLOG_IDENT ++ ' ' :: cStr p.2) = some (id p) := by
    intro p hp
    obtain ⟨hlevel, -, htext⟩ := plain_passed h hp
    have happ : SYSLOG_IDENT ++ ' ' :: p.2 = (SYSLOG_IDENT ++ [' ']) ++ p.2 := by
      rw [List.append_assoc, List.singleton_append]
    rw [readCall, find?_syslogLevel p.1 hlevel, htext, happ, Records.dropPrefix?_append]
    rfl
  rw [readBack, hcalls, mapM_map_eq_some hread, List.map_id]

end LogToSyslog

namespace LogTracer

/-- The number at the start of a record, and what follows the comma behind it. -/
def readLine (microsStartup : UInt64) (line : List Char) : Option (UInt64 × List Char) :=
  match line.dropWhile (· ≠ ',') with
  | [] => none
  | _ :: text =>
    some (microsStartup + .ofNat (Nat.ofDigitChars 10 (line.takeWhile (· ≠ ',')) 0), text)

/-- The time of the startup, and the messages with their times. -/
def readBack (file : List Char) : Option (UInt64 × List (UInt64 × List Char)) :=
  match Records.split '\n' file with
  | [] => none
  | head :: lines =>
    (head.dropPrefix? startupAt).bind fun digits =>
      let microsStartup := UInt64.ofNat (Nat.ofDigitChars 10 digits 0)
      (lines.mapM (readLine microsStartup)).map fun messages => (microsStartup, messages)

/-- The messages of level `trace`. -/
def traced (ps : List (UInt64 × LogLevel × List Char)) : List (UInt64 × LogLevel × List Char) :=
  ps.filter (·.2.1 = .trace)

theorem not_mem_toDigits {c : Char} (hc : c.isDigit = false) (n : ℕ) : c ∉ Nat.toDigits 10 n := by
  intro hmem
  have hdigit := Nat.isDigit_of_mem_toDigits (by decide) (by decide) hmem
  rw [hc] at hdigit
  nomatch hdigit

/-- **A time since the startup is a time.** -/
theorem readLine_append (microsStartup micros : UInt64) (text : List Char) :
    readLine microsStartup (Nat.toDigits 10 (micros - microsStartup).toNat ++ ',' :: text)
      = some (micros, text) := by
  have hdigits : ∀ c ∈ Nat.toDigits 10 (micros - microsStartup).toNat, decide (c ≠ ',') = true := by
    intro c hc
    exact decide_eq_true fun heq => not_mem_toDigits rfl _ (heq ▸ hc)
  rw [readLine, List.dropWhile_append_of_pos hdigits, List.dropWhile_cons_of_neg (by decide),
    List.takeWhile_append_of_pos hdigits, List.takeWhile_cons_of_neg (by decide), List.append_nil,
    Nat.ofDigitChars_ten_toDigits, UInt64.ofNat_toNat, UInt64.add_comm, UInt64.sub_add_cancel]

/-- The file is its lines, behind that of the constructor. -/
theorem contents_eq (microsStartup : UInt64) (ps : List (UInt64 × LogLevel × List Char)) :
    contents microsStartup ps = opened microsStartup ++ Records.terminated '\n'
      ((traced ps).map fun p => Nat.toDigits 10 (p.1 - microsStartup).toNat ++ ',' :: cStr p.2.2) := by
  refine congrArg (opened microsStartup ++ ·) ?_
  induction ps with
  | nil => rfl
  | cons p ps ih =>
    have htraced : traced (p :: ps) = if p.2.1 = .trace then p :: traced ps else traced ps := by
      rw [traced, List.filter_cons]
      simp only [decide_eq_true_eq]
      rfl
    rw [List.flatMap_cons, ih, log, htraced]
    by_cases h : p.2.1 = .trace
    · rw [if_pos h, if_pos h, List.map_cons, Records.terminated_cons]
    · rw [if_neg h, if_neg h, List.nil_append]

/-- **The trace file tells what was handed over, and when.** -/
theorem readBack_contents (microsStartup : UInt64) {ps : List (UInt64 × LogLevel × List Char)}
    (h : ∀ p ∈ ps, Plain p.2.2) : readBack (contents microsStartup ps)
      = some (microsStartup, (traced ps).map fun p => (p.1, p.2.2)) := by
  have hhead : '\n' ∉ startupAt ++ Nat.toDigits 10 microsStartup.toNat := by
    rw [List.mem_append, not_or]
    exact ⟨by decide, not_mem_toDigits rfl _⟩
  have hlines : ∀ r ∈ (traced ps).map fun p =>
      Nat.toDigits 10 (p.1 - microsStartup).toNat ++ ',' :: cStr p.2.2, '\n' ∉ r := by
    intro r hr
    obtain ⟨p, hp, rfl⟩ := List.mem_map.mp hr
    have hplain := h p (List.mem_of_mem_filter hp)
    rw [cStr_eq hplain.2, List.mem_append, List.mem_cons, not_or, not_or]
    exact ⟨not_mem_toDigits rfl _, by decide, hplain.1⟩
  have hread : ∀ p ∈ traced ps, readLine microsStartup
      (Nat.toDigits 10 (p.1 - microsStartup).toNat ++ ',' :: cStr p.2.2) = some (p.1, p.2.2) := by
    intro p hp
    rw [cStr_eq (h p (List.mem_of_mem_filter hp)).2]
    exact readLine_append microsStartup p.1 p.2.2
  have hsplit := Records.split_terminated (List.forall_mem_cons.mpr ⟨hhead, hlines⟩)
  rw [readBack, contents_eq, opened, ← Records.terminated_cons, hsplit]
  simp only [Records.dropPrefix?_append, Option.bind_some, Nat.ofDigitChars_ten_toDigits,
    UInt64.ofNat_toNat, mapM_map_eq_some hread, Option.map_some]

end LogTracer

/-! ## Every run -/

section Run

variable {ι β : Type*} {as : List (Action ι β)} {es : List (Event ι β)} {s : State β}

/-- What a backend registered after `n` dispatches has been handed, as the calls have it. -/
def told (as : List (Action ι β)) (es : List (Event ι β)) (n : ℕ) : List (LogLevel × List Char) :=
  (segment as es n).map fun c => c.2.delivered

theorem plain_told (htexts : ∀ c ∈ calls as, Plain c.2.delivered.2) (n : ℕ) :
    ∀ p ∈ told as es n, Plain p.2 := by
  intro p hp
  obtain ⟨c, hc, rfl⟩ := List.mem_map.mp hp
  exact htexts c (List.mem_of_mem_take (List.mem_of_mem_drop hc))

/-- **The log file and the syslog tell the calls**, whatever the threads log and whenever the backend is
registered: if no text has a newline or a NUL of its own, they are read back as the messages of every
level but `trace` that were called for, from the first dispatched since the registration to the last
dispatched, in order. -/
theorem records_readBack {k n : ℕ} (hrun : (machine ι β).Run as es s)
    (hk : (starts 0 es)[k]? = some n) (htexts : ∀ c ∈ calls as, Plain c.2.delivered.2) :
    (∃ file, LogToFile.contents (received k es) = some file ∧
      LogToFile.readBack file = some (passed (told as es n))) ∧
      LogToSyslog.readBack (LogToSyslog.contents (received k es)) = some (passed (told as es n)) := by
  have hreceived : received k es = told as es n := (History.run hrun).received_eq hrun hk
  rw [hreceived]
  exact ⟨LogToFile.readBack_contents (plain_told htexts n),
    LogToSyslog.readBack_contents (plain_told htexts n)⟩

/-- **The trace file tells the calls**: it is read back as those of level `trace`, each with what the
clock showed when it was handed over. -/
theorem trace_readBack {k n : ℕ} (hrun : (machine ι β).Run as es s)
    (hk : (starts 0 es)[k]? = some n) (htexts : ∀ c ∈ calls as, Plain c.2.delivered.2)
    (microsStartup : UInt64) (clock : List UInt64) :
    LogTracer.readBack (LogTracer.contents microsStartup (clock.zip (received k es)))
      = some (microsStartup,
        (LogTracer.traced (clock.zip (told as es n))).map fun p => (p.1, p.2.2)) := by
  have hreceived : received k es = told as es n := (History.run hrun).received_eq hrun hk
  rw [hreceived]
  exact LogTracer.readBack_contents microsStartup fun p hp =>
    plain_told htexts n p.2 (List.of_mem_zip hp).2

end Run

/-- A message of every kind, the backend registered before the first. -/
def logged : List (Action (Fin 1) ℕ) :=
  [.registerBackend 0, .logstr 0 .info "on air\n".toList, .logstr 0 .trace "MUX,1".toList, .ioPop,
    .ioDispatch, .logstr 0 .emerg "off: air".toList, .ioPop, .ioDispatch, .ioPop, .ioDispatch]

theorem records_readBack_logged : ∃ s es, (machine (Fin 1) ℕ).Run logged es s ∧
    ∃ file, LogToFile.contents (received 0 es) = some file ∧
      LogToFile.readBack file = some [(.info, "on air".toList), (.emerg, "off: air".toList)] :=
  ⟨_, _, Machine.steps_get (by decide),
    (records_readBack (n := 0) (Machine.steps_get (by decide)) (by decide) (by decide)).1⟩

theorem trace_readBack_logged : ∃ s es, (machine (Fin 1) ℕ).Run logged es s ∧
    LogTracer.readBack (LogTracer.contents 17 ([20, 21, 25].zip (received 0 es)))
      = some (17, [(21, "MUX,1".toList)]) :=
  ⟨_, _, Machine.steps_get (by decide),
    trace_readBack (n := 0) (Machine.steps_get (by decide)) (by decide) (by decide) 17 [20, 21, 25]⟩

end Log
