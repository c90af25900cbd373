import MuxMPE.Log.History

/-!
# Log/Backends — the backends agree on the log

    calls of logstr   c₀ c₁ c₂ c₃ c₄ c₅ …
    backend 0         ├────────────┤        received c₀ … c₃
    backend 1               ├──────┤        registered when two were dispatched
                                   ▲ dispatched so far

Every backend has received one segment of the calls, from the first message dispatched after its
registration to the last one dispatched.
-/

variable {ι β : Type*}

namespace Log

/-- The calls of `logstr` that push: all but the ones at level `discard`. -/
def calls (as : List (Action ι β)) : List (ι × LogMessage) :=
  as.filterMap fun
    | .logstr i level message =>
      if level = .discard then none else some (i, { level := level, message := message })
    | _ => none

/-- The `(level, text)` pairs the backend at place `k` has received. -/
def received (k : ℕ) (es : List (Event ι β)) : List (LogLevel × List Char) :=
  (handed k es).map Prod.snd

/-- What a backend should see of a message. -/
def LogMessage.delivered (m : LogMessage) : LogLevel × List Char :=
  (m.level, withoutNewline m.message)

@[simp] theorem calls_append (as bs : List (Action ι β)) :
    calls (as ++ bs) = calls as ++ calls bs := List.filterMap_append

section Run

variable {as : List (Action ι β)} {es : List (Event ι β)} {s : State β}

/-- One step enqueues what its action calls for. -/
theorem enqueued_of_step {t : State β} {a : Action ι β} {fs : List (Event ι β)}
    (h : (machine ι β).step s a = some (t, fs)) :
    (enqueued fs).map (fun p => (p.1, p.2.msg)) = calls [a] := by
  cases effect_of_step h with
  | enqueued i level message hd hlevel => simp [enqueued, calls, stamp, hlevel]
  | dispatched x cerrLine hio hne =>
    have hnil := enqueued_dispatchEvents (ι := ι) x s.backends cerrLine
    rw [dispatchEvents] at hnil
    rw [hnil]
    rfl
  | _ => rfl

/-- **The queue is entered in the order of the calls.** -/
theorem enqueued_run (hrun : (machine ι β).Run as es s) :
    (enqueued es).map (fun p => (p.1, p.2.msg)) = calls as := by
  induction hrun with
  | refl => rfl
  | tail _ hstep ih =>
    rw [enqueued_append, List.map_append, ih, enqueued_of_step hstep, calls_append]

/-- The dispatched messages are the first of the calls. -/
theorem History.dispatched_msg (h : History es s) (hrun : (machine ι β).Run as es s) :
    (Log.dispatched es).map Queued.msg
      = ((calls as).map Prod.snd).take (Log.dispatched es).length := by
  have hcalls : (calls as).map Prod.snd = ((Log.enqueued es).map Prod.snd).map Queued.msg := by
    rw [← enqueued_run hrun, List.map_map, List.map_map]
    rfl
  rw [hcalls, ← h.order, List.append_assoc, List.map_append, List.take_left' (by simp)]

/-- Their serials count from zero. -/
theorem History.dispatched_serial (h : History es s) :
    (Log.dispatched es).map Queued.serial = List.range (Log.dispatched es).length := by
  have hserials : ((Log.dispatched es ++ s.io.hand ++ s.messageQueue.theQueue).map Queued.serial)
      = List.range s.pushes := by
    rw [h.order, List.map_map]
    exact h.serials
  rw [List.append_assoc, List.map_append] at hserials
  have hlen : (Log.dispatched es).length ≤ s.pushes := by
    have := congrArg List.length hserials
    simp only [List.length_append, List.length_map, List.length_range] at this
    omega
  have htake := congrArg (List.take (Log.dispatched es).length) hserials
  rwa [List.take_left' (by simp), List.take_range, Nat.min_eq_left hlen] at htake

/-- What a backend has received, told from the calls. -/
theorem History.received_eq (h : History es s) (hrun : (machine ι β).Run as es s) {k n : ℕ}
    (hk : (starts 0 es)[k]? = some n) :
    received k es
      = (((calls as).take (Log.dispatched es).length).drop n).map fun c => c.2.delivered := by
  have hmsg := h.dispatched_msg hrun
  calc received k es
      = (((Log.dispatched es).map Queued.msg).drop n).map LogMessage.delivered := by
        rw [received, h.handed_eq k n hk, List.map_map, ← List.map_drop, List.map_map]
        rfl
    _ = _ := by
        rw [hmsg, ← List.map_take, ← List.map_drop, List.map_map]
        rfl

end Run

/-- Registrations are in the order of the dispatches they follow. -/
theorem pairwise_starts (n : ℕ) (es : List (Event ι β)) : (starts n es).Pairwise (· ≤ ·) := by
  induction es generalizing n with
  | nil => exact .nil
  | cons e es ih =>
    cases e with
    | registered =>
      exact List.pairwise_cons.mpr ⟨fun m hm => (bounds_of_mem_starts es hm).1, ih n⟩
    | enqueued | dequeued | handed | cerr | dispatched => exact ih _

/-- The part of a list from a later place on is a suffix of the part from an earlier one. -/
theorem drop_isSuffix_drop {α : Type*} (l : List α) {m n : ℕ} (h : m ≤ n) :
    l.drop n <:+ l.drop m := by
  rw [← Nat.add_sub_cancel' h, ← List.drop_drop]
  exact List.drop_suffix _ _

theorem level_of_mem_calls {as : List (Action ι β)} {c : ι × LogMessage} (hc : c ∈ calls as) :
    c.2.level ≠ .discard := by
  obtain ⟨a, _, ha⟩ := List.mem_filterMap.mp hc
  cases a with
  | logstr i level message =>
    obtain ⟨hlevel, hc⟩ := Option.ite_none_left_eq_some.mp ha
    obtain rfl := Option.some.inj hc
    exact hlevel
  | _ => simp at ha

/-- The calls a backend registered after `n` dispatches has been handed. -/
def segment (as : List (Action ι β)) (es : List (Event ι β)) (n : ℕ) : List (ι × LogMessage) :=
  ((calls as).take (dispatched es).length).drop n

/-- What the backend at place `k` has received, having been registered when `n` messages had been
dispatched. -/
structure BackendLog [DecidableEq ι] (as : List (Action ι β)) (es : List (Event ι β)) (k n : ℕ) :
    Prop where
  registered_le : n ≤ (dispatched es).length
  /-- the calls from the first dispatched since to the last dispatched, in order -/
  received_eq : received k es = (segment as es n).map fun c => c.2.delivered
  segment_infix : segment as es n <:+: calls as
  /-- each of them once: their serials go up by one -/
  once : (handed k es).map Prod.fst = List.range' n ((dispatched es).length - n)
  /-- a backend registered later has received a suffix -/
  suffix : ∀ k' n', k ≤ k' → (starts 0 es)[k']? = some n' → received k' es <:+ received k es
  /-- the calls of one thread are in that thread's order -/
  program_order : ∀ i, (segment as es n).filter (·.1 = i) <:+: (calls as).filter (·.1 = i)
  no_discard : ∀ p ∈ received k es, p.1 ≠ .discard

/-- **Backends agree on the log**, whatever the threads log and whenever backends are registered:
the backends are the registered ones, and each of them has received its segment of the calls. -/
theorem backends_agree [DecidableEq ι] {as : List (Action ι β)} {es : List (Event ι β)}
    {s : State β} (hrun : (machine ι β).Run as es s) :
    (s.destructor ≠ .returned → (starts 0 es).length = s.backends.length) ∧
    ∀ k n, (starts 0 es)[k]? = some n → BackendLog as es k n := by
  have h := History.run hrun
  refine ⟨h.starts_length, fun k n hk => ?_⟩
  have hsegment : segment as es n <:+: calls as :=
    (List.drop_suffix _ _).isInfix.trans (List.take_prefix _ _).isInfix
  have hreceived := h.received_eq hrun hk
  refine ⟨?_, hreceived, hsegment, ?_, ?_, fun i => hsegment.filter _, ?_⟩
  · simpa using (bounds_of_mem_starts es (List.mem_of_getElem? hk)).2
  · have hserial : (handed k es).map Prod.fst = ((dispatched es).map Queued.serial).drop n := by
      rw [h.handed_eq k n hk, List.map_map, ← List.map_drop]
      rfl
    rw [hserial, h.dispatched_serial, List.range_eq_range', List.drop_range']
    simp
  · intro k' n' hkk' hk'
    have hnn' : n ≤ n' := by
      obtain rfl | hlt := Nat.eq_or_lt_of_le hkk'
      · exact Nat.le_of_eq (Option.some.inj (hk.symm.trans hk'))
      · obtain ⟨hl, rfl⟩ := List.getElem?_eq_some_iff.mp hk
        obtain ⟨hl', rfl⟩ := List.getElem?_eq_some_iff.mp hk'
        exact List.pairwise_iff_getElem.mp (pairwise_starts 0 es) _ _ hl hl' hlt
    rw [hreceived, h.received_eq hrun hk']
    exact (drop_isSuffix_drop _ hnn').map _
  · intro p hp
    rw [hreceived] at hp
    obtain ⟨c, hc, rfl⟩ := List.mem_map.mp hp
    exact level_of_mem_calls (hsegment.subset hc)

/-- Two threads and two backends: the second backend comes when one message has been dispatched, and
a third message is still queued. -/
theorem backends_agree_two_backends : ∃ s es as,
    as = [.registerBackend 0, .logstr 0 .info "on air\n".toList, .logstr 1 .discard "x".toList,
      .ioPop, .logstr 1 .warn "late".toList, .ioDispatch, .registerBackend 1, .ioPop,
      .logstr 0 .error "queued".toList, .ioDispatch] ∧
    (machine (Fin 2) ℕ).Run as es s ∧ BackendLog as es 0 0 ∧ BackendLog as es 1 1 ∧
    received 0 es = [(.info, "on air".toList), (.warn, "late".toList)] ∧
    received 1 es = [(.warn, "late".toList)] := by
  refine ⟨_, _, _, rfl, Machine.steps_get (by decide),
    (backends_agree (Machine.steps_get (by decide))).2 0 0 (by decide),
    (backends_agree (Machine.steps_get (by decide))).2 1 1 (by decide), ?_, ?_⟩ <;> decide

end Log
