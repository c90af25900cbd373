import MuxMPE.Log.Logger

/-!
# Log/History — what the logger's events say about its state

    enqueued ──▸ the_queue ──▸ dequeued ──▸ hand of io_process ──▸ dispatched

A run's events are read as histories: who enqueued what, what was popped and dispatched, what each
backend was handed.  `History` ties them to the state, in every reachable state: the queue holds
what was enqueued and not popped, the io thread what was popped and not dispatched, and a backend
has been handed what was dispatched since its registration.
-/

variable {ι β : Type*}

namespace Log

/-! ## Histories -/

/-- The pushes, with the threads that made them. -/
def enqueued (es : List (Event ι β)) : List (ι × Queued) :=
  es.filterMap fun | .enqueued i x => some (i, x) | _ => none

/-- What `pop` has handed to `io_process`. -/
def dequeued (es : List (Event ι β)) : List Queued :=
  es.filterMap fun | .dequeued x => some x | _ => none

/-- What `io_process` has handed to the backends. -/
def dispatched (es : List (Event ι β)) : List Queued :=
  es.filterMap fun | .dispatched x => some x | _ => none

/-- The calls of `log` on the backend at place `k`, each with the serial of its message. -/
def handed (k : ℕ) (es : List (Event ι β)) : List (ℕ × LogLevel × List Char) :=
  es.filterMap fun
    | .handed k' _ serial level text => if k' = k then some (serial, level, text) else none
    | _ => none

/-- For each registration, how many messages had been dispatched before it, the count starting
at `n`. -/
def starts : ℕ → List (Event ι β) → List ℕ
  | _, [] => []
  | n, .registered _ :: es => n :: starts n es
  | n, .dispatched _ :: es => starts (n + 1) es
  | n, _ :: es => starts n es

/-- What `io_process` hands to each backend for a message. -/
def Queued.handedAs (x : Queued) : ℕ × LogLevel × List Char :=
  (x.serial, x.msg.level, withoutNewline x.msg.message)

section Append

variable (es fs : List (Event ι β))

@[simp] theorem enqueued_append : enqueued (es ++ fs) = enqueued es ++ enqueued fs :=
  List.filterMap_append

@[simp] theorem dequeued_append : dequeued (es ++ fs) = dequeued es ++ dequeued fs :=
  List.filterMap_append

@[simp] theorem dispatched_append : dispatched (es ++ fs) = dispatched es ++ dispatched fs :=
  List.filterMap_append

@[simp] theorem handed_append (k : ℕ) : handed k (es ++ fs) = handed k es ++ handed k fs :=
  List.filterMap_append

/-- The later part is counted on from what was dispatched before. -/
theorem starts_append (n : ℕ) :
    starts n (es ++ fs) = starts n es ++ starts (n + (dispatched es).length) fs := by
  induction es generalizing n with
  | nil => rfl
  | cons e es ih =>
    rcases e <;> simp only [List.cons_append, starts, ih, dispatched, List.filterMap_cons,
      List.length_cons, Nat.add_assoc, Nat.add_comm 1]

/-- A registration sees a part of what is dispatched in all. -/
theorem bounds_of_mem_starts {n m : ℕ} (h : m ∈ starts n es) :
    n ≤ m ∧ m ≤ n + (dispatched es).length := by
  induction es generalizing n with
  | nil => simp [starts] at h
  | cons e es ih =>
    cases e with
    | registered =>
      obtain rfl | h := List.mem_cons.mp h
      · exact ⟨Nat.le_refl _, Nat.le_add_right _ _⟩
      · exact ih h
    | dispatched x =>
      have hlen : (dispatched (.dispatched x :: es)).length = (dispatched es).length + 1 := rfl
      obtain ⟨hge, hle⟩ := ih h
      exact ⟨by omega, by omega⟩
    | enqueued | dequeued | handed | cerr => exact ih h

end Append

/-! ## The hand-over -/

section HandOver

variable (x : Queued) (text : List Char) (backends : List β)

/-- Every place from `k` on gets the message once, the places below get nothing. -/
theorem handed_handOver (j : ℕ) : ∀ k : ℕ,
    handed j (handOver (ι := ι) x text k backends)
      = if k ≤ j ∧ j < k + backends.length then [(x.serial, x.msg.level, text)] else [] := by
  induction backends with
  | nil =>
    intro k
    rw [if_neg (by simp)]
    rfl
  | cons backend backends ih =>
    intro k
    rw [handOver, ← List.singleton_append, handed_append, ih (k + 1), List.length_cons]
    by_cases hk : k = j
    · subst hk
      rw [if_neg (by omega), if_pos (by omega)]
      simp [handed]
    · have hhead :
          handed j [(Event.handed k backend x.serial x.msg.level text : Event ι β)] = [] := by
        simp [handed, hk]
      rw [hhead, List.nil_append]
      exact if_congr (by omega) rfl rfl

/-- No other history sees a hand-over. -/
theorem histories_handOver : ∀ k : ℕ,
    enqueued (handOver (ι := ι) x text k backends) = [] ∧
      dequeued (handOver (ι := ι) x text k backends) = [] ∧
      dispatched (handOver (ι := ι) x text k backends) = [] ∧
      ∀ n, starts n (handOver (ι := ι) x text k backends) = [] := by
  induction backends with
  | nil => exact fun _ => ⟨rfl, rfl, rfl, fun _ => rfl⟩
  | cons backend backends ih => exact fun k => ih (k + 1)

/-- Nor the lines on `cerr`. -/
theorem histories_cerr (lines : List (List Char)) :
    enqueued (lines.map .cerr : List (Event ι β)) = [] ∧
      dequeued (lines.map .cerr : List (Event ι β)) = [] ∧
      dispatched (lines.map .cerr : List (Event ι β)) = [] ∧
      (∀ n, starts n (lines.map .cerr : List (Event ι β)) = []) ∧
      ∀ k, handed k (lines.map .cerr : List (Event ι β)) = [] := by
  induction lines with
  | nil => exact ⟨rfl, rfl, rfl, fun _ => rfl, fun _ => rfl⟩
  | cons line lines ih => exact ih

end HandOver

/-- The events of a dispatch. -/
def dispatchEvents (x : Queued) (backends : List β) (cerrLine : List (List Char)) :
    List (Event ι β) :=
  handOver x (withoutNewline x.msg.message) 0 backends ++ cerrLine.map .cerr ++ [.dispatched x]

section Dispatch

variable (x : Queued) (backends : List β) (cerrLine : List (List Char))

@[simp] theorem enqueued_dispatchEvents :
    enqueued (dispatchEvents (ι := ι) x backends cerrLine) = [] := by
  rw [dispatchEvents, enqueued_append, enqueued_append, (histories_handOver x _ backends 0).1,
    (histories_cerr cerrLine).1]
  rfl

@[simp] theorem dequeued_dispatchEvents :
    dequeued (dispatchEvents (ι := ι) x backends cerrLine) = [] := by
  rw [dispatchEvents, dequeued_append, dequeued_append, (histories_handOver x _ backends 0).2.1,
    (histories_cerr cerrLine).2.1]
  rfl

@[simp] theorem dispatched_dispatchEvents :
    dispatched (dispatchEvents (ι := ι) x backends cerrLine) = [x] := by
  rw [dispatchEvents, dispatched_append, dispatched_append, (histories_handOver x _ backends 0).2.2.1,
    (histories_cerr cerrLine).2.2.1]
  rfl

@[simp] theorem starts_dispatchEvents (n : ℕ) :
    starts n (dispatchEvents (ι := ι) x backends cerrLine) = [] := by
  rw [dispatchEvents, starts_append, starts_append, (histories_handOver x _ backends 0).2.2.2,
    (histories_cerr cerrLine).2.2.2.1]
  rfl

@[simp] theorem handed_dispatchEvents (k : ℕ) :
    handed k (dispatchEvents (ι := ι) x backends cerrLine)
      = if k < backends.length then [x.handedAs] else [] := by
  have hlast : handed k [(Event.dispatched x : Event ι β)] = [] := rfl
  rw [dispatchEvents, handed_append, handed_append, (histories_cerr cerrLine).2.2.2.2 k, hlast,
    handed_handOver, List.append_nil, List.append_nil]
  exact if_congr (by omega) rfl rfl

end Dispatch

/-! ## The invariant -/

/-- What the io thread has popped and not dispatched. -/
def Io.hand : Io → List Queued
  | .holding x | .undefined x => [x]
  | .popping | .exited => []

/-- The state, as the events so far tell it. -/
structure History (es : List (Event ι β)) (s : State β) : Prop where
  store : dequeued es ++ s.messageQueue.theQueue = (enqueued es).map Prod.snd
  hand : dequeued es = dispatched es ++ s.io.hand
  serials : (enqueued es).map (fun p => p.2.serial) = List.range s.pushes
  joined : s.destructor = .joined ∨ s.destructor = .returned → s.io = .exited
  /-- until the destructor clears them, the backends are the registered ones -/
  starts_length : s.destructor ≠ .returned → (starts 0 es).length = s.backends.length
  /-- a message's stamp counts backends that are registered -/
  registered_le : ∀ x ∈ s.io.hand ++ s.messageQueue.theQueue, x.registered ≤ (starts 0 es).length
  /-- a backend has been handed what was dispatched since its registration -/
  handed_eq : ∀ k n, (starts 0 es)[k]? = some n →
    handed k es = ((dispatched es).drop n).map Queued.handedAs
  handed_nil : ∀ k, (starts 0 es).length ≤ k → handed k es = []
  /-- what was dispatched has been handed to every backend its stamp counts -/
  delivered : ∀ x ∈ dispatched es, ∀ k < x.registered, x.handedAs ∈ handed k es

theorem History.init : History ([] : List (Event ι β)) (machine ι β).init where
  store := rfl
  hand := rfl
  serials := rfl
  joined := by simp [machine]
  starts_length _ := rfl
  registered_le := by simp [machine, Io.hand]
  handed_eq _ _ := by simp [starts]
  handed_nil _ _ := rfl
  delivered := by simp [dispatched]

section Step

variable {es : List (Event ι β)} {s t : State β}

/-- A step that shows nothing and moves no message. -/
theorem History.silent (h : History es s) (hq : t.messageQueue.theQueue = s.messageQueue.theQueue)
    (hhand : t.io.hand = s.io.hand) (hpushes : t.pushes = s.pushes)
    (hjoined : t.destructor = .joined ∨ t.destructor = .returned → t.io = .exited)
    (hbackends : t.destructor ≠ .returned →
      s.destructor ≠ .returned ∧ t.backends = s.backends) : History (es ++ []) t := by
  rw [List.append_nil]
  exact { h with
    store := by rw [hq, h.store]
    hand := by rw [hhand, h.hand]
    serials := by rw [hpushes, h.serials]
    joined := hjoined
    starts_length := fun ht => by
      rw [(hbackends ht).2]
      exact h.starts_length (hbackends ht).1
    registered_le := by
      rw [hq, hhand]
      exact h.registered_le }

/-- A message that is logged is the last of the queue. -/
theorem History.enqueued (h : History es s) (hd : s.destructor ≠ .returned) (i : ι)
    (level : LogLevel) (message : List Char) :
    History (es ++ [.enqueued i (stamp s level message)])
      { s with
        messageQueue :=
          { s.messageQueue with theQueue := s.messageQueue.theQueue ++ [stamp s level message] }
        pushes := s.pushes + 1 } := by
  have hstarts : starts 0 (es ++ [Event.enqueued i (stamp s level message)]) = starts 0 es := by
    rw [starts_append]
    exact List.append_nil _
  refine ⟨?_, ?_, ?_, h.joined, ?_, ?_, ?_, ?_, ?_⟩
  · rw [dequeued_append, enqueued_append, List.map_append, ← h.store]
    simp [dequeued, Log.enqueued]
  · simpa [dequeued, dispatched] using h.hand
  · rw [enqueued_append, List.map_append, h.serials, List.range_succ]
    rfl
  · rw [hstarts]
    exact h.starts_length
  · rw [hstarts]
    intro x hx
    obtain hx | hx := List.mem_append.mp hx
    · exact h.registered_le x (List.mem_append_left _ hx)
    · obtain hx | hx := List.mem_append.mp hx
      · exact h.registered_le x (List.mem_append_right _ hx)
      · rw [List.mem_singleton.mp hx]
        exact Nat.le_of_eq (h.starts_length hd).symm
  · rw [hstarts]
    intro k n hn
    simpa [handed, dispatched] using h.handed_eq k n hn
  · rw [hstarts]
    intro k hk
    simpa [handed] using h.handed_nil k hk
  · intro x hx k hk
    rw [handed_append]
    exact List.mem_append_left _ (h.delivered x (by simpa [dispatched] using hx) k hk)

/-- A new backend begins behind what was dispatched before. -/
theorem History.registered (h : History es s) (hd : s.destructor ≠ .returned) (backend : β) :
    History (es ++ [.registered backend]) { s with backends := s.backends ++ [backend] } := by
  have hstarts : starts 0 (es ++ [Event.registered backend])
      = starts 0 es ++ [(dispatched es).length] := by
    rw [starts_append, Nat.zero_add]
    rfl
  have hhanded : ∀ k, handed k (es ++ [Event.registered backend]) = handed k es := by
    intro k
    rw [handed_append]
    exact List.append_nil _
  have hdispatched : dispatched (es ++ [Event.registered backend]) = dispatched es := by
    rw [dispatched_append]
    exact List.append_nil _
  refine ⟨?_, ?_, ?_, h.joined, ?_, ?_, ?_, ?_, ?_⟩
  · simpa [dequeued, Log.enqueued] using h.store
  · simpa [dequeued, dispatched] using h.hand
  · simpa [Log.enqueued] using h.serials
  · intro _
    rw [hstarts]
    simpa using h.starts_length hd
  · intro x hx
    rw [hstarts, List.length_append]
    exact Nat.le_trans (h.registered_le x hx) (Nat.le_add_right _ _)
  · intro k n hn
    rw [hhanded, hdispatched]
    rw [hstarts] at hn
    obtain hk | hk := Nat.lt_or_ge k (starts 0 es).length
    · rw [List.getElem?_append_left hk] at hn
      exact h.handed_eq k n hn
    · -- the new backend: nothing dispatched since, nothing handed
      rw [List.getElem?_append_right hk] at hn
      have hn' := List.mem_of_getElem? hn
      rw [List.mem_singleton.mp hn', List.drop_length, h.handed_nil k hk]
      rfl
  · intro k hk
    rw [hstarts, List.length_append] at hk
    rw [hhanded]
    exact h.handed_nil k (Nat.le_trans (Nat.le_add_right _ _) hk)
  · intro x hx k hk
    rw [hhanded]
    exact h.delivered x (hdispatched ▸ hx) k hk

/-- The first of the queue is the one that is held. -/
theorem History.dequeued (h : History es s) (x : Queued) (q : ThreadsafeQueue Queued)
    (hio : s.io = .popping) (hq : s.messageQueue.theQueue = x :: q.theQueue) :
    History (es ++ [.dequeued x]) { s with messageQueue := q, io := .holding x } := by
  have hstarts : starts 0 (es ++ [Event.dequeued x]) = starts 0 es := by
    rw [starts_append]
    exact List.append_nil _
  have hhand : s.io.hand = [] := by rw [hio]; rfl
  refine ⟨?_, ?_, ?_, ?_, ?_, ?_, ?_, ?_, ?_⟩
  · rw [dequeued_append, enqueued_append, List.map_append, ← h.store, hq]
    simp [Log.dequeued, Log.enqueued]
  · rw [dequeued_append, dispatched_append, h.hand, hhand]
    rfl
  · simpa [Log.enqueued] using h.serials
  · intro hd
    have := h.joined hd
    simp [hio] at this
  · rw [hstarts]
    exact h.starts_length
  · rw [hstarts]
    intro y hy
    refine h.registered_le y ?_
    rw [hhand, hq]
    exact hy
  · rw [hstarts]
    intro k n hn
    simpa [handed, dispatched] using h.handed_eq k n hn
  · rw [hstarts]
    intro k hk
    simpa [handed] using h.handed_nil k hk
  · intro y hy k hk
    rw [handed_append]
    exact List.mem_append_left _ (h.delivered y (by simpa [dispatched] using hy) k hk)

/-- The message that was held goes to every backend there is. -/
theorem History.dispatched (h : History es s) (x : Queued) (cerrLine : List (List Char))
    (hio : s.io = .holding x) :
    History (es ++ dispatchEvents x s.backends cerrLine) { s with io := .popping } := by
  have hstarts : starts 0 (es ++ dispatchEvents x s.backends cerrLine) = starts 0 es := by
    rw [starts_append, starts_dispatchEvents, List.append_nil]
  have hhand : s.io.hand = [x] := by rw [hio]; rfl
  have hd : s.destructor ≠ .returned := by
    intro hd
    have := h.joined (.inr hd)
    simp [hio] at this
  have hlen := h.starts_length hd
  refine ⟨?_, ?_, ?_, ?_, ?_, ?_, ?_, ?_, ?_⟩
  · simpa using h.store
  · rw [dequeued_append, dispatched_append, dequeued_dispatchEvents, dispatched_dispatchEvents,
      h.hand, hhand]
    simp [Io.hand]
  · simpa using h.serials
  · intro hj
    have := h.joined hj
    simp [hio] at this
  · rw [hstarts]
    exact h.starts_length
  · rw [hstarts]
    intro y hy
    exact h.registered_le y (List.mem_append_right _ hy)
  · rw [hstarts]
    intro k n hn
    have hk : k < s.backends.length := hlen ▸ (List.getElem?_eq_some_iff.mp hn).1
    have hle : n ≤ (Log.dispatched es).length := by
      simpa using (bounds_of_mem_starts es (List.mem_of_getElem? hn)).2
    rw [handed_append, handed_dispatchEvents, if_pos hk, dispatched_append,
      dispatched_dispatchEvents, List.drop_append_of_le_length hle, List.map_append,
      h.handed_eq k n hn]
    rfl
  · rw [hstarts]
    intro k hk
    rw [handed_append, handed_dispatchEvents, if_neg (by omega), h.handed_nil k hk]
    rfl
  · intro y hy k hk
    rw [dispatched_append, dispatched_dispatchEvents] at hy
    rw [handed_append, handed_dispatchEvents]
    obtain hy | hy := List.mem_append.mp hy
    · exact List.mem_append_left _ (h.delivered y hy k hk)
    · obtain rfl := List.mem_singleton.mp hy
      have hreg := h.registered_le y (List.mem_append_left _ (by rw [hhand]; exact hy))
      rw [if_pos (by omega)]
      exact List.mem_append_right _ (List.mem_singleton_self _)

/-- **One step keeps the history true.** -/
theorem History.step (h : History es s) {a : Action ι β} {fs : List (Event ι β)}
    (hstep : (machine ι β).step s a = some (t, fs)) : History (es ++ fs) t := by
  cases effect_of_step hstep with
  | discarded i message hd => simpa using h
  | enqueued i level message hd hlevel => exact h.enqueued hd i level message
  | registered backend hd => exact h.registered hd backend
  | waiting hio hq hw => simpa using h
  | woken hio hw =>
    exact h.silent rfl (by rw [hio]; rfl) rfl (fun _ => rfl) fun hd => ⟨hd, rfl⟩
  | dequeued x q hio hq hw hw' => exact h.dequeued x q hio hq
  | dispatched x cerrLine hio hne => exact h.dispatched x cerrLine hio
  | undefined x hio hempty =>
    refine h.silent rfl (by rw [hio]; rfl) rfl (fun hj => ?_) fun hd => ⟨hd, rfl⟩
    have := h.joined hj
    simp [hio] at this
  | entered hd => exact h.silent rfl rfl rfl (by simp) fun _ => ⟨by simp [hd], rfl⟩
  | triggered hd => exact h.silent rfl rfl rfl (by simp) fun _ => ⟨by simp [hd], rfl⟩
  | joined hd hio => exact h.silent rfl rfl rfl (fun _ => hio) fun _ => ⟨by simp [hd], rfl⟩
  | cleared hd => exact h.silent rfl rfl rfl (fun _ => h.joined (.inl hd)) fun hr => absurd rfl hr

end Step

/-- **In every reachable state the history is true.** -/
theorem History.run {as : List (Action ι β)} {es : List (Event ι β)} {s : State β}
    (hrun : (machine ι β).Run as es s) : History es s := by
  induction hrun with
  | refl => exact .init
  | tail _ hstep ih => exact ih.step hstep

/-! ## What follows -/

section Facts

variable {es : List (Event ι β)} {s : State β}

/-- What was dispatched, what is in the io thread's hand and what is queued is what was enqueued,
in that order. -/
theorem History.order (h : History es s) :
    Log.dispatched es ++ s.io.hand ++ s.messageQueue.theQueue = (Log.enqueued es).map Prod.snd := by
  rw [← h.hand, h.store]

/-- Serials name messages. -/
theorem History.serials_nodup (h : History es s) :
    ((Log.dispatched es ++ s.io.hand ++ s.messageQueue.theQueue).map Queued.serial).Nodup := by
  rw [h.order, List.map_map]
  exact h.serials ▸ List.nodup_range

/-- What a backend was handed was dispatched. -/
theorem History.mem_handed (h : History es s) {k : ℕ} {p : ℕ × LogLevel × List Char}
    (hp : p ∈ handed k es) : ∃ x ∈ Log.dispatched es, x.handedAs = p := by
  obtain hk | hk := Nat.lt_or_ge k (starts 0 es).length
  · rw [h.handed_eq k _ (List.getElem?_eq_getElem hk)] at hp
    obtain ⟨x, hx, hxp⟩ := List.mem_map.mp hp
    exact ⟨x, List.mem_of_mem_drop hx, hxp⟩
  · rw [h.handed_nil k hk] at hp
    exact absurd hp List.not_mem_nil

end Facts

end Log
