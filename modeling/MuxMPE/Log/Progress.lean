import Mathlib.Data.List.Nodup
import MuxMPE.Log.History

/-!
# Log/Progress — when a queued message is handed over

    hand of io_process   the_queue
    x₀                   x₁ x₂ x₃
    1                    3  5  7      steps of the io thread until it is dispatched

Producers and registrations come between, the io thread may look at an empty queue and wait; none of
this delays a message that is queued, or brings it forward.  What can is an empty message before it
(`Log/Producers`) and the wakeup (`Log/Shutdown`).
-/

variable {ι β : Type*}

namespace Log

/-- A step of the io thread. -/
def Action.isIo : Action ι β → Bool
  | .ioPop | .ioDispatch => true
  | _ => false

/-- How many steps the io thread has before it until the first `n` messages are dispatched. -/
def ahead (n : ℕ) (es : List (Event ι β)) : ℕ :=
  n - (dequeued es).length + (n - (dispatched es).length)

/-- What the io thread has popped and what is queued, the first to be dispatched in front. -/
def State.pending (s : State β) : List Queued := s.io.hand ++ s.messageQueue.theQueue

theorem Io.length_hand_le (io : Io) : io.hand.length ≤ 1 := by
  cases io with
  | holding x | undefined x => exact Nat.le_refl 1
  | popping | exited => exact Nat.zero_le 1

/-! ## Without the wakeup -/

/-- No wakeup, and nothing undefined but the look at the end of an empty message. -/
structure Working (s : State β) : Prop where
  wakeup : s.messageQueue.wakeupRequested = false
  running : s.io ≠ .exited
  undefined : ∀ x, s.io = .undefined x → x.msg.message = []

section Step

variable {es : List (Event ι β)} {s t : State β} {a : Action ι β} {fs : List (Event ι β)}

theorem Working.init : Working (machine ι β).init := ⟨rfl, nofun, nofun⟩

theorem Working.step (h : Working s) (ha : a ≠ .triggerWakeup)
    (hstep : (machine ι β).step s a = some (t, fs)) : Working t := by
  cases effect_of_step hstep with
  | woken hio hw => exact absurd (h.wakeup.symm.trans hw) Bool.false_ne_true
  | dequeued x q hio hq hw hw' => exact ⟨hw', nofun, nofun⟩
  | dispatched x cerrLine hio hne => exact ⟨h.wakeup, nofun, nofun⟩
  | undefined x hio hempty =>
    refine ⟨h.wakeup, nofun, fun y hy => ?_⟩
    obtain rfl := Io.undefined.inj hy
    exact hempty
  | triggered hd => exact absurd rfl ha
  | discarded | enqueued | registered | waiting | entered | joined | cleared =>
    exact ⟨h.wakeup, h.running, h.undefined⟩

theorem Working.steps (h : Working s) {as : List (Action ι β)} (has : .triggerWakeup ∉ as)
    (hsteps : (machine ι β).Steps s as fs t) : Working t := by
  have hne : ∀ a ∈ as, a ≠ .triggerWakeup := fun _ ha heq => has (heq ▸ ha)
  exact hsteps.invariant hne h fun _ _ _ _ ha hs hstep => hs.step ha hstep

/-! ## One step -/

/-- The first `n` messages have been enqueued, none of those not yet dispatched being empty. -/
def Sound (n : ℕ) (es : List (Event ι β)) : Prop :=
  n ≤ (enqueued es).length ∧
    ∀ x ∈ (((enqueued es).map Prod.snd).take n).drop (dispatched es).length, x.msg.message ≠ []

theorem Sound.append {n : ℕ} (h : Sound n es) (fs : List (Event ι β)) : Sound n (es ++ fs) := by
  have hlen : n ≤ ((enqueued es).map Prod.snd).length := by
    rw [List.length_map]
    exact h.1
  refine ⟨?_, fun x hx => h.2 x ?_⟩
  · rw [enqueued_append, List.length_append]
    exact Nat.le_add_right_of_le h.1
  · rw [enqueued_append, dispatched_append, List.length_append, List.map_append,
      List.take_append_of_le_length hlen, ← List.drop_drop] at hx
    exact List.mem_of_mem_drop hx

theorem History.lengths (h : History es s) :
    (Log.dequeued es).length = (Log.dispatched es).length + s.io.hand.length ∧
      (Log.enqueued es).length = (Log.dequeued es).length + s.messageQueue.theQueue.length := by
  constructor
  · rw [h.hand, List.length_append]
  · rw [← List.length_map (f := Prod.snd), ← h.store, List.length_append]

/-- **An empty message in the hand is behind the sound ones.** -/
theorem History.le_of_empty {n : ℕ} (h : History es s) (hsound : Sound n es) {x : Queued}
    (hx : s.io.hand = [x]) (hempty : x.msg.message = []) : n ≤ (Log.dispatched es).length := by
  by_contra hlt
  have hget : ((Log.enqueued es).map Prod.snd)[(Log.dispatched es).length]? = some x := by
    rw [← h.order, hx, List.append_assoc, List.getElem?_append_right (Nat.le_refl _), Nat.sub_self]
    rfl
  refine hsound.2 x (List.mem_of_getElem? (i := 0) ?_) hempty
  rw [List.getElem?_drop, Nat.add_zero, List.getElem?_take_of_lt (Nat.not_le.mp hlt), hget]

/-- **A step of the io thread is one of those it has before it**, and no other step is. -/
theorem ahead_step {n : ℕ} (h : History es s) (hworking : Working s) (hsound : Sound n es)
    (ha : a ≠ .triggerWakeup) (hstep : (machine ι β).step s a = some (t, fs)) :
    ahead n (es ++ fs) = ahead n es - a.isIo.toNat := by
  obtain ⟨hdeq, henq⟩ := h.lengths
  have hn := hsound.1
  have hquiet (hd : dequeued fs = []) (hp : dispatched fs = []) : ahead n (es ++ fs) = ahead n es := by
    rw [ahead, dequeued_append, dispatched_append, hd, hp, List.append_nil, List.append_nil, ahead]
  cases effect_of_step hstep with
  | waiting hio hq hw =>
    -- nothing is queued and nothing in the hand: all is dispatched
    rw [hio] at hdeq
    rw [hq] at henq
    simp only [Io.hand, List.length_nil] at hdeq henq
    rw [hquiet rfl rfl, ahead]
    omega
  | woken hio hw => exact absurd (hworking.wakeup.symm.trans hw) Bool.false_ne_true
  | dequeued x q hio hq hw hw' =>
    have hshown : (dequeued [(Event.dequeued x : Event ι β)]).length = 1 ∧
        (dispatched [(Event.dequeued x : Event ι β)]).length = 0 := ⟨rfl, rfl⟩
    rw [hio] at hdeq
    simp only [Io.hand, List.length_nil] at hdeq
    rw [ahead, dequeued_append, dispatched_append, List.length_append, List.length_append, hshown.1,
      hshown.2, ahead, Action.isIo, Bool.toNat_true]
    omega
  | dispatched x cerrLine hio hne =>
    have hshown := dequeued_dispatchEvents (ι := ι) x s.backends cerrLine
    have hshown' := dispatched_dispatchEvents (ι := ι) x s.backends cerrLine
    rw [dispatchEvents] at hshown hshown'
    rw [hio] at hdeq
    simp only [Io.hand, List.length_singleton] at hdeq
    rw [ahead, dequeued_append, dispatched_append, hshown, hshown', List.append_nil,
      List.length_append, List.length_singleton, ahead, Action.isIo, Bool.toNat_true]
    omega
  | undefined x hio hempty =>
    have hle := h.le_of_empty hsound (x := x) (by rw [hio]; rfl) hempty
    rw [hquiet rfl rfl, ahead]
    omega
  | triggered hd => exact absurd rfl ha
  | discarded | enqueued | registered | entered | joined | cleared => exact hquiet rfl rfl

/-- **The io thread is not stuck** before the sound messages are dispatched. -/
theorem exists_ioStep {n : ℕ} (h : History es s) (hworking : Working s) (hsound : Sound n es)
    (hahead : 0 < ahead n es) : ∃ a, a.isIo = true ∧ (machine ι β).step s a ≠ none := by
  cases hio : s.io with
  | popping =>
    refine ⟨.ioPop, rfl, ?_⟩
    simp [machine, hio]
  | holding x =>
    refine ⟨.ioDispatch, rfl, ?_⟩
    simp [machine, hio]
  | exited => exact absurd hio hworking.running
  | undefined x =>
    have hle := h.le_of_empty hsound (x := x) (by rw [hio]; rfl) (hworking.undefined x hio)
    have hdeq := h.lengths.1
    rw [ahead] at hahead
    omega

end Step

/-! ## Every run -/

section Run

variable {as bs : List (Action ι β)} {es fs : List (Event ι β)} {s t : State β}

/-- However the threads are scheduled, it is the io thread's steps that count. -/
theorem ahead_steps {n : ℕ} (h : History es s) (hworking : Working s) (hsound : Sound n es)
    (hsteps : (machine ι β).Steps s bs fs t) (hbs : .triggerWakeup ∉ bs) :
    History (es ++ fs) t ∧ ahead n (es ++ fs) = ahead n es - bs.countP Action.isIo := by
  induction hsteps with
  | refl => exact ⟨by rwa [List.append_nil], by rw [List.append_nil]; rfl⟩
  | @tail bs fs gs t u b hsteps hstep ih =>
    rw [List.mem_append, List.mem_singleton, not_or] at hbs
    obtain ⟨hhistory, hahead⟩ := ih hbs.1
    have hlast := ahead_step hhistory (hworking.steps hbs.1 hsteps) (hsound.append fs)
      (Ne.symm hbs.2) hstep
    rw [← List.append_assoc]
    refine ⟨hhistory.step hstep, ?_⟩
    rw [hlast, hahead, List.countP_append, List.countP_singleton, Nat.sub_sub]
    cases b.isIo <;> rfl

/-- A message is dispatched when those before it are. -/
theorem History.mem_dispatched (h : History es s) {n : ℕ} {x : Queued}
    (hx : ((Log.enqueued es).map Prod.snd)[n]? = some x) :
    x ∈ Log.dispatched es ↔ n < (Log.dispatched es).length := by
  rw [← h.order, List.append_assoc] at hx
  constructor
  · intro hmem
    obtain ⟨i, hi, hix⟩ := List.mem_iff_getElem.mp hmem
    have hnodup : (Log.dispatched es ++ (s.io.hand ++ s.messageQueue.theQueue)).Nodup := by
      rw [← List.append_assoc]
      exact List.Nodup.of_map _ h.serials_nodup
    have hix' : (Log.dispatched es ++ (s.io.hand ++ s.messageQueue.theQueue))[i]? = some x := by
      rw [List.getElem?_append_left hi, List.getElem?_eq_getElem hi, hix]
    have hlt : i < (Log.dispatched es ++ (s.io.hand ++ s.messageQueue.theQueue)).length :=
      (List.getElem?_eq_some_iff.mp hix').1
    obtain rfl := (List.getElem?_inj hlt hnodup).mp (hix'.trans hx.symm)
    exact hi
  · intro hlt
    rw [List.getElem?_append_left hlt] at hx
    exact List.mem_of_getElem? hx

/-- **Every queued message is handed over, and when.**  Take any state before the wakeup is requested
and a message there, `k` behind the first of those popped or queued, none of them up to it empty.
However the producers, the registrations and the io thread take turns from there, without the wakeup:
the message is dispatched exactly when the io thread has taken `2 * (k + 1)` steps, one less if it had
popped already; until then the io thread has a step to take; and from then on every backend registered
when the message was pushed has been handed it. -/
theorem dispatched_iff (hrun : (machine ι β).Run as es s) (has : .triggerWakeup ∉ as) {k : ℕ}
    {x : Queued} (hx : s.pending[k]? = some x)
    (hne : ∀ y ∈ s.pending.take (k + 1), y.msg.message ≠ [])
    (hsteps : (machine ι β).Steps s bs fs t) (hbs : .triggerWakeup ∉ bs) :
    (x ∈ dispatched (es ++ fs) ↔ 2 * (k + 1) - s.io.hand.length ≤ bs.countP Action.isIo) ∧
    (x ∉ dispatched (es ++ fs) → ∃ a, a.isIo = true ∧ (machine ι β).step t a ≠ none) ∧
    (x ∈ dispatched (es ++ fs) → ∀ j < x.registered, x.handedAs ∈ handed j (es ++ fs)) := by
  have h := History.run hrun
  have hworking : Working s := Working.init.steps has hrun
  obtain ⟨hdeq, henq⟩ := h.lengths
  have hplace : ((enqueued es).map Prod.snd)[(dispatched es).length + k]? = some x := by
    rw [← h.order, List.append_assoc, List.getElem?_append_right (Nat.le_add_right _ k),
      Nat.add_sub_cancel_left]
    exact hx
  have hlt : (dispatched es).length + k < ((enqueued es).map Prod.snd).length :=
    (List.getElem?_eq_some_iff.mp hplace).1
  have hsound : Sound ((dispatched es).length + (k + 1)) es := by
    refine ⟨by rwa [List.length_map] at hlt, fun y hy => hne y ?_⟩
    rwa [← h.order, List.append_assoc, List.take_length_add_append, List.drop_left] at hy
  obtain ⟨ht, hahead⟩ := ahead_steps h hworking hsound hsteps hbs
  have hplace' : ((enqueued (es ++ fs)).map Prod.snd)[(dispatched es).length + k]? = some x := by
    rw [enqueued_append, List.map_append, List.getElem?_append_left hlt, hplace]
  have hmem := ht.mem_dispatched hplace'
  have hstart : ahead ((dispatched es).length + (k + 1)) es = 2 * (k + 1) - s.io.hand.length := by
    have hhand := s.io.length_hand_le
    rw [ahead]
    omega
  have hdone : x ∈ dispatched (es ++ fs)
      ↔ ahead ((dispatched es).length + (k + 1)) (es ++ fs) = 0 := by
    have hdeq' := ht.lengths.1
    rw [hmem, ahead]
    omega
  refine ⟨?_, fun hnot => ?_, fun hx' => ht.delivered x hx'⟩
  · rw [hdone, hahead, hstart]
    omega
  · exact exists_ioStep ht (hworking.steps hbs hsteps) (hsound.append fs)
      (Nat.pos_of_ne_zero fun h0 => hnot (hdone.mpr h0))

/-- A message behind one in the hand, a push in between. -/
theorem dispatched_iff_second : ∃ s es t fs,
    (machine (Fin 1) ℕ).Run [.registerBackend 0, .logstr 0 .warn "late".toList,
      .logstr 0 .info "up\n".toList, .ioPop] es s ∧
    (machine (Fin 1) ℕ).Steps s [.ioDispatch, .logstr 0 .info [], .ioPop, .ioDispatch] fs t ∧
    ∃ x ∈ dispatched (es ++ fs), ∀ j < x.registered, x.handedAs ∈ handed j (es ++ fs) := by
  obtain ⟨s, es, t, fs, hrun, hsteps, x, hx, hne, hhand⟩ : ∃ s es t fs,
      (machine (Fin 1) ℕ).Run [.registerBackend 0, .logstr 0 .warn "late".toList,
        .logstr 0 .info "up\n".toList, .ioPop] es s ∧
      (machine (Fin 1) ℕ).Steps s [.ioDispatch, .logstr 0 .info [], .ioPop, .ioDispatch] fs t ∧
      ∃ x, s.pending[1]? = some x ∧ (∀ y ∈ s.pending.take 2, y.msg.message ≠ []) ∧
        s.io.hand.length = 1 := by
    refine ⟨_, _, _, _, Machine.steps_get (by decide), Machine.steps_get (by decide), _, rfl, ?_, rfl⟩
    decide
  obtain ⟨hiff, -, hhanded⟩ := dispatched_iff hrun (by simp) hx hne hsteps (by simp)
  have hmem := hiff.mpr (by rw [hhand]; decide)
  exact ⟨s, es, t, fs, hrun, hsteps, x, hmem, hhanded hmem⟩

end Run

end Log
