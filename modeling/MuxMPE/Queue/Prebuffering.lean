import Mathlib.Algebra.Group.Nat.Defs
import Mathlib.Data.Set.Defs
import MuxMPE.Queue.Threads

/-!
# Queue/Prebuffering — what `wait_and_pop` finds when it pops

    while (size < prebuffering and not wakeup_requested) wait
    if (wakeup_requested) throw          else front(), pop()

The loop is left with at least `prebuffering` elements there, whoever else pops, or with a wakeup that
is thrown on.  So there is an element to take, unless the caller waits for none: `try_pop` tests for
an empty queue, `wait_and_pop` leaves that to its argument.
-/

namespace QueueThreads

variable {ι T : Type*}

/-- The calls of `wait_and_pop` pass one of the `allowed` values. -/
def Action.Passes (allowed : Set ℕ) : Action ι T → Prop
  | .waitAndPop _ prebuffering => prebuffering ∈ allowed
  | _ => True

/-- A thread in `wait_and_pop` waits for an element, and none has come past `front()` without. -/
def Pc.Careful : Pc T → Prop
  | .rxAsleep prebuffering | .rxAwake prebuffering => prebuffering ≠ 0
  | .stuck => False
  | _ => True

/-- Waking changes nothing of what is waited for. -/
theorem Pc.Careful.woken {rx : Bool} {pc pc' : Pc T} (h : pc.Careful)
    (hwoken : pc.wokenOn rx = some pc') : pc'.Careful := by
  cases pc <;> simp only [wokenOn, reduceCtorEq] at hwoken
  all_goals
    split_ifs at hwoken
    obtain rfl := Option.some.inj hwoken
    exact h

section Threads

variable [DecidableEq ι]

theorem careful_update {pcs : ι → Pc T} (h : ∀ j, (pcs j).Careful) (i : ι) {pc : Pc T}
    (hpc : pc.Careful) (j : ι) : (Function.update pcs i pc j).Careful :=
  (Function.forall_update_iff pcs fun _ => Pc.Careful).mpr ⟨hpc, fun k _ => h k⟩ j

/-! ## One step -/

variable {s t : State ι T} {es : List (Event T)}

theorem careful_pushWait {i : ι} {val : T} {threshold : ℕ} (h : ∀ j, (s.pc j).Careful)
    (hsec : pushWaitSection s i val threshold = (t, es)) : ∀ j, (t.pc j).Careful := by
  obtain ⟨-, heq⟩ | ⟨-, heq⟩ := pushWaitSection_cases s i val threshold <;>
    obtain ⟨rfl, rfl⟩ := Prod.mk.inj (heq.symm.trans hsec)
  · exact careful_update h i True.intro
  · exact careful_update h i True.intro

/-- **Who waits for an element finds one.** -/
theorem careful_waitAndPop {i : ι} {prebuffering : ℕ} (h : ∀ j, (s.pc j).Careful)
    (hpos : prebuffering ≠ 0) (hsec : waitAndPopSection s i prebuffering = (t, es)) :
    ∀ j, (t.pc j).Careful := by
  obtain ⟨-, -, heq⟩ | ⟨-, heq⟩ | ⟨val, q, -, -, -, -, heq⟩ | ⟨hzero, -⟩ :=
    waitAndPopSection_cases s i prebuffering
  · obtain ⟨rfl, rfl⟩ := Prod.mk.inj (heq.symm.trans hsec)
    exact careful_update h i hpos
  · obtain ⟨rfl, rfl⟩ := Prod.mk.inj (heq.symm.trans hsec)
    exact careful_update h i True.intro
  · obtain ⟨rfl, rfl⟩ := Prod.mk.inj (heq.symm.trans hsec)
    exact careful_update h i True.intro
  · exact absurd hzero hpos

variable [Fintype ι]

theorem careful_step {allowed : Set ℕ} (hallowed : 0 ∉ allowed) {a : Action ι T}
    (ha : a.Passes allowed) (h : ∀ j, (s.pc j).Careful)
    (hstep : (machine ι T).step s a = some (t, es)) : ∀ j, (t.pc j).Careful := by
  cases a with
  | push i overload val maxSize =>
    obtain ⟨-, hsec⟩ := step_push.mp hstep
    obtain ⟨rfl, -⟩ := Prod.mk.inj hsec
    exact careful_update h i True.intro
  | pushWaitIfFull i val threshold => exact careful_pushWait h (step_pushWaitIfFull.mp hstep).2
  | tryPop i =>
    obtain ⟨-, hsec⟩ := step_tryPop.mp hstep
    obtain ⟨-, heq⟩ | ⟨val, q, -, -, heq⟩ := tryPopSection_cases s i <;>
      obtain ⟨rfl, rfl⟩ := Prod.mk.inj (heq.symm.trans hsec)
    · exact h
    · exact careful_update h i True.intro
  | waitAndPop i prebuffering =>
    have hpos : prebuffering ≠ 0 := fun hzero => hallowed (hzero ▸ ha)
    exact careful_waitAndPop h hpos (step_waitAndPop.mp hstep).2
  | triggerWakeup i =>
    obtain ⟨-, hsec⟩ := step_triggerWakeup.mp hstep
    obtain ⟨rfl, -⟩ := Prod.mk.inj hsec
    exact careful_update h i True.intro
  | retake i =>
    obtain ⟨val, threshold, -, hsec⟩ | ⟨prebuffering, hpc, hsec⟩ := step_retake.mp hstep
    · exact careful_pushWait h hsec
    · have hi := h i
      rw [hpc] at hi
      exact careful_waitAndPop h hi hsec
  | notifyOne i sleeper =>
    obtain ⟨rx, u, -, hnotify, heq⟩ := step_notifyOne.mp hstep
    obtain ⟨rfl, -⟩ := Prod.mk.inj heq
    obtain ⟨-, ⟨-, -, hpc⟩ | ⟨k, pc, -, hwoken, hpc⟩⟩ := notifyOne_cases hnotify
    · rw [hpc]
      exact careful_update h i True.intro
    · rw [hpc]
      exact careful_update (careful_update h k ((h k).woken hwoken)) i True.intro
  | spuriousWakeup i =>
    obtain ⟨rx, pc, hwoken, heq⟩ := step_spuriousWakeup.mp hstep
    obtain ⟨rfl, -⟩ := Prod.mk.inj heq
    exact careful_update h i ((h i).woken hwoken)

/-! ## Every run -/

/-- Whatever the threads do, `wait_and_pop` finds an element where it takes one. -/
def FrontIsThere (ι T : Type*) [DecidableEq ι] [Fintype ι] (allowed : Set ℕ) : Prop :=
  ∀ (as : List (Action ι T)) (es : List (Event T)) (s : State ι T),
    (machine ι T).Run as es s → (∀ a ∈ as, a.Passes allowed) → ∀ j, s.pc j ≠ .stuck

theorem frontIsThere_of_pos {allowed : Set ℕ} (h : 0 ∉ allowed) : FrontIsThere ι T allowed := by
  intro as es s hrun has j hstuck
  have hcareful : ∀ j, (s.pc j).Careful :=
    hrun.invariant has (fun _ => True.intro) fun _ _ _ _ ha hs hstep => careful_step h ha hs hstep
  have hj := hcareful j
  rw [hstuck] at hj
  exact hj

/-- Waiting for no element, on the empty queue of the start. -/
theorem not_frontIsThere_of_zero (T : Type*) (i : ι) {allowed : Set ℕ} (h : 0 ∈ allowed) :
    ¬ FrontIsThere ι T allowed := by
  intro hfront
  have hstep : (machine ι T).step (machine ι T).init (.waitAndPop i 0) =
      some ({ pc := Function.update (fun _ => .idle) i .stuck }, []) := rfl
  have hstuck : Function.update (fun _ => (.idle : Pc T)) i (.stuck : Pc T) i = .stuck := by
    rw [Function.update_self]
  have hallowed : ∀ a ∈ [Action.waitAndPop (T := T) i 0], a.Passes allowed := by
    intro a ha
    obtain rfl := List.mem_singleton.mp ha
    exact h
  exact hfront _ _ _ (.single hstep) hallowed i hstuck

/-- **`wait_and_pop` takes from a queue that holds an element**, in every run, exactly if no caller
passes a prebuffering of zero. -/
theorem frontIsThere_iff (T : Type*) [Nonempty ι] (allowed : Set ℕ) :
    FrontIsThere ι T allowed ↔ 0 ∉ allowed := by
  obtain ⟨i⟩ := ‹Nonempty ι›
  exact ⟨fun hfront hzero => not_frontIsThere_of_zero T i hzero hfront, frontIsThere_of_pos⟩

/-- Two threads whose prebufferings are all three. -/
theorem frontIsThere_iff_three : FrontIsThere (Fin 2) ℕ {3} :=
  (frontIsThere_iff ℕ {3}).mpr (by simp)

end Threads

/-- **Some `size_t` is zero.** -/
theorem not_frontIsThere_size_t : ¬ FrontIsThere (Fin 1) ℕ { prebuffering | prebuffering < 2 ^ 64 } :=
  not_frontIsThere_of_zero ℕ 0 (by decide : 0 < 2 ^ 64)

end QueueThreads
