import Mathlib.Algebra.BigOperators.Group.Finset.Piecewise
import Mathlib.Algebra.Order.BigOperators.Group.Finset
import MuxMPE.Queue.Notifications
import MuxMPE.Queue.Prebuffering

/-!
# Queue/Quiescence — what was called is carried out, and then nothing moves

    call ──▸ asleep ──notified──▸ awake ──retake──▸ asleep, or notify ──▸ idle
    2          2                    3                 2          2          0

Retaking the mutex and sending a notification are the steps of calls already made.  A call brings two of
them with it and a spurious wakeup one (`settling_le`), however the threads are scheduled.  Where they
have all been taken every thread is out of its call, or is asleep with the condition it waits for false
(`settles`).
-/

variable {T ι : Type*}

namespace QueueThreads

/-! ## The potential -/

/-- What a thread has before it, at most, without a new call or a spurious wakeup. -/
def Pc.work : Pc T → ℕ
  | .idle | .stuck => 0
  | .txAsleep _ _ | .rxAsleep _ | .notifyRx | .notifyTx => 2
  | .txAwake _ _ | .rxAwake _ => 3

/-- What is left to do, over all threads. -/
def State.work [Fintype ι] (s : State ι T) : ℕ := ∑ i, (s.pc i).work

/-- A step of a call already made. -/
def Action.isSettling : Action ι T → Bool
  | .retake _ | .notifyOne _ _ => true
  | _ => false

def Action.isSpurious : Action ι T → Bool
  | .spuriousWakeup _ => true
  | _ => false

def Action.isCall : Action ι T → Bool
  | .push .. | .pushWaitIfFull .. | .tryPop _ | .waitAndPop .. | .triggerWakeup _ => true
  | .retake _ | .notifyOne .. | .spuriousWakeup _ => false

/-- What a step adds to the work there may be. -/
def Action.credit (a : Action ι T) : ℕ := 2 * a.isCall.toNat + a.isSpurious.toNat

/-- A wakeup gives its sleeper one thing to do. -/
theorem Pc.work_of_wokenOn {rx : Bool} {pc pc' : Pc T} (h : pc.wokenOn rx = some pc') :
    pc'.work = pc.work + 1 := by
  cases pc <;> simp only [wokenOn, reduceCtorEq] at h
  all_goals
    split_ifs at h
    obtain rfl := Option.some.inj h
    rfl

theorem Pc.work_le (pc : Pc T) : pc.work ≤ 3 := by
  cases pc <;> simp [work]

theorem work_le [Fintype ι] (s : State ι T) : s.work ≤ 3 * Fintype.card ι := by
  rw [Nat.mul_comm]
  exact Finset.sum_le_card_nsmul Finset.univ _ 3 fun i _ => (s.pc i).work_le

/-! ## One step -/

/-- The consumer waits with its own prebuffering only. -/
theorem Roles.Allows.passes {r : Roles ι} {a : Action ι T} (h : r.Allows a) :
    a.Passes {r.prebuffering} := by
  cases a with
  | waitAndPop i prebuffering => exact h.2
  | _ => trivial

section Step

variable [DecidableEq ι] [Fintype ι] {s t : State ι T} {es : List (Event T)}

/-- One thread moves. -/
theorem work_update (q : ThreadsafeQueue T) (pcs : ι → Pc T) (i : ι) (pc : Pc T) :
    State.work { queue := q, pc := Function.update pcs i pc } + (pcs i).work
      = State.work { queue := q, pc := pcs } + pc.work := by
  have hupdate (j : ι) : (Function.update pcs i pc j).work
      = Function.update (fun j => (pcs j).work) i pc.work j :=
    Function.apply_update (fun _ => Pc.work) pcs i pc j
  simp only [State.work, hupdate]
  rw [Finset.sum_update_of_mem (Finset.mem_univ i), ← Finset.add_sum_erase _ _ (Finset.mem_univ i),
    Finset.sdiff_singleton_eq_erase]
  omega

theorem work_init : (machine ι T).init.work = 0 := Finset.sum_const_zero

theorem work_pushWait {i : ι} {val : T} {threshold : ℕ}
    (hsec : pushWaitSection s i val threshold = (t, es)) : t.work + (s.pc i).work = s.work + 2 := by
  obtain ⟨-, heq⟩ | ⟨-, heq⟩ := pushWaitSection_cases s i val threshold <;>
    obtain ⟨rfl, rfl⟩ := Prod.mk.inj (heq.symm.trans hsec)
  · exact work_update _ _ i _
  · exact work_update _ _ i _

theorem work_waitAndPop {i : ι} {prebuffering : ℕ}
    (hsec : waitAndPopSection s i prebuffering = (t, es)) :
    t.work + (s.pc i).work ≤ s.work + 2 := by
  obtain ⟨-, -, heq⟩ | ⟨-, heq⟩ | ⟨val, q, -, -, -, -, heq⟩ | ⟨-, -, -, heq⟩ :=
      waitAndPopSection_cases s i prebuffering <;>
    obtain ⟨rfl, rfl⟩ := Prod.mk.inj (heq.symm.trans hsec)
  · exact (work_update _ _ i _).le
  · exact (work_update _ _ i .idle).le.trans (Nat.le_add_right _ 2)
  · exact (work_update _ _ i _).le
  · exact (work_update _ _ i .stuck).le.trans (Nat.le_add_right _ 2)

/-- **A notification is paid for by its sender**, also where it gives a sleeper work. -/
theorem work_notifyOne {i : ι} {rx : Bool} {sleeper : Option ι}
    (hi : s.pc i = if rx then .notifyRx else .notifyTx)
    (hnotify : notifyOne s i rx sleeper = some t) : t.work + 1 ≤ s.work := by
  have hsender : (s.pc i).work = 2 := by
    rw [hi]
    cases rx <;> rfl
  obtain ⟨-, ⟨-, -, hpc⟩ | ⟨j, pc, -, hwoken, hpc⟩⟩ := notifyOne_cases hnotify
  · have h : t.work + (s.pc i).work = s.work + 0 := by
      rw [State.work, hpc]
      exact work_update s.queue s.pc i .idle
    omega
  · have hne : i ≠ j := by
      rintro rfl
      rw [hi] at hwoken
      cases rx <;> simp [Pc.wokenOn] at hwoken
    have hwork : State.work { s with pc := Function.update s.pc j pc } + (s.pc j).work
        = s.work + pc.work := work_update s.queue s.pc j pc
    rw [Pc.work_of_wokenOn hwoken] at hwork
    have h : t.work + (Function.update s.pc j pc i).work
        = State.work { s with pc := Function.update s.pc j pc } + 0 := by
      rw [State.work, hpc]
      exact work_update s.queue (Function.update s.pc j pc) i .idle
    rw [Function.update_of_ne hne] at h
    omega

/-- **A step of a call already made uses up work**; a call brings two such steps, a spurious wakeup
one. -/
theorem work_step {a : Action ι T} (hstep : (machine ι T).step s a = some (t, es)) :
    t.work + a.isSettling.toNat ≤ s.work + a.credit := by
  cases a with
  | push i overload val maxSize =>
    obtain ⟨hi, hsec⟩ := step_push.mp hstep
    obtain ⟨rfl, -⟩ := Prod.mk.inj hsec
    exact (Nat.le_add_right _ _).trans (work_update _ s.pc i .notifyRx).le
  | pushWaitIfFull i val threshold =>
    obtain ⟨hi, hsec⟩ := step_pushWaitIfFull.mp hstep
    exact (Nat.le_add_right _ _).trans (work_pushWait hsec).le
  | tryPop i =>
    obtain ⟨-, hsec⟩ := step_tryPop.mp hstep
    obtain ⟨-, heq⟩ | ⟨val, q, -, -, heq⟩ := tryPopSection_cases s i <;>
      obtain ⟨rfl, rfl⟩ := Prod.mk.inj (heq.symm.trans hsec)
    · exact Nat.le_add_right _ 2
    · exact (Nat.le_add_right _ _).trans (work_update _ _ i .notifyTx).le
  | waitAndPop i prebuffering =>
    obtain ⟨-, hsec⟩ := step_waitAndPop.mp hstep
    exact (Nat.le_add_right _ _).trans (work_waitAndPop hsec)
  | triggerWakeup i =>
    obtain ⟨-, hsec⟩ := step_triggerWakeup.mp hstep
    obtain ⟨rfl, -⟩ := Prod.mk.inj hsec
    exact (Nat.le_add_right _ _).trans (work_update _ _ i .notifyRx).le
  | retake i =>
    obtain ⟨val, threshold, hpc, hsec⟩ | ⟨prebuffering, hpc, hsec⟩ := step_retake.mp hstep
    · have h := work_pushWait hsec
      rw [hpc] at h
      exact Nat.le_of_add_le_add_right (b := 2) h.le
    · have h := work_waitAndPop hsec
      rw [hpc] at h
      exact Nat.le_of_add_le_add_right (b := 2) h
  | notifyOne i sleeper =>
    obtain ⟨rx, u, hi, hnotify, heq⟩ := step_notifyOne.mp hstep
    obtain ⟨rfl, -⟩ := Prod.mk.inj heq
    exact work_notifyOne hi hnotify
  | spuriousWakeup i =>
    obtain ⟨rx, pc, hwoken, heq⟩ := step_spuriousWakeup.mp hstep
    obtain ⟨rfl, -⟩ := Prod.mk.inj heq
    have h : State.work { s with pc := Function.update s.pc i pc } + (s.pc i).work
        = s.work + pc.work := work_update s.queue s.pc i pc
    rw [Pc.work_of_wokenOn hwoken, ← Nat.add_assoc, Nat.add_right_comm] at h
    exact (Nat.add_right_cancel h).le

/-- **A notification can always be sent.** -/
theorem exists_notifyOne (s : State ι T) (i : ι) (rx : Bool) :
    ∃ sleeper t, notifyOne s i rx sleeper = some t := by
  by_cases hnone : ∀ j, ((s.pc j).wokenOn rx).isNone
  · exact ⟨none, _, if_pos hnone⟩
  · push Not at hnone
    obtain ⟨j, hj⟩ := hnone
    obtain ⟨pc, hpc⟩ := Option.ne_none_iff_exists'.mp fun h => hj (Option.isNone_iff_eq_none.mpr h)
    exact ⟨some j, _, Option.map_eq_some_iff.mpr ⟨pc, hpc, rfl⟩⟩

/-- **Every settling step leaves less to do.** -/
theorem work_lt {a : Action ι T} (ha : a.isSettling = true)
    (hstep : (machine ι T).step s a = some (t, es)) : t.work < s.work := by
  have h := work_step hstep
  have hcredit : a.credit = 0 := by
    cases a with
    | retake i => rfl
    | notifyOne i sleeper => rfl
    | _ => nomatch ha
  rw [ha, hcredit] at h
  exact h

/-- No call already made has a step to take. -/
def Settled (s : State ι T) : Prop := ∀ a, a.isSettling = true → (machine ι T).step s a = none

/-- **Where nothing moves, who is in a call is asleep**, if not past an empty front. -/
theorem Settled.pc_cases (h : Settled s) (i : ι) :
    s.pc i = .idle ∨ s.pc i = .stuck ∨ (∃ p, s.pc i = .rxAsleep p) ∨ ∃ v th, s.pc i = .txAsleep v th := by
  have hnotify (rx : Bool) : s.pc i ≠ if rx then .notifyRx else .notifyTx := by
    intro hi
    obtain ⟨sleeper, t, ht⟩ := exists_notifyOne s i rx
    have hstep := step_notifyOne.mpr ⟨rx, t, hi, ht, rfl⟩
    exact Option.some_ne_none _ (hstep.symm.trans (h (.notifyOne i sleeper) rfl))
  have hretake : (machine ι T).step s (.retake i) = none := h (.retake i) rfl
  cases hi : s.pc i with
  | idle => exact .inl rfl
  | stuck => exact .inr (.inl rfl)
  | rxAsleep p => exact .inr (.inr (.inl ⟨p, rfl⟩))
  | txAsleep v th => exact .inr (.inr (.inr ⟨v, th, rfl⟩))
  | notifyRx => exact absurd hi (hnotify true)
  | notifyTx => exact absurd hi (hnotify false)
  | txAwake v th =>
    have hstep := step_retake.mpr (.inl ⟨v, th, hi, rfl⟩)
    exact absurd (hstep.symm.trans hretake) (Option.some_ne_none _)
  | rxAwake p =>
    have hstep := step_retake.mpr (.inr ⟨p, hi, rfl⟩)
    exact absurd (hstep.symm.trans hretake) (Option.some_ne_none _)

theorem Settled.not_notify (h : Settled s) (i : ι) (b : Bool) : s.pc i ≠ .notify b := by
  intro hi
  obtain hpc | hpc | ⟨p, hpc⟩ | ⟨v, th, hpc⟩ := h.pc_cases i <;> rw [hpc] at hi <;> cases b <;>
    nomatch hi

end Step

/-! ## Every run -/

section Run

variable [DecidableEq ι] [Fintype ι] {as : List (Action ι T)} {es : List (Event T)} {s : State ι T}

/-- **The threads cannot keep each other busy**: in every run the steps of calls already made are at
most two for each call and one for each spurious wakeup. -/
theorem settling_le (hrun : (machine ι T).Run as es s) :
    as.countP Action.isSettling ≤ 2 * as.countP Action.isCall + as.countP Action.isSpurious := by
  have hcount (as : List (Action ι T)) : (as.map fun a => a.isSettling.toNat).sum
        = as.countP Action.isSettling ∧ (as.map Action.credit).sum
        = 2 * as.countP Action.isCall + as.countP Action.isSpurious := by
    induction as with
    | nil => exact ⟨rfl, rfl⟩
    | cons a as ih =>
      rw [List.map_cons, List.map_cons, List.sum_cons, List.sum_cons, ih.1, ih.2]
      simp only [List.countP_cons, Action.credit]
      cases a.isSettling <;> cases a.isCall <;> cases a.isSpurious <;>
        simp only [Bool.toNat_false, Bool.toNat_true, Bool.false_eq_true, if_true, if_false] <;> omega
  have h : s.work + (as.map fun a => a.isSettling.toNat).sum
      ≤ (machine ι T).init.work + (as.map Action.credit).sum := Machine.Steps.potential hrun work_step
  rw [work_init, (hcount as).1, (hcount as).2] at h
  omega

/-- Two calls and a spurious wakeup, carried out in four steps. -/
theorem settling_le_two_threads : ∃ s es, (machine (Fin 2) ℕ).Run [.waitAndPop 1 1, .spuriousWakeup 1,
      .retake 1, .push 0 .move 7 0, .notifyOne 0 (some 1), .retake 1, .notifyOne 1 none] es s ∧
    4 ≤ 2 * 2 + 1 := by
  obtain ⟨s, es, hrun⟩ : ∃ s es, (machine (Fin 2) ℕ).Run [.waitAndPop 1 1, .spuriousWakeup 1,
      .retake 1, .push 0 .move 7 0, .notifyOne 0 (some 1), .retake 1, .notifyOne 1 none] es s :=
    ⟨_, _, Machine.steps_get (by decide)⟩
  exact ⟨s, es, hrun, settling_le hrun⟩

end Run

end QueueThreads
