import Mathlib.Algebra.Ring.Int.Defs
import Mathlib.Data.Nat.Notation
import MuxMPE.Machinery.Runs

/-!
# Utils/DabTime — the time of the multiplex

    update_dab_time   0 ──time()──▸ t₀ ──+24 ms──▸ ──+24 ms──▸ ⋯
    get_dab_time           seconds, milliseconds

The system clock is asked once, by the first update; from there on a frame is 24 ms, and seconds that
are zero, the mark of a clock not yet asked, are never reached again.  `time_t` is unbounded here.
-/

namespace Utils.DabTime

/-- The two variables of the file. -/
structure State where
  dabTimeSeconds : ℤ := 0
  dabTimeMillis : ℤ := 0

inductive Action
  /-- `time(nullptr)` returns `now`, if it is called -/
  | updateDabTime (now : ℤ)
  | getDabTime

inductive Event
  /-- a call of `time`, and what it returned -/
  | consulted (now : ℤ)
  | got (time : ℤ) (millis : BitVec 32)

def updateDabTime (now : ℤ) (s : State) : State × List Event :=
  if s.dabTimeSeconds = 0 then ({ s with dabTimeSeconds := now }, [.consulted now])
  else
    let millis := s.dabTimeMillis + 24
    if millis ≥ 1000 then
      ({ dabTimeSeconds := s.dabTimeSeconds + 1, dabTimeMillis := millis - 1000 }, [])
    else ({ s with dabTimeMillis := millis }, [])

def getDabTime (s : State) : State × List Event :=
  (s, [.got s.dabTimeSeconds (BitVec.ofInt 32 s.dabTimeMillis)])

/-- Calls of the two functions, in any order. -/
def machine : Machine State Action Event where
  init := {}
  step s
    | .updateDabTime now => some (updateDabTime now s)
    | .getDabTime => some (getDabTime s)

theorem step_updateDabTime (now : ℤ) (s : State) :
    machine.step s (.updateDabTime now) = some (updateDabTime now s) := rfl

/-! ## Runs -/

def Action.isUpdate : Action → Bool
  | .updateDabTime _ => true
  | .getDabTime => false

/-- What the system clock was seen to show. -/
def Event.clock? : Event → Option ℤ
  | .consulted now => some now
  | .got _ _ => none

/-- The state `n` frames after `t₀`. -/
structure Ticked (t₀ : ℤ) (n : ℕ) (s : State) : Prop where
  seconds_pos : 0 < s.dabTimeSeconds
  millis_range : 0 ≤ s.dabTimeMillis ∧ s.dabTimeMillis < 1000
  total : 1000 * s.dabTimeSeconds + s.dabTimeMillis = 1000 * t₀ + 24 * n

variable {t₀ : ℤ} {n : ℕ} {s t : State} {as : List Action} {es : List Event}

/-- **A frame is 24 ms**, and the clock is not asked for it. -/
theorem Ticked.update (h : Ticked t₀ n s) (now : ℤ) :
    Ticked t₀ (n + 1) (updateDabTime now s).1 ∧ (updateDabTime now s).2 = [] := by
  obtain ⟨hpos, hmillis, htotal⟩ := h
  rw [updateDabTime, if_neg (Int.ne_of_gt hpos)]
  simp only
  split_ifs with hcarry
  · exact ⟨⟨by simp only; omega, by simp only; omega, by simp only; omega⟩, rfl⟩
  · exact ⟨⟨by simp only; omega, by simp only; omega, by simp only; omega⟩, rfl⟩

/-- **From the first frame on** every update counts, and nothing asks the clock. -/
theorem Ticked.run (h : Ticked t₀ n s) (hrun : machine.Steps s as es t) :
    Ticked t₀ (n + as.countP Action.isUpdate) t ∧ es.filterMap Event.clock? = [] := by
  induction hrun with
  | refl => exact ⟨h, rfl⟩
  | @tail as es fs t u a _ hstep ih =>
    obtain ⟨hticked, hclock⟩ := ih
    rw [List.countP_append, List.filterMap_append, hclock]
    cases a with
    | updateDabTime now =>
      rw [step_updateDabTime, Option.some.injEq] at hstep
      obtain ⟨hnext, hsilent⟩ := hticked.update now
      rw [hstep] at hnext hsilent
      obtain rfl : fs = [] := hsilent
      exact ⟨hnext, rfl⟩
    | getDabTime =>
      obtain ⟨rfl, rfl⟩ := Prod.mk.inj (Option.some.inj hstep)
      exact ⟨hticked, rfl⟩

/-- Before the first update nothing changes. -/
theorem run_of_gets (hgets : as.countP Action.isUpdate = 0) (hrun : machine.Steps s as es t) :
    t = s ∧ es.filterMap Event.clock? = [] := by
  induction hrun with
  | refl => exact ⟨rfl, rfl⟩
  | @tail as es fs t u a _ hstep ih =>
    rw [List.countP_append] at hgets
    obtain ⟨rfl, hclock⟩ := ih (by omega)
    rw [List.filterMap_append, hclock]
    cases a with
    | updateDabTime now => exact absurd hgets (by simp [Action.isUpdate])
    | getDabTime =>
      obtain ⟨rfl, rfl⟩ := Prod.mk.inj (Option.some.inj hstep)
      exact ⟨rfl, rfl⟩

/-- **The time never drifts**: once the first update has got `t₀` from the clock, every further one adds
24 ms to what `get_dab_time` yields, and the clock is not asked again. -/
theorem time_never_drifts (t₀ : ℤ) (before after : List Action) (es : List Event) (s : State)
    (ht₀ : 0 < t₀) (hfirst : before.countP Action.isUpdate = 0)
    (hrun : machine.Run (before ++ .updateDabTime t₀ :: after) es s) :
    ∃ time millis, machine.step s .getDabTime = some (s, [.got time millis]) ∧
      1000 * time + millis.toNat = 1000 * t₀ + 24 * after.countP Action.isUpdate ∧
      millis.toNat < 1000 ∧ es.filterMap Event.clock? = [t₀] := by
  obtain ⟨fresh, es₁, es', hbefore, hrest, rfl⟩ := hrun.split
  obtain ⟨rfl, hclock₁⟩ := run_of_gets hfirst hbefore
  obtain ⟨started, es₂, es₃, hstart, hafter, rfl⟩ := hrest.cons_inv
  obtain ⟨rfl, rfl⟩ := Prod.mk.inj (Option.some.inj hstart)
  have hticked : Ticked t₀ 0 { dabTimeSeconds := t₀ } := ⟨ht₀, by simp, by simp⟩
  obtain ⟨⟨-, hmillis, htotal⟩, hclock₃⟩ := hticked.run hafter
  have hcast : ((BitVec.ofInt 32 s.dabTimeMillis).toNat : ℤ) = s.dabTimeMillis := by
    rw [BitVec.toNat_ofInt]
    omega
  refine ⟨_, _, rfl, ?_, by omega, ?_⟩
  · rw [hcast, htotal, Nat.zero_add]
  · rw [List.filterMap_append, List.filterMap_append, hclock₁, hclock₃]
    rfl

/-- 42 frames after the first one, the first full second has passed. -/
theorem time_never_drifts_second :
    ∃ (es : List Event) (s : State), ∃ time millis,
      machine.step s .getDabTime = some (s, [.got time millis]) ∧
      1000 * time + millis.toNat = 1000 * 5 + 24 * (42 : ℕ) ∧
      millis.toNat < 1000 ∧ es.filterMap Event.clock? = [5] :=
  ⟨_, _, time_never_drifts 5 [.getDabTime] (List.replicate 42 (.updateDabTime 0)) _ _
    (by decide) rfl (Machine.steps_get (by decide))⟩

end Utils.DabTime
