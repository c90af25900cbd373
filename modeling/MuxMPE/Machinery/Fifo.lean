import MuxMPE.Machinery.Runs
import Mathlib.Data.List.Basic

/-!
# Machinery/Fifo — the first-in first-out store, as a machine

The store a queue is there to be: a list that grows at its back and shrinks at its front.
`run_history` is its law, stated on histories: what was taken, then what is still there, is what was
put.  A queue implementation inherits the law through a `Machine.Simulation`.
-/

namespace Fifo

variable {α : Type*}

/-- What happens at the two ends. -/
inductive Event (α : Type*)
  | put (v : α)
  | take (v : α)
  deriving DecidableEq

inductive Op (α : Type*)
  | put (v : α)
  | take

/-- The values put, in order. -/
def puts : List (Event α) → List α
  | [] => []
  | .put v :: es => v :: puts es
  | .take _ :: es => puts es

/-- The values taken, in order. -/
def takes : List (Event α) → List α
  | [] => []
  | .put _ :: es => takes es
  | .take v :: es => v :: takes es

@[simp] theorem puts_append (es fs : List (Event α)) : puts (es ++ fs) = puts es ++ puts fs := by
  induction es with
  | nil => rfl
  | cons e es ih => cases e <;> simp [puts, ih]

@[simp] theorem takes_append (es fs : List (Event α)) :
    takes (es ++ fs) = takes es ++ takes fs := by
  induction es with
  | nil => rfl
  | cons e es ih => cases e <;> simp [takes, ih]

/-- The store itself. -/
def machine (α : Type*) : Machine (List α) (Op α) (Event α) where
  init := []
  step q
    | .put v => some (q ++ [v], [.put v])
    | .take =>
      match q with
      | [] => none
      | v :: rest => some (rest, [.take v])

/-- **One step keeps the history.** -/
theorem step_history {q q' : List α} {o : Op α} {es : List (Event α)}
    (h : (machine α).step q o = some (q', es)) : takes es ++ q' = q ++ puts es := by
  cases o with
  | put v =>
    obtain ⟨rfl, rfl⟩ : q ++ [v] = q' ∧ [Event.put v] = es := by simpa [machine] using h
    rfl
  | take =>
    cases q with
    | nil => simp [machine] at h
    | cons v rest =>
      obtain ⟨rfl, rfl⟩ : rest = q' ∧ [Event.take v] = es := by simpa [machine] using h
      simp [takes, puts]

/-- **Nothing is lost, invented or reordered**: what was taken, then what is stored, is what was
put. -/
theorem run_history {ops : List (Op α)} {es : List (Event α)} {q : List α}
    (h : (machine α).Run ops es q) : takes es ++ q = puts es := by
  induction h with
  | refl => rfl
  | @tail ops es fs q q' o _ hstep ih =>
    rw [takes_append, puts_append, List.append_assoc, step_history hstep, ← List.append_assoc, ih]

end Fifo
