import Mathlib.Algebra.GroupWithZero.Nat
import Mathlib.Data.Nat.Notation
import Mathlib.Logic.Relation
import Mathlib.Tactic.Push

/-!
# Machinery/Runs — guarded machines, their runs, and simulations between them

    init ──a₁ / es₁──▸ s₁ ──a₂ / es₂──▸ s₂ ──▸ ⋯

A `Machine` is a partial step function: an action is either not enabled in a state, or leads to one
state and shows some events.  `Steps` is the run relation, with the actions taken and the events
shown as its indices, so a fact about a history is an induction on `Steps`.  `Simulation` transports
runs along a relation of states, the events read through a map.
-/

/-- A guarded machine: `step s a` is the state `a` leads to together with the events it shows, and
`none` where `a` is not enabled. -/
structure Machine (σ α ε : Type*) where
  init : σ
  step : σ → α → Option (σ × List ε)

namespace Machine

variable {σ α ε : Type*} (M : Machine σ α ε)

/-! ## Runs -/

/-- The actions `as`, taken from `s` in order, show `es` and end in the last index. -/
inductive Steps (s : σ) : List α → List ε → σ → Prop
  | refl : Steps s [] [] s
  | tail {as : List α} {es fs : List ε} {t u : σ} {a : α} :
      Steps s as es t → M.step t a = some (u, fs) → Steps s (as ++ [a]) (es ++ fs) u

/-- A run: steps from the initial state. -/
abbrev Run : List α → List ε → σ → Prop := M.Steps M.init

variable {M}

theorem Steps.single {s t : σ} {a : α} {es : List ε} (h : M.step s a = some (t, es)) :
    M.Steps s [a] es t := Steps.refl.tail h

theorem Steps.trans {s t u : σ} {as bs : List α} {es fs : List ε} (h : M.Steps s as es t)
    (h' : M.Steps t bs fs u) : M.Steps s (as ++ bs) (es ++ fs) u := by
  induction h' with
  | refl => simpa using h
  | tail _ hstep ih =>
    rw [← List.append_assoc, ← List.append_assoc]
    exact ih.tail hstep

theorem Steps.head {s t u : σ} {a : α} {bs : List α} {es fs : List ε}
    (h : M.step s a = some (t, es)) (h' : M.Steps t bs fs u) :
    M.Steps s (a :: bs) (es ++ fs) u := (Steps.single h).trans h'

/-- **Runs split where their actions do.** -/
theorem Steps.split {s u : σ} {as bs : List α} {es : List ε} (h : M.Steps s (as ++ bs) es u) :
    ∃ t es₁ es₂, M.Steps s as es₁ t ∧ M.Steps t bs es₂ u ∧ es = es₁ ++ es₂ := by
  generalize hcs : as ++ bs = cs at h
  induction h generalizing bs with
  | refl =>
    obtain ⟨rfl, rfl⟩ := List.append_eq_nil_iff.mp hcs
    exact ⟨s, [], [], .refl, .refl, rfl⟩
  | @tail cs es fs t u a hrun hstep ih =>
    obtain rfl | ⟨bs', b, rfl⟩ := List.eq_nil_or_concat bs
    · obtain rfl : as = cs ++ [a] := by simpa using hcs
      exact ⟨u, es ++ fs, [], hrun.tail hstep, .refl, by simp⟩
    · rw [List.concat_eq_append, ← List.append_assoc] at hcs
      obtain ⟨hcs', hb⟩ := List.append_inj' hcs rfl
      obtain rfl : b = a := by simpa using hb
      obtain ⟨v, es₁, es₂, h₁, h₂, rfl⟩ := ih hcs'
      exact ⟨v, es₁, es₂ ++ fs, h₁, by simpa using h₂.tail hstep, by simp⟩

theorem Steps.nil_inv {s t : σ} {es : List ε} (h : M.Steps s [] es t) : t = s ∧ es = [] := by
  generalize hcs : ([] : List α) = cs at h
  cases h with
  | refl => exact ⟨rfl, rfl⟩
  | tail => simp at hcs

/-- The last step of a run that takes an action last. -/
theorem Steps.snoc_inv {s u : σ} {a : α} {as : List α} {es : List ε}
    (h : M.Steps s (as ++ [a]) es u) :
    ∃ t es₁ es₂, M.Steps s as es₁ t ∧ M.step t a = some (u, es₂) ∧ es = es₁ ++ es₂ := by
  generalize hcs : as ++ [a] = cs at h
  cases h with
  | refl => simp at hcs
  | tail hrun hstep =>
    obtain ⟨rfl, hb⟩ := List.append_inj' hcs rfl
    obtain rfl := List.singleton_inj.mp hb
    exact ⟨_, _, _, hrun, hstep, rfl⟩

/-- The first step of a run that takes an action first. -/
theorem Steps.cons_inv {s u : σ} {a : α} {as : List α} {es : List ε}
    (h : M.Steps s (a :: as) es u) :
    ∃ t es₁ es₂, M.step s a = some (t, es₁) ∧ M.Steps t as es₂ u ∧ es = es₁ ++ es₂ := by
  have happ : M.Steps s ([a] ++ as) es u := h
  obtain ⟨t, es₁, es₂, hfirst, hrest, rfl⟩ := happ.split
  have hsnoc : M.Steps s ([] ++ [a]) es₁ t := hfirst
  obtain ⟨v, fs, gs, hnil, hstep, rfl⟩ := hsnoc.snoc_inv
  obtain ⟨rfl, rfl⟩ := hnil.nil_inv
  exact ⟨t, _, es₂, hstep, hrest, rfl⟩

/-- **An event is shown by a step**, and what was shown before it by the run to that step. -/
theorem Steps.shown {s t : σ} {as : List α} {es es₁ es₂ : List ε} {e : ε} (h : M.Steps s as es t)
    (hes : es = es₁ ++ e :: es₂) : ∃ bs a gs u v fs₁ fs₂,
      M.Steps s bs gs u ∧ M.step u a = some (v, fs₁ ++ e :: fs₂) ∧ es₁ = gs ++ fs₁ := by
  induction h generalizing es₂ with
  | refl => simp at hes
  | @tail as es fs t u a hrun hstep ih =>
    obtain ⟨ks, rfl, rfl⟩ | ⟨ks, rfl, hks⟩ := List.append_eq_append_iff.mp hes
    · exact ⟨as, a, es, t, u, ks, es₂, hrun, hstep, rfl⟩
    · obtain _ | ⟨k, ks⟩ := ks
      · obtain rfl : e :: es₂ = fs := hks
        exact ⟨as, a, _, t, u, [], es₂, hrun, hstep, by simp⟩
      · obtain ⟨rfl, rfl⟩ := List.cons.inj hks
        exact ih rfl

/-! ## Evaluation -/

/-- The run the actions determine, if every one of them is enabled in its turn. -/
def exec (M : Machine σ α ε) : σ → List α → Option (σ × List ε)
  | s, [] => some (s, [])
  | s, a :: as =>
    match M.step s a with
    | none => none
    | some (t, es) => (exec M t as).map fun r => (r.1, es ++ r.2)

/-- **What evaluates is a run.** -/
theorem steps_of_exec {s t : σ} {as : List α} {es : List ε} (h : M.exec s as = some (t, es)) :
    M.Steps s as es t := by
  induction as generalizing s es with
  | nil =>
    obtain ⟨rfl, rfl⟩ : s = t ∧ es = [] := by simpa [exec, eq_comm] using h
    exact .refl
  | cons a as ih =>
    rw [exec] at h
    split at h
    · simp at h
    · rename_i u fs hstep
      obtain ⟨⟨v, gs⟩, hv, heq⟩ := Option.map_eq_some_iff.mp h
      obtain ⟨rfl, rfl⟩ : v = t ∧ fs ++ gs = es := by simpa using heq
      exact Steps.head hstep (ih hv)

theorem steps_get {s : σ} {as : List α} (h : (M.exec s as).isSome) :
    M.Steps s as ((M.exec s as).get h).2 ((M.exec s as).get h).1 :=
  steps_of_exec (Option.some_get h).symm

/-! ## Invariants -/

/-- **The invariant rule**, over the actions a run may take: what holds of the start and is kept by
every enabled action of that kind holds of the end. -/
theorem Steps.invariant {ok : α → Prop} {I : σ → Prop} {s t : σ} {as : List α} {es : List ε}
    (h : M.Steps s as es t) (hok : ∀ a ∈ as, ok a) (h₀ : I s)
    (hstep : ∀ s a t es, ok a → I s → M.step s a = some (t, es) → I t) : I t := by
  induction h with
  | refl => exact h₀
  | tail _ hs ih =>
    exact hstep _ _ _ _ (hok _ (by simp)) (ih fun a ha => hok a (by simp [ha])) hs

/-- The rule where every action keeps the invariant. -/
theorem Steps.always {I : σ → Prop} {s t : σ} {as : List α} {es : List ε} (h : M.Steps s as es t)
    (h₀ : I s) (hstep : ∀ {s a t es}, I s → M.step s a = some (t, es) → I t) : I t := by
  have hany : ∀ a ∈ as, True := fun _ _ => True.intro
  exact h.invariant hany h₀ fun _ _ _ _ _ hs hs' => hstep hs hs'

/-- **The potential rule**: where every step pays its cost out of the potential and its credit, a run
costs no more than the potential it starts with and the credit it is given. -/
theorem Steps.potential {φ : σ → ℕ} {cost credit : α → ℕ} {s t : σ} {as : List α} {es : List ε}
    (h : M.Steps s as es t)
    (hstep : ∀ {s a t es}, M.step s a = some (t, es) → φ t + cost a ≤ φ s + credit a) :
    φ t + (as.map cost).sum ≤ φ s + (as.map credit).sum := by
  induction h with
  | refl => exact Nat.le_refl _
  | tail _ hs ih =>
    have hlast := hstep hs
    simp only [List.map_append, List.map_cons, List.map_nil, List.sum_append, List.sum_cons,
      List.sum_nil, Nat.add_zero]
    omega

section Halting

variable {ok : α → Prop} {I : σ → Prop} {φ : σ → ℕ}

/-- **Steps that use up a measure are no more than it**, an invariant of them being given. -/
theorem Steps.length_le {s t : σ} {as : List α} {es : List ε} (h : M.Steps s as es t)
    (hok : ∀ a ∈ as, ok a) (h₀ : I s)
    (hdrop : ∀ {s a t es}, ok a → I s → M.step s a = some (t, es) → I t ∧ φ t < φ s) :
    I t ∧ φ t + as.length ≤ φ s := by
  induction h with
  | refl => exact ⟨h₀, Nat.le_refl _⟩
  | tail _ hs ih =>
    obtain ⟨hI, hrest⟩ := ih fun a ha => hok a (by simp [ha])
    obtain ⟨hI', hlast⟩ := hdrop (hok _ (by simp)) hI hs
    refine ⟨hI', ?_⟩
    rw [List.length_append, List.length_singleton]
    omega

/-- **Steps that use up a measure lead to where none is left to take.** -/
theorem exists_halt {s : σ} (h₀ : I s)
    (hdrop : ∀ {s a t es}, ok a → I s → M.step s a = some (t, es) → I t ∧ φ t < φ s) :
    ∃ as es t, M.Steps s as es t ∧ (∀ a ∈ as, ok a) ∧ ∀ a, ok a → M.step t a = none := by
  generalize hn : φ s = n
  induction n using Nat.strongRecOn generalizing s with
  | ind n ih =>
    by_cases hhalt : ∀ a, ok a → M.step s a = none
    · exact ⟨[], [], s, .refl, by simp, hhalt⟩
    · push Not at hhalt
      obtain ⟨a, ha, hstep⟩ := hhalt
      obtain ⟨⟨t, es⟩, hstep⟩ := Option.ne_none_iff_exists'.mp hstep
      obtain ⟨hI, hlt⟩ := hdrop ha h₀ hstep
      obtain ⟨bs, fs, u, hrun, hbs, hu⟩ := ih (φ t) (hn ▸ hlt) hI rfl
      refine ⟨a :: bs, es ++ fs, u, hrun.head hstep, ?_, hu⟩
      intro b hb
      obtain rfl | hb := List.mem_cons.mp hb
      · exact ha
      · exact hbs b hb

/-- Steps of a kind come to rest: in whatever order they are taken there are at most `n` of them,
they can be taken until none is left, and where none is left `P` holds of what was shown and of the
state. -/
structure ComesToRest (M : Machine σ α ε) (ok : α → Prop) (s : σ) (n : ℕ) (P : List ε → σ → Prop) :
    Prop where
  bounded : ∀ as es t, M.Steps s as es t → (∀ a ∈ as, ok a) → as.length ≤ n
  reached : ∃ as es t, M.Steps s as es t ∧ (∀ a ∈ as, ok a) ∧ ∀ a, ok a → M.step t a = none
  there : ∀ as es t, M.Steps s as es t → (∀ a ∈ as, ok a) → (∀ a, ok a → M.step t a = none) → P es t

/-- **The rest rule**: a measure that every such step uses up, and what holds where none is left. -/
theorem ComesToRest.of_measure {s : σ} {n : ℕ} {P : List ε → σ → Prop} (h₀ : I s)
    (hdrop : ∀ {s a t es}, ok a → I s → M.step s a = some (t, es) → I t ∧ φ t < φ s) (hn : φ s ≤ n)
    (hthere : ∀ {as es t}, M.Steps s as es t → (∀ a ∈ as, ok a) → I t →
      (∀ a, ok a → M.step t a = none) → P es t) : M.ComesToRest ok s n P where
  bounded as _ t hsteps has :=
    Nat.le_trans (Nat.le_add_left as.length (φ t))
      (Nat.le_trans (hsteps.length_le has h₀ hdrop).2 hn)
  reached := exists_halt h₀ hdrop
  there _ _ _ hsteps has hhalt := hthere hsteps has (hsteps.length_le has h₀ hdrop).1 hhalt

/-- Somewhere, `P` holds. -/
theorem ComesToRest.exists {s : σ} {n : ℕ} {P : List ε → σ → Prop} (h : M.ComesToRest ok s n P) :
    ∃ as es t, M.Steps s as es t ∧ (∀ a ∈ as, ok a) ∧ as.length ≤ n ∧ P es t := by
  obtain ⟨as, es, t, hsteps, has, hhalt⟩ := h.reached
  exact ⟨as, es, t, hsteps, has, h.bounded as es t hsteps has, h.there as es t hsteps has hhalt⟩

end Halting

/-! ## Simulation -/

variable {τ β δ : Type*}

/-- A forward simulation of `M` by `N`: related states stay related, one step of `M` being some
steps of `N` that show its events read through `see`. -/
structure Simulation (M : Machine σ α ε) (N : Machine τ β δ) (see : ε → List δ) where
  rel : σ → τ → Prop
  init : rel M.init N.init
  step : ∀ {s t : σ} {a : α} {es : List ε} {x : τ}, rel s x → M.step s a = some (t, es) →
    ∃ bs y, N.Steps x bs (es.flatMap see) y ∧ rel t y

/-- **Every run of the simulated machine is one of the other**, up to the reading of events. -/
theorem Simulation.run {N : Machine τ β δ} {see : ε → List δ} (R : Simulation M N see)
    {as : List α} {es : List ε} {s : σ} (h : M.Run as es s) :
    ∃ bs x, N.Run bs (es.flatMap see) x ∧ R.rel s x := by
  induction h with
  | refl => exact ⟨[], N.init, .refl, R.init⟩
  | tail _ hstep ih =>
    obtain ⟨bs, x, hrun, hrel⟩ := ih
    obtain ⟨cs, y, hsteps, hrel'⟩ := R.step hrel hstep
    exact ⟨bs ++ cs, y, by simpa using hrun.trans hsteps, hrel'⟩

/-- **Refinement by forgetting**: where every step of `M` is, under an invariant, some steps of `N` on
what is left of the state, with the events it shows, every run of `M` is one of `N`. -/
theorem Steps.forget {N : Machine τ β ε} {I : σ → Prop} {left : σ → τ} {acts : α → List β}
    {s t : σ} {as : List α} {es : List ε} (h : M.Steps s as es t) (h₀ : I s)
    (hstep : ∀ {s a t es}, I s → M.step s a = some (t, es) →
      I t ∧ N.Steps (left s) (acts a) es (left t)) :
    I t ∧ N.Steps (left s) (as.flatMap acts) es (left t) := by
  induction h with
  | refl => exact ⟨h₀, .refl⟩
  | tail _ hs ih =>
    obtain ⟨hI, hsteps⟩ := ih
    obtain ⟨hI', hlast⟩ := hstep hI hs
    rw [List.flatMap_append, List.flatMap_singleton]
    exact ⟨hI', hsteps.trans hlast⟩

end Machine
