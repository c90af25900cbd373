/-!
# Machinery/Fallible — computations that throw

A sequence of steps returns if each of its steps does, on what those before it returned.  One that does
without checks follows one with them (`FollowedBy`): where that returns it returns the same, and where
that throws anything may become of it.
-/

namespace Except

variable {ε α β : Type}

/-- **A sequence returns** what its second step returns on what its first returned. -/
theorem bind_eq_ok {x : Except ε α} {f : α → Except ε β} {b : β} :
    x >>= f = .ok b ↔ ∃ a, x = .ok a ∧ f a = .ok b := by
  cases x with
  | error e => exact ⟨nofun, nofun⟩
  | ok a =>
    constructor
    · exact fun h => ⟨a, rfl, h⟩
    · rintro ⟨_, h, hf⟩
      cases h
      exact hf

/-- What a mapped result comes from. -/
theorem map_eq_ok {x : Except ε α} {f : α → β} {b : β} :
    x.map f = .ok b ↔ ∃ a, x = .ok a ∧ f a = b := by
  cases x <;> simp [Except.map]

/-- The computation does not throw. -/
def Returns (x : Except ε α) : Prop := ∃ a, x = .ok a

theorem returns_ok (a : α) : Returns (.ok a : Except ε α) := ⟨a, rfl⟩

theorem returns_pure (a : α) : Returns (pure a : Except ε α) := ⟨a, rfl⟩

theorem not_returns_error (e : ε) : ¬ Returns (.error e : Except ε α) := nofun

/-- **A sequence returns** if its first step does, and then its second on what that returned. -/
theorem returns_bind {x : Except ε α} {f : α → Except ε β} :
    Returns (x >>= f) ↔ ∃ a, x = .ok a ∧ Returns (f a) := by
  constructor
  · rintro ⟨b, h⟩
    obtain ⟨a, ha, hb⟩ := bind_eq_ok.mp h
    exact ⟨a, ha, b, hb⟩
  · rintro ⟨a, ha, b, hb⟩
    exact ⟨b, bind_eq_ok.mpr ⟨a, ha, hb⟩⟩

/-- A choice returns where the branch taken does. -/
theorem returns_ite {c : Prop} [Decidable c] {x y : Except ε α} :
    (if c then x else y).Returns ↔ (c → x.Returns) ∧ (¬ c → y.Returns) := by
  by_cases h : c
  · simp [h]
  · simp [h]

/-! ## Without checks -/

/-- `y` returns what `x` returns, wherever `x` does. -/
def FollowedBy (x : Except ε α) (y : Option α) : Prop := ∀ a, x = .ok a → y = some a

/-- An error is followed by anything. -/
theorem FollowedBy.error (e : ε) (y : Option α) : FollowedBy (.error e) y := nofun

theorem FollowedBy.pure (a : α) : FollowedBy (pure a : Except ε α) (pure a) := by
  rintro b hb
  rw [← Except.ok.inj hb]
  rfl

/-- **A sequence is followed step by step.** -/
theorem FollowedBy.bind {x : Except ε α} {y : Option α} {f : α → Except ε β} {g : α → Option β}
    (hx : FollowedBy x y) (hf : ∀ a, x = .ok a → FollowedBy (f a) (g a)) :
    FollowedBy (x >>= f) (y >>= g) := by
  intro b h
  obtain ⟨a, ha, hb⟩ := bind_eq_ok.mp h
  rw [hx a ha]
  exact hf a ha b hb

end Except
