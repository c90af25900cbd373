import Mathlib.Algebra.Ring.Parity
import MuxMPE.Machinery.ShiftRegister

/-!
# Machinery/Parity — the register counts ones modulo two

    r        b₀ b₁ ⋯ bₙ₋₁            parity (step P r b) = parity r ⊕ b
    step     b₁ ⋯ bₙ₋₁ 0   ⊕ P       as the bit that drops out comes back through P

When `P` has an odd number of ones a step changes the parity of the register by the message bit and
nothing else (`parity_step`), so a register tells messages of different parity apart.  For the
polynomial of the generator this is divisibility by `X + 1`.
-/

namespace ShiftRegister

/-! ## Parities -/

/-- Whether the number of ones is odd. -/
def parity (bits : List Bool) : Bool := bits.foldr xor false

@[simp] theorem parity_nil : parity [] = false := rfl

@[simp] theorem parity_cons (b : Bool) (bits : List Bool) :
    parity (b :: bits) = (b ^^ parity bits) := rfl

/-- Parities of pieces add. -/
@[simp] theorem parity_append (bits bits' : List Bool) :
    parity (bits ++ bits') = (parity bits ^^ parity bits') := by
  induction bits with
  | nil => rw [List.nil_append, parity_nil, Bool.false_xor]
  | cons b bits ih => rw [List.cons_append, parity_cons, parity_cons, ih, Bool.xor_assoc]

theorem parity_zipWith_xor {u v : List Bool} (hlen : u.length = v.length) :
    parity (List.zipWith xor u v) = (parity u ^^ parity v) := by
  induction u generalizing v with
  | nil =>
    obtain rfl := List.length_eq_zero_iff.mp hlen.symm
    rfl
  | cons a u ih =>
    obtain ⟨b, v, rfl⟩ := List.exists_cons_of_length_eq_add_one hlen.symm
    rw [List.zipWith_cons_cons, parity_cons, parity_cons, parity_cons, ih (by simpa using hlen)]
    cases a <;> cases b <;> simp

/-- Parity counts the ones modulo two. -/
theorem parity_eq_true_iff (bits : List Bool) : parity bits = true ↔ Odd (bits.count true) := by
  induction bits with
  | nil => decide
  | cons b bits ih =>
    rw [parity_cons]
    cases b
    · rw [Bool.false_xor, List.count_cons_of_ne (by decide), ih]
    · rw [Bool.true_xor, List.count_cons_self, Nat.odd_add_one, ← ih, Bool.not_eq_true',
        Bool.not_eq_true]

/-! ## Words -/

section Words

variable {n : ℕ} {P : BitVec n}

/-- Parity is linear on registers. -/
theorem parity_bitsOf_xor (r s : BitVec n) :
    parity (bitsOf (r ^^^ s)) = (parity (bitsOf r) ^^ parity (bitsOf s)) := by
  rw [bitsOf_xor, parity_zipWith_xor (by rw [length_bitsOf, length_bitsOf])]

/-- A register that moves up loses its top bit. -/
theorem parity_bitsOf_shiftLeft (r : BitVec n) :
    parity (bitsOf (r <<< 1)) = (parity (bitsOf r) ^^ r.msb) := by
  cases n with
  | zero => rw [BitVec.of_length_zero (x := r), BitVec.zero_shiftLeft, BitVec.msb_zero, Bool.xor_false]
  | succ k =>
    have hhead : bitsOf r = r.msb :: (List.range k).map fun i => r.getMsbD (i + 1) := by
      rw [bitsOf, List.range_succ_eq_map, List.map_cons, List.map_map, BitVec.msb_eq_getMsbD_zero]
      rfl
    have hlast : bitsOf (r <<< 1) = ((List.range k).map fun i => r.getMsbD (i + 1)) ++ [false] := by
      have hmoved : (r <<< 1).getMsbD = fun i => r.getMsbD (i + 1) := by
        ext i
        rw [BitVec.getMsbD_shiftLeft]
      have hout : r.getMsbD (k + 1) = false := BitVec.getMsbD_of_ge r _ (Nat.le_refl _)
      rw [bitsOf, hmoved, List.range_succ, List.map_append, List.map_singleton, hout]
    rw [hhead, hlast, parity_append, parity_cons, parity_cons, parity_nil, Bool.xor_false,
      Bool.xor_false, Bool.xor_comm r.msb, Bool.xor_assoc, Bool.xor_self, Bool.xor_false]

/-- **A step changes the parity by the message bit**, if the feedback is odd. -/
theorem parity_step (hP : parity (bitsOf P) = true) (r : BitVec n) (b : Bool) :
    parity (bitsOf (step P r b)) = (parity (bitsOf r) ^^ b) := by
  have hfeedback : parity (bitsOf (step P r b)) = (parity (bitsOf (r <<< 1)) ^^ (r.msb ^^ b)) := by
    rw [step]
    cases r.msb ^^ b
    · rw [Bool.xor_false]
      rfl
    · rw [if_pos rfl, parity_bitsOf_xor, hP]
  rw [hfeedback, parity_bitsOf_shiftLeft, Bool.xor_assoc, ← Bool.xor_assoc r.msb, Bool.xor_self,
    Bool.false_xor]

/-- **The register keeps the parity of all it was fed.** -/
theorem parity_feed (hP : parity (bitsOf P) = true) (r : BitVec n) (bits : List Bool) :
    parity (bitsOf (feed P r bits)) = (parity (bitsOf r) ^^ parity bits) := by
  induction bits generalizing r with
  | nil => rw [feed_nil, parity_nil, Bool.xor_false]
  | cons b bits ih => rw [feed_cons, ih, parity_step hP, parity_cons, Bool.xor_assoc]

end Words

end ShiftRegister
