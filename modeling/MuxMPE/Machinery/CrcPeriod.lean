import MuxMPE.Machinery.CrcPolynomial

/-!
# Machinery/CrcPeriod — the period of a generator, and errors in two bits

    message    0 0 ⋯ 0 1 0 ⋯ ⋯ 0 1 0 ⋯ 0       X ^ a * (X ^ d + 1)
                       └─── d ───┘

A generator divides `X ^ d + 1` exactly if its root has a `d`-th power of one, so it misses a double
error exactly if the order of the root divides the distance of the two bits (`feed_eq_iff_of_two`).
The order itself is found in the register: words multiply modulo the generator (`mulWord`), and a
power of the root is computed by squaring (`powerOfX`).
-/

open Polynomial

namespace ShiftRegister

/-! ## Words as residues -/

section Words

variable {n w : ℕ} (P : BitVec n)

/-- The product of two words modulo the generator, one bit of the second after the other. -/
def mulWord (a b : BitVec n) : BitVec n :=
  (bitsOf b).foldl (fun r bit => if bit then step P r false ^^^ a else step P r false) 0#n

/-- The square of a word, once more moved up if the bit is set. -/
def squareStep (r : BitVec n) (b : Bool) : BitVec n :=
  if b then step P (mulWord P r r) false else mulWord P r r

/-- The `e`-th power of `X` modulo the generator, by repeated squaring. -/
def powerOfX (e : BitVec w) : BitVec n := (bitsOf e).foldl (squareStep P) 1#n

/-- One more binary digit. -/
def pushDigit (k : ℕ) (b : Bool) : ℕ := 2 * k + b.toNat

/-- The bits of a word are its binary digits. -/
theorem foldl_pushDigit_bitsOf (e : BitVec w) : (bitsOf e).foldl pushDigit 0 = e.toNat := by
  have hfirst : ∀ j ≤ w, ((List.range j).map e.getMsbD).foldl pushDigit 0 = e.toNat >>> (w - j) := by
    intro j hj
    induction j with
    | zero => exact (Nat.shiftRight_eq_zero _ _ e.isLt).symm
    | succ j ih =>
      have hdigit : e.getMsbD j = e.toNat.testBit (w - (j + 1)) := by
        have hidx : w - 1 - j = w - (j + 1) := by omega
        rw [BitVec.getMsbD_eq_getLsbD, hidx, BitVec.testBit_toNat]
        simp [Nat.lt_of_succ_le hj]
      have hpos : w - j = w - (j + 1) + 1 := by omega
      rw [List.range_succ, List.map_append, List.foldl_append, ih (by omega), hpos,
        Nat.shiftRight_succ, List.map_singleton, List.foldl_cons, List.foldl_nil, hdigit, pushDigit,
        Nat.testBit_eq_decide_div_mod_eq, Nat.shiftRight_eq_div_pow]
      obtain h | h := Nat.mod_two_eq_zero_or_one (e.toNat / 2 ^ (w - (j + 1))) <;>
        simp [h] <;> omega
  rw [bitsOf, hfirst w (Nat.le_refl w), Nat.sub_self, Nat.shiftRight_zero]

end Words

noncomputable section

variable {n w : ℕ} {P : BitVec n}

/-- The residue a word stands for. -/
def residue (P r : BitVec n) : AdjoinRoot (generator P) := AdjoinRoot.mk _ (toPoly r)

theorem residue_injective : Function.Injective (residue P) := by
  intro r s h
  have hdvd : generator P ∣ toPoly r - toPoly s := AdjoinRoot.mk_eq_mk.mp h
  have hdegree : (toPoly r - toPoly s).degree < (generator P).degree := by
    rw [degree_generator]
    exact lt_of_le_of_lt (degree_sub_le _ _)
      (max_lt (degree_toPoly_lt r) (degree_toPoly_lt s))
  exact toPoly_injective (sub_eq_zero.mp (eq_zero_of_dvd_of_degree_lt hdvd hdegree))

theorem residue_xor (r s : BitVec n) : residue P (r ^^^ s) = residue P r + residue P s := by
  rw [residue, toPoly_xor, map_add]
  rfl

/-- Moving up multiplies by the root. -/
theorem residue_step (r : BitVec n) :
    residue P (step P r false) = AdjoinRoot.root (generator P) * residue P r := by
  rw [residue, toPoly_step, bit_false, C_0, zero_mul, add_zero, map_add, map_mul, map_mul,
    AdjoinRoot.mk_self, mul_zero, add_zero, AdjoinRoot.mk_X]
  rfl

/-- **Words multiply as residues do.** -/
theorem residue_mulWord (a b : BitVec n) :
    residue P (mulWord P a b) = residue P a * residue P b := by
  have hbits : ∀ (bits : List Bool) (r : BitVec n), residue P
      (bits.foldl (fun r bit => if bit then step P r false ^^^ a else step P r false) r)
        = AdjoinRoot.root (generator P) ^ bits.length * residue P r
          + residue P a * AdjoinRoot.mk _ (message bits) := by
    intro bits
    induction bits with
    | nil => simp [message]
    | cons b bits ih =>
      intro r
      have hhead : residue P (if b then step P r false ^^^ a else step P r false)
          = AdjoinRoot.root (generator P) * residue P r
            + residue P a * AdjoinRoot.mk _ (C (bit b)) := by
        cases b
        · simp [residue_step]
        · simp [residue_step, residue_xor]
      rw [List.foldl_cons, ih, hhead, message, map_add, map_mul, map_pow, AdjoinRoot.mk_X,
        List.length_cons]
      ring
  have hzero : residue P 0#n = 0 := by rw [residue, toPoly_zero, map_zero]
  rw [mulWord, hbits, hzero, mul_zero, zero_add, message_bitsOf]
  rfl

theorem residue_one (hn : n ≠ 0) : residue P 1#n = 1 := by
  have hone : toPoly 1#n = 1 := by
    ext i
    rw [coeff_toPoly, BitVec.getLsbD_one, coeff_one]
    by_cases hi : i = 0
    · simp [hi, Nat.pos_of_ne_zero hn]
    · simp [hi]
  rw [residue, hone, map_one]

/-- **Powers of the root are computed in the register.** -/
theorem residue_powerOfX (hn : n ≠ 0) (e : BitVec w) :
    residue P (powerOfX P e) = AdjoinRoot.root (generator P) ^ e.toNat := by
  have hbits : ∀ (bits : List Bool) (r : BitVec n) (k : ℕ),
      residue P r = AdjoinRoot.root (generator P) ^ k →
      residue P (bits.foldl (squareStep P) r)
        = AdjoinRoot.root (generator P) ^ bits.foldl pushDigit k := by
    intro bits
    induction bits with
    | nil => exact fun _ _ h => h
    | cons b bits ih =>
      intro r k hr
      refine ih _ _ ?_
      cases b
      · simp only [squareStep, residue_mulWord, hr, pushDigit, Bool.toNat_false, add_zero,
          Bool.false_eq_true, if_false]
        ring
      · simp only [squareStep, residue_step, residue_mulWord, hr, pushDigit, Bool.toNat_true,
          if_true]
        ring
  rw [powerOfX, hbits _ _ 0 (by rw [residue_one hn, pow_zero]), foldl_pushDigit_bitsOf]

theorem root_pow_eq_one_iff (hn : n ≠ 0) (e : BitVec w) :
    AdjoinRoot.root (generator P) ^ e.toNat = 1 ↔ powerOfX P e = 1#n := by
  rw [← residue_powerOfX hn, ← residue_one hn]
  exact residue_injective.eq_iff

/-- **The period of a generator**: what the root's power is one at, and at no quotient by a prime. -/
theorem orderOf_root (primes : List ℕ) (hn : n ≠ 0) {k : ℕ} (hprimes : ∀ p ∈ primes, p.Prime)
    (hk : primes.prod = k) (hw : k < 2 ^ w) (hone : powerOfX P (BitVec.ofNat w k) = 1#n)
    (hne : ∀ p ∈ primes, powerOfX P (BitVec.ofNat w (k / p)) ≠ 1#n) :
    orderOf (AdjoinRoot.root (generator P)) = k := by
  have hpow : ∀ j ≤ k, (AdjoinRoot.root (generator P) ^ j = 1 ↔
      powerOfX P (BitVec.ofNat w j) = 1#n) := by
    intro j hj
    have hj' : (BitVec.ofNat w j).toNat = j := by
      rw [BitVec.toNat_ofNat, Nat.mod_eq_of_lt (by omega)]
    rw [← root_pow_eq_one_iff hn, hj']
  have hpos : 0 < k := by
    rw [← hk]
    exact List.prod_pos fun p hp => (hprimes p hp).pos
  refine orderOf_eq_of_pow_and_pow_div_prime hpos ((hpow k (Nat.le_refl k)).mpr hone) ?_
  intro p hp hdvd hdiv
  have hmem : p ∈ primes :=
    mem_list_primes_of_dvd_prod hp.prime (fun q hq => (hprimes q hq).prime) (hk ▸ hdvd)
  exact hne p hmem ((hpow _ (Nat.div_le_self k p)).mp hdiv)

/-! ## Double errors -/

/-- The polynomial of a message with two ones. -/
theorem message_of_two {e : List Bool} {i d : ℕ} (hd : 0 < d)
    (hone : ∀ j, e[j]? = some true ↔ j = i ∨ j = i + d) :
    message e = X ^ (e.length - 1 - (i + d)) * (X ^ d + 1) := by
  have hlast : i + d < e.length := by
    obtain ⟨h, _⟩ := List.getElem?_eq_some_iff.mp ((hone (i + d)).mpr (Or.inr rfl))
    exact h
  ext k
  have hbit : e.reverse.getD k false = true ↔ k = e.length - 1 - i ∨ k = e.length - 1 - (i + d) := by
    rw [List.getD_eq_getElem?_getD]
    by_cases hk : k < e.length
    · rw [List.getElem?_reverse hk, Option.getD_eq_iff]
      simp only [hone, Bool.false_eq_true, and_false, or_false]
      omega
    · rw [List.getElem?_eq_none (by simpa using hk)]
      simp only [Option.getD_none, Bool.false_eq_true, false_iff]
      omega
  have hsum : e.length - 1 - (i + d) + d = e.length - 1 - i := by omega
  rw [coeff_message, mul_add, mul_one, ← pow_add, hsum, coeff_add, coeff_X_pow, coeff_X_pow]
  have hne : e.length - 1 - i ≠ e.length - 1 - (i + d) := by omega
  by_cases h : e.reverse.getD k false = true
  · rw [h, bit_true]
    obtain rfl | rfl := hbit.mp h
    · rw [if_pos rfl, if_neg hne, add_zero]
    · rw [if_pos rfl, if_neg hne.symm, zero_add]
  · obtain ⟨h₁, h₂⟩ := not_or.mp (mt hbit.mpr h)
    rw [Bool.not_eq_true _ |>.mp h, bit_false, if_neg h₁, if_neg h₂, add_zero]

/-- **A double error goes unseen exactly at the multiples of the period.** -/
theorem feed_eq_iff_of_two (hP : P.getLsbD 0 = true) {r : BitVec n} {u v : List Bool}
    (hlen : u.length = v.length) {i d : ℕ} (hd : 0 < d)
    (htwo : ∀ j, u[j]? ≠ v[j]? ↔ j = i ∨ j = i + d) :
    feed P r u = feed P r v ↔ orderOf (AdjoinRoot.root (generator P)) ∣ d := by
  have hone : ∀ j, (List.zipWith xor u v)[j]? = some true ↔ j = i ∨ j = i + d :=
    fun j => (getElem?_xor_iff hlen).trans (htwo j)
  rw [feed_eq_iff hP hlen, message_of_two hd hone, orderOf_dvd_iff_pow_eq_one]
  have hroot : AdjoinRoot.root (generator P) ^ d = 1 ↔ generator P ∣ X ^ d + 1 := by
    have hsub : (X ^ d + 1 : (ZMod 2)[X]) = X ^ d - 1 := (CharTwo.sub_eq_add _ _).symm
    rw [hsub, ← AdjoinRoot.mk_eq_zero, map_sub, map_pow, map_one, AdjoinRoot.mk_X, sub_eq_zero]
  rw [hroot]
  exact ⟨(isCoprime_generator_X hP _).dvd_of_dvd_mul_left, fun h => h.mul_left _⟩

end

end ShiftRegister
