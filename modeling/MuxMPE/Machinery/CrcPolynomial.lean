import Mathlib
import MuxMPE.Machinery.ShiftRegister

/-!
# Machinery/CrcPolynomial — the shift register divides polynomials over GF(2)

A register of `n` bits is a polynomial of degree below `n`, a message one of degree below its
length, the leading bit first.  Feeding a message is a division by `Xⁿ + P`
(`toPoly_feed`), so what a register cannot tell apart are messages whose difference the generator
divides.
-/

open Polynomial

namespace ShiftRegister

/-! ## Bits as polynomials -/

/-- A bit, as a coefficient. -/
def bit (b : Bool) : ZMod 2 := if b then 1 else 0

@[simp] theorem bit_false : bit false = 0 := rfl

@[simp] theorem bit_true : bit true = 1 := rfl

theorem bit_xor (a b : Bool) : bit (a ^^ b) = bit a + bit b := by
  cases a <;> cases b <;> decide

theorem bit_injective : Function.Injective bit := by decide

theorem bit_eq_zero {b : Bool} : bit b = 0 ↔ b = false := by cases b <;> simp

noncomputable section

variable {n : ℕ}

/-- The polynomial of a word: bit `i` is the coefficient of `X ^ i`. -/
def toPoly (r : BitVec n) : (ZMod 2)[X] := ∑ i ∈ Finset.range n, monomial i (bit (r.getLsbD i))

/-- The polynomial of a message, its first bit leading. -/
def message : List Bool → (ZMod 2)[X]
  | [] => 0
  | b :: bits => C (bit b) * X ^ bits.length + message bits

/-- The generator: `P` with the leading term that a register of `n` bits leaves out. -/
def generator (P : BitVec n) : (ZMod 2)[X] := X ^ n + toPoly P

/-! ### Words -/

/-- The coefficients are the bits. -/
theorem coeff_toPoly (r : BitVec n) (i : ℕ) : (toPoly r).coeff i = bit (r.getLsbD i) := by
  simp only [toPoly, finsetSum_coeff, coeff_monomial, Finset.sum_ite_eq', Finset.mem_range]
  by_cases hi : i < n
  · rw [if_pos hi]
  · rw [if_neg hi, BitVec.getLsbD_of_ge r i (by omega), bit_false]

/-- A register is a remainder. -/
theorem degree_toPoly_lt (r : BitVec n) : (toPoly r).degree < n := by
  refine (degree_lt_iff_coeff_zero _ n).mpr fun i hi => ?_
  rw [coeff_toPoly, BitVec.getLsbD_of_ge r i hi, bit_false]

@[simp] theorem toPoly_zero : toPoly 0#n = 0 := by
  ext i
  simp [coeff_toPoly]

/-- **A register is known by its polynomial.** -/
theorem toPoly_injective : Function.Injective (toPoly (n := n)) := by
  intro r s h
  refine BitVec.eq_of_getLsbD_eq fun i _ => ?_
  have hcoeff : bit (r.getLsbD i) = bit (s.getLsbD i) := by
    rw [← coeff_toPoly, ← coeff_toPoly, h]
  exact bit_injective hcoeff

/-- Exclusive or is the sum. -/
theorem toPoly_xor (r s : BitVec n) : toPoly (r ^^^ s) = toPoly r + toPoly s := by
  ext i
  rw [coeff_add, coeff_toPoly, coeff_toPoly, coeff_toPoly, BitVec.getLsbD_xor, bit_xor]

/-- Moving up one place multiplies by `X` and drops the top bit. -/
theorem toPoly_shiftLeft (r : BitVec n) :
    toPoly (r <<< 1) + C (bit r.msb) * X ^ n = X * toPoly r := by
  ext i
  rw [coeff_add, coeff_toPoly, coeff_C_mul, coeff_X_pow, BitVec.getLsbD_shiftLeft]
  obtain _ | i := i
  · obtain rfl | hn := Nat.eq_zero_or_pos n
    · simp [BitVec.msb, BitVec.getMsbD]
    · simp [Nat.ne_of_lt hn]
  · rw [coeff_X_mul, coeff_toPoly]
    obtain hlt | heq | hgt := Nat.lt_trichotomy (i + 1) n
    · simp [hlt, Nat.ne_of_lt hlt]
    · subst heq
      simp [BitVec.msb_eq_getLsbD_last]
    · have hge : ¬ i + 1 < n := by omega
      rw [if_neg (Nat.ne_of_gt hgt), BitVec.getLsbD_of_ge r i (by omega)]
      simp [hge]

/-! ### Messages -/

@[simp] theorem message_nil : message [] = 0 := rfl

/-- What comes first stands higher. -/
theorem message_append (u v : List Bool) :
    message (u ++ v) = message u * X ^ v.length + message v := by
  induction u with
  | nil => simp
  | cons b u ih =>
    rw [List.cons_append, message, message, ih, List.length_append, pow_add]
    ring

theorem degree_message_lt (bits : List Bool) : (message bits).degree < bits.length := by
  induction bits with
  | nil => simp
  | cons b bits ih =>
    rw [message, List.length_cons]
    refine lt_of_le_of_lt (degree_add_le _ _) (max_lt ?_ ?_)
    · exact lt_of_le_of_lt (degree_C_mul_X_pow_le _ _) (by exact_mod_cast Nat.lt_succ_self _)
    · exact lt_trans ih (by exact_mod_cast Nat.lt_succ_self _)

/-- Only a message of zeros is the zero polynomial. -/
theorem message_eq_zero {bits : List Bool} : message bits = 0 ↔ ∀ b ∈ bits, b = false := by
  induction bits with
  | nil => simp
  | cons b bits ih =>
    have hcoeff : (message (b :: bits)).coeff bits.length = bit b := by
      rw [message, coeff_add, coeff_C_mul, coeff_X_pow_self, mul_one,
        coeff_eq_zero_of_degree_lt (degree_message_lt bits), add_zero]
    rw [List.forall_mem_cons, ← ih]
    constructor
    · intro h
      have hb : b = false := bit_eq_zero.mp (by rw [← hcoeff, h, coeff_zero])
      refine ⟨hb, ?_⟩
      simpa [message, hb] using h
    · rintro ⟨rfl, h⟩
      simp [message, h]

/-- The coefficients of a message are its bits, from the last one on. -/
theorem coeff_message (bits : List Bool) (i : ℕ) :
    (message bits).coeff i = bit (bits.reverse.getD i false) := by
  induction bits with
  | nil => simp
  | cons b bits ih =>
    rw [message, coeff_add, coeff_C_mul, coeff_X_pow, ih, List.reverse_cons,
      List.getD_eq_getElem?_getD, List.getD_eq_getElem?_getD]
    by_cases hlt : i < bits.length
    · rw [List.getElem?_append_left (by simpa using hlt), if_neg hlt.ne, mul_zero, zero_add]
    · have hout : bits.reverse[i]? = none := List.getElem?_eq_none (by simpa using hlt)
      rw [List.getElem?_append_right (by simpa using hlt), List.length_reverse, hout]
      by_cases heq : i = bits.length
      · rw [if_pos heq, heq, Nat.sub_self]
        simp
      · obtain ⟨j, hj⟩ : ∃ j, i - bits.length = j + 1 := ⟨i - bits.length - 1, by omega⟩
        rw [if_neg heq, hj]
        simp

/-- The bits of a register, read as a message. -/
theorem message_bitsOf (r : BitVec n) : message (bitsOf r) = toPoly r := by
  ext i
  rw [coeff_message, coeff_toPoly, bitsOf, List.getD_eq_getElem?_getD]
  by_cases hi : i < n
  · rw [List.getElem?_reverse (by simpa using hi), List.getElem?_map, List.length_map,
      List.length_range, List.getElem?_range (by omega)]
    have hidx : n - 1 - (n - 1 - i) = i := by omega
    rw [Option.map_some, Option.getD_some, BitVec.getMsbD_eq_getLsbD, hidx]
    have hlt : n - 1 - i < n := by omega
    simp [hlt]
  · rw [List.getElem?_eq_none (by simpa using hi), BitVec.getLsbD_of_ge r i (by omega),
      Option.getD_none]

/-- So it is for messages of one length. -/
theorem message_xor {u v : List Bool} (hlen : u.length = v.length) :
    message (List.zipWith xor u v) = message u + message v := by
  induction u generalizing v with
  | nil =>
    obtain rfl := List.length_eq_zero_iff.mp hlen.symm
    simp
  | cons a u ih =>
    obtain ⟨b, v, rfl⟩ := List.exists_cons_of_length_eq_add_one hlen.symm
    have hlen' : u.length = v.length := by simpa using hlen
    rw [List.zipWith_cons_cons, message, message, message, ih hlen', List.length_zipWith, hlen',
      Nat.min_self, bit_xor, C_add]
    ring

/-! ## Division -/

variable (P : BitVec n)

theorem monic_generator : (generator P).Monic := monic_X_pow_add (degree_toPoly_lt P)

theorem degree_generator : (generator P).degree = n := by
  have h : (toPoly P).degree < (X ^ n : (ZMod 2)[X]).degree := by
    rw [degree_X_pow]
    exact degree_toPoly_lt P
  rw [generator, degree_add_eq_left_of_degree_lt h, degree_X_pow]

/-- One bit is one step of the long division. -/
theorem toPoly_step (r : BitVec n) (b : Bool) :
    toPoly (step P r b)
      = X * toPoly r + C (bit b) * X ^ n + C (bit (r.msb ^^ b)) * generator P := by
  have hstep : toPoly (step P r b) = toPoly (r <<< 1) + C (bit (r.msb ^^ b)) * toPoly P := by
    rw [step]
    cases r.msb ^^ b <;> simp [toPoly_xor]
  have htwo := CharTwo.add_self_eq_zero (C (bit (r.msb ^^ b)) * X ^ n)
  have hbit : C (bit (r.msb ^^ b)) = C (bit r.msb) + C (bit b) := by rw [bit_xor, C_add]
  rw [hstep, ← toPoly_shiftLeft r, generator]
  linear_combination -htwo + X ^ n * hbit

/-- A whole message, up to multiples of the generator. -/
theorem generator_dvd_feed (r : BitVec n) (bits : List Bool) :
    generator P ∣ X ^ bits.length * toPoly r + X ^ n * message bits - toPoly (feed P r bits) := by
  induction bits generalizing r with
  | nil => simp
  | cons b bits ih =>
    obtain ⟨q, hq⟩ := ih (step P r b)
    refine ⟨q - X ^ bits.length * C (bit (r.msb ^^ b)), ?_⟩
    rw [feed_cons, message, List.length_cons, pow_succ]
    linear_combination hq - X ^ bits.length * toPoly_step P r b

/-- **The register is the remainder** of the message times `Xⁿ`, with the initial register added to
its leading bits. -/
theorem toPoly_feed (r : BitVec n) (bits : List Bool) :
    toPoly (feed P r bits)
      = (X ^ bits.length * toPoly r + X ^ n * message bits) %ₘ generator P := by
  obtain ⟨q, hq⟩ := generator_dvd_feed P r bits
  have hdegree : (toPoly (feed P r bits)).degree < (generator P).degree := by
    rw [degree_generator]
    exact degree_toPoly_lt _
  refine ((div_modByMonic_unique q _ (monic_generator P) ⟨?_, hdegree⟩).2).symm
  rw [← hq]
  ring

/-! ## What the register tells apart -/

variable {P}

/-- With a constant term the generator has no factor `X`. -/
theorem isCoprime_generator_X (hP : P.getLsbD 0 = true) (k : ℕ) :
    IsCoprime (generator P) (X ^ k) := by
  have hn : n ≠ 0 := by
    rintro rfl
    simp at hP
  have hcoeff : (generator P).coeff 0 = 1 := by
    rw [generator, coeff_add, coeff_toPoly, hP, coeff_X_pow, if_neg hn.symm, zero_add, bit_true]
  obtain ⟨q, hq⟩ := X_dvd_sub_C (p := generator P)
  rw [hcoeff, C_1] at hq
  exact IsCoprime.pow_right ⟨1, -q, by linear_combination hq⟩

/-- Two messages the register confuses differ by a multiple of the generator. -/
theorem generator_dvd_of_feed_eq (hP : P.getLsbD 0 = true) {r : BitVec n} {u v : List Bool}
    (hlen : u.length = v.length) (h : feed P r u = feed P r v) :
    generator P ∣ message (List.zipWith xor u v) := by
  have hdvd := dvd_sub (generator_dvd_feed P r u) (generator_dvd_feed P r v)
  have hsub : X ^ u.length * toPoly r + X ^ n * message u - toPoly (feed P r u)
        - (X ^ v.length * toPoly r + X ^ n * message v - toPoly (feed P r v))
      = X ^ n * message (List.zipWith xor u v) := by
    rw [message_xor hlen, h, hlen]
    linear_combination -X ^ n * CharTwo.add_self_eq_zero (message v)
  rw [hsub] at hdvd
  exact (isCoprime_generator_X hP n).dvd_of_dvd_mul_left hdvd

/-- **The register confuses exactly the messages that differ by a multiple of the generator.** -/
theorem feed_eq_iff (hP : P.getLsbD 0 = true) {r : BitVec n} {u v : List Bool}
    (hlen : u.length = v.length) :
    feed P r u = feed P r v ↔ generator P ∣ message (List.zipWith xor u v) := by
  refine ⟨generator_dvd_of_feed_eq hP hlen, fun hdvd => ?_⟩
  have hsub : X ^ v.length * toPoly r + X ^ n * message u
        - (X ^ v.length * toPoly r + X ^ n * message v)
      = X ^ n * message (List.zipWith xor u v) := by
    rw [message_xor hlen]
    linear_combination -X ^ n * CharTwo.add_self_eq_zero (message v)
  refine toPoly_injective (sub_eq_zero.mp ?_)
  rw [toPoly_feed, toPoly_feed, hlen, ← sub_modByMonic, hsub,
    modByMonic_eq_zero_iff_dvd (monic_generator P)]
  exact hdvd.mul_left _

/-- The exclusive or of two messages has its ones where they differ. -/
theorem getElem?_xor_iff {u v : List Bool} (hlen : u.length = v.length) {i : ℕ} :
    (List.zipWith xor u v)[i]? = some true ↔ u[i]? ≠ v[i]? := by
  by_cases hi : i < u.length
  · have hi' : i < v.length := hlen ▸ hi
    rw [List.getElem?_zipWith, List.getElem?_eq_getElem hi, List.getElem?_eq_getElem hi']
    simp
  · have hi' : v.length ≤ i := by omega
    have hout : (List.zipWith xor u v)[i]? = none := List.getElem?_eq_none (by simp; omega)
    rw [hout, List.getElem?_eq_none (by omega), List.getElem?_eq_none hi']
    simp

/-- Messages whose exclusive or is zero are one message. -/
theorem eq_of_xor_eq_false {u v : List Bool} (hlen : u.length = v.length)
    (h : ∀ b ∈ List.zipWith xor u v, b = false) : u = v := by
  induction u generalizing v with
  | nil => exact (List.length_eq_zero_iff.mp hlen.symm).symm
  | cons a u ih =>
    obtain ⟨b, v, rfl⟩ := List.exists_cons_of_length_eq_add_one hlen.symm
    obtain ⟨hab, hrest⟩ := List.forall_mem_cons.mp (List.zipWith_cons_cons ▸ h)
    have heq : a = b := by simpa using hab
    rw [heq, ih (by simpa using hlen) hrest]

/-- A message that is zero outside a window of `n` bits is no multiple of the generator, unless it
is zero throughout. -/
theorem eq_false_of_generator_dvd (hP : P.getLsbD 0 = true) {d : List Bool} {a : ℕ}
    (hwindow : ∀ i, d[i]? = some true → a ≤ i ∧ i < a + n) (hdvd : generator P ∣ message d) :
    ∀ b ∈ d, b = false := by
  have hsplit : d = d.take a ++ ((d.drop a).take n ++ (d.drop a).drop n) := by
    rw [List.take_append_drop, List.take_append_drop]
  have hhead : ∀ b ∈ d.take a, b = false := by
    intro b hb
    obtain ⟨i, hi⟩ := List.mem_iff_getElem?.mp hb
    rcases b
    · rfl
    · obtain ⟨hlt, hi⟩ : i < a ∧ d[i]? = some true := by simpa [List.getElem?_take] using hi
      have hge := (hwindow i hi).1
      omega
  have htail : ∀ b ∈ (d.drop a).drop n, b = false := by
    intro b hb
    obtain ⟨i, hi⟩ := List.mem_iff_getElem?.mp hb
    rcases b
    · rfl
    · rw [List.drop_drop, List.getElem?_drop] at hi
      have hlt := (hwindow _ hi).2
      omega
  -- what is left of the difference has a degree below the generator's
  have hmid : message ((d.drop a).take n) = 0 := by
    rw [hsplit, message_append, message_append, message_eq_zero.mpr hhead,
      message_eq_zero.mpr htail, zero_mul, zero_add, add_zero] at hdvd
    have hdvd' := (isCoprime_generator_X hP _).dvd_of_dvd_mul_right hdvd
    by_contra hne
    refine (monic_generator P).not_dvd_of_degree_lt hne ?_ hdvd'
    rw [degree_generator]
    exact lt_of_lt_of_le (degree_message_lt _) (by exact_mod_cast List.length_take_le _ _)
  intro b hb
  rw [hsplit] at hb
  obtain hb | hb := List.mem_append.mp hb
  · exact hhead b hb
  · obtain hb | hb := List.mem_append.mp hb
    · exact message_eq_zero.mp hmid b hb
    · exact htail b hb

/-- **Bursts are detected**: two messages of one length whose differing bits lie within `n`
consecutive places leave different registers. -/
theorem feed_ne_of_burst (hP : P.getLsbD 0 = true) {r : BitVec n} {u v : List Bool}
    (hlen : u.length = v.length) (hne : u ≠ v) {a : ℕ}
    (hburst : ∀ i, u[i]? ≠ v[i]? → a ≤ i ∧ i < a + n) : feed P r u ≠ feed P r v := by
  intro h
  refine hne (eq_of_xor_eq_false hlen ?_)
  exact eq_false_of_generator_dvd hP (fun i hi => hburst i ((getElem?_xor_iff hlen).mp hi))
    (generator_dvd_of_feed_eq hP hlen h)

end

end ShiftRegister
