import Mathlib.Data.List.Basic
import Mathlib.Logic.Function.Iterate

/-!
# Machinery/ShiftRegister — the feedback shift register, a bit and a byte at a time

          ┌──────────◂ P (where the feedback enters) ◂───────┐
    r  =  │ b₀ │ b₁ │ b₂ │ ⋯ │ bₙ₋₁ │ ──▸ msb ──▸ ⊕ ──▸ feedback
                                                 ▲
                                            message bit

The register of `n` bits moves up one place a message bit; its top bit and the message bit feed back
through `P`.  The step is linear over exclusive or (`step_xor`), which is why a byte can be taken at
once, from a table of `2 ^ 8` words (`feed_byte`).
-/

namespace ShiftRegister

variable {n : ℕ} (P : BitVec n)

/-- One bit of the message. -/
def step (r : BitVec n) (b : Bool) : BitVec n :=
  if r.msb ^^ b then (r <<< 1) ^^^ P else r <<< 1

/-- The bits of a message, in order. -/
def feed (r : BitVec n) (bits : List Bool) : BitVec n := bits.foldl (step P) r

/-- The bits of a word, the most significant first. -/
def bitsOf {w : ℕ} (v : BitVec w) : List Bool := (List.range w).map v.getMsbD

/-- The bits of a byte sequence: the bytes in order, the most significant bit first. -/
def bitsOfBytes (bytes : List (BitVec 8)) : List Bool := bytes.flatMap bitsOf

@[simp] theorem feed_nil (r : BitVec n) : feed P r [] = r := rfl

@[simp] theorem feed_cons (r : BitVec n) (b : Bool) (bits : List Bool) :
    feed P r (b :: bits) = feed P (step P r b) bits := rfl

/-- Bits are fed one piece after the other. -/
theorem feed_append (r : BitVec n) (bits bits' : List Bool) :
    feed P r (bits ++ bits') = feed P (feed P r bits) bits' := List.foldl_append

@[simp] theorem length_bitsOf {w : ℕ} (v : BitVec w) : (bitsOf v).length = w := by
  rw [bitsOf, List.length_map, List.length_range]

@[simp] theorem bitsOfBytes_cons (b : BitVec 8) (bytes : List (BitVec 8)) :
    bitsOfBytes (b :: bytes) = bitsOf b ++ bitsOfBytes bytes := List.flatMap_cons

@[simp] theorem bitsOfBytes_nil : bitsOfBytes [] = [] := rfl

theorem bitsOfBytes_append (bytes bytes' : List (BitVec 8)) :
    bitsOfBytes (bytes ++ bytes') = bitsOfBytes bytes ++ bitsOfBytes bytes' := List.flatMap_append

@[simp] theorem length_bitsOfBytes (bytes : List (BitVec 8)) :
    (bitsOfBytes bytes).length = 8 * bytes.length := by
  induction bytes with
  | nil => rfl
  | cons b bytes ih =>
    rw [bitsOfBytes_cons, List.length_append, length_bitsOf, ih, List.length_cons]
    omega

/-- A word is known by its bits. -/
theorem bitsOf_injective {w : ℕ} : Function.Injective (bitsOf (w := w)) := by
  intro u v h
  refine BitVec.eq_of_getMsbD_eq fun i hi => ?_
  exact List.map_inj_left.mp h i (List.mem_range.mpr hi)

/-- **Byte sequences of one length are told apart by their bits.** -/
theorem bitsOfBytes_injective {x y : List (BitVec 8)} (hlen : x.length = y.length)
    (h : bitsOfBytes x = bitsOfBytes y) : x = y := by
  induction x generalizing y with
  | nil => exact (List.length_eq_zero_iff.mp hlen.symm).symm
  | cons a x ih =>
    obtain ⟨b, y, rfl⟩ := List.exists_cons_of_length_eq_add_one hlen.symm
    obtain ⟨hhead, htail⟩ := List.append_inj h (by simp)
    rw [bitsOf_injective hhead, ih (by simpa using hlen) htail]

/-- The bytes of a word, the most significant first. -/
def bigEndian {w : ℕ} (v : BitVec w) : List (BitVec 8) :=
  (List.range (w / 8)).map fun i => v.extractLsb' (w - 8 * (i + 1)) 8

@[simp] theorem length_bigEndian {w : ℕ} (v : BitVec w) : (bigEndian v).length = w / 8 := by
  rw [bigEndian, List.length_map, List.length_range]

/-- **The bytes of a word have its bits**, in order. -/
theorem bitsOfBytes_bigEndian {w : ℕ} (hw : 8 ∣ w) (v : BitVec w) :
    bitsOfBytes (bigEndian v) = bitsOf v := by
  have hbytes : ∀ k ≤ w / 8, bitsOfBytes
      ((List.range k).map fun i => v.extractLsb' (w - 8 * (i + 1)) 8)
        = (List.range (8 * k)).map v.getMsbD := by
    intro k hk
    induction k with
    | zero => rfl
    | succ k ih =>
      have hbyte : bitsOf (v.extractLsb' (w - 8 * (k + 1)) 8)
          = (List.range 8).map fun j => v.getMsbD (8 * k + j) := by
        refine List.map_congr_left fun j hj => ?_
        have hj8 : j < 8 := List.mem_range.mp hj
        have hidx : w - 8 * (k + 1) + (8 - 1 - j) = w - 1 - (8 * k + j) := by omega
        rw [BitVec.getMsbD_eq_getLsbD, BitVec.getMsbD_eq_getLsbD, BitVec.getLsbD_extractLsb', hidx]
        have hlt : 8 * k + j < w := by omega
        have hlt' : 8 - 1 - j < 8 := by omega
        simp [hj8, hlt, hlt']
      rw [List.range_succ, List.map_append, bitsOfBytes_append, ih (by omega), List.map_singleton,
        bitsOfBytes_cons, bitsOfBytes_nil, List.append_nil, hbyte, Nat.mul_succ, List.range_add,
        List.map_append, List.map_map]
      rfl
  have hall : 8 * (w / 8) = w := Nat.mul_div_cancel' hw
  rw [bigEndian, hbytes _ (Nat.le_refl _), hall, bitsOf]

/-! ## Linearity -/

/-- **The step is linear.** -/
theorem step_xor (r s : BitVec n) (a b : Bool) :
    step P (r ^^^ s) (a ^^ b) = step P r a ^^^ step P s b := by
  have hmsb : ((r ^^^ s).msb ^^ (a ^^ b)) = ((r.msb ^^ a) ^^ (s.msb ^^ b)) := by
    rw [BitVec.msb_xor]
    cases r.msb <;> cases s.msb <;> cases a <;> cases b <;> rfl
  have hP : ∀ u v : BitVec n, (u ^^^ P) ^^^ (v ^^^ P) = u ^^^ v := by
    intro u v
    rw [BitVec.xor_assoc, BitVec.xor_comm v, ← BitVec.xor_assoc P, BitVec.xor_self,
      BitVec.zero_xor]
  rw [step, step, step, hmsb, BitVec.shiftLeft_xor_distrib]
  cases r.msb ^^ a <;> cases s.msb ^^ b
  · rfl
  · exact BitVec.xor_assoc _ _ _
  · show (r <<< 1 ^^^ s <<< 1) ^^^ P = (r <<< 1 ^^^ P) ^^^ s <<< 1
    rw [BitVec.xor_assoc, BitVec.xor_assoc, BitVec.xor_comm P]
  · exact (hP _ _).symm

/-- **And so is a whole message.** -/
theorem feed_xor {u v : List Bool} (hlen : u.length = v.length) (r s : BitVec n) :
    feed P (r ^^^ s) (List.zipWith xor u v) = feed P r u ^^^ feed P s v := by
  induction u generalizing v r s with
  | nil =>
    obtain rfl := List.length_eq_zero_iff.mp hlen.symm
    rfl
  | cons a u ih =>
    obtain ⟨b, v, rfl⟩ := List.exists_cons_of_length_eq_add_one hlen.symm
    rw [List.zipWith_cons_cons, feed_cons, feed_cons, feed_cons, step_xor]
    exact ih (by simpa using hlen) _ _

/-! ## A byte at a time -/

/-- A register whose top bit meets itself only moves. -/
theorem step_msb (r : BitVec n) : step P r r.msb = r <<< 1 := by
  rw [step, Bool.xor_self]
  rfl

/-- So a register that is fed its own top bits only moves. -/
theorem feed_own_bits (r : BitVec n) {k : ℕ} (hk : k ≤ n) :
    feed P r ((List.range k).map r.getMsbD) = r <<< k := by
  induction k with
  | zero => simp
  | succ k ih =>
    have hmsb : (r <<< k).msb = r.getMsbD k := by
      rw [BitVec.msb_eq_getMsbD_zero, BitVec.getMsbD_shiftLeft]
      simp
    rw [List.range_succ, List.map_append, feed_append, ih (by omega), List.map_singleton, ← hmsb,
      feed_cons, feed_nil, step_msb, ← BitVec.shiftLeft_add]

/-- **Fed all of its own bits, the register is empty.** -/
theorem feed_bitsOf_self (r : BitVec n) : feed P r (bitsOf r) = 0#n := by
  rw [bitsOf, feed_own_bits P r (Nat.le_refl n), BitVec.shiftLeft_eq_zero (Nat.le_refl n)]

/-- A register behind which `n` bits follow is those bits, changed where it has a one. -/
theorem feed_eq_feed_zero (r : BitVec n) {bits : List Bool} (hlen : bits.length = n) :
    feed P r bits = feed P 0#n (List.zipWith xor (bitsOf r) bits) := by
  have hself := feed_bitsOf_self P r
  have hxor := feed_xor P (u := bitsOf r) (v := bits) (by rw [length_bitsOf, hlen]) r r
  rw [BitVec.xor_self, hself, BitVec.zero_xor] at hxor
  exact hxor.symm

/-- The top `w` bits of a register. -/
def top (w : ℕ) (r : BitVec n) : BitVec w := (r >>> (n - w)).setWidth w

theorem getMsbD_top {w : ℕ} (hw : w ≤ n) (r : BitVec n) {i : ℕ} (hi : i < w) :
    (top w r).getMsbD i = r.getMsbD i := by
  rw [top, BitVec.getMsbD_eq_getLsbD, BitVec.getMsbD_eq_getLsbD, BitVec.getLsbD_setWidth,
    BitVec.getLsbD_ushiftRight]
  have hidx : n - w + (w - 1 - i) = n - 1 - i := by omega
  rw [hidx]
  simp [hi, Nat.lt_of_lt_of_le hi hw]
  omega

/-- Exclusive or is taken bit by bit. -/
theorem bitsOf_xor {w : ℕ} (u v : BitVec w) :
    bitsOf (u ^^^ v) = List.zipWith xor (bitsOf u) (bitsOf v) := by
  rw [bitsOf, bitsOf, bitsOf, List.zipWith_map]
  simp

theorem bitsOfBytes_zipWith_xor {x y : List (BitVec 8)} (hlen : x.length = y.length) :
    bitsOfBytes (List.zipWith (· ^^^ ·) x y) = List.zipWith xor (bitsOfBytes x) (bitsOfBytes y) := by
  induction x generalizing y with
  | nil =>
    obtain rfl := List.length_eq_zero_iff.mp hlen.symm
    rfl
  | cons a x ih =>
    obtain ⟨b, y, rfl⟩ := List.exists_cons_of_length_eq_add_one hlen.symm
    rw [List.zipWith_cons_cons, bitsOfBytes_cons, bitsOfBytes_cons, bitsOfBytes_cons, bitsOf_xor,
      ih (by simpa using hlen), List.zipWith_append (by rw [length_bitsOf, length_bitsOf])]

/-- **A byte at a time**: the register moves up by the width of the byte, and what its top bits and
the byte feed back is one word of a table. -/
theorem feed_bitsOf {w : ℕ} (hw : w ≤ n) (r : BitVec n) (v : BitVec w) :
    feed P r (bitsOf v) = (r <<< w) ^^^ feed P 0#n (bitsOf (top w r ^^^ v)) := by
  have hown : feed P r (bitsOf (top w r)) = r <<< w := by
    rw [← feed_own_bits P r hw]
    refine congrArg (feed P r) (List.map_congr_left fun i hi => ?_)
    exact getMsbD_top hw r (List.mem_range.mp hi)
  have hv : v = top w r ^^^ (top w r ^^^ v) := by
    rw [← BitVec.xor_assoc, BitVec.xor_self, BitVec.zero_xor]
  calc feed P r (bitsOf v)
      = feed P (r ^^^ 0#n)
          (List.zipWith xor (bitsOf (top w r)) (bitsOf (top w r ^^^ v))) := by
        rw [BitVec.xor_zero, ← bitsOf_xor, ← hv]
    _ = (r <<< w) ^^^ feed P 0#n (bitsOf (top w r ^^^ v)) := by
        rw [feed_xor P (by simp), hown]

/-- **A byte sequence at a time**: a loop whose step is the table step computes the register. -/
theorem feed_bitsOfBytes {f : BitVec n → BitVec 8 → BitVec n}
    (hf : ∀ r b, f r b = feed P r (bitsOf b)) (r : BitVec n) (bytes : List (BitVec 8)) :
    bytes.foldl f r = feed P r (bitsOfBytes bytes) := by
  induction bytes generalizing r with
  | nil => rfl
  | cons b bytes ih => rw [List.foldl_cons, ih, hf, bitsOfBytes_cons, feed_append]

end ShiftRegister
