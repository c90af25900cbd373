import MuxMPE.Crc.Crc
import MuxMPE.Machinery.CrcPeriod
import MuxMPE.Machinery.Parity

/-!
# Crc/ErrorDetection — which errors the shipped CRCs detect

Two byte sequences are told apart by a CRC unless its generator divides their difference.  The
shipped generators have a constant term, so no burst as short as the CRC goes undetected; and of two
wrong bits only those go undetected that are a multiple of the generator's period apart.  Where the
generator has an even number of terms no odd number of wrong bits goes undetected either.
-/

open ShiftRegister

namespace Crc

/-- Two byte sequences of one length that differ, in bits that lie within `n` consecutive ones. -/
structure Burst (n : ℕ) (x y : List (BitVec 8)) : Prop where
  length_eq : x.length = y.length
  ne : x ≠ y
  window : ∃ a, ∀ i, (bitsOfBytes x)[i]? ≠ (bitsOfBytes y)[i]? → a ≤ i ∧ i < a + n

/-- **Bursts change a CRC** whose generator has a constant term. -/
theorem Implements.ne_of_burst {n : ℕ} {crc : BitVec n → List (BitVec 8) → BitVec n}
    {P : BitVec n} (h : Implements crc P) (hP : P.getLsbD 0 = true) (init : BitVec n)
    {x y : List (BitVec 8)} (hburst : Burst n x y) : crc init x ≠ crc init y := by
  obtain ⟨a, hwindow⟩ := hburst.window
  have hlen : (bitsOfBytes x).length = (bitsOfBytes y).length := by
    rw [length_bitsOfBytes, length_bitsOfBytes, hburst.length_eq]
  have hne : bitsOfBytes x ≠ bitsOfBytes y := fun heq =>
    hburst.ne (bitsOfBytes_injective hburst.length_eq heq)
  rw [(h init x).1, (h init y).1]
  exact feed_ne_of_burst hP hlen hne hwindow

/-- **Burst detection**: with the shipped tables no burst within the width of a CRC leaves it as it
was, whatever its alignment. -/
theorem bursts_detected :
    (∀ init x y, Burst 8 x y → crc8 crc8tab init x ≠ crc8 crc8tab init y) ∧
    (∀ init x y, Burst 16 x y → crc16 crc16tab init x ≠ crc16 crc16tab init y) ∧
    (∀ init x y, Burst 32 x y → crc32 crc32tab init x ≠ crc32 crc32tab init y) := by
  refine ⟨fun init x y h => ?_, fun init x y h => ?_, fun init x y h => ?_⟩
  · exact (implements_crc8 tabulates_crc8tab).ne_of_burst (by decide) init h
  · exact (implements_crc16 tabulates_crc16tab).ne_of_burst (by decide) init h
  · exact (implements_crc32 tabulates_crc32tab).ne_of_burst (by decide) init h

/-- A byte of errors across the border of two bytes. -/
theorem burst_across_bytes : Burst 8 [0x12#8, 0x34, 0x56] [0x12#8, 0x3b, 0xa6] where
  length_eq := rfl
  ne := by decide
  window := by
    refine ⟨12, fun i hi => ?_⟩
    by_contra hout
    have hhead : (bitsOfBytes [0x12#8, 0x34, 0x56]).take 12
        = (bitsOfBytes [0x12#8, 0x3b, 0xa6]).take 12 := by decide
    have htail : (bitsOfBytes [0x12#8, 0x34, 0x56]).drop 20
        = (bitsOfBytes [0x12#8, 0x3b, 0xa6]).drop 20 := by decide
    obtain hlt | hge := Nat.lt_or_ge i 12
    · have heq := congrArg (·[i]?) hhead
      simp only [List.getElem?_take, if_pos hlt] at heq
      exact hi heq
    · obtain ⟨j, rfl⟩ : ∃ j, i = 20 + j := ⟨i - 20, by omega⟩
      have heq := congrArg (·[j]?) htail
      simp only [List.getElem?_drop] at heq
      exact hi heq

theorem bursts_detected_across_bytes :
    crc8 crc8tab 0xff [0x12#8, 0x34, 0x56] ≠ crc8 crc8tab 0xff [0x12#8, 0x3b, 0xa6] :=
  bursts_detected.1 _ _ _ burst_across_bytes

/-! ## Two wrong bits -/

/-- Two byte sequences of one length that differ in exactly two bits, `d` places apart. -/
structure DoubleError (d : ℕ) (x y : List (BitVec 8)) : Prop where
  length_eq : x.length = y.length
  apart : 0 < d
  differ : ∃ i, ∀ j, (bitsOfBytes x)[j]? ≠ (bitsOfBytes y)[j]? ↔ j = i ∨ j = i + d

/-- **A CRC misses two wrong bits exactly at multiples of its period.** -/
theorem Implements.eq_iff_of_doubleError {n : ℕ} {crc : BitVec n → List (BitVec 8) → BitVec n}
    {P : BitVec n} (h : Implements crc P) (hP : P.getLsbD 0 = true) {k : ℕ}
    (hperiod : orderOf (AdjoinRoot.root (generator P)) = k) (init : BitVec n) {d : ℕ}
    {x y : List (BitVec 8)} (herror : DoubleError d x y) :
    crc init x = crc init y ↔ k ∣ d := by
  obtain ⟨i, hdiffer⟩ := herror.differ
  have hlen : (bitsOfBytes x).length = (bitsOfBytes y).length := by
    rw [length_bitsOfBytes, length_bitsOfBytes, herror.length_eq]
  rw [(h init x).1, (h init y).1, feed_eq_iff_of_two hP hlen herror.apart hdiffer, hperiod]

/-! ### The periods of the shipped generators -/

theorem period_crc8 : orderOf (AdjoinRoot.root (generator 0x07#8)) = 127 :=
  orderOf_root (w := 7) [127] (by decide) (by norm_num) (by decide) (by decide)
    (by decide +kernel) (by decide +kernel)

theorem period_crc16 : orderOf (AdjoinRoot.root (generator 0x1021#16)) = 32767 :=
  orderOf_root (w := 15) [7, 31, 151] (by decide) (by norm_num) (by decide) (by decide)
    (by decide +kernel) (by decide +kernel)

/-- The generator of `crc32` is primitive. -/
theorem period_crc32 : orderOf (AdjoinRoot.root (generator 0x04C11DB7#32)) = 2 ^ 32 - 1 :=
  orderOf_root (w := 32) [3, 5, 17, 257, 65537] (by decide) (by norm_num) (by decide)
    (by decide) (by decide +kernel) (by decide +kernel)

/-- **Detection of double errors**: with the shipped tables two wrong bits leave a CRC as it was
exactly if they are a multiple of 127, of 32767, of 2³² - 1 places apart. -/
theorem double_errors_detected :
    (∀ init x y d, DoubleError d x y →
      (crc8 crc8tab init x = crc8 crc8tab init y ↔ 127 ∣ d)) ∧
    (∀ init x y d, DoubleError d x y →
      (crc16 crc16tab init x = crc16 crc16tab init y ↔ 32767 ∣ d)) ∧
    (∀ init x y d, DoubleError d x y →
      (crc32 crc32tab init x = crc32 crc32tab init y ↔ 2 ^ 32 - 1 ∣ d)) := by
  refine ⟨fun init x y d h => ?_, fun init x y d h => ?_, fun init x y d h => ?_⟩
  · exact (implements_crc8 tabulates_crc8tab).eq_iff_of_doubleError (by decide) period_crc8 init h
  · exact (implements_crc16 tabulates_crc16tab).eq_iff_of_doubleError (by decide) period_crc16 init h
  · exact (implements_crc32 tabulates_crc32tab).eq_iff_of_doubleError (by decide) period_crc32 init h

/-- The first and the last bit of sixteen bytes. -/
theorem doubleError_sixteen_bytes :
    DoubleError 127 (List.replicate 16 0#8) (0x80#8 :: (List.replicate 14 0#8 ++ [0x01#8])) where
  length_eq := rfl
  apart := by decide
  differ := by
    refine ⟨0, fun j => ?_⟩
    by_cases hj : j < 128
    · have hall : ∀ j < 128, ((bitsOfBytes (List.replicate 16 0#8))[j]?
          ≠ (bitsOfBytes (0x80#8 :: (List.replicate 14 0#8 ++ [0x01#8])))[j]?
            ↔ j = 0 ∨ j = 0 + 127) := by decide +kernel
      exact hall j hj
    · rw [List.getElem?_eq_none (by simp; omega), List.getElem?_eq_none (by simp; omega)]
      constructor
      · exact fun h => absurd rfl h
      · omega

theorem double_errors_detected_sixteen_bytes :
    (crc8 crc8tab 0xff (List.replicate 16 0#8)
      = crc8 crc8tab 0xff (0x80#8 :: (List.replicate 14 0#8 ++ [0x01#8])) ↔ 127 ∣ 127) :=
  double_errors_detected.1 _ _ _ _ doubleError_sixteen_bytes

/-! ## An odd number of wrong bits -/

/-- `crc` keeps the parity of the initial value and the message, so it tells messages that differ in an
odd number of bits apart. -/
structure KeepsParity {n : ℕ} (crc : BitVec n → List (BitVec 8) → BitVec n) : Prop where
  parity_eq : ∀ init data, parity (bitsOf (crc init data))
    = (parity (bitsOf init) ^^ parity (bitsOfBytes data))
  ne_of_odd : ∀ init x y, x.length = y.length →
    Odd ((List.zipWith xor (bitsOfBytes x) (bitsOfBytes y)).count true) → crc init x ≠ crc init y

/-- **A CRC keeps the parity** if the feedback is odd. -/
theorem Implements.keepsParity {n : ℕ} {crc : BitVec n → List (BitVec 8) → BitVec n} {P : BitVec n}
    (h : Implements crc P) (hP : parity (bitsOf P) = true) : KeepsParity crc := by
  have hparity : ∀ init data, parity (bitsOf (crc init data))
      = (parity (bitsOf init) ^^ parity (bitsOfBytes data)) := by
    intro init data
    rw [(h init data).1, parity_feed hP]
  refine ⟨hparity, fun init x y hlen hodd heq => ?_⟩
  have hlen' : (bitsOfBytes x).length = (bitsOfBytes y).length := by
    rw [length_bitsOfBytes, length_bitsOfBytes, hlen]
  have hsame : parity (bitsOfBytes x) = parity (bitsOfBytes y) := by
    have hboth := congrArg (fun r => parity (bitsOf r)) heq
    simp only [hparity] at hboth
    exact Bool.xor_right_inj.mp hboth
  have hdiffer := (parity_eq_true_iff _).mpr hodd
  rw [parity_zipWith_xor hlen', hsame, Bool.xor_self] at hdiffer
  nomatch hdiffer

/-- **Detection of odd errors**: the shipped `crc8` and `crc16` keep the parity. -/
theorem odd_errors_detected : KeepsParity (crc8 crc8tab) ∧ KeepsParity (crc16 crc16tab) :=
  ⟨(implements_crc8 tabulates_crc8tab).keepsParity (by decide),
    (implements_crc16 tabulates_crc16tab).keepsParity (by decide)⟩

end Crc
