import MuxMPE.Crc.ErrorDetection
import MuxMPE.Crc.Regeneration

/-!
# Crc/Generators — what the choice of a generator decides

    m ‖ t ‖ s    t of n bits   ──▸   crc(m ‖ t ‖ s) of n bits      one to one with a constant term
    0x01 ‖ BE(P)                     the generator's own bits, one more than n, are never seen

The tables can be written anew for any generator.  The errors within as many bits as the CRC has are all
detected exactly if the generator has its constant term: then, and only then, every value of the CRC
comes from one choice of that many bits of the message.  The errors within one bit more are never all
detected, and an odd number of wrong bits is detected exactly if the feedback is odd.
-/

open ShiftRegister

namespace Crc

variable {n : ℕ}

/-- No error within `k` bits leaves the CRC as it was. -/
def DetectsBursts (crc : BitVec n → List (BitVec 8) → BitVec n) (k : ℕ) : Prop :=
  ∀ init x y, Burst k x y → crc init x ≠ crc init y

/-- No odd number of wrong bits leaves the CRC as it was. -/
def DetectsOdd (crc : BitVec n → List (BitVec 8) → BitVec n) : Prop :=
  ∀ init x y, x.length = y.length →
    Odd ((List.zipWith xor (bitsOfBytes x) (bitsOfBytes y)).count true) → crc init x ≠ crc init y

/-- Wherever `n / 8` bytes of a message are left open, they can be filled in exactly one way such that
the CRC is the one that is wanted. -/
def PatchedUniquely (crc : BitVec n → List (BitVec 8) → BitVec n) : Prop :=
  ∀ init m s wanted, ∃! t, t.length = n / 8 ∧ crc init (m ++ t ++ s) = wanted

/-! ## Errors that stay unseen -/

section Unseen

variable {P : BitVec n}

theorem bitsOfBytes_replicate (k : ℕ) :
    bitsOfBytes (List.replicate k 0#8) = List.replicate (8 * k) false := by
  induction k with
  | zero => rfl
  | succ k ih =>
    have hbyte : bitsOf 0#8 = List.replicate 8 false := by decide
    rw [List.replicate_succ, bitsOfBytes_cons, ih, hbyte, List.replicate_append_replicate]
    congr 1
    omega

theorem feed_replicate (P : BitVec n) (k : ℕ) : feed P 0#n (List.replicate k false) = 0#n := by
  induction k with
  | zero => rfl
  | succ k ih =>
    have hstep : step P 0#n false = 0#n := by simp [step]
    rw [List.replicate_succ, feed_cons, hstep, ih]

theorem parity_replicate (k : ℕ) : parity (List.replicate k false) = false := by
  induction k with
  | zero => rfl
  | succ k ih => rw [List.replicate_succ, parity_cons, ih, Bool.xor_false]

/-- An error that leaves an empty register empty is not seen behind one. -/
theorem Implements.unseen {crc : BitVec n → List (BitVec 8) → BitVec n} (h : Implements crc P)
    {e : List (BitVec 8)} (he : feed P 0#n (bitsOfBytes e) = 0#n) :
    crc 0#n (List.replicate e.length 0#8) = crc 0#n e := by
  rw [(h _ _).1, (h _ _).1, bitsOfBytes_replicate, feed_replicate, he]

/-- An error with its ones within `k` bits is a burst on zeros. -/
theorem burst_of_ones {e : List (BitVec 8)} {a k : ℕ} (hone : true ∈ bitsOfBytes e)
    (hwindow : ∀ i, (bitsOfBytes e)[i]? = some true → a ≤ i ∧ i < a + k) :
    Burst k (List.replicate e.length 0#8) e where
  length_eq := List.length_replicate
  ne := by
    intro heq
    rw [← heq, bitsOfBytes_replicate] at hone
    exact absurd (List.eq_of_mem_replicate hone) (by decide)
  window := by
    refine ⟨a, fun i hi => hwindow i ?_⟩
    rw [bitsOfBytes_replicate, List.getElem?_replicate] at hi
    by_cases hlt : i < 8 * e.length
    · rw [if_pos hlt] at hi
      have hlen : i < (bitsOfBytes e).length := by rw [length_bitsOfBytes]; exact hlt
      rw [List.getElem?_eq_getElem hlen] at hi ⊢
      cases hb : (bitsOfBytes e)[i]
      · rw [hb] at hi
        exact absurd rfl hi
      · rfl
    · rw [if_neg hlt, List.getElem?_eq_none (by rw [length_bitsOfBytes]; omega)] at hi
      exact absurd rfl hi

/-- **The register does not see its generator.** -/
theorem feed_generator (P : BitVec n) : feed P 0#n (true :: bitsOf P) = 0#n := by
  have hstep : step P 0#n true = P := by simp [step]
  rw [feed_cons, hstep, feed_bitsOf_self]

/-- The bytes of the generator. -/
def generatorBytes (P : BitVec n) : List (BitVec 8) := 0x01#8 :: bigEndian P

theorem bitsOfBytes_generatorBytes (hn : 8 ∣ n) (P : BitVec n) :
    bitsOfBytes (generatorBytes P) = List.replicate 7 false ++ (true :: bitsOf P) := by
  have hbyte : bitsOf 0x01#8 = List.replicate 7 false ++ [true] := by decide
  rw [generatorBytes, bitsOfBytes_cons, bitsOfBytes_bigEndian hn, hbyte, List.append_assoc,
    List.singleton_append]

theorem feed_generatorBytes (hn : 8 ∣ n) (P : BitVec n) :
    feed P 0#n (bitsOfBytes (generatorBytes P)) = 0#n := by
  rw [bitsOfBytes_generatorBytes hn, feed_append, feed_replicate, feed_generator]

end Unseen

/-! ## As many bits as the CRC has -/

section Patches

variable {P : BitVec n} {crc : BitVec n → List (BitVec 8) → BitVec n}

theorem bigEndian_injective (hn : 8 ∣ n) : Function.Injective (bigEndian (w := n)) := by
  intro v w h
  refine bitsOf_injective ?_
  rw [← bitsOfBytes_bigEndian hn, ← bitsOfBytes_bigEndian hn, h]

/-- Messages that differ in `n / 8` bytes side by side differ by a burst. -/
theorem burst_of_patch (hn : 8 ∣ n) (m s : List (BitVec 8)) {t t' : List (BitVec 8)}
    (ht : t.length = n / 8) (ht' : t'.length = n / 8) (hne : t ≠ t') :
    Burst n (m ++ t ++ s) (m ++ t' ++ s) where
  length_eq := by rw [List.length_append, List.length_append, List.length_append,
    List.length_append, ht, ht']
  ne := fun heq => hne (List.append_cancel_left (List.append_cancel_right heq))
  window := by
    have hbits : (bitsOfBytes t).length = n := by rw [length_bitsOfBytes, ht, Nat.mul_div_cancel' hn]
    have hbits' : (bitsOfBytes t').length = n := by
      rw [length_bitsOfBytes, ht', Nat.mul_div_cancel' hn]
    refine ⟨(bitsOfBytes m).length, fun i hi => ?_⟩
    rw [bitsOfBytes_append, bitsOfBytes_append, bitsOfBytes_append, bitsOfBytes_append,
      List.append_assoc, List.append_assoc] at hi
    by_contra hout
    obtain hlt | hge := Nat.lt_or_ge i (bitsOfBytes m).length
    · exact hi (by rw [List.getElem?_append_left hlt, List.getElem?_append_left hlt])
    · refine hi ?_
      rw [List.getElem?_append_right hge, List.getElem?_append_right hge,
        List.getElem?_append_right (by omega), List.getElem?_append_right (by omega), hbits, hbits']

/-- A CRC that detects its bursts takes every value at one filling of the open bytes. -/
theorem DetectsBursts.patchedUniquely (hn : 8 ∣ n) (h : DetectsBursts crc n) :
    PatchedUniquely crc := by
  intro init m s wanted
  have hinjective : Function.Injective fun v : BitVec n => crc init (m ++ bigEndian v ++ s) := by
    intro v w heq
    by_contra hne
    refine h init _ _ (burst_of_patch hn m s (length_bigEndian v) (length_bigEndian w) ?_) heq
    exact fun heq' => hne (bigEndian_injective hn heq')
  obtain ⟨v, hv⟩ := Finite.surjective_of_injective hinjective wanted
  refine ⟨bigEndian v, ⟨length_bigEndian v, hv⟩, ?_⟩
  rintro t ⟨ht, hwanted⟩
  by_contra hne
  exact h init _ _ (burst_of_patch hn m s ht (length_bigEndian v) hne) (hwanted.trans hv.symm)

/-- Without a constant term the lowest bit is lost. -/
theorem getLsbD_step (hP : P.getLsbD 0 = false) (r : BitVec n) (b : Bool) :
    (step P r b).getLsbD 0 = false := by
  have hmoved : (r <<< 1).getLsbD 0 = false := by simp
  rw [step]
  cases r.msb ^^ b
  · exact hmoved
  · rw [if_pos rfl, BitVec.getLsbD_xor, hmoved, hP, Bool.false_xor]

theorem PatchedUniquely.constantTerm (hn : 8 ∣ n) (hpos : 0 < n) (himplements : Implements crc P)
    (h : PatchedUniquely crc) : P.getLsbD 0 = true := by
  obtain ⟨t, ⟨ht, hone⟩, -⟩ := h 0#n [] [] 1#n
  have hbits : bitsOfBytes t ≠ [] := by
    intro hnil
    have hlen := congrArg List.length hnil
    rw [length_bitsOfBytes, ht, List.length_nil] at hlen
    omega
  obtain ⟨bits, b, hlast⟩ := (bitsOfBytes t).eq_nil_or_concat.resolve_left hbits
  rw [List.nil_append, List.append_nil, (himplements _ _).1, hlast, List.concat_eq_append,
    feed_append, feed_cons,
    feed_nil] at hone
  by_contra hP
  have hlost := getLsbD_step (Bool.eq_false_iff.mpr hP) (feed P 0#n bits) b
  rw [hone] at hlost
  simp [hpos] at hlost

end Patches

/-! ## The generator decides -/

/-- What the generator decides about the errors a CRC detects. -/
structure DecidedBy (crc : BitVec n → List (BitVec 8) → BitVec n) (P : BitVec n) : Prop where
  bursts_iff : DetectsBursts crc n ↔ P.getLsbD 0 = true
  patches_iff : PatchedUniquely crc ↔ P.getLsbD 0 = true
  not_longer : ¬ DetectsBursts crc (n + 1)
  odd_iff : DetectsOdd crc ↔ parity (bitsOf P) = true

/-- **Whatever implements a CRC detects what its generator lets it detect.** -/
theorem Implements.decidedBy {crc : BitVec n → List (BitVec 8) → BitVec n} {P : BitVec n}
    (h : Implements crc P) (hn : 8 ∣ n) (hpos : 0 < n) : DecidedBy crc P := by
  have hbursts : P.getLsbD 0 = true → DetectsBursts crc n := fun hP init x y => h.ne_of_burst hP init
  have hbits := bitsOfBytes_generatorBytes hn P
  have hunseen := h.unseen (feed_generatorBytes hn P)
  exact {
    bursts_iff := ⟨fun hdetects => (hdetects.patchedUniquely hn).constantTerm hn hpos h, hbursts⟩
    patches_iff := ⟨fun hpatched => hpatched.constantTerm hn hpos h,
      fun hP => (hbursts hP).patchedUniquely hn⟩
    not_longer := by
      intro hdetects
      refine hdetects 0#n _ _ (burst_of_ones (a := 7) ?_ fun i hi => ?_) hunseen
      · rw [hbits]
        simp
      · have hlt : i < (bitsOfBytes (generatorBytes P)).length := by
          by_contra hge
          rw [List.getElem?_eq_none (Nat.le_of_not_lt hge)] at hi
          nomatch hi
        rw [hbits] at hi hlt
        simp only [List.length_append, List.length_replicate, List.length_cons, length_bitsOf] at hlt
        refine ⟨?_, by omega⟩
        by_contra hge
        rw [List.getElem?_append_left (by simp; omega), List.getElem?_replicate] at hi
        simp at hi
    odd_iff := by
      refine ⟨fun hdetects => ?_, fun hP => (h.keepsParity hP).ne_of_odd⟩
      by_contra hP
      refine hdetects 0#n _ _ List.length_replicate ?_ hunseen
      rw [← parity_eq_true_iff, parity_zipWith_xor (by simp), bitsOfBytes_replicate, hbits,
        parity_append, parity_replicate, parity_replicate, parity_cons, Bool.eq_false_iff.mpr hP]
      decide }

/-- **The choice of a generator**: with tables written anew for it, whatever stood in them before, each
of the three CRCs detects what the generator decides. -/
theorem generators_decide :
    (∀ P tab, DecidedBy (crc8 (initCrc8tab P 0xff tab)) P) ∧
    (∀ P tab, DecidedBy (crc16 (initCrc16tab P 0xffff tab)) P) ∧
    (∀ P tab, DecidedBy (crc32 (initCrc32tab P 0xffffffff tab)) P) := by
  refine ⟨fun P tab => ?_, fun P tab => ?_, fun P tab => ?_⟩
  · exact (implements_crc8 (tabulates_initCrc8tab P tab)).decidedBy (by decide) (by decide)
  · exact (implements_crc16 (tabulates_initCrc16tab P tab)).decidedBy (by decide) (by decide)
  · exact (implements_crc32 (tabulates_initCrc32tab P tab)).decidedBy (by decide) (by decide)

end Crc
