import MuxMPE.Crc.Crc

/-!
# Crc/Trailer — a message that carries its own CRC

    crcN(c, m ‖ t)  =  crcN(0, BE(crcN(c, m)) ⊕ t)

A trailer as wide as the CRC meets the CRC of what stands before it, bit by bit: the register is fed
its own content, changed where the two differ (`feed_eq_feed_zero`).  So one trailer brings it to
zero, and the complemented one to a value that depends on the generator alone.
-/

open ShiftRegister

namespace Crc

/-- **How a CRC checks a trailer of its own width.** -/
structure TrailerChecked {n : ℕ} (crc : BitVec n → List (BitVec 8) → BitVec n)
    (residue : BitVec n) : Prop where
  met : ∀ init m t, t.length = n / 8 →
    crc init (m ++ t) = crc 0#n (List.zipWith (· ^^^ ·) (bigEndian (crc init m)) t)
  zero_iff : ∀ init m t, t.length = n / 8 →
    (crc init (m ++ t) = 0#n ↔ t = bigEndian (crc init m))
  complement : ∀ init m, crc init (m ++ bigEndian (~~~ crc init m)) = residue

section Trailer

variable {n : ℕ} {crc : BitVec n → List (BitVec 8) → BitVec n} {P : BitVec n}

/-- What follows a message is fed to the register the message leaves. -/
theorem Implements.append (h : Implements crc P) (init : BitVec n) (m t : List (BitVec 8)) :
    crc init (m ++ t) = feed P (crc init m) (bitsOfBytes t) := by
  rw [(h init (m ++ t)).1, bitsOfBytes_append, feed_append, ← (h init m).1]

/-- Only its own bits empty a register within its width. -/
theorem feed_eq_zero_iff (hP : P.getLsbD 0 = true) (r : BitVec n) {bits : List Bool}
    (hlen : bits.length = n) : feed P r bits = 0#n ↔ bits = bitsOf r := by
  constructor
  · intro h
    have hlen' : bits.length = (bitsOf r).length := by rw [hlen, length_bitsOf]
    by_contra hne
    refine feed_ne_of_burst hP hlen' hne (a := 0) (fun i hi => ?_)
      (h.trans (feed_bitsOf_self P r).symm)
    by_contra hout
    have hend : ∀ l : List Bool, l.length = n → l[i]? = none :=
      fun l hl => List.getElem?_eq_none (by omega)
    exact hi ((hend _ hlen).trans (hend _ (length_bitsOf r)).symm)
  · rintro rfl
    exact feed_bitsOf_self P r

/-- **Every CRC whose generator has a constant term checks its trailer.** -/
theorem Implements.trailerChecked (h : Implements crc P) (hP : P.getLsbD 0 = true) (hn : 8 ∣ n) :
    TrailerChecked crc (feed P 0#n (bitsOf (BitVec.allOnes n))) where
  met := by
    intro init m t ht
    have hbits : (bitsOfBytes t).length = n := by
      rw [length_bitsOfBytes, ht, Nat.mul_div_cancel' hn]
    have hlen : (bigEndian (crc init m)).length = t.length := by rw [length_bigEndian, ht]
    rw [h.append, feed_eq_feed_zero P _ hbits, (h 0#n _).1, bitsOfBytes_zipWith_xor hlen,
      bitsOfBytes_bigEndian hn]
  zero_iff := by
    intro init m t ht
    have hbits : (bitsOfBytes t).length = n := by
      rw [length_bitsOfBytes, ht, Nat.mul_div_cancel' hn]
    rw [h.append, feed_eq_zero_iff hP _ hbits, ← bitsOfBytes_bigEndian hn]
    refine ⟨fun heq => bitsOfBytes_injective ?_ heq, fun heq => heq ▸ rfl⟩
    rw [ht, length_bigEndian]
  complement := by
    intro init m
    have hones : crc init m ^^^ ~~~ crc init m = BitVec.allOnes n := by
      ext i
      simp
    rw [h.append, bitsOfBytes_bigEndian hn, feed_eq_feed_zero P _ (length_bitsOf _), ← bitsOf_xor,
      hones]

end Trailer

/-- **The shipped CRCs check their trailers**, with the residues of the three generators. -/
theorem shipped_tables_check_trailers :
    TrailerChecked (crc8 crc8tab) 0xf3#8 ∧ TrailerChecked (crc16 crc16tab) 0x1d0f#16 ∧
      TrailerChecked (crc32 crc32tab) 0xc704dd7b#32 := by
  have h8 : feed 0x07#8 0#8 (bitsOf (BitVec.allOnes 8)) = 0xf3#8 := by decide +kernel
  have h16 : feed 0x1021#16 0#16 (bitsOf (BitVec.allOnes 16)) = 0x1d0f#16 := by decide +kernel
  have h32 : feed 0x04C11DB7#32 0#32 (bitsOf (BitVec.allOnes 32)) = 0xc704dd7b#32 := by
    decide +kernel
  refine ⟨?_, ?_, ?_⟩
  · exact h8 ▸ (implements_crc8 tabulates_crc8tab).trailerChecked (by decide) (by decide)
  · exact h16 ▸ (implements_crc16 tabulates_crc16tab).trailerChecked (by decide) (by decide)
  · exact h32 ▸ (implements_crc32 tabulates_crc32tab).trailerChecked (by decide) (by decide)

end Crc
