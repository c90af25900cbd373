import MuxMPE.Crc.Crc

/-!
# Crc/Regeneration — tables for another generator

    l_init ──▸ ¬ i, bit by bit ──▸ ⊕ 0xff00 ──▸ crc16tab[i]

The initialisers feed a register of ones the complement of the index.  The two cancel in the top byte,
and the mask of the wider ones takes out what is left below it: an entry is what the index alone makes
of a register of zeros (`entry`), whatever the generator.
-/

open ShiftRegister

namespace Crc

/-! ## The initialisers -/

section Entries

variable {n : ℕ} (l_code : BitVec n)

/-- One round of the inner loop; `msb` is an `unsigned`. -/
def initStep (nb : BitVec 8) (crc : BitVec n) (j : ℕ) : BitVec n :=
  let msb : BitVec 32 := if nb.setWidth 32 &&& (0x80#32 >>> j) ≠ 0 then 1 else 0
  let msb := msb ^^^ (crc >>> (n - 1)).setWidth 32
  let crc := crc <<< 1
  if msb ≠ 0 then crc ^^^ l_code else crc

/-- `i ^ 0xff`, cut to `uint8_t`. -/
def complement (i : Fin 256) : BitVec 8 := (BitVec.ofNat 32 i ^^^ 0xff#32).setWidth 8

/-- The inner loop for the entry `i`. -/
def initEntry (l_init : BitVec n) (i : Fin 256) : BitVec n :=
  (List.range 8).foldl (initStep l_code (complement i)) l_init

/-- The outer loop: every entry of the table is written. -/
def writeTable (value : Fin 256 → BitVec n) (tab : Vector (BitVec n) 256) : Vector (BitVec n) 256 :=
  (List.finRange 256).foldl (fun tab (i : Fin 256) => tab.set i (value i)) tab

end Entries

/-- `init_crc8tab`: every entry of the table is overwritten. -/
def initCrc8tab (l_code l_init : BitVec 8) (crc8tab : Vector (BitVec 8) 256) :
    Vector (BitVec 8) 256 :=
  writeTable (initEntry l_code l_init) crc8tab

/-- `init_crc16tab`, likewise. -/
def initCrc16tab (l_code l_init : BitVec 16) (crc16tab : Vector (BitVec 16) 256) :
    Vector (BitVec 16) 256 :=
  writeTable (fun i => initEntry l_code l_init i ^^^ 0xff00) crc16tab

/-- `init_crc32tab`, likewise. -/
def initCrc32tab (l_code l_init : BitVec 32) (crc32tab : Vector (BitVec 32) 256) :
    Vector (BitVec 32) 256 :=
  writeTable (fun i => initEntry l_code l_init i ^^^ 0xffffff00) crc32tab

/-! ## What they write -/

section Entries

variable {n : ℕ} {P : BitVec n}

/-- Every entry is written once. -/
theorem get_writeTable (value : Fin 256 → BitVec n) (tab : Vector (BitVec n) 256) (i : Fin 256) :
    (writeTable value tab).get i = value i := by
  have hwritten : ∀ (is : List (Fin 256)) (tab : Vector (BitVec n) 256),
      (is.foldl (fun tab (j : Fin 256) => tab.set j (value j)) tab).get i
        = if i ∈ is then value i else tab.get i := by
    intro is
    induction is with
    | nil => exact fun _ => rfl
    | cons j is ih =>
      intro tab
      rw [List.foldl_cons, ih]
      by_cases hj : j = i
      · subst hj
        simp [Vector.get_eq_getElem]
      · have hother : (tab.set j (value j)).get i = tab.get i :=
          Vector.getElem_set_ne _ _ fun h => hj (Fin.ext h)
        have hne : i ≠ j := fun h => hj h.symm
        rw [hother]
        simp only [List.mem_cons, hne, false_or]
  rw [writeTable, hwritten, if_pos (List.mem_finRange i)]

/-- The mask picks the bits of the byte from the top. -/
theorem masked_ne_zero_iff {nb : BitVec 8} {j : ℕ} (hj : j < 8) :
    nb.setWidth 32 &&& (0x80#32 >>> j) ≠ 0 ↔ nb.getMsbD j = true := by
  have hall : ∀ (nb : BitVec 8) (j : Fin 8),
      nb.setWidth 32 &&& (0x80#32 >>> j.val) ≠ 0 ↔ nb.getMsbD j = true := by decide +kernel
  exact hall nb ⟨j, hj⟩

theorem setWidth_ushiftRight_last (hn : 0 < n) (crc : BitVec n) :
    (crc >>> (n - 1)).setWidth 32 = (BitVec.ofBool crc.msb).setWidth 32 := by
  ext i hi
  rw [BitVec.getElem_setWidth, BitVec.getElem_setWidth, BitVec.getLsbD_ushiftRight,
    BitVec.getLsbD_ofBool, BitVec.msb_eq_getLsbD_last]
  obtain rfl | hpos := Nat.eq_zero_or_pos i
  · simp
  · rw [BitVec.getLsbD_of_ge crc _ (by omega), decide_eq_false (Nat.ne_of_gt hpos), Bool.false_and]

/-- A round of the inner loop is a step of the register. -/
theorem initStep_eq (hn : 0 < n) (nb : BitVec 8) (crc : BitVec n) {j : ℕ} (hj : j < 8) :
    initStep P nb crc j = step P crc (nb.getMsbD j) := by
  have hmsb : ∀ a b : Bool,
      (if a then 1#32 else 0#32) ^^^ (BitVec.ofBool b).setWidth 32 ≠ 0 ↔ (b ^^ a) = true := by decide
  simp only [initStep, setWidth_ushiftRight_last hn, masked_ne_zero_iff hj]
  rw [step]
  exact if_congr (hmsb _ _) rfl rfl

/-- The inner loop is the register, fed with the complement of the index. -/
theorem initEntry_eq_feed (hn : 0 < n) (l_init : BitVec n) (i : Fin 256) :
    initEntry P l_init i = feed P l_init (bitsOf (complement i)) := by
  rw [initEntry, feed, bitsOf, List.foldl_map]
  exact List.foldl_ext _ _ _ fun crc j hj => initStep_eq hn _ crc (List.mem_range.mp hj)

/-- **The complement and the register of ones cancel** in the top byte. -/
theorem initEntry_allOnes (hn : 8 ≤ n) (i : Fin 256) :
    initEntry P (BitVec.allOnes n) i = (BitVec.allOnes n <<< 8) ^^^ entry P i := by
  have htop : top 8 (BitVec.allOnes n) = BitVec.allOnes 8 := by
    refine BitVec.eq_of_getMsbD_eq fun j hj => ?_
    have hjn : j < n := Nat.lt_of_lt_of_le hj hn
    rw [getMsbD_top hn _ hj, BitVec.getMsbD_allOnes, BitVec.getMsbD_allOnes, decide_eq_true hj,
      decide_eq_true hjn]
  have hcancel : ∀ i : Fin 256, BitVec.allOnes 8 ^^^ complement i = BitVec.ofNat 8 i := by decide +kernel
  rw [initEntry_eq_feed (by omega), feed_bitsOf P hn, htop, hcancel, entry]

end Entries

/-! ## The tables are right -/

/-- A generator has one table. -/
theorem Tabulates.unique {n : ℕ} {P : BitVec n} {tab tab' : Vector (BitVec n) 256}
    (h : Tabulates tab P) (h' : Tabulates tab' P) : tab = tab' := by
  refine Vector.ext fun i hi => ?_
  exact (h ⟨i, hi⟩).trans (h' ⟨i, hi⟩).symm

theorem tabulates_initCrc8tab (P : BitVec 8) (tab : Vector (BitVec 8) 256) :
    Tabulates (initCrc8tab P 0xff tab) P := by
  intro i
  have hones : (0xff : BitVec 8) = BitVec.allOnes 8 := rfl
  have hout : BitVec.allOnes 8 <<< 8 = 0#8 := by decide
  rw [initCrc8tab, get_writeTable, hones, initEntry_allOnes (by decide), hout, BitVec.zero_xor]

theorem tabulates_initCrc16tab (P : BitVec 16) (tab : Vector (BitVec 16) 256) :
    Tabulates (initCrc16tab P 0xffff tab) P := by
  intro i
  have hones : (0xffff : BitVec 16) = BitVec.allOnes 16 := rfl
  have hmask : BitVec.allOnes 16 <<< 8 = (0xff00 : BitVec 16) := by decide
  rw [initCrc16tab, get_writeTable, hones, initEntry_allOnes (by decide), hmask, BitVec.xor_comm,
    ← BitVec.xor_assoc, BitVec.xor_self, BitVec.zero_xor]

theorem tabulates_initCrc32tab (P : BitVec 32) (tab : Vector (BitVec 32) 256) :
    Tabulates (initCrc32tab P 0xffffffff tab) P := by
  intro i
  have hones : (0xffffffff : BitVec 32) = BitVec.allOnes 32 := rfl
  have hmask : BitVec.allOnes 32 <<< 8 = (0xffffff00 : BitVec 32) := by decide
  rw [initCrc32tab, get_writeTable, hones, initEntry_allOnes (by decide), hmask, BitVec.xor_comm,
    ← BitVec.xor_assoc, BitVec.xor_self, BitVec.zero_xor]

/-- **Regenerated tables implement the CRC of their generator**, whatever stood in them before, and the
original generators restore the shipped ones. -/
theorem regenerated_tables_implement :
    (∀ P tab, Implements (crc8 (initCrc8tab P 0xff tab)) P) ∧
    (∀ P tab, Implements (crc16 (initCrc16tab P 0xffff tab)) P) ∧
    (∀ P tab, Implements (crc32 (initCrc32tab P 0xffffffff tab)) P) ∧
    (∀ tab, initCrc8tab 0x07 0xff tab = crc8tab) ∧
    (∀ tab, initCrc16tab 0x1021 0xffff tab = crc16tab) ∧
    (∀ tab, initCrc32tab 0x04C11DB7 0xffffffff tab = crc32tab) := by
  refine ⟨fun P tab => ?_, fun P tab => ?_, fun P tab => ?_, fun tab => ?_, fun tab => ?_,
    fun tab => ?_⟩
  · exact implements_crc8 (tabulates_initCrc8tab P tab)
  · exact implements_crc16 (tabulates_initCrc16tab P tab)
  · exact implements_crc32 (tabulates_initCrc32tab P tab)
  · exact (tabulates_initCrc8tab 0x07 tab).unique tabulates_crc8tab
  · exact (tabulates_initCrc16tab 0x1021 tab).unique tabulates_crc16tab
  · exact (tabulates_initCrc32tab 0x04C11DB7 tab).unique tabulates_crc32tab

end Crc
