import Mathlib.Algebra.Group.Nat.Defs
import Mathlib.Algebra.Ring.Int.Defs
import Mathlib.Data.Fin.VecNotation
import MuxMPE.Machinery.Memory

/-!
# Mpeg/Header — the four bytes in front of a frame, and its length

    byte    0          1            2             3
         ┌────────┬────────────┬────────────┬────────────┬─────────⋯──┐
         │ sync1  │ sync2  id  │ bitrate    │ channel    │ payload    │
         │ = 0xff │ layer  ─   │ rate pad ─ │ mode ⋯     │            │
         └────────┴────────────┴────────────┴────────────┴─────────⋯──┘

The fields of a header give, through two tables, the length of the frame: none for a header the tables
do not know, more than the header for layers II and III, and for layer I no more than its padding.
The targets are little-endian, as the bit-fields suppose.
-/

namespace Mpeg

/-! ## Tables -/

/-- `bitrateArray`, in kbit/s: by id, layer and bitrate index. -/
def bitrateArray : Fin 4 → Fin 4 → Fin 16 → ℤ := ![
  ![ -- MPEG 2.5
    ![-1, -1, -1, -1, -1, -1, -1, -1, -1, -1, -1, -1, -1, -1, -1, -1], -- layer invalid
    ![0, 8, 16, 24, 32, 40, 48, 56, 64, 80, 96, 112, 128, 144, 160, -1], -- layer 3
    ![0, 8, 16, 24, 32, 40, 48, 56, 64, 80, 96, 112, 128, 144, 160, -1], -- layer 2
    ![0, 32, 48, 56, 64, 80, 96, 112, 128, 144, 160, 176, 192, 224, 256, -1]], -- layer 1
  ![ -- MPEG invalid
    ![-1, -1, -1, -1, -1, -1, -1, -1, -1, -1, -1, -1, -1, -1, -1, -1],
    ![-1, -1, -1, -1, -1, -1, -1, -1, -1, -1, -1, -1, -1, -1, -1, -1],
    ![-1, -1, -1, -1, -1, -1, -1, -1, -1, -1, -1, -1, -1, -1, -1, -1],
    ![-1, -1, -1, -1, -1, -1, -1, -1, -1, -1, -1, -1, -1, -1, -1, -1]],
  ![ -- MPEG 2
    ![-1, -1, -1, -1, -1, -1, -1, -1, -1, -1, -1, -1, -1, -1, -1, -1],
    ![0, 8, 16, 24, 32, 40, 48, 56, 64, 80, 96, 112, 128, 144, 160, -1],
    ![0, 8, 16, 24, 32, 40, 48, 56, 64, 80, 96, 112, 128, 144, 160, -1],
    ![0, 32, 48, 56, 64, 80, 96, 112, 128, 144, 160, 176, 192, 224, 256, -1]],
  ![ -- MPEG 1
    ![-1, -1, -1, -1, -1, -1, -1, -1, -1, -1, -1, -1, -1, -1, -1, -1],
    ![0, 32, 40, 48, 56, 64, 80, 96, 112, 128, 160, 192, 224, 256, 320, -1],
    ![0, 32, 48, 56, 64, 80, 96, 112, 128, 160, 192, 224, 256, 320, 384, -1],
    ![0, 32, 64, 96, 128, 160, 192, 224, 256, 288, 320, 352, 384, 416, 448, -1]]]

/-- `samplingrateArray`, in Hz: by id and sampling rate index. -/
def samplingrateArray : Fin 4 → Fin 4 → ℤ := ![
  ![11025, 12000, 8000, 0], -- MPEG 2.5
  ![-1, -1, -1, -1], -- MPEG invalid
  ![22050, 24000, 16000, 0], -- MPEG 2
  ![44100, 48000, 32000, 0]] -- MPEG 1

/-! ## Headers -/

/-- The fields of `mpegHeader`. -/
structure MpegHeader where
  sync1 : BitVec 8
  protection : BitVec 1
  layer : BitVec 2
  id : BitVec 2
  sync2 : BitVec 3
  priv : BitVec 1
  padding : BitVec 1
  samplingrate : BitVec 2
  bitrate : BitVec 4
  emphasis : BitVec 2
  original : BitVec 1
  copyright : BitVec 1
  mode : BitVec 2
  channel : BitVec 2
  deriving DecidableEq, Repr

/-- The bit-fields, from the least significant bit of each byte up; none crosses into the next. -/
def MpegHeader.ofBytes (b₀ b₁ b₂ b₃ : BitVec 8) : MpegHeader where
  sync1 := b₀
  protection := b₁.extractLsb' 0 1
  layer := b₁.extractLsb' 1 2
  id := b₁.extractLsb' 3 2
  sync2 := b₁.extractLsb' 5 3
  priv := b₂.extractLsb' 0 1
  padding := b₂.extractLsb' 1 1
  samplingrate := b₂.extractLsb' 2 2
  bitrate := b₂.extractLsb' 4 4
  emphasis := b₃.extractLsb' 0 2
  original := b₃.extractLsb' 2 1
  copyright := b₃.extractLsb' 3 1
  mode := b₃.extractLsb' 4 2
  channel := b₃.extractLsb' 6 2

/-- The header a pointer to `data` shows. -/
def headerAt (m : Memory) (data : ℕ) : MpegHeader :=
  .ofBytes (m data) (m (data + 1)) (m (data + 2)) (m (data + 3))

variable (header : MpegHeader)

def getMpegBitrate : ℤ := bitrateArray header.id.toFin header.layer.toFin header.bitrate.toFin

def getMpegFrequency : ℤ := samplingrateArray header.id.toFin header.samplingrate.toFin

/-- The length of the frame, header included.  Both divisors and dividends are positive here, so
`/` rounds as C's does. -/
def getMpegFrameLength : ℤ :=
  let bitrate := getMpegBitrate header
  let samplingrate := getMpegFrequency header
  if bitrate ≤ 0 then -1
  else if samplingrate ≤ 0 then -1
  else match header.layer.toNat with
    | 1 | 2 => 144000 * bitrate / samplingrate + header.padding.toNat -- layers III and II
    | 3 => (12 * bitrate / samplingrate + header.padding.toNat) * 4 -- layer I
    | _ => -1

/-- **What the table knows of a bit rate**: it is no bit rate, or one between 8 and 448 kbit/s. -/
theorem getMpegBitrate_range :
    getMpegBitrate header ≤ 0 ∨ 8 ≤ getMpegBitrate header ∧ getMpegBitrate header ≤ 448 := by
  have hall : ∀ i l b, bitrateArray i l b ≤ 0 ∨ 8 ≤ bitrateArray i l b ∧ bitrateArray i l b ≤ 448 := by
    decide +kernel
  exact hall _ _ _

/-- The rates there are. -/
theorem getMpegFrequency_range : getMpegFrequency header ≤ 0 ∨
    8000 ≤ getMpegFrequency header ∧ getMpegFrequency header ≤ 48000 := by
  have hall : ∀ i r, samplingrateArray i r ≤ 0 ∨
      8000 ≤ samplingrateArray i r ∧ samplingrateArray i r ≤ 48000 := by decide
  exact hall _ _

variable {header}

/-- A frame of layer II or III. -/
theorem getMpegFrameLength_of_layer (hlayer : header.layer = 1 ∨ header.layer = 2)
    (hbitrate : 0 < getMpegBitrate header) (hrate : 0 < getMpegFrequency header) :
    getMpegFrameLength header =
      144000 * getMpegBitrate header / getMpegFrequency header + header.padding.toNat := by
  rw [getMpegFrameLength, if_neg (Int.not_le.mpr hbitrate), if_neg (Int.not_le.mpr hrate)]
  obtain h | h := hlayer <;> rw [h] <;> rfl

/-- **A frame of layer II or III is longer than its header**, and short enough for every integer type
its length passes through. -/
theorem getMpegFrameLength_bounds (hlayer : header.layer = 1 ∨ header.layer = 2)
    (hbitrate : 0 < getMpegBitrate header) (hrate : 0 < getMpegFrequency header) :
    4 < getMpegFrameLength header ∧ getMpegFrameLength header < 10000 := by
  have hb := getMpegBitrate_range header
  have hf := getMpegFrequency_range header
  have hlow : 24 ≤ 144000 * getMpegBitrate header / getMpegFrequency header :=
    (Int.le_ediv_iff_mul_le hrate).mpr (by omega)
  have hhigh : 144000 * getMpegBitrate header / getMpegFrequency header < 8065 :=
    (Int.ediv_lt_iff_lt_mul hrate).mpr (by omega)
  have hpad := header.padding.isLt
  rw [getMpegFrameLength_of_layer hlayer hbitrate hrate]
  omega

/-- A free or reserved rate has no length. -/
theorem getMpegFrameLength_of_not_pos (h : getMpegBitrate header ≤ 0 ∨ getMpegFrequency header ≤ 0) :
    getMpegFrameLength header = -1 := by
  rw [getMpegFrameLength]
  obtain hb | hf := h
  · rw [if_pos hb]
  · rw [if_pos hf, ite_self]

/-- **A layer I frame never gets longer than its header**: its bit rate is divided as kbit/s. -/
theorem getMpegFrameLength_of_layerOne (hlayer : header.layer = 3)
    (hbitrate : 0 < getMpegBitrate header) (hrate : 0 < getMpegFrequency header) :
    getMpegFrameLength header = header.padding.toNat * 4 := by
  have hb := getMpegBitrate_range header
  have hf := getMpegFrequency_range header
  have hslots : 12 * getMpegBitrate header / getMpegFrequency header = 0 :=
    Int.ediv_eq_zero_of_lt (by omega) (by omega)
  rw [getMpegFrameLength, if_neg (Int.not_le.mpr hbitrate), if_neg (Int.not_le.mpr hrate), hlayer,
    hslots]
  exact congrArg (· * 4) (zero_add _)

/-- A layer I header with a bit rate and a sampling rate, and without padding. -/
def UnpaddedLayerOne (header : MpegHeader) : Prop :=
  header.layer = 3 ∧ header.padding = 0 ∧
    header.id ≠ 1 ∧ header.bitrate ≠ 0 ∧ header.bitrate ≠ 15 ∧ header.samplingrate ≠ 3

instance : DecidablePred UnpaddedLayerOne := fun _ => inferInstanceAs (Decidable (_ ∧ _))

/-- Nor has the reserved layer. -/
theorem getMpegFrameLength_of_noLayer (hlayer : header.layer = 0) :
    getMpegFrameLength header = -1 := by
  simp only [getMpegFrameLength, hlayer]
  split_ifs <;> rfl

/-- The layers, as the length treats them. -/
theorem layer_cases (header : MpegHeader) :
    header.layer = 0 ∨ (header.layer = 1 ∨ header.layer = 2) ∨ header.layer = 3 := by
  have hall : ∀ l : BitVec 2, l = 0 ∨ (l = 1 ∨ l = 2) ∨ l = 3 := by decide
  exact hall header.layer

/-- **The lengths a header can give**: none, no byte at all, or the header and what follows it. -/
theorem getMpegFrameLength_range (header : MpegHeader) : getMpegFrameLength header = -1 ∨
    getMpegFrameLength header = 0 ∨
      4 ≤ getMpegFrameLength header ∧ getMpegFrameLength header < 10000 := by
  by_cases hb : getMpegBitrate header ≤ 0
  · exact .inl (getMpegFrameLength_of_not_pos (.inl hb))
  by_cases hf : getMpegFrequency header ≤ 0
  · exact .inl (getMpegFrameLength_of_not_pos (.inr hf))
  obtain hlayer | hlayer | hlayer := layer_cases header
  · exact .inl (getMpegFrameLength_of_noLayer hlayer)
  · have hbounds := getMpegFrameLength_bounds hlayer (by omega) (by omega)
    omega
  · have hpad := header.padding.isLt
    rw [getMpegFrameLength_of_layerOne hlayer (by omega) (by omega)]
    omega

theorem getMpegFrameLength_eq_zero_iff :
    getMpegFrameLength header = 0 ↔ UnpaddedLayerOne header := by
  have hbitrates : ∀ i : BitVec 2, ∀ b : BitVec 4,
      (0 < bitrateArray i.toFin (3#2).toFin b.toFin ↔ i ≠ 1 ∧ b ≠ 0 ∧ b ≠ 15) := by
    decide +kernel
  have hrates : ∀ i r : BitVec 2,
      (0 < samplingrateArray i.toFin r.toFin ↔ i ≠ 1 ∧ r ≠ 3) := by decide +kernel
  have hrate : 0 < getMpegFrequency header ↔ header.id ≠ 1 ∧ header.samplingrate ≠ 3 :=
    hrates header.id header.samplingrate
  have hbitrate (hlayer : header.layer = 3) : 0 < getMpegBitrate header ↔
      header.id ≠ 1 ∧ header.bitrate ≠ 0 ∧ header.bitrate ≠ 15 := by
    rw [getMpegBitrate, hlayer]
    exact hbitrates header.id header.bitrate
  constructor
  · intro h
    have hb : 0 < getMpegBitrate header := by
      by_contra hb
      rw [getMpegFrameLength_of_not_pos (.inl (Int.not_lt.mp hb))] at h
      omega
    have hf : 0 < getMpegFrequency header := by
      by_contra hf
      rw [getMpegFrameLength_of_not_pos (.inr (Int.not_lt.mp hf))] at h
      omega
    obtain hlayer | hlayer | hlayer := layer_cases header
    · rw [getMpegFrameLength_of_noLayer hlayer] at h
      omega
    · have hbounds := getMpegFrameLength_bounds hlayer hb hf
      omega
    · rw [getMpegFrameLength_of_layerOne hlayer hb hf] at h
      have hpad : header.padding.toNat = 0 := by omega
      obtain ⟨hid, hzero, hreserved⟩ := (hbitrate hlayer).mp hb
      exact ⟨hlayer, BitVec.eq_of_toNat_eq hpad, hid, hzero, hreserved, (hrate.mp hf).2⟩
  · rintro ⟨hlayer, hpad, hid, hzero, hreserved, hsampling⟩
    rw [getMpegFrameLength_of_layerOne hlayer ((hbitrate hlayer).mpr ⟨hid, hzero, hreserved⟩)
      (hrate.mpr ⟨hid, hsampling⟩), hpad]
    rfl

end Mpeg
