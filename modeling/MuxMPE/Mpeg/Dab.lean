import MuxMPE.Mpeg.Footprint
import MuxMPE.Mpeg.Payload

/-!
# Mpeg/Dab — frames for DAB, told by a mask

    byte     0    1            2    3
    mask     ff   fc           0f   0f
    value    ff   fc or f4     04   00
                  111 ii l ──  the lower bit of the layer, and the protection, are not looked at

`checkDabMpegFrame` compares the raw word, the length comes from the fields.  What the mask lets
through has a sampling rate of 48 or 24 kHz and no padding, and as a layer II frame lasts 24 or 48 ms;
but the mask leaves a bit of the layer open, and a layer I frame passes with no length at all.
-/

open Posix

namespace Mpeg

def MPEG_FREQUENCY : ℤ := -2
def MPEG_PADDING : ℤ := -3
def MPEG_COPYRIGHT : ℤ := -4
def MPEG_ORIGINAL : ℤ := -5
def MPEG_EMPHASIS : ℤ := -6

variable (data : ℕ)

def checkDabMpegFrame (m : Memory) : ℤ :=
  let header := headerAt m data
  if syncword data m &&& 0x0f0ffcff#64 == 0x0004fcff#64 then 0
  else if syncword data m &&& 0x0f0ffcff#64 == 0x0004f4ff#64 then 0
  else if getMpegFrequency header ≠ 48000 ∧ getMpegFrequency header ≠ 24000 then MPEG_FREQUENCY
  else if header.padding ≠ 0 then MPEG_PADDING
  else if header.emphasis ≠ 0 then MPEG_EMPHASIS
  else if header.copyright ≠ 0 then MPEG_COPYRIGHT
  else if header.original ≠ 0 then MPEG_ORIGINAL
  else -1

/-! ## What the mask lets through -/

variable {data}

/-- **The mask looks at the four bytes of the header** and at nothing behind them. -/
theorem masked_iff {m : Memory} (b₁ : BitVec 8) :
    syncword data m &&& 0x0f0ffcff#64 = 0#32 ++ 0x00#8 ++ 0x04#8 ++ b₁ ++ 0xff#8 ↔
      m data = 0xff ∧ m (data + 1) &&& 0xfc = b₁ ∧ m (data + 2) &&& 0x0f = 0x04 ∧
        m (data + 3) &&& 0x0f = 0x00 := by
  have hword : syncword data m =
      m.load (data + 4) 4 ++ m (data + 3) ++ m (data + 2) ++ m (data + 1) ++ m data := rfl
  have hmask : 0x0f0ffcff#64 = 0#32 ++ 0x0f#8 ++ 0x0f#8 ++ 0xfc#8 ++ 0xff#8 := by decide
  have hfirst : m data &&& 0xff#8 = m data := BitVec.and_allOnes
  have hbehind : m.load (data + 4) 4 &&& 0#32 = 0#32 := BitVec.and_zero
  rw [hword, hmask, BitVec.and_append_eq_iff, BitVec.and_append_eq_iff, BitVec.and_append_eq_iff,
    BitVec.and_append_eq_iff, hfirst]
  tauto

/-- The fields of a header the mask lets through. -/
structure DabHeader (header : MpegHeader) : Prop where
  id : header.id = 3 ∨ header.id = 2
  layer : header.layer = 2 ∨ header.layer = 3
  samplingrate : header.samplingrate = 1
  padding : header.padding = 0

theorem dabHeader_ofBytes {b₀ b₁ b₂ b₃ : BitVec 8}
    (hid : b₁ &&& 0xfc = 0xfc ∨ b₁ &&& 0xfc = 0xf4) (hrate : b₂ &&& 0x0f = 0x04) :
    DabHeader (.ofBytes b₀ b₁ b₂ b₃) := by
  have hsecond : ∀ b : BitVec 8, b &&& 0xfc = 0xfc ∨ b &&& 0xfc = 0xf4 →
      (b.extractLsb' 3 2 = 3#2 ∨ b.extractLsb' 3 2 = 2#2) ∧
        (b.extractLsb' 1 2 = 2#2 ∨ b.extractLsb' 1 2 = 3#2) := by decide +kernel
  have hthird : ∀ b : BitVec 8, b &&& 0x0f = 0x04 →
      b.extractLsb' 2 2 = 1#2 ∧ b.extractLsb' 1 1 = 0#1 := by decide +kernel
  exact ⟨(hsecond b₁ hid).1, (hsecond b₁ hid).2, (hthird b₂ hrate).1, (hthird b₂ hrate).2⟩

/-- **Accepted is what the mask lets through**; every other way out is an error. -/
theorem dabHeader_of_check {m : Memory} (h : checkDabMpegFrame data m = 0) :
    DabHeader (headerAt m data) := by
  rw [checkDabMpegFrame] at h
  split_ifs at h with hone htwo
  · obtain ⟨-, hid, hrate, -⟩ := (masked_iff 0xfc).mp (beq_iff_eq.mp hone)
    exact dabHeader_ofBytes (.inl hid) hrate
  · obtain ⟨-, hid, hrate, -⟩ := (masked_iff 0xf4).mp (beq_iff_eq.mp htwo)
    exact dabHeader_ofBytes (.inr hid) hrate
  all_goals exact absurd h (by decide)

namespace DabHeader

variable {header : MpegHeader}

/-- The two rates DAB has. -/
theorem frequency (h : DabHeader header) :
    getMpegFrequency header = 48000 ∨ getMpegFrequency header = 24000 := by
  rw [getMpegFrequency, h.samplingrate]
  obtain hid | hid := h.id <;> rw [hid]
  · exact .inl rfl
  · exact .inr rfl

/-- A bit rate that is neither free nor reserved is one. -/
theorem bitrate_pos (h : DabHeader header) (hzero : header.bitrate ≠ 0)
    (hreserved : header.bitrate ≠ 15) : 0 < getMpegBitrate header := by
  have hall : ∀ i l : BitVec 2, ∀ b : BitVec 4, (i = 3 ∨ i = 2) → (l = 2 ∨ l = 3) → b ≠ 0 → b ≠ 15 →
      0 < bitrateArray i.toFin l.toFin b.toFin := by decide +kernel
  exact hall _ _ _ h.id h.layer hzero hreserved

/-- **A layer II frame lasts 24 ms at 48 kHz and 48 ms at 24 kHz.** -/
theorem frameLength_of_layerTwo (h : DabHeader header) (hlayer : header.layer = 2)
    (hbitrate : 0 < getMpegBitrate header) :
    getMpegFrequency header = 48000 ∧ getMpegFrameLength header = 3 * getMpegBitrate header ∨
      getMpegFrequency header = 24000 ∧ getMpegFrameLength header = 6 * getMpegBitrate header := by
  have hpadding : (header.padding.toNat : ℤ) = 0 := by
    rw [h.padding]
    rfl
  obtain hrate | hrate := h.frequency
  · have hlength := getMpegFrameLength_of_layer (.inr hlayer) hbitrate (by omega)
    rw [hrate, hpadding] at hlength
    exact .inl ⟨hrate, by omega⟩
  · have hlength := getMpegFrameLength_of_layer (.inr hlayer) hbitrate (by omega)
    rw [hrate, hpadding] at hlength
    exact .inr ⟨hrate, by omega⟩

/-- **A layer I frame passes with no length at all.** -/
theorem frameLength_of_layerOne (h : DabHeader header) (hlayer : header.layer = 3)
    (hbitrate : 0 < getMpegBitrate header) : getMpegFrameLength header = 0 := by
  have hrate : 0 < getMpegFrequency header := by
    obtain hrate | hrate := h.frequency <;> omega
  rw [getMpegFrameLength_of_layerOne hlayer hbitrate hrate, h.padding]
  rfl

end DabHeader

/-! ## A frame behind an accepted header -/

variable {size : ℤ} {s : Host}

/-- What a request does leaves a descriptor seekable that was, and only those. -/
theorem readData_seekable (data n tries : ℕ) (s : Host) :
    (readData data n tries s).2.file.seekable = s.file.seekable := by
  obtain ⟨c, hc⟩ := readData_consumed data n tries s
  exact hc.seekable

/-- A header that was found has a buffer to be in. -/
theorem readMpegHeader_of_found (h : (readMpegHeader data size s).1 = 4) :
    4 ≤ size ∧ (readMpegHeader data size s).2.file.seekable = s.file.seekable := by
  have hsize : 4 ≤ size := by
    by_contra hsmall
    rw [readMpegHeader, if_pos (by omega)] at h
    exact absurd h (by decide : ¬ MPEG_BUFFER_OVERFLOW = 4)
  refine ⟨hsize, readMpegHeader_keeps (R := fun s t => t.file.seekable = s.file.seekable) hsize
    (fun _ => rfl) (fun hst htu => htu.trans hst) (readData_seekable data 4 2) (fun t => ?_) s⟩
  exact readData_seekable (data + 3) 1 2 (shift data t)

/-- **A skip that fails is not noticed.** -/
theorem readMpegFrame_of_headerOnly (hseekable : s.file.seekable = false)
    (hlength : 4 < getMpegFrameLength (headerAt s.mem data))
    (hbound : getMpegFrameLength (headerAt s.mem data) < 10000) :
    (readMpegFrame data 4 s).1 = getMpegFrameLength (headerAt s.mem data) ∧
      (readMpegFrame data 4 s).2.file.pos = s.file.pos := by
  set framelength := getMpegFrameLength (headerAt s.mem data) with hframelength
  have hpayload := readPayload_eq data (Int.le_refl 4) (by omega) hbound s
  have hnone : (min 4 framelength - 4).toNat = 0 := by omega
  simp only [hnone, readData_zero, true_and, if_pos hlength] at hpayload
  have hlseek : (lseek s (framelength - 4)).2.file = s.file := by
    simp only [lseek, hseekable, Bool.false_and, Bool.false_eq_true, if_false]
  rw [readMpegFrame, ← hframelength, if_neg (by omega), hpayload]
  simp only
  rw [if_neg (by omega), if_neg (by omega), if_neg (by omega), hlseek]
  exact ⟨rfl, rfl⟩

variable (data size s)

/-- What a frame accepted for DAB has: the length of 24 or 48 ms, no padding, and an end that
`readMpegFrame` leaves the stream at. -/
structure DabLength : Prop where
  duration :
    let header := headerAt (readMpegHeader data size s).2.mem data
    getMpegFrequency header = 48000 ∧ getMpegFrameLength header = 3 * getMpegBitrate header ∨
      getMpegFrequency header = 24000 ∧ getMpegFrameLength header = 6 * getMpegBitrate header
  padding : (headerAt (readMpegHeader data size s).2.mem data).padding = 0
  frame : 0 < (readMpegFrame data size (readMpegHeader data size s).2).1 →
    AtBoundary data size (readMpegHeader data size s).2
      (readMpegFrame data size (readMpegHeader data size s).2)

/-- **Accepted frames have DAB length** exactly if they are of layer II, and a buffer for the header
only stands before a descriptor that can skip them. -/
theorem dabLength_iff (hheader : (readMpegHeader data size s).1 = 4)
    (hcheck : checkDabMpegFrame data (readMpegHeader data size s).2.mem = 0)
    (hzero : (headerAt (readMpegHeader data size s).2.mem data).bitrate ≠ 0)
    (hreserved : (headerAt (readMpegHeader data size s).2.mem data).bitrate ≠ 15) :
    DabLength data size s ↔
      (headerAt (readMpegHeader data size s).2.mem data).layer = 2 ∧
        (size = 4 → s.file.seekable = true) := by
  obtain ⟨hsize, hseekable⟩ := readMpegHeader_of_found hheader
  set t := (readMpegHeader data size s).2 with ht
  have hdab := dabHeader_of_check hcheck
  have hbitrate := hdab.bitrate_pos hzero hreserved
  constructor
  · rintro ⟨hduration, -, hframe⟩
    simp only [← ht] at hduration hframe
    have hlayer : (headerAt t.mem data).layer = 2 := by
      refine hdab.layer.resolve_right fun hone => ?_
      rw [hdab.frameLength_of_layerOne hone hbitrate] at hduration
      omega
    refine ⟨hlayer, ?_⟩
    rintro rfl
    by_contra hpipe
    have hbounds := getMpegFrameLength_bounds (.inr hlayer) hbitrate (by omega)
    obtain ⟨hresult, hpos⟩ := readMpegFrame_of_headerOnly
      (hseekable.trans (Bool.eq_false_iff.mpr hpipe)) hbounds.1 hbounds.2
    have hmoved := (hframe (by omega)).pos
    omega
  · rintro ⟨hlayer, hskip⟩
    refine ⟨hdab.frameLength_of_layerTwo hlayer hbitrate, hdab.padding, fun hframe => ?_⟩
    exact atBoundary_of_pos hsize (fun hfour => hseekable.trans (hskip hfour)) hframe

/-- Layer II, 8 kbit/s at 24 kHz. -/
theorem dabLength_iff_layerTwo :
    DabLength 0 48 (filled ([0xff, 0xf5, 0x14, 0x00] ++ List.replicate 44 0x55)) :=
  (dabLength_iff 0 48 _ (by decide) (by decide) (by decide) (by decide)).mpr (by decide)

/-- **Layer I, 32 kbit/s at 48 kHz**: accepted for DAB, and a frame of no length. -/
theorem not_dabLength_layerOne :
    let s := filled [0xff, 0xff, 0x14, 0x00, 0x55]
    (readMpegHeader 0 48 s).1 = 4 ∧ checkDabMpegFrame 0 (readMpegHeader 0 48 s).2.mem = 0 ∧
      (headerAt (readMpegHeader 0 48 s).2.mem 0).bitrate = 1 ∧
      getMpegFrameLength (headerAt (readMpegHeader 0 48 s).2.mem 0) = 0 ∧
      ¬ DabLength 0 48 s :=
  ⟨by decide, by decide, by decide, by decide, fun h => absurd h.duration (by decide)⟩

end Mpeg
