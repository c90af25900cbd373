import MuxMPE.Mpeg.Mpeg

/-!
# Mpeg/Payload — what `readMpegFrame` asks for, what it writes, where it leaves the stream

    framelength = -1          no read at all
    framelength = 0           a read of 2⁶⁴ - 4 bytes         (layer I, no padding)
    4 ≤ framelength ≤ size    framelength - 4 bytes are read
    size < framelength        size - 4 bytes are read; for size = 4 the payload is skipped

The `int` that becomes the size of the read is negative on the second line only.  Everywhere else the
call keeps to the buffer behind the header, and a positive result means that the stream has moved on
to the end of the frame.
-/

open Posix

namespace Mpeg

/-! ## One read behind the header -/

section Read

variable {framelength size : ℤ}

/-- **The payload is one request**, for what of the frame is in the buffer; a frame that does not fit
a buffer of four bytes is skipped after it. -/
theorem readPayload_eq (data : ℕ) (hsize : 4 ≤ size) (hlength : 4 ≤ framelength)
    (hbound : framelength < 10000) (s : Host) :
    readPayload data framelength size s =
      let r := readData (data + 4) (min size framelength - 4).toNat 2 s
      if size = 4 ∧ 4 < framelength then (framelength - 4, (lseek r.2 (framelength - 4)).2)
      else (toInt r.1, r.2) := by
  have hasked : ∀ n : ℤ, 4 ≤ n → n < 10000 → toSize (n - 4) = (n - 4).toNat := by
    intro n hn hn'
    rw [toSize, Int.emod_eq_of_lt (by omega) (by omega)]
  by_cases hfits : framelength > size
  · rw [readPayload, if_pos hfits, min_eq_left (by omega), hasked size hsize (by omega)]
    by_cases hfour : size = 4
    · subst hfour
      simp only [if_true, true_and, if_pos hfits]
    · simp only [hfour, false_and, if_false]
  · rw [readPayload, if_neg hfits, min_eq_right (by omega), hasked framelength hlength hbound]
    have hread : ¬ (size = 4 ∧ 4 < framelength) := by omega
    simp only [hread, if_false]

end Read

variable {data : ℕ} {size : ℤ} {s : Host}

theorem readMpegFrame_host (h : 0 ≤ getMpegFrameLength (headerAt s.mem data)) :
    (readMpegFrame data size s).2
      = (readPayload data (getMpegFrameLength (headerAt s.mem data)) size s).2 := by
  rw [readMpegFrame, if_neg (Int.not_lt.mpr h)]
  simp only
  split_ifs <;> rfl

/-- A negative length is turned away before anything is read. -/
theorem readMpegFrame_of_invalid (h : getMpegFrameLength (headerAt s.mem data) = -1) :
    readMpegFrame data size s = (MPEG_INVALID_FRAME, s) := by
  rw [readMpegFrame, h]
  rfl

/-- What the call does to the memory and to the requests is done by its one read. -/
theorem readPayload_host (data : ℕ) {framelength : ℤ} (hsize : 4 ≤ size) (hlength : 4 ≤ framelength)
    (hbound : framelength < 10000) (s : Host) :
    let r := readData (data + 4) (min size framelength - 4).toNat 2 s
    (readPayload data framelength size s).2.mem = r.2.mem ∧
      (readPayload data framelength size s).2.requests = r.2.requests := by
  rw [readPayload_eq data hsize hlength hbound]
  simp only
  split_ifs
  · exact ⟨lseek_mem _ _, lseek_requests _ _⟩
  · exact ⟨rfl, rfl⟩

/-! ## The buffer -/

variable (data size s)

/-- `readMpegFrame` keeps to `data[4 .. size)`: every read it issues asks for no more than what lies
there, no other byte is written, and no negative `int` is taken for a size. -/
structure StaysInside : Prop where
  requests : ∃ issued, (readMpegFrame data size s).2.requests = s.requests ++ issued ∧
    ∀ q ∈ issued, data + 4 ≤ q.1 ∧ q.2 ≤ size - 4 ∧ q.1 + q.2 ≤ data + size
  mem : ∀ i : ℕ, i < data + 4 ∨ data + size ≤ i → (readMpegFrame data size s).2.mem i = s.mem i
  asked : 0 ≤ getMpegFrameLength (headerAt s.mem data) →
    0 ≤ min size (getMpegFrameLength (headerAt s.mem data)) - 4

variable {data size s}

/-- **Whatever length is not zero is safe.** -/
theorem staysInside_of_ne_zero (hsize : 4 ≤ size)
    (h : getMpegFrameLength (headerAt s.mem data) ≠ 0) : StaysInside data size s := by
  obtain hlength | hlength | ⟨hlength, hbound⟩ := getMpegFrameLength_range (headerAt s.mem data)
  · have hcall : readMpegFrame data size s = (MPEG_INVALID_FRAME, s) :=
      readMpegFrame_of_invalid hlength
    refine ⟨⟨[], ?_, by simp⟩, fun i _ => ?_, fun _ => by omega⟩
    · rw [hcall, List.append_nil]
    · rw [hcall]
  · exact absurd hlength h
  · set framelength := getMpegFrameLength (headerAt s.mem data)
    obtain ⟨hmem, hrequests⟩ := readPayload_host data hsize hlength hbound s
    obtain ⟨issued, hissued⟩ := readData_issued (data + 4) (min size framelength - 4).toNat 2 s
    obtain ⟨c, hc⟩ := readData_consumed (data + 4) (min size framelength - 4).toNat 2 s
    have hle := hc.le_size
    refine ⟨⟨issued, ?_, fun q hq => ?_⟩, fun i hi => ?_, fun _ => by omega⟩
    · rw [readMpegFrame_host (by omega), hrequests, hissued.requests]
    · have hends := hissued.ends q hq
      omega
    · rw [readMpegFrame_host (by omega), hmem]
      exact hc.outside (by omega)

/-- **A length of zero asks for nearly the whole address space.** -/
theorem not_staysInside_of_zero (hsize : 4 ≤ size) (hint : size < 2 ^ 31)
    (h : getMpegFrameLength (headerAt s.mem data) = 0) : ¬ StaysInside data size s := by
  rintro ⟨⟨issued, hrequests, hinside⟩, -, -⟩
  have hread : (readPayload data 0 size s).2 = (readData (data + 4) (2 ^ 64 - 4) 2 s).2 := by
    rw [readPayload, if_neg (by omega)]
    rfl
  obtain ⟨issued', hissued⟩ := readData_issued (data + 4) (2 ^ 64 - 4) 2 s
  have hsame : issued' = issued := by
    rw [readMpegFrame_host (by omega), h, hread, hissued.requests] at hrequests
    exact List.append_cancel_left hrequests
  have hfirst : (data + 4, 2 ^ 64 - 4) ∈ issued := by
    rw [← hsame]
    exact List.mem_of_mem_head? (hissued.first (by omega) (by omega))
  have hlen := (hinside _ hfirst).2.1
  simp only at hlen
  omega

/-- **`readMpegFrame` stays inside its buffer** exactly if the header is not that of a layer I frame
without padding, whatever the size of the buffer and whatever the descriptor does. -/
theorem staysInside_iff (data : ℕ) (size : ℤ) (s : Host) (hsize : 4 ≤ size) (hint : size < 2 ^ 31) :
    StaysInside data size s ↔ ¬ UnpaddedLayerOne (headerAt s.mem data) := by
  rw [← getMpegFrameLength_eq_zero_iff]
  exact ⟨fun h hzero => not_staysInside_of_zero hsize hint hzero h, staysInside_of_ne_zero hsize⟩

/-- A header in front of `stream`, which is delivered as it is asked for. -/
def behind (header stream : List (BitVec 8)) : Host where
  mem := Memory.store (fun _ => 0) 0 header
  file := { stream := stream, pos := 0, seekable := true, answers := .const (.bytes 4096) }
  errno := .other
  requests := []

/-- Layer II, 8 kbit/s at 24 kHz: 48 bytes. -/
theorem staysInside_layerTwo :
    StaysInside 0 48 (behind [0xff, 0xf5, 0x14, 0x00] (List.replicate 100 0x55)) :=
  (staysInside_iff 0 48 _ (by decide) (by decide)).mpr (by decide)

/-- **Layer I, 32 kbit/s at 44.1 kHz, unpadded**: for a buffer of 48 bytes the descriptor is asked for
`2 ^ 64 - 4`. -/
theorem not_staysInside_layerOne :
    ¬ StaysInside 0 48 (behind [0xff, 0xff, 0x10, 0x00] (List.replicate 64 0x55)) :=
  not_staysInside_of_zero (by decide) (by decide) (by decide)

/-! ## The stream -/

/-- A frame of that length was taken: the stream stands at its end, and what of it fits the buffer is
there and nothing else. -/
structure AtBoundary (data : ℕ) (size : ℤ) (s : Host) (r : ℤ × Host) : Prop where
  length : r.1 = getMpegFrameLength (headerAt s.mem data)
  pos : (r.2.file.pos : ℤ) = s.file.pos + (r.1 - 4)
  fits : r.1 ≤ size ∨ size = 4
  payload : r.2.mem.window (data + 4) (min size r.1 - 4).toNat
    = s.file.rest.take (min size r.1 - 4).toNat
  mem : ∀ i : ℕ, i < data + 4 ∨ data + min size r.1 ≤ i → r.2.mem i = s.mem i

/-- **A frame is returned only with its payload read or skipped.** -/
theorem readMpegFrame_of_pos (h : 0 < (readMpegFrame data size s).1) :
    ∃ framelength, getMpegFrameLength (headerAt s.mem data) = framelength ∧
      4 ≤ framelength ∧ framelength < 10000 ∧
      framelength - 4 ≤ (readPayload data framelength size s).1 ∧
      readMpegFrame data size s = (framelength, (readPayload data framelength size s).2) := by
  obtain hlength | hlength := getMpegFrameLength_range (headerAt s.mem data)
  · rw [readMpegFrame_of_invalid hlength] at h
    exact absurd h (by decide : ¬ 0 < MPEG_INVALID_FRAME)
  · set framelength := getMpegFrameLength (headerAt s.mem data) with hframelength
    have hcall : readMpegFrame data size s =
        if (readPayload data framelength size s).1 = 0 then
          (MPEG_FILE_EMPTY, (readPayload data framelength size s).2)
        else if (readPayload data framelength size s).1 = -1 then
          (MPEG_FILE_ERROR, (readPayload data framelength size s).2)
        else if (readPayload data framelength size s).1 < framelength - 4 then
          (MPEG_BUFFER_UNDERFLOW, (readPayload data framelength size s).2)
        else (framelength, (readPayload data framelength size s).2) := by
      rw [readMpegFrame, ← hframelength, if_neg (by omega)]
    rw [hcall] at h ⊢
    split_ifs at h ⊢ with hempty herror hunderflow
    · exact absurd h (by decide : ¬ 0 < MPEG_FILE_EMPTY)
    · exact absurd h (by decide : ¬ 0 < MPEG_FILE_ERROR)
    · exact absurd h (by decide : ¬ 0 < MPEG_BUFFER_UNDERFLOW)
    · simp only at h
      exact ⟨framelength, rfl, by omega, by omega, by omega, rfl⟩

/-- A frame is taken whole, unless it is to be skipped and the descriptor cannot. -/
theorem atBoundary_of_pos (hsize : 4 ≤ size) (hseekable : size = 4 → s.file.seekable = true)
    (h : 0 < (readMpegFrame data size s).1) :
    AtBoundary data size s (readMpegFrame data size s) := by
  obtain ⟨framelength, hframelength, hlength, hbound, henough, hcall⟩ := readMpegFrame_of_pos h
  obtain ⟨c, hc⟩ := readData_consumed (data + 4) (min size framelength - 4).toNat 2 s
  have hle := hc.le_size
  have hpayload := readPayload_eq data hsize hlength hbound s
  simp only at hpayload
  rw [hcall]
  split_ifs at hpayload with hskip
  · -- the buffer ends with the header: nothing is read, and the file is positioned
    obtain ⟨hfour, hlonger⟩ := hskip
    have hnone : (min size framelength - 4).toNat = 0 := by omega
    have hpos : c = 0 := by omega
    rw [hpayload]
    refine ⟨hframelength.symm, ?_, .inr hfour, ?_, fun i _ => ?_⟩
    · simp only
      rw [lseek_pos (hc.seekable.trans (hseekable hfour)) (by omega), hc.pos, hpos, Nat.add_zero]
    · simp only [hnone]
      rfl
    · simp only [lseek_mem, hc.mem, hpos, List.take_zero, Memory.store_nil]
  · -- the payload is read, and what was asked for is what the frame has left
    have hread : (readData (data + 4) (min size framelength - 4).toNat 2 s).1 = c := by
      refine hc.result.resolve_right fun hfailed => ?_
      rw [hpayload, hfailed] at henough
      have hminus : toInt (-1) = -1 := by decide
      simp only [hminus] at henough
      omega
    rw [hpayload, hread, toInt_natCast (by omega)] at henough
    simp only at henough
    have hall : c = (min size framelength - 4).toNat := by omega
    rw [hpayload]
    refine ⟨hframelength.symm, ?_, by simp only; omega, ?_, fun i hi => ?_⟩
    · rw [hc.pos]
      simp only
      omega
    · have hstored := hc.window
      simp only [← hall] at hstored ⊢
      exact hstored
    · simp only at hi ⊢
      exact hc.outside (by omega)

/-- **A positive result leaves the stream at the frame boundary.** -/
theorem readMpegFrame_atBoundary (data : ℕ) (size : ℤ) (s : Host) (hsize : 4 ≤ size)
    (hseekable : s.file.seekable = true) (h : 0 < (readMpegFrame data size s).1) :
    AtBoundary data size s (readMpegFrame data size s) :=
  atBoundary_of_pos hsize (fun _ => hseekable) h

/-- The frame above, read whole. -/
theorem readMpegFrame_atBoundary_layerTwo :
    AtBoundary 0 48 (behind [0xff, 0xf5, 0x14, 0x00] (List.replicate 100 0x55))
      (readMpegFrame 0 48 (behind [0xff, 0xf5, 0x14, 0x00] (List.replicate 100 0x55))) :=
  readMpegFrame_atBoundary 0 48 _ (by decide) rfl (by decide)

end Mpeg
