import MuxMPE.Mpeg.Header
import MuxMPE.Mpeg.ReadData

/-!
# Mpeg/Mpeg — MPEG audio frames read from a descriptor

    buffer  ┌─ header ─┬──────── payload ────────┐
            0          4                         framelength
              readMpegHeader ──▸ readMpegFrame ──▸

The header is read into the first four bytes of the caller's buffer, where `readMpegHeader` moves it
on a byte at a time until it starts a frame; its fields then give the length of the frame and with it
what `readMpegFrame` asks for.  The targets are LP64 and little-endian, as the `unsigned long` of the
search supposes.
-/

open Posix

namespace Mpeg

def MPEG_BUFFER_OVERFLOW : ℤ := -2
def MPEG_FILE_EMPTY : ℤ := -3
def MPEG_FILE_ERROR : ℤ := -4
def MPEG_SYNC_NOT_FOUND : ℤ := -5
def MPEG_INVALID_FRAME : ℤ := -6
def MPEG_BUFFER_UNDERFLOW : ℤ := -7

variable (data : ℕ)

/-- The `unsigned long` at `data`. -/
def syncword (m : Memory) : BitVec 64 := m.load data 8

/-- The test of the search: `sync1` and `sync2` all ones. -/
def synced (m : Memory) : Bool := syncword data m &&& 0xe0ff#64 == 0xe0ff#64

/-- **The mask of the search looks at two bytes**, all of the first and the top of the second. -/
theorem synced_iff {m : Memory} :
    synced data m = true ↔ m data = 0xff ∧ m (data + 1) &&& 0xe0 = 0xe0 := by
  have hword : syncword data m = (m.load (data + 2) 6 ++ m (data + 1)) ++ m data := rfl
  have hmask : 0xe0ff#64 = (0#48 ++ 0xe0#8) ++ 0xff#8 := by decide
  have hfirst : m data &&& 0xff#8 = m data := BitVec.and_allOnes
  rw [synced, beq_iff_eq, hword, hmask, BitVec.and_append_eq_iff, BitVec.and_append_eq_iff,
    BitVec.and_zero, hfirst]
  tauto

/-- The search for a header, `left` rounds before `flagmax` passes 1200.  The shift is of the whole
word, the byte read in behind it goes to the fourth place. -/
def findSync (left : ℕ) (s : Host) : ℤ × Host :=
  if synced data s.mem then (4, s)
  else
    let shifted := Memory.bytesOf (syncword data s.mem >>> 8) 8
    let r := readData (data + 3) 1 2 { s with mem := s.mem.store data shifted }
    if toInt r.1 = 0 then (MPEG_FILE_EMPTY, r.2)
    else if toInt r.1 = -1 then (MPEG_FILE_ERROR, r.2)
    else match left with
      | 0 => (MPEG_SYNC_NOT_FOUND, r.2)
      | left + 1 => findSync left r.2

/-- At sync bits there is nothing to look for. -/
theorem findSync_of_synced {left : ℕ} {s : Host} (h : synced data s.mem = true) :
    findSync data left s = (4, s) := by
  rw [findSync, if_pos h]

/-- `readMpegHeader`, on the buffer and the descriptor of `s`. -/
def readMpegHeader (size : ℤ) (s : Host) : ℤ × Host :=
  if size < 4 then (MPEG_BUFFER_OVERFLOW, s)
  else
    let r := readData data 4 2 s
    if toInt r.1 = 0 then (MPEG_FILE_EMPTY, r.2)
    else if toInt r.1 = -1 then (MPEG_FILE_ERROR, r.2)
    else if toInt r.1 < 4 then (MPEG_BUFFER_UNDERFLOW, r.2)
    else findSync data 1200 r.2

/-- The bytes behind the header, as `readMpegFrame` asks for them: the number it goes by, and the
host after. -/
def readPayload (framelength size : ℤ) (s : Host) : ℤ × Host :=
  if framelength > size then
    let r := readData (data + 4) (toSize (size - 4)) 2 s
    -- a buffer for the header only: the payload is skipped
    if size = 4 then (framelength - 4, (lseek r.2 (framelength - size)).2)
    else (toInt r.1, r.2)
  else
    let r := readData (data + 4) (toSize (framelength - 4)) 2 s
    (toInt r.1, r.2)

/-- `readMpegFrame`, on the same; a failing header is passed on. -/
def readMpegFrame (size : ℤ) (s : Host) : ℤ × Host :=
  let framelength := getMpegFrameLength (headerAt s.mem data)
  if framelength < 0 then (MPEG_INVALID_FRAME, s)
  else
    let r := readPayload data framelength size s
    if r.1 = 0 then (MPEG_FILE_EMPTY, r.2)
    else if r.1 = -1 then (MPEG_FILE_ERROR, r.2)
    else if r.1 < framelength - 4 then (MPEG_BUFFER_UNDERFLOW, r.2)
    else (framelength, r.2)

end Mpeg
