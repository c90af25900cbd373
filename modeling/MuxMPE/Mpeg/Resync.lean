import MuxMPE.Mpeg.Framing
import MuxMPE.Mpeg.Payload
import MuxMPE.Mpeg.Report

/-!
# Mpeg/Resync — frames with noise between them

    stream    ░░░░┌ f₀ ────────┐░┌ f₁ ─────┐░░░░░┌ f₂ ──────────┐ ⋯
              H         F       H     F     H            F
    returns        4    |f₀|     4    |f₁|        4      |f₂|

The search of `readMpegHeader` takes the reading over what is no frame, up to 1200 bytes of it, if no
header seems to start there.  A round then gives the next frame as if nothing had stood before it
(`rounds_noisyFrames`), and there is no other way to be given one: whenever every round returns a frame,
these are the frames of the stream, layers II and III only, and the noise between them was skipped
(`rounds_succeed_iff`).
-/

open Posix

namespace Mpeg

/-- A frame, and what stands before it. -/
structure NoisyFrame where
  noise : List (BitVec 8)
  frame : Frame
  length_noise : noise.length ≤ 1200
  no_header : ∀ j < noise.length, ¬ HeaderAt (noise ++ frame.bytes) j

namespace NoisyFrame

variable (f : NoisyFrame)

def bytes : List (BitVec 8) := f.noise ++ f.frame.bytes

/-- What the two calls ask the descriptor for: the header where it stands first, a byte for each byte
of noise, and the payload. -/
def requests : List ℕ := (4 :: List.replicate f.noise.length 1) ++ [f.frame.payload.length]

end NoisyFrame

/-! ## Where a header starts -/

/-- **Whether a header starts is seen in four bytes**, whatever follows them. -/
theorem headerAt_append_iff {bytes more : List (BitVec 8)} {k : ℕ} (h : k + 4 ≤ bytes.length) :
    HeaderAt (bytes ++ more) k ↔ HeaderAt bytes k := by
  rw [HeaderAt, HeaderAt, List.getElem?_append_left (by omega), List.getElem?_append_left (by omega),
    List.length_append]
  have hlen : k + 4 ≤ bytes.length + more.length := by omega
  tauto

theorem headerAt_noise (f : NoisyFrame) : HeaderAt f.bytes f.noise.length := by
  have hlen := f.frame.length_bytes
  refine ⟨f.length_noise, ?_, ?_, ?_⟩
  · rw [NoisyFrame.bytes, List.length_append]
    omega
  · rw [NoisyFrame.bytes, List.getElem?_append_right (Nat.le_refl _), Nat.sub_self]
    exact congrArg some f.frame.sync1
  · rw [NoisyFrame.bytes, List.getElem?_append_right (Nat.le_add_right _ 1), Nat.add_sub_cancel_left]
    exact congrArg some f.frame.sync2

/-! ## The header -/

section Header

variable {data k : ℕ} {n : ℤ} {s t : Host}

/-- **A header that the search has come to is taken.** -/
theorem CameTo.found (h : CameTo data n s k t) (hheader : HeaderAt s.file.rest k) :
    readMpegHeader data n s = (4, t) := by
  rw [h.call, findSync_of_synced _ ((synced_iff_headerAt h.window h.le).mpr hheader)]

/-- A search that finds a header finds it here, or has read a byte in this round and has rounds left. -/
theorem findSync_found {left : ℕ} (hsynced : ¬ synced data s.mem = true)
    (h : (findSync data left s).1 = 4) :
    (readData (data + 3) 1 2 (shift data s)).1 = 1 ∧ left ≠ 0 := by
  obtain ⟨c, hc⟩ := readData_consumed (data + 3) 1 2 (shift data s)
  rw [findSync_of_not_synced hsynced] at h
  obtain hresult | hfailed := hc.result
  · obtain rfl | rfl := Nat.le_one_iff_eq_zero_or_eq_one.mp hc.le_size
    · simp only [hresult] at h
      rw [if_pos (by decide)] at h
      exact absurd h (by decide : MPEG_FILE_EMPTY ≠ 4)
    · refine ⟨hresult, ?_⟩
      rintro rfl
      simp only [hresult] at h
      rw [if_neg (by decide), if_neg (by decide)] at h
      exact absurd h (by decide : MPEG_SYNC_NOT_FOUND ≠ 4)
  · simp only [hfailed] at h
    rw [if_neg (by decide), if_pos (by decide)] at h
    exact absurd h (by decide : MPEG_FILE_ERROR ≠ 4)

/-- **The header that is returned is one the search has come to.** -/
theorem CameTo.found_inv (h : CameTo data n s k t) (hfound : (readMpegHeader data n s).1 = 4) :
    ∃ k, HeaderAt s.file.rest k ∧ CameTo data n s k (readMpegHeader data n s).2 := by
  -- on the rounds left: the header is in this window, or in one the search goes on to
  obtain ⟨left, hleft⟩ := Nat.exists_eq_add_of_le h.le
  induction left using Nat.strong_induction_on generalizing k t with
  | _ left ih =>
    by_cases hheader : HeaderAt s.file.rest k
    · rw [h.found hheader]
      exact ⟨k, hheader, h⟩
    · rw [h.call] at hfound
      obtain ⟨hone, hrounds⟩ := findSync_found (h.not_synced hheader) hfound
      obtain ⟨hmore, as, has⟩ := serves_of_readData Nat.one_ne_zero hone
      have hrest : (shift data t).file.rest = s.file.rest.drop (k + 4) := h.rest
      rw [hrest, List.length_drop] at hmore
      exact ih (left - 1) (by omega) (h.next (by omega) hheader has (by omega)).1 (by omega)

theorem served_of_found (hn : 4 ≤ n) (hfound : (readMpegHeader data n s).1 = 4) : ¬ Unserved s := by
  intro h
  have hsmall := result_of_unserved data h
  rw [readMpegHeader, if_neg (by omega)] at hfound
  simp only at hfound
  split_ifs at hfound
  · exact absurd hfound (by decide : MPEG_FILE_EMPTY ≠ 4)
  · exact absurd hfound (by decide : MPEG_FILE_ERROR ≠ 4)
  · exact absurd hfound (by decide : MPEG_BUFFER_UNDERFLOW ≠ 4)

end Header

/-! ## A round -/

section Round

variable {data : ℕ} {size : ℤ} {s : Host} {as : Stream' Answer} {more : List (BitVec 8)}

/-- What the four bytes in the buffer are, once they are the frame's. -/
theorem headerAt_of_window (f : Frame) {m : Memory} (h : ∀ i < 4, f.head[i]? = some (m (data + i))) :
    headerAt m data = f.header ∧ m.window data 4 = f.head := by
  have h₀ : some f.b₀ = some (m data) := h 0 (by omega)
  have h₁ : some f.b₁ = some (m (data + 1)) := h 1 (by omega)
  have h₂ : some f.b₂ = some (m (data + 2)) := h 2 (by omega)
  have h₃ : some f.b₃ = some (m (data + 3)) := h 3 (by omega)
  rw [Option.some_inj] at h₀ h₁ h₂ h₃
  refine ⟨by rw [headerAt, ← h₀, ← h₁, ← h₂, ← h₃]; rfl, ?_⟩
  have hwindow : m.window data 4 = [m data, m (data + 1), m (data + 2), m (data + 3)] := rfl
  rw [hwindow, ← h₀, ← h₁, ← h₂, ← h₃]
  rfl

/-- **A round skips the noise and takes the frame.** -/
theorem round_noisyFrame (data : ℕ) (f : NoisyFrame) (hsize : f.frame.bytes.length ≤ size)
    (hserves : ServesAll 2 f.requests s.file.answers as) (hrest : s.file.rest = f.bytes ++ more) :
    (round data size s).1 = f.frame.round ∧ (round data size s).2.file.answers = as ∧
      (round data size s).2.file.rest = more := by
  obtain ⟨bs, hheader, _ | ⟨hpayload, ⟨⟩⟩⟩ := ServesAll.append_inv hserves
  have hlength := f.frame.length_bytes
  have hlen : f.bytes.length = f.noise.length + f.frame.bytes.length := List.length_append
  have hstart : HeaderAt s.file.rest f.noise.length := by
    rw [hrest, headerAt_append_iff (by omega)]
    exact headerAt_noise f
  have hnone : ∀ j < f.noise.length, ¬ HeaderAt s.file.rest j := by
    intro j hj
    rw [hrest, headerAt_append_iff (by omega)]
    exact f.no_header j hj
  obtain ⟨t, ht, hanswers⟩ := cameTo_of_servesAll data (by omega : 4 ≤ size) f.length_noise
    (by rw [hrest, List.length_append]; omega) hnone hheader
  have hcall := ht.found hstart
  have hwindow : ∀ i < 4, f.frame.head[i]? = some (t.mem (data + i)) := by
    intro i hi
    rw [← ht.window i hi, hrest, NoisyFrame.bytes, Frame.bytes, List.append_assoc, List.append_assoc,
      List.getElem?_append_right (Nat.le_add_right _ i), Nat.add_sub_cancel_left,
      List.getElem?_append_left (by rw [Frame.length_head]; exact hi)]
  obtain ⟨hheaderAt, hhead⟩ := headerAt_of_window f.frame hwindow
  have hrest' : t.file.rest = f.frame.payload ++ more := by
    rw [ht.rest, hrest, NoisyFrame.bytes, Frame.bytes, List.append_assoc, List.append_assoc,
      ← List.drop_drop, List.drop_left]
    rfl
  obtain ⟨hresult, hmem, hfile⟩ := readMpegFrame_frame data f.frame hsize hheaderAt
    (by rw [hanswers]; exact hpayload) hrest'
  refine ⟨?_, ?_, ?_⟩
  · have hbuffer : (readMpegFrame data size t).2.mem.window data f.frame.bytes.length
        = f.frame.bytes := by
      rw [hmem, hlength, Memory.window_store_append, hhead]
      rfl
    simp only [round, Frame.round, hcall, hresult, Int.toNat_natCast, hbuffer]
  · simp only [round, hcall, hfile]
  · have hdrop : (readMpegFrame data size t).2.file.rest = t.file.rest.drop f.frame.payload.length := by
      rw [hfile, File.rest, File.rest, List.drop_drop]
    simp only [round, hcall, hdrop, hrest', List.drop_left]

/-- **Only layers II and III have frames that are more than a header.** -/
theorem fields_of_long {header : MpegHeader} (h : 4 < getMpegFrameLength header) :
    header.id ≠ 1 ∧ (header.layer = 1 ∨ header.layer = 2) ∧ 0 < getMpegBitrate header ∧
      0 < getMpegFrequency header := by
  have hbitrate : 0 < getMpegBitrate header := by
    by_contra hb
    rw [getMpegFrameLength_of_not_pos (.inl (Int.not_lt.mp hb))] at h
    omega
  have hrate : 0 < getMpegFrequency header := by
    by_contra hf
    rw [getMpegFrameLength_of_not_pos (.inr (Int.not_lt.mp hf))] at h
    omega
  refine ⟨?_, ?_, hbitrate, hrate⟩
  · intro hid
    have hnone : ∀ r : BitVec 2, ¬ 0 < samplingrateArray (1#2).toFin r.toFin := by decide
    rw [getMpegFrequency, hid] at hrate
    exact hnone header.samplingrate hrate
  · obtain hlayer | hlayer | hlayer := layer_cases header
    · rw [getMpegFrameLength_of_noLayer hlayer] at h
      omega
    · exact hlayer
    · have hpad := header.padding.isLt
      rw [getMpegFrameLength_of_layerOne hlayer hbitrate hrate] at h
      omega

/-- **A frame that is returned whole was there to be read**: it has a payload, it fits the buffer, and
the answers hand its payload out. -/
theorem payload_of_pos (hsize : 4 < size) (h : 0 < (readMpegFrame data size s).1) :
    4 < getMpegFrameLength (headerAt s.mem data) ∧ getMpegFrameLength (headerAt s.mem data) ≤ size ∧
      (getMpegFrameLength (headerAt s.mem data) - 4).toNat ≤ s.file.rest.length ∧
      ∃ as, Serves 2 (getMpegFrameLength (headerAt s.mem data) - 4).toNat s.file.answers as := by
  obtain ⟨framelength, hframelength, hlength, hbound, henough, -⟩ := readMpegFrame_of_pos h
  have hpayload := readPayload_eq data (by omega : 4 ≤ size) hlength hbound s
  simp only at hpayload
  rw [if_neg (by omega)] at hpayload
  obtain ⟨c, hc⟩ := readData_consumed (data + 4) (min size framelength - 4).toNat 2 s
  have hle := hc.le_size
  have hread : (readData (data + 4) (min size framelength - 4).toNat 2 s).1 = c := by
    refine hc.result.resolve_right fun hfailed => ?_
    rw [hpayload, hfailed] at henough
    have hminus : toInt (-1) = -1 := by decide
    simp only [hminus] at henough
    omega
  rw [hread, toInt_natCast (by omega)] at hpayload
  rw [hpayload] at henough
  simp only at henough
  have hne : c ≠ 0 := by
    -- the call answers that the file is empty where its one read returns nothing
    rintro rfl
    rw [readMpegFrame, hframelength, if_neg (by omega), hpayload] at h
    exact absurd h (by decide : ¬ 0 < MPEG_FILE_EMPTY)
  have hall : c = (framelength - 4).toNat := by omega
  have hasked : (min size framelength - 4).toNat = (framelength - 4).toNat := by omega
  rw [hasked, hall] at hread
  rw [hframelength]
  obtain ⟨hrest, hserves⟩ := serves_of_readData (by omega) hread
  exact ⟨by omega, by omega, hrest, hserves⟩

/-- The frame that the buffer starts and the stream goes on with. -/
theorem exists_frame {m : Memory} {payload : List (BitVec 8)} (hsynced : synced data m = true)
    (hlong : 4 < getMpegFrameLength (headerAt m data))
    (hpayload : payload.length = getMpegFrameLength (headerAt m data) - 4) :
    ∃ f : Frame, f.head = m.window data 4 ∧ f.payload = payload := by
  obtain ⟨hid, hlayer, hbitrate, hrate⟩ := fields_of_long hlong
  obtain ⟨hsync1, hsync2⟩ := (synced_iff data).mp hsynced
  exact ⟨⟨m data, m (data + 1), m (data + 2), m (data + 3), payload, hsync1, hsync2, hid, hlayer,
    hbitrate, hrate, hpayload⟩, rfl, rfl⟩

/-- **A round that gives a frame has taken it from the stream**, with the noise before it. -/
theorem noisyFrame_of_round (hsize : 4 < size) (hheader : (round data size s).1.header = 4)
    (hframe : 0 < (round data size s).1.frame) :
    ∃ f : NoisyFrame, f.frame.bytes.length ≤ size ∧
      ∃ as more, ServesAll 2 f.requests s.file.answers as ∧ s.file.rest = f.bytes ++ more := by
  have hserved := served_of_found (by omega : 4 ≤ size) hheader
  obtain ⟨k, hstart, ht⟩ := (CameTo.start data (by omega : 4 ≤ size) hserved).found_inv hheader
  set t := (readMpegHeader data size s).2
  obtain ⟨hlong, hfits, henough, as, hserves⟩ := payload_of_pos hsize (s := t) hframe
  set n := (getMpegFrameLength (headerAt t.mem data) - 4).toNat with hn
  have hlen : (t.file.rest.take n).length = n := List.length_take_of_le henough
  have hpaid : ((t.file.rest.take n).length : ℤ) = getMpegFrameLength (headerAt t.mem data) - 4 := by
    rw [hlen]; omega
  obtain ⟨f, hhead, hpayload⟩ := exists_frame ((synced_iff_headerAt ht.window ht.le).mpr hstart) hlong
    hpaid
  have hfour := length_le_of_window ht.window
  have hnoise : (s.file.rest.take k).length = k := List.length_take_of_le (by omega)
  have hwindow := take_of_window ht.window
  have hsplit : s.file.rest = s.file.rest.take k ++ f.bytes ++ t.file.rest.drop n := by
    calc s.file.rest = s.file.rest.take k ++ s.file.rest.drop k := (List.take_append_drop k _).symm
      _ = s.file.rest.take k ++ (t.mem.window data 4 ++ t.file.rest) := by
        rw [hwindow, ht.rest, ← List.drop_drop, List.take_append_drop 4]
      _ = s.file.rest.take k ++ (f.head ++ (f.payload ++ t.file.rest.drop n)) := by
        rw [hhead, hpayload, List.take_append_drop]
      _ = s.file.rest.take k ++ f.bytes ++ t.file.rest.drop n := by
        rw [Frame.bytes, List.append_assoc, List.append_assoc]
  have hnone : ∀ j < (s.file.rest.take k).length, ¬ HeaderAt (s.file.rest.take k ++ f.bytes) j := by
    intro j hj
    rw [hnoise] at hj
    have hj' := ht.none j hj
    rwa [hsplit, headerAt_append_iff] at hj'
    rw [List.length_append, hnoise, f.length_bytes]
    omega
  refine ⟨⟨s.file.rest.take k, f, by rw [hnoise]; exact ht.le, hnone⟩, ?_, as, t.file.rest.drop n, ?_,
    hsplit⟩
  · have hbytes := f.length_bytes
    rw [hpayload, hlen] at hbytes
    simp only
    omega
  · rw [NoisyFrame.requests, hpayload, hlen, hnoise]
    exact ht.served.append (.cons hserves .nil)

end Round

/-! ## All rounds -/

section Rounds

variable {data : ℕ} {size : ℤ} {s : Host} {as : Stream' Answer} {more : List (BitVec 8)}

/-- **The frames are given back in their turn, whatever stands between them.** -/
theorem rounds_noisyFrames (data : ℕ) (frames : List NoisyFrame)
    (hsize : ∀ f ∈ frames, f.frame.bytes.length ≤ size)
    (hserves : ServesAll 2 (frames.flatMap NoisyFrame.requests) s.file.answers as)
    (hrest : s.file.rest = frames.flatMap NoisyFrame.bytes ++ more) :
    (rounds data size frames.length s).1 = frames.map (Frame.round ∘ NoisyFrame.frame) ∧
      (rounds data size frames.length s).2.file.answers = as ∧
      (rounds data size frames.length s).2.file.rest = more := by
  induction frames generalizing s with
  | nil =>
    obtain ⟨⟩ := hserves
    exact ⟨rfl, rfl, hrest⟩
  | cons f frames ih =>
    obtain ⟨bs, hserves₁, hserves₂⟩ := ServesAll.append_inv hserves
    have hnext : s.file.rest = f.bytes ++ (frames.flatMap NoisyFrame.bytes ++ more) := by
      rw [hrest, List.flatMap_cons, List.append_assoc]
    obtain ⟨hround, hanswers, hmore⟩ := round_noisyFrame data f (hsize f (by simp)) hserves₁ hnext
    obtain ⟨hothers, hend⟩ := ih (s := (round data size s).2) (fun g hg => hsize g (by simp [hg]))
      (by rw [hanswers]; exact hserves₂) hmore
    refine ⟨?_, hend⟩
    rw [List.length_cons, rounds, List.map_cons, hround, hothers]
    rfl

/-- **Rounds that all give a frame have taken them from the stream.** -/
theorem noisyFrames_of_rounds (n : ℕ) (hsize : 4 < size)
    (h : ∀ r ∈ (rounds data size n s).1, r.header = 4 ∧ 0 < r.frame) :
    ∃ frames : List NoisyFrame, frames.length = n ∧ (∀ f ∈ frames, f.frame.bytes.length ≤ size) ∧
      ∃ as more, ServesAll 2 (frames.flatMap NoisyFrame.requests) s.file.answers as ∧
        s.file.rest = frames.flatMap NoisyFrame.bytes ++ more := by
  induction n generalizing s with
  | zero => exact ⟨[], rfl, by simp, _, _, .nil, rfl⟩
  | succ n ih =>
    rw [rounds, List.forall_mem_cons] at h
    obtain ⟨⟨hheader, hframe⟩, hothers⟩ := h
    obtain ⟨f, hfits, as, more, hserves, hrest⟩ := noisyFrame_of_round hsize hheader hframe
    obtain ⟨-, hanswers, hmore⟩ := round_noisyFrame data f hfits hserves hrest
    obtain ⟨frames, rfl, hfit, bs, last, hserved, hleft⟩ := ih hothers
    rw [hanswers] at hserved
    refine ⟨f :: frames, rfl, List.forall_mem_cons.mpr ⟨hfits, hfit⟩, bs, last,
      hserves.append hserved, ?_⟩
    rw [hrest, ← hmore, hleft, List.flatMap_cons, List.append_assoc]

/-- **Frames are returned exactly if they are there.**  For a buffer that holds more than a header and a
descriptor that does what it likes, `n` rounds all return a frame if and only if the stream goes on with
`n` frames of layers II and III, each behind at most 1200 bytes of noise in which no header starts, each
no longer than the buffer, and the answers serve the requests for them within two reads. -/
theorem rounds_succeed_iff (data n : ℕ) (size : ℤ) (s : Host) (hsize : 4 < size) :
    (∀ r ∈ (rounds data size n s).1, r.header = 4 ∧ 0 < r.frame) ↔
      ∃ frames : List NoisyFrame, frames.length = n ∧ (∀ f ∈ frames, f.frame.bytes.length ≤ size) ∧
        ∃ as more, ServesAll 2 (frames.flatMap NoisyFrame.requests) s.file.answers as ∧
          s.file.rest = frames.flatMap NoisyFrame.bytes ++ more := by
  refine ⟨noisyFrames_of_rounds n hsize, ?_⟩
  rintro ⟨frames, rfl, hfit, as, more, hserves, hrest⟩ r hr
  rw [(rounds_noisyFrames data frames hfit hserves hrest).1] at hr
  obtain ⟨f, -, rfl⟩ := List.mem_map.mp hr
  refine ⟨rfl, ?_⟩
  have hlength := f.frame.length_bytes
  simp only [Function.comp_apply, Frame.round]
  omega

/-- What the call behind the last frame asks the descriptor for, with the bytes `tail` left: what there
is of a header, and the others one by one. -/
def tailRequests (tail : List (BitVec 8)) : List ℕ :=
  min 4 tail.length :: List.replicate (tail.length - 4) 1

/-- The answer behind the last frame, with nothing but noise left. -/
theorem readMpegHeader_tail {tail : List (BitVec 8)} (hsize : 4 ≤ size) (hrest : s.file.rest = tail)
    (hnone : ∀ k, ¬ HeaderAt tail k) (hshort : tail.length ≤ 1204)
    (hserves : ServesAll 2 (tailRequests tail) s.file.answers as) (hend : NeverFails as) :
    (readMpegHeader data size s).1
      = if 1 ≤ tail.length ∧ tail.length ≤ 3 then MPEG_BUFFER_UNDERFLOW else MPEG_FILE_EMPTY := by
  subst hrest
  rw [tailRequests] at hserves
  by_cases hfour : s.file.rest.length < 4
  · have hall : min 4 s.file.rest.length = s.file.rest.length := by omega
    have hno : s.file.rest.length - 4 = 0 := by omega
    rw [hall, hno] at hserves
    obtain _ | ⟨hserves, ⟨⟩⟩ := hserves
    rw [readMpegHeader_short data hsize hfour hserves hend]
    by_cases hempty : s.file.rest.length = 0
    · rw [if_pos hempty, if_neg (by omega)]
    · rw [if_neg hempty, if_pos (by omega)]
  · -- the search comes to the last window, and the byte behind it is not there
    have hall : min 4 s.file.rest.length = 4 := by omega
    rw [hall] at hserves
    obtain ⟨t, ht, rfl⟩ := cameTo_of_servesAll data hsize (by omega) (by omega)
      (fun j _ => hnone j) hserves
    have hlast : (shift data t).file.rest = [] := by
      have hrest : (shift data t).file.rest = s.file.rest.drop (s.file.rest.length - 4 + 4) := ht.rest
      rw [hrest, List.drop_eq_nil_of_le (by omega)]
    have hzero : (readData (data + 3) 1 2 (shift data t)).1 = 0 := readData_at_end hlast hend
    rw [(ht.empty (hnone _) hzero).1, if_neg (by omega)]

/-- **The reading finds its way back.**  Frames with noise between them and behind the last, handed out
in any way that serves each request within two reads, are given back in their order, one a round, and
then there is no more header. -/
theorem resync_frames (data : ℕ) (size : ℤ) (s : Host) (frames : List NoisyFrame)
    (tail : List (BitVec 8)) (as : Stream' Answer) (hheader : 4 ≤ size)
    (hsize : ∀ f ∈ frames, f.frame.bytes.length ≤ size)
    (hserves : ServesAll 2 (frames.flatMap NoisyFrame.requests ++ tailRequests tail) s.file.answers as)
    (hrest : s.file.rest = frames.flatMap NoisyFrame.bytes ++ tail)
    (hnone : ∀ k, ¬ HeaderAt tail k) (hshort : tail.length ≤ 1204) (hend : NeverFails as) :
    (rounds data size frames.length s).1 = frames.map (Frame.round ∘ NoisyFrame.frame) ∧
      (readMpegHeader data size (rounds data size frames.length s).2).1
        = if 1 ≤ tail.length ∧ tail.length ≤ 3 then MPEG_BUFFER_UNDERFLOW else MPEG_FILE_EMPTY := by
  obtain ⟨bs, hframes, htail⟩ := ServesAll.append_inv hserves
  obtain ⟨hrounds, hanswers, hleft⟩ := rounds_noisyFrames data frames hsize hframes hrest
  exact ⟨hrounds, readMpegHeader_tail hheader hleft hnone hshort (by rwa [hanswers]) hend⟩

end Rounds

/-- Three bytes of noise, one of them a false start, before a frame of nothing but headers. -/
def falseStart : NoisyFrame where
  noise := [0x47, 0xff, 0x1f]
  frame := headersOnly
  length_noise := by decide
  no_header := by decide

/-- Two such frames and five bytes more, delivered as they are asked for. -/
def interrupted : Host where
  mem := fun _ => 0
  file := {
    stream := falseStart.bytes ++ falseStart.bytes ++ [0x47, 0xff, 0x1f, 0x00, 0xff]
    pos := 0
    seekable := false
    answers := .const (.bytes 4096) }
  errno := .other
  requests := []

theorem interrupted_delivers : DeliversAll 4096 interrupted.file.answers := fun _ => ⟨4096, by decide, rfl⟩

theorem resync_frames_falseStart : (rounds 0 48 2 interrupted).1 = [headersOnly.round, headersOnly.round] ∧
    (readMpegHeader 0 48 (rounds 0 48 2 interrupted).2).1 = MPEG_FILE_EMPTY := by
  obtain ⟨as, hserves, has⟩ := interrupted_delivers.servesAll 1
    (show ∀ m ∈ [falseStart, falseStart].flatMap NoisyFrame.requests ++
      tailRequests [0x47, 0xff, 0x1f, 0x00, 0xff], m ≤ 4096 by decide)
  refine resync_frames 0 48 interrupted [falseStart, falseStart] [0x47, 0xff, 0x1f, 0x00, 0xff] as
    (by decide) (by decide) hserves rfl (fun k hk => ?_) (by decide) has.neverFails
  have hlen : k + 4 ≤ 5 := hk.2.1
  have hnone : ∀ k ≤ 1, ¬ HeaderAt [0x47, 0xff, 0x1f, 0x00, 0xff] k := by decide
  exact hnone k (by omega) hk

theorem rounds_succeed_iff_falseStart : (rounds 0 48 2 interrupted).1.length = 2 ∧
    ∀ r ∈ (rounds 0 48 2 interrupted).1, r.header = 4 ∧ 0 < r.frame := by
  obtain ⟨as, hserves, -⟩ := interrupted_delivers.servesAll 1
    (show ∀ m ∈ [falseStart, falseStart].flatMap NoisyFrame.requests, m ≤ 4096 by decide)
  exact ⟨rfl, (rounds_succeed_iff 0 2 48 interrupted (by decide)).mpr
    ⟨[falseStart, falseStart], rfl, by decide, as, [0x47, 0xff, 0x1f, 0x00, 0xff], hserves, rfl⟩⟩

end Mpeg
