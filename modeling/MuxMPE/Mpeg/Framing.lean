import MuxMPE.Mpeg.Mpeg

/-!
# Mpeg/Framing — a stream of frames is read back frame by frame

    stream    ┌ f₀ ────────┬ f₁ ─────┬ f₂ ──────────┐
              H    F       H   F     H     F        H
    returns   4    |f₀|    4   |f₁|  4     |f₂|     MPEG_FILE_EMPTY

Frames carry no end mark: where one ends is known from its header alone, so the reading stays on the
frames only as long as every `readMpegHeader` (H) is called at the first byte of a frame.  A `round` is
H and then F (`readMpegFrame`); one round takes exactly one frame (`round_frame`), whatever the payload
looks like and however the bytes arrive, and the rounds follow by induction (`rounds_frames`).
-/

open Posix

namespace Mpeg

/-! ## Frames -/

/-- A layer II or III frame: a header with the sync bits, whose tables give the payload its length. -/
structure Frame where
  b₀ : BitVec 8
  b₁ : BitVec 8
  b₂ : BitVec 8
  b₃ : BitVec 8
  payload : List (BitVec 8)
  sync1 : b₀ = 0xff
  sync2 : b₁ &&& 0xe0 = 0xe0
  id : (MpegHeader.ofBytes b₀ b₁ b₂ b₃).id ≠ 1
  layer : (MpegHeader.ofBytes b₀ b₁ b₂ b₃).layer = 1 ∨ (MpegHeader.ofBytes b₀ b₁ b₂ b₃).layer = 2
  bitrate : 0 < getMpegBitrate (.ofBytes b₀ b₁ b₂ b₃)
  samplingrate : 0 < getMpegFrequency (.ofBytes b₀ b₁ b₂ b₃)
  length_payload : payload.length = getMpegFrameLength (.ofBytes b₀ b₁ b₂ b₃) - 4

namespace Frame

variable (f : Frame)

def header : MpegHeader := .ofBytes f.b₀ f.b₁ f.b₂ f.b₃

def head : List (BitVec 8) := [f.b₀, f.b₁, f.b₂, f.b₃]

def bytes : List (BitVec 8) := f.head ++ f.payload

/-- What the two calls ask the descriptor for. -/
def requests : List ℕ := [4, f.payload.length]

@[simp] theorem length_head : f.head.length = 4 := rfl

@[simp] theorem length_bytes : f.bytes.length = 4 + f.payload.length := List.length_append

/-- The length a frame announces is its own. -/
theorem getMpegFrameLength_header : getMpegFrameLength f.header = f.bytes.length := by
  have hlen := f.length_payload
  rw [length_bytes, header]
  omega

/-- **There is always a payload**, and its length is an `int`. -/
theorem payload_bounds : 0 < f.payload.length ∧ f.payload.length < 10000 := by
  have hbounds := getMpegFrameLength_bounds f.layer f.bitrate f.samplingrate
  have hlen := f.length_payload
  omega

end Frame

/-! ## A header in the buffer -/

section Sync

variable (m : Memory) (data : ℕ) (f : Frame)

theorem headerAt_store_head : headerAt (m.store data f.head) data = f.header := by
  have hat (i : ℕ) (hi : i < 4) : m.store data f.head (data + i) = f.head[i] :=
    m.store_add data hi
  have h₀ : m.store data f.head data = f.b₀ := hat 0 (by omega)
  rw [headerAt, h₀, hat 1 (by omega), hat 2 (by omega), hat 3 (by omega)]
  rfl

theorem synced_store_head : synced data (m.store data f.head) = true := by
  have hat (i : ℕ) (hi : i < 4) : m.store data f.head (data + i) = f.head[i] :=
    m.store_add data hi
  have h₀ : m.store data f.head data = f.b₀ := hat 0 (by omega)
  rw [synced_iff, h₀, hat 1 (by omega)]
  exact ⟨f.sync1, f.sync2⟩

end Sync

/-! ## One round -/

/-- What the two calls of a round returned, and the bytes of the frame now in the buffer. -/
structure Round where
  header : ℤ
  frame : ℤ
  buffer : List (BitVec 8)
  deriving DecidableEq, Repr

variable (data : ℕ) (size : ℤ)

def round (s : Host) : Round × Host :=
  let h := readMpegHeader data size s
  let f := readMpegFrame data size h.2
  ({ header := h.1, frame := f.1, buffer := f.2.mem.window data f.1.toNat }, f.2)

/-- The round that takes a frame. -/
def Frame.round (f : Frame) : Round := { header := 4, frame := f.bytes.length, buffer := f.bytes }

variable {data size}

/-- **A header that is next in the stream is taken as it is**, without a search. -/
theorem readMpegHeader_frame (data : ℕ) (f : Frame) {s : Host} {as : Stream' Answer}
    {more : List (BitVec 8)} (hsize : 4 ≤ size) (hserves : Serves 2 4 s.file.answers as)
    (hrest : s.file.rest = f.bytes ++ more) :
    (readMpegHeader data size s).1 = 4 ∧
      (readMpegHeader data size s).2.mem = s.mem.store data f.head ∧
      (readMpegHeader data size s).2.file =
        { s.file with pos := s.file.pos + 4, answers := as } := by
  have henough : 4 ≤ s.file.rest.length := by
    rw [hrest, List.length_append, f.length_bytes]
    omega
  have hread := readData_of_serves data hserves (by omega) rfl henough
  have hresult : toInt (readData data 4 2 s).1 = 4 := by
    rw [hread.result]
    exact toInt_natCast (by omega)
  have hhead : s.file.rest.take 4 = f.head := by
    rw [hrest, Frame.bytes, List.append_assoc]
    rfl
  have hmem := hread.mem
  rw [hhead] at hmem
  have hsynced : synced data (readData data 4 2 s).2.mem = true := by
    rw [hmem]
    exact synced_store_head _ _ f
  have hcall : readMpegHeader data size s = (4, (readData data 4 2 s).2) := by
    rw [readMpegHeader, if_neg (by omega)]
    simp only [hresult]
    rw [if_neg (by omega), if_neg (by omega), if_neg (by omega), findSync_of_synced _ hsynced]
  rw [hcall]
  exact ⟨rfl, hmem, hread.file⟩

/-- **Behind its header, the payload of a frame is read whole**, up to the first byte of the next. -/
theorem readMpegFrame_frame (data : ℕ) (f : Frame) {s : Host} {as : Stream' Answer}
    {more : List (BitVec 8)} (hsize : f.bytes.length ≤ size)
    (hheader : headerAt s.mem data = f.header)
    (hserves : Serves 2 f.payload.length s.file.answers as)
    (hrest : s.file.rest = f.payload ++ more) :
    (readMpegFrame data size s).1 = f.bytes.length ∧
      (readMpegFrame data size s).2.mem = s.mem.store (data + 4) f.payload ∧
      (readMpegFrame data size s).2.file =
        { s.file with pos := s.file.pos + f.payload.length, answers := as } := by
  have hbounds := f.payload_bounds
  have hlength := f.length_bytes
  have henough : f.payload.length ≤ s.file.rest.length := by
    rw [hrest, List.length_append]
    omega
  have hread := readData_of_serves (data + 4) hserves (by omega) rfl henough
  have hasked : toSize (f.bytes.length - 4) = f.payload.length := by
    have hpayload : (f.bytes.length : ℤ) - 4 = f.payload.length := by omega
    rw [hpayload]
    exact toSize_natCast (by omega)
  have hresult : toInt (readData (data + 4) f.payload.length 2 s).1 = f.payload.length := by
    rw [hread.result]
    exact toInt_natCast (by omega)
  have hpart : readPayload data f.bytes.length size s =
      ((f.payload.length : ℤ), (readData (data + 4) f.payload.length 2 s).2) := by
    rw [readPayload, if_neg (by omega), hasked]
    simp only [hresult]
  have hcall : readMpegFrame data size s =
      ((f.bytes.length : ℤ), (readData (data + 4) f.payload.length 2 s).2) := by
    rw [readMpegFrame, hheader, f.getMpegFrameLength_header, hpart]
    rw [if_neg (by omega), if_neg (by omega), if_neg (by omega), if_neg (by omega)]
  have hmem := hread.mem
  rw [hrest, List.take_left] at hmem
  rw [hcall]
  exact ⟨rfl, hmem, hread.file⟩

/-- **One round takes one frame**: the frame stands in the buffer and the stream at the next. -/
theorem round_frame (data : ℕ) (f : Frame) {s : Host} {as : Stream' Answer} {more : List (BitVec 8)}
    (hsize : f.bytes.length ≤ size) (hserves : ServesAll 2 f.requests s.file.answers as)
    (hrest : s.file.rest = f.bytes ++ more) :
    (round data size s).1 = f.round ∧ (round data size s).2.file.answers = as ∧
      (round data size s).2.file.rest = more := by
  obtain _ | ⟨hserves₁, _ | ⟨hserves₂, ⟨⟩⟩⟩ := hserves
  have hlength := f.length_bytes
  obtain ⟨hresult₁, hmem₁, hfile₁⟩ := readMpegHeader_frame data f
    (by omega : 4 ≤ size) hserves₁ hrest
  set s₁ := (readMpegHeader data size s).2 with hs₁
  have hheader : headerAt s₁.mem data = f.header := by
    rw [hmem₁]
    exact headerAt_store_head _ _ f
  have hrest₁ : s₁.file.rest = f.payload ++ more := by
    have hdrop : s₁.file.rest = s.file.rest.drop 4 := by
      rw [hfile₁, File.rest, File.rest, List.drop_drop]
    rw [hdrop, hrest, Frame.bytes, List.append_assoc]
    rfl
  obtain ⟨hresult₂, hmem₂, hfile₂⟩ := readMpegFrame_frame data f hsize hheader
    (by rw [hfile₁]; exact hserves₂) hrest₁
  refine ⟨?_, ?_, ?_⟩
  · have hbuffer : (readMpegFrame data size s₁).2.mem.window data f.bytes.length = f.bytes := by
      rw [hmem₂, hmem₁, ← f.length_head, Memory.store_store]
      exact Memory.window_store _ _ f.bytes
    simp only [round, Frame.round, hresult₁, ← hs₁, hresult₂, Int.toNat_natCast, hbuffer]
  · rw [round, hfile₂]
  · have hdrop : (round data size s).2.file.rest = s₁.file.rest.drop f.payload.length := by
      rw [round, hfile₂, File.rest, File.rest, List.drop_drop]
    rw [hdrop, hrest₁, List.drop_left]

/-! ## All rounds -/

variable (data size)

/-- `n` rounds, one after the other. -/
def rounds : ℕ → Host → List Round × Host
  | 0, s => ([], s)
  | n + 1, s =>
    let r := round data size s
    let rs := rounds n r.2
    (r.1 :: rs.1, rs.2)

variable {data size}

/-- **Every frame is taken in its turn.** -/
theorem rounds_frames (data : ℕ) (frames : List Frame) {s : Host} {as : Stream' Answer}
    (hsize : ∀ f ∈ frames, f.bytes.length ≤ size)
    (hserves : ServesAll 2 (frames.flatMap Frame.requests) s.file.answers as)
    (hrest : s.file.rest = frames.flatMap Frame.bytes) :
    (rounds data size frames.length s).1 = frames.map Frame.round ∧
      (rounds data size frames.length s).2.file.answers = as ∧
      (rounds data size frames.length s).2.file.rest = [] := by
  induction frames generalizing s with
  | nil =>
    obtain ⟨⟩ := hserves
    exact ⟨rfl, rfl, hrest⟩
  | cons f frames ih =>
    obtain ⟨bs, hserves₁, hserves₂⟩ := ServesAll.append_inv hserves
    have hnext : s.file.rest = f.bytes ++ frames.flatMap Frame.bytes := hrest
    obtain ⟨hround, hanswers, hmore⟩ := round_frame data f (hsize f (by simp)) hserves₁ hnext
    obtain ⟨hothers, hend⟩ := ih (s := (round data size s).2) (fun g hg => hsize g (by simp [hg]))
      (by rw [hanswers]; exact hserves₂) hmore
    refine ⟨?_, hend⟩
    rw [List.length_cons, rounds, List.map_cons, hround, hothers]

theorem readMpegHeader_at_end {s : Host} (hsize : 4 ≤ size) (hrest : s.file.rest = [])
    (hbytes : NeverFails s.file.answers) :
    (readMpegHeader data size s).1 = MPEG_FILE_EMPTY := by
  rw [readMpegHeader, if_neg (by omega)]
  simp only [readData_at_end hrest hbytes]
  rfl

/-- The frames come back one a round, nothing is left over, and the next header says so. -/
def ReadBack (frames : List Frame) (data : ℕ) (size : ℤ) (s : Host) : Prop :=
  let r := rounds data size frames.length s
  r.1 = frames.map Frame.round ∧ r.2.file.rest = [] ∧
    (readMpegHeader data size r.2).1 = MPEG_FILE_EMPTY

/-- **The framing round trip.**  A stream of frames, handed out in any way that serves each request
within two reads, is read back frame by frame into any buffer that holds a header and every frame. -/
theorem readBack_frames (frames : List Frame) (data : ℕ) (size : ℤ) (s : Host)
    (as : Stream' Answer) (hheader : 4 ≤ size) (hsize : ∀ f ∈ frames, f.bytes.length ≤ size)
    (hrest : s.file.rest = frames.flatMap Frame.bytes)
    (hserves : ServesAll 2 (frames.flatMap Frame.requests) s.file.answers as)
    (hend : NeverFails as) :
    ReadBack frames data size s := by
  obtain ⟨hrounds, hanswers, hnone⟩ := rounds_frames data frames hsize hserves hrest
  exact ⟨hrounds, hnone, readMpegHeader_at_end hheader hnone (by rwa [hanswers])⟩

/-- A layer II frame of 8 kbit/s at 24 kHz, its payload nothing but copies of its header. -/
def headersOnly : Frame where
  b₀ := 0xff
  b₁ := 0xf5
  b₂ := 0x14
  b₃ := 0x00
  payload := (List.replicate 11 [0xff, 0xf5, 0x14, 0x00]).flatten
  sync1 := rfl
  sync2 := by decide
  id := by decide
  layer := .inr (by decide)
  bitrate := by decide
  samplingrate := by decide
  length_payload := by decide

/-- Two such frames on a pipe that delivers the first header in two parts, keeps the reader waiting
for its payload, and cuts the second payload in two. -/
def pipe : Host where
  mem := fun _ => 0
  file := {
    stream := headersOnly.bytes ++ headersOnly.bytes
    pos := 0
    seekable := false
    answers := .cons (.bytes 3) (.cons (.bytes 1) (.cons (.fails .EAGAIN) (.cons (.bytes 512)
      (.cons (.bytes 4) (.cons (.bytes 20) (.cons (.bytes 24) (.const (.bytes 0)))))))) }
  errno := .other
  requests := []

theorem readBack_frames_headersOnly : ReadBack [headersOnly, headersOnly] 0 48 pipe := by
  refine readBack_frames [headersOnly, headersOnly] 0 48 pipe (.const (.bytes 0)) (by decide)
    (by decide) rfl ?_ fun _ => ⟨0, rfl⟩
  have hwaited (as) : Serves 2 44 (.cons (.fails .EAGAIN) (.cons (.bytes 512) as)) as :=
    .again (.all (by decide))
  have hcut (as) : Serves 2 44 (.cons (.bytes 20) (.cons (.bytes 24) as)) as :=
    .part (by decide) (.all (by decide))
  exact .cons (.part (by decide) (.all (by decide))) (.cons (hwaited _) (.cons (.all (by decide))
    (.cons (hcut _) .nil)))

/-- No frame and no byte, at the end of the file. -/
def exhausted : Host where
  mem := fun _ => 0
  file := { stream := [], pos := 0, seekable := true, answers := .const (.bytes 0) }
  errno := .other
  requests := []

/-- **The end of the file is not seen through a buffer too short for a header**: of no frame at all
every buffer holds the longest, but `readMpegHeader` turns one of three bytes away. -/
theorem not_readBack_three_bytes :
    (∀ f ∈ ([] : List Frame), f.bytes.length ≤ (3 : ℤ)) ∧
      exhausted.file.rest = ([] : List Frame).flatMap Frame.bytes ∧
      ServesAll 2 (([] : List Frame).flatMap Frame.requests) exhausted.file.answers
        exhausted.file.answers ∧
      NeverFails exhausted.file.answers ∧
      ¬ ReadBack [] 0 3 exhausted := by
  refine ⟨by simp, rfl, .nil, fun _ => ⟨0, rfl⟩, fun h => ?_⟩
  have hanswer : (readMpegHeader 0 3 exhausted).1 = MPEG_BUFFER_OVERFLOW := rfl
  have hempty : MPEG_BUFFER_OVERFLOW = MPEG_FILE_EMPTY := hanswer.symm.trans h.2.2
  exact absurd hempty (by decide)

end Mpeg
