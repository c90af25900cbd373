import MuxMPE.Mpeg.Mpeg

/-!
# Mpeg/Search — the search for a header, byte by byte

    stream    ⋯ ▓▓▓▓▓▓▓▓ j   j+1 j+2 j+3 ░░░░░░░░ ⋯
                         └───────┬──────┘▲ pos
    data                 0   1   2   3    4   5   6   7
                         └── header ───┘ └── the caller's ──┘
                         └──────── unsigned long ───────────┘

After `j` rounds the first four bytes of the buffer are those at offset `j` of the stream, and the
stream stands behind them (`Looking`).  The shift that moves them is of the whole word; what it
does to the bytes behind the header is told in `Mpeg/Footprint`.
-/

open Posix

namespace Mpeg

variable (data : ℕ)

/-! ## The first four bytes -/

section Start

variable {data} {size : ℤ} {s : Host}

/-- The first four bytes are not there for two reads. -/
def Unserved (s : Host) : Prop :=
  s.file.rest.length < 4 ∨ ¬ ∃ as, Serves 2 4 s.file.answers as

theorem readData_header_iff (data : ℕ) (s : Host) :
    (readData data 4 2 s).1 = 4 ↔ ¬ Unserved s := by
  rw [Unserved, not_or, Nat.not_lt, not_not]
  constructor
  · exact fun h => serves_of_readData (by omega) h
  · rintro ⟨hrest, as, has⟩
    exact (readData_of_serves data has (by omega) rfl hrest).result

/-- **What a request for the header returns that is not met**: less than a header, or a failure. -/
theorem result_of_unserved (data : ℕ) (h : Unserved s) : toInt (readData data 4 2 s).1 < 4 := by
  obtain ⟨c, hc⟩ := readData_consumed data 4 2 s
  have hle := hc.le_size
  have hne : (readData data 4 2 s).1 ≠ 4 := fun hfour => (readData_header_iff data s).mp hfour h
  obtain hresult | hresult := hc.result
  · rw [hresult, toInt_natCast (by omega)]
    omega
  · rw [hresult]
    decide

theorem readMpegHeader_of_unserved (hsize : 4 ≤ size) (h : Unserved s) :
    (readMpegHeader data size s).2 = (readData data 4 2 s).2 := by
  have hsmall := result_of_unserved data h
  rw [readMpegHeader, if_neg (by omega)]
  simp only
  split_ifs <;> rfl

theorem readMpegHeader_of_served (hsize : 4 ≤ size) (h : ¬ Unserved s) :
    readMpegHeader data size s = findSync data 1200 (readData data 4 2 s).2 := by
  rw [readMpegHeader, if_neg (by omega)]
  simp only [(readData_header_iff data s).mpr h]
  rw [if_neg (by decide), if_neg (by decide), if_neg (by decide)]

end Start

/-! ## The shift -/

/-- The word at `data`, shifted by a byte. -/
def shift (s : Host) : Host :=
  { s with mem := s.mem.store data (Memory.bytesOf (syncword data s.mem >>> 8) 8) }

variable {data} {s : Host}

theorem shift_mem {i : ℕ} (h : i < 8) :
    (shift data s).mem (data + i) = if i + 1 < 8 then s.mem (data + (i + 1)) else 0 :=
  s.mem.store_shifted data h

theorem shift_mem_outside {a : ℕ} (h : a < data ∨ data + 8 ≤ a) :
    (shift data s).mem a = s.mem a :=
  s.mem.store_outside data (by rwa [Memory.length_bytesOf])

/-- One round, when the window does not start a header. -/
theorem findSync_of_not_synced {left : ℕ} (h : ¬ synced data s.mem = true) :
    findSync data left s =
      let r := readData (data + 3) 1 2 (shift data s)
      if toInt r.1 = 0 then (MPEG_FILE_EMPTY, r.2)
      else if toInt r.1 = -1 then (MPEG_FILE_ERROR, r.2)
      else match left with
        | 0 => (MPEG_SYNC_NOT_FOUND, r.2)
        | left + 1 => findSync data left r.2 := by
  rw [findSync, if_neg h]
  rfl

/-- What is left after a round, or the search from there. -/
theorem findSync_host (left : ℕ) (h : ¬ synced data s.mem = true) :
    (findSync data left s).2 = (readData (data + 3) 1 2 (shift data s)).2 ∨
      ∃ more < left, (findSync data left s).2
        = (findSync data more (readData (data + 3) 1 2 (shift data s)).2).2 := by
  rw [findSync_of_not_synced h]
  simp only
  split_ifs
  · exact .inl rfl
  · exact .inl rfl
  · cases left with
    | zero => exact .inl rfl
    | succ left => exact .inr ⟨left, Nat.lt_succ_self left, rfl⟩

/-! ## What is kept

A relation that every round keeps, from before it to after it, is kept by the search and by the call. -/

section Keeps

variable {R : Host → Host → Prop}

theorem findSync_keeps (hrefl : ∀ s, R s s) (htrans : ∀ {s t u}, R s t → R t u → R s u)
    (hround : ∀ s, R s (readData (data + 3) 1 2 (shift data s)).2) (left : ℕ) (s : Host) :
    R s (findSync data left s).2 := by
  induction left using Nat.strong_induction_on generalizing s with
  | _ left ih =>
    by_cases hsynced : synced data s.mem = true
    · rw [findSync_of_synced _ hsynced]
      exact hrefl s
    · obtain hlast | ⟨more, hmore, hgoes⟩ := findSync_host left hsynced
      · rw [hlast]
        exact hround s
      · rw [hgoes]
        exact htrans (hround s) (ih more hmore _)

theorem readMpegHeader_keeps {size : ℤ} (hsize : 4 ≤ size) (hrefl : ∀ s, R s s)
    (htrans : ∀ {s t u}, R s t → R t u → R s u) (hread : ∀ s, R s (readData data 4 2 s).2)
    (hround : ∀ s, R s (readData (data + 3) 1 2 (shift data s)).2) (s : Host) :
    R s (readMpegHeader data size s).2 := by
  by_cases hserved : Unserved s
  · rw [readMpegHeader_of_unserved hsize hserved]
    exact hread s
  · rw [readMpegHeader_of_served hsize hserved]
    exact htrans (hread s) (findSync_keeps hrefl htrans hround 1200 _)

end Keeps

/-! ## The first header -/

/-- A header starts at offset `k`, where the search still looks. -/
def HeaderAt (bytes : List (BitVec 8)) (k : ℕ) : Prop :=
  k ≤ 1200 ∧ k + 4 ≤ bytes.length ∧
    bytes[k]? = some 0xff ∧ bytes[k + 1]?.map (· &&& 0xe0) = some 0xe0

instance (bytes : List (BitVec 8)) : DecidablePred (HeaderAt bytes) :=
  fun _ => inferInstanceAs (Decidable (_ ∧ _))

section Window

variable {bytes : List (BitVec 8)} {j : ℕ} {m : Memory}

theorem length_le_of_window (h : ∀ i < 4, bytes[j + i]? = some (m (data + i))) :
    j + 4 ≤ bytes.length := by
  obtain ⟨hlt, -⟩ := List.getElem?_eq_some_iff.mp (h 3 (by omega))
  omega

/-- The window, taken from the stream. -/
theorem take_of_window (h : ∀ i < 4, bytes[j + i]? = some (m (data + i))) :
    m.window data 4 = (bytes.drop j).take 4 := by
  refine List.ext_getElem? fun i => ?_
  by_cases hi : i < 4
  · rw [List.getElem?_take_of_lt hi, List.getElem?_drop, h i hi, Memory.window, List.getElem?_map,
      List.getElem?_range hi, Option.map_some]
  · rw [List.getElem?_eq_none (by rw [Memory.length_window]; omega),
      List.getElem?_eq_none (by rw [List.length_take]; omega)]

/-- **The test of the search is a test of the stream**, once the window is the stream's. -/
theorem synced_iff_headerAt (h : ∀ i < 4, bytes[j + i]? = some (m (data + i))) (hj : j ≤ 1200) :
    synced data m = true ↔ HeaderAt bytes j := by
  have hlen := length_le_of_window h
  have hfirst : bytes[j]? = some (m data) := h 0 (by omega)
  have hsecond : bytes[j + 1]? = some (m (data + 1)) := h 1 (by omega)
  rw [synced_iff, HeaderAt, hfirst, hsecond, Option.map_some, Option.some_inj, Option.some_inj]
  tauto

/-- The first window is the start of the stream. -/
theorem window_of_served (data : ℕ) (h : ¬ Unserved s) (i : ℕ) (hi : i < 4) :
    s.file.rest[0 + i]? = some ((readData data 4 2 s).2.mem (data + i)) := by
  obtain ⟨hrest, hserves⟩ := not_or.mp h
  obtain ⟨as, has⟩ := not_not.mp hserves
  have hread := readData_of_serves data has (by omega) rfl (Nat.not_lt.mp hrest)
  have hlen : (s.file.rest.take 4).length = 4 := List.length_take_of_le (Nat.not_lt.mp hrest)
  have hstored : s.mem.store data (s.file.rest.take 4) (data + i) = (s.file.rest.take 4)[i] :=
    s.mem.store_add data (by omega)
  rw [hread.mem, hstored, Nat.zero_add, List.getElem_take, List.getElem?_eq_getElem]

/-- **A byte read in behind the shifted window moves it on by one.** -/
theorem window_next {as : Stream' Answer} {r : ℤ × Host}
    (hwindow : ∀ i < 4, bytes[j + i]? = some (s.mem (data + i)))
    (hrest : s.file.rest = bytes.drop (j + 4)) (hread : Delivered (data + 3) 1 as (shift data s) r)
    (hmore : j + 5 ≤ bytes.length) :
    (∀ i < 4, bytes[j + 1 + i]? = some (r.2.mem (data + i))) ∧
      r.2.file.rest = bytes.drop (j + 1 + 4) := by
  have hshifted : (shift data s).file.rest = bytes.drop (j + 4) := hrest
  have hbyte : (bytes.drop (j + 4)).take 1 = [bytes[j + 4]] := by
    rw [List.drop_eq_getElem_cons (by omega), List.take_succ_cons, List.take_zero]
  have hmem := hread.mem
  rw [hshifted, hbyte] at hmem
  refine ⟨fun i hi => ?_, ?_⟩
  · have hnext : j + 1 + i = j + (i + 1) := by omega
    rw [hmem, hnext]
    by_cases hlast : i = 3
    · subst hlast
      have hstored : (shift data s).mem.store (data + 3) [bytes[j + 4]] (data + 3 + 0)
          = [bytes[j + 4]][0] := Memory.store_add _ _ (by simp)
      rw [List.getElem?_eq_getElem (by omega)]
      exact congrArg some hstored.symm
    · rw [Memory.store_of_lt _ _ (by omega), shift_mem (by omega), if_pos (by omega)]
      exact hwindow (i + 1) (by omega)
  · rw [hread.file, File.rest]
    have hdrop := congrArg (List.drop 1) hshifted
    simp only [File.rest, List.drop_drop] at hdrop ⊢
    exact hdrop

end Window

/-- The search has come to offset `j` of `bytes`, which started at `pos`. -/
structure Looking (data : ℕ) (bytes : List (BitVec 8)) (pos j : ℕ) (s : Host) : Prop where
  window : ∀ i < 4, bytes[j + i]? = some (s.mem (data + i))
  rest : s.file.rest = bytes.drop (j + 4)
  pos : s.file.pos = pos + j + 4
  answers : DeliversAll 4 s.file.answers

namespace Looking

variable {bytes : List (BitVec 8)} {pos j : ℕ}

theorem length_le (h : Looking data bytes pos j s) : j + 4 ≤ bytes.length :=
  length_le_of_window h.window

theorem window_eq (h : Looking data bytes pos j s) :
    s.mem.window data 4 = (bytes.drop j).take 4 := take_of_window h.window

/-- **A round moves the window on by one byte.** -/
theorem next (h : Looking data bytes pos j s) (hmore : j + 5 ≤ bytes.length) :
    (readData (data + 3) 1 2 (shift data s)).1 = 1 ∧
      Looking data bytes pos (j + 1) (readData (data + 3) 1 2 (shift data s)).2 := by
  have hserves : Serves 2 1 (shift data s).file.answers s.file.answers.tail :=
    h.answers.serves (by omega)
  have hleft : 1 ≤ (shift data s).file.rest.length := by
    have hrest : (shift data s).file.rest = bytes.drop (j + 4) := h.rest
    rw [hrest, List.length_drop]
    omega
  have hread := readData_of_serves (data + 3) hserves (by omega) rfl hleft
  obtain ⟨hwindow, hrest⟩ := window_next h.window h.rest hread hmore
  refine ⟨hread.result, hwindow, hrest, ?_, ?_⟩
  · rw [hread.file]
    have hpos := h.pos
    simp only [shift] at hpos ⊢
    omega
  · rw [hread.file]
    exact h.answers.tail

end Looking

/-- What the search from offset `j` on comes to. -/
structure Outcome (data : ℕ) (bytes : List (BitVec 8)) (pos j : ℕ) (r : ℤ × Host) : Prop where
  found : ∀ k, j ≤ k → HeaderAt bytes k → (∀ i, j ≤ i → i < k → ¬ HeaderAt bytes i) →
    r.1 = 4 ∧ Looking data bytes pos k r.2
  short : (∀ k, j ≤ k → ¬ HeaderAt bytes k) → bytes.length ≤ 1204 → r.1 = MPEG_FILE_EMPTY
  missing : (∀ k, j ≤ k → ¬ HeaderAt bytes k) → 1205 ≤ bytes.length →
    r.1 = MPEG_SYNC_NOT_FOUND ∧ r.2.file.pos = pos + 1205

namespace Outcome

variable {bytes : List (BitVec 8)} {pos j : ℕ} {r : ℤ × Host}

theorem here (h : Looking data bytes pos j s) (hheader : HeaderAt bytes j) :
    Outcome data bytes pos j (4, s) where
  found k hle hk hfirst := by
    obtain hlt | rfl := Nat.lt_or_eq_of_le hle
    · exact absurd hheader (hfirst j (Nat.le_refl j) hlt)
    · exact ⟨rfl, h⟩
  short hnone _ := absurd hheader (hnone j (Nat.le_refl j))
  missing hnone _ := absurd hheader (hnone j (Nat.le_refl j))

theorem of_next (hnot : ¬ HeaderAt bytes j) (h : Outcome data bytes pos (j + 1) r) :
    Outcome data bytes pos j r where
  found k hle hk hfirst := by
    obtain hlt | rfl := Nat.lt_or_eq_of_le hle
    · exact h.found k hlt hk fun i hi => hfirst i (by omega)
    · exact absurd hk hnot
  short hnone := h.short fun k hk => hnone k (by omega)
  missing hnone := h.missing fun k hk => hnone k (by omega)

/-- The end of the stream, reached by the search. -/
theorem ended (hlen : bytes.length ≤ j + 3) (hj : j ≤ 1201) (hresult : r.1 = MPEG_FILE_EMPTY) :
    Outcome data bytes pos j r where
  found k hle hk _ := by
    have hfits := hk.2.1
    omega
  short _ _ := hresult
  missing _ hmore := by omega

/-- The search given up. -/
theorem gaveUp (h : Looking data bytes pos 1201 s) :
    Outcome data bytes pos 1201 (MPEG_SYNC_NOT_FOUND, s) where
  found k hle hk _ := by
    have hlast := hk.1
    omega
  short _ hshort := by
    have hlen := h.length_le
    omega
  missing _ _ := ⟨rfl, h.pos⟩

end Outcome

/-- **One round**: the window starts a header, or the stream ends, or the search goes on. -/
theorem findSync_round {bytes : List (BitVec 8)} {pos left j : ℕ}
    (h : Looking data bytes pos j s) (hj : j ≤ 1200)
    (hnext : ∀ t, Looking data bytes pos (j + 1) t → Outcome data bytes pos (j + 1)
      (match left with
        | 0 => (MPEG_SYNC_NOT_FOUND, t)
        | left + 1 => findSync data left t)) :
    Outcome data bytes pos j (findSync data left s) := by
  by_cases hsynced : synced data s.mem = true
  · rw [findSync_of_synced _ hsynced]
    exact .here h ((synced_iff_headerAt h.window hj).mp hsynced)
  · refine .of_next (fun hheader => hsynced ((synced_iff_headerAt h.window hj).mpr hheader)) ?_
    rw [findSync_of_not_synced hsynced]
    by_cases hmore : j + 5 ≤ bytes.length
    · obtain ⟨hone, hlooking⟩ := h.next hmore
      simp only [hone]
      rw [if_neg (by decide), if_neg (by decide)]
      exact hnext _ hlooking
    · have hrest : (shift data s).file.rest = [] := by
        have hdrop := h.rest
        rw [List.drop_eq_nil_of_le (by omega)] at hdrop
        exact hdrop
      have hzero : (readData (data + 3) 1 2 (shift data s)).1 = 0 :=
        readData_at_end hrest h.answers.neverFails
      simp only [hzero]
      rw [if_pos (by decide)]
      exact .ended (by omega) (by omega) rfl

/-- **The search takes the first header there is**, and gives up after 1205 bytes. -/
theorem findSync_outcome {bytes : List (BitVec 8)} {pos left j : ℕ}
    (h : Looking data bytes pos j s) (hleft : j + left = 1200) :
    Outcome data bytes pos j (findSync data left s) := by
  induction left generalizing j s with
  | zero =>
    obtain rfl : j = 1200 := hleft
    exact findSync_round h (Nat.le_refl _) fun t ht => .gaveUp ht
  | succ left ih => exact findSync_round h (by omega) fun t ht => ih ht (by omega)

/-! ### From the start of the stream -/

/-- Less than a header is left, and handed out. -/
theorem readMpegHeader_short (data : ℕ) {size : ℤ} (hsize : 4 ≤ size) (hrest : s.file.rest.length < 4)
    {as : Stream' Answer} (hserves : Serves 2 s.file.rest.length s.file.answers as)
    (hend : NeverFails as) :
    (readMpegHeader data size s).1
      = if s.file.rest.length = 0 then MPEG_FILE_EMPTY else MPEG_BUFFER_UNDERFLOW := by
  have hread : (readData data 4 2 s).1 = s.file.rest.length :=
    readData_to_end data hserves rfl rfl (by omega) (by omega) hend
  rw [readMpegHeader, if_neg (by omega)]
  simp only [hread, toInt_natCast (show s.file.rest.length < 2 ^ 31 by omega)]
  by_cases hempty : s.file.rest.length = 0
  · rw [if_pos hempty, if_pos (by omega)]
  · rw [if_neg hempty, if_neg (by omega), if_neg (by omega), if_pos (by omega)]

/-- **The search starts at the start of the stream.** -/
theorem looking_start (data : ℕ) (hrest : 4 ≤ s.file.rest.length)
    (hanswers : DeliversAll 4 s.file.answers) :
    ¬ Unserved s ∧ Looking data s.file.rest s.file.pos 0 (readData data 4 2 s).2 := by
  have hserves : Serves 2 4 s.file.answers s.file.answers.tail := hanswers.serves (Nat.le_refl 4)
  have hserved : ¬ Unserved s := by
    rintro (hshort | hnot)
    · omega
    · exact hnot ⟨_, hserves⟩
  have hread := readData_of_serves data hserves (by omega) rfl hrest
  refine ⟨hserved, window_of_served data hserved, ?_, ?_, ?_⟩
  · rw [hread.file, File.rest, File.rest, List.drop_drop]
  · rw [hread.file, Nat.add_zero]
  · rw [hread.file]
    exact hanswers.tail

/-- What `readMpegHeader` is for, on a stream that is delivered as it is asked for: the first header
within the first 1204 bytes is taken and the stream left behind it, or else it is told why not. -/
structure FindsHeader (data : ℕ) (size : ℤ) (s : Host) : Prop where
  found : ∀ k, HeaderAt s.file.rest k → (∀ i < k, ¬ HeaderAt s.file.rest i) →
    (readMpegHeader data size s).1 = 4 ∧
      (readMpegHeader data size s).2.mem.window data 4 = (s.file.rest.drop k).take 4 ∧
      (readMpegHeader data size s).2.file.pos = s.file.pos + (k + 4)
  empty : (∀ k, ¬ HeaderAt s.file.rest k) → s.file.rest.length = 0 →
    (readMpegHeader data size s).1 = MPEG_FILE_EMPTY
  underflow : (∀ k, ¬ HeaderAt s.file.rest k) → 1 ≤ s.file.rest.length → s.file.rest.length ≤ 3 →
    (readMpegHeader data size s).1 = MPEG_BUFFER_UNDERFLOW
  short : (∀ k, ¬ HeaderAt s.file.rest k) → 4 ≤ s.file.rest.length → s.file.rest.length ≤ 1204 →
    (readMpegHeader data size s).1 = MPEG_FILE_EMPTY
  missing : (∀ k, ¬ HeaderAt s.file.rest k) → 1205 ≤ s.file.rest.length →
    (readMpegHeader data size s).1 = MPEG_SYNC_NOT_FOUND ∧
      (readMpegHeader data size s).2.file.pos = s.file.pos + 1205

/-- **The search finds the first header and nothing else.** -/
theorem readMpegHeader_findsHeader (data : ℕ) (size : ℤ) (s : Host) (hsize : 8 ≤ size)
    (hanswers : DeliversAll 4 s.file.answers) : FindsHeader data size s := by
  by_cases hrest : s.file.rest.length < 4
  · have hresult := readMpegHeader_short data (by omega : 4 ≤ size) hrest
      (hanswers.serves (by omega)) hanswers.neverFails.tail
    constructor
    · intro k hk _
      have hfits := hk.2.1
      omega
    · intro _ hzero
      rw [hresult, if_pos hzero]
    · intro _ hone _
      rw [hresult, if_neg (by omega)]
    · intro _ hfour _
      omega
    · intro _ hmany
      omega
  · obtain ⟨hserved, hlooking⟩ := looking_start data (by omega) hanswers
    have hsearch : Outcome data s.file.rest s.file.pos 0
        (findSync data 1200 (readData data 4 2 s).2) := findSync_outcome hlooking (by omega)
    rw [← readMpegHeader_of_served (by omega : 4 ≤ size) hserved] at hsearch
    constructor
    · intro k hk hfirst
      obtain ⟨hresult, hfound⟩ := hsearch.found k (Nat.zero_le k) hk fun i _ => hfirst i
      exact ⟨hresult, hfound.window_eq, by rw [hfound.pos]; omega⟩
    · intro _ hzero
      omega
    · intro _ _ hthree
      omega
    · intro hnone _ hshort
      exact hsearch.short (fun k _ => hnone k) hshort
    · intro hnone hmany
      exact hsearch.missing (fun k _ => hnone k) hmany

/-- Three bytes of noise, one of them a false start, before a header. -/
def noisy : Host where
  mem := fun _ => 0
  file := {
    stream := [0x47, 0xff, 0x1f, 0xff, 0xf5, 0x14, 0x00, 0x55]
    pos := 0
    seekable := false
    answers := .const (.bytes 4096) }
  errno := .other
  requests := []

theorem readMpegHeader_findsHeader_noisy : FindsHeader 0 8 noisy :=
  readMpegHeader_findsHeader 0 8 noisy (by decide) fun _ => ⟨4096, by decide, rfl⟩

end Mpeg
