import MuxMPE.Mpeg.Search

/-!
# Mpeg/Footprint — what `readMpegHeader` does to the bytes behind the header

    data      0   1   2   3   4   5   6   7
    before    .   .   .   .   a   b   c   d
    round 1   .   .   .   .   b   c   d   0
    round 2   .   .   .   .   c   d   0   0
              └─ asked for ─┘
              └──────── *syncword ────────┘

The word that is tested and shifted is twice as wide as the header.  Every call that gets its four
bytes loads the four behind them too (`findSyncTraced`), and every round takes those one place down
(`Slid`), so that a call that makes a round leaves them as they were only if they were zeros.
-/

open Posix

namespace Mpeg

/-! ## The upper half of the word -/

/-- The upper half of the word at `data` moved `j` bytes down, zeros coming in; outside the word
nothing changed. -/
structure Slid (data j : ℕ) (m m' : Memory) : Prop where
  upper : ∀ i < 4, m' (data + 4 + i) = if i + j < 4 then m (data + 4 + (i + j)) else 0
  outside : ∀ a, a < data ∨ data + 8 ≤ a → m' a = m a

namespace Slid

variable {j k : ℕ} {m m' m'' : Memory}

theorem refl (data : ℕ) (m : Memory) : Slid data 0 m m where
  upper i hi := by simp only [Nat.add_zero, if_pos hi]
  outside _ _ := rfl

theorem trans (h : Slid data j m m') (h' : Slid data k m' m'') : Slid data (j + k) m m'' where
  upper i hi := by
    have hsum : i + k + j = i + (j + k) := by omega
    rw [h'.upper i hi]
    by_cases hk : i + k < 4
    · rw [if_pos hk, h.upper _ hk, hsum]
    · rw [if_neg hk, if_neg (by omega)]
  outside a ha := (h'.outside a ha).trans (h.outside a ha)

/-- A request for a byte of the header leaves the others. -/
theorem of_readData {a n tries : ℕ} (hdata : data ≤ a) (hn : a + n ≤ data + 4) (s : Host) :
    Slid data 0 s.mem (readData a n tries s).2.mem := by
  obtain ⟨c, hc⟩ := readData_consumed a n tries s
  have hle := hc.le_size
  refine ⟨fun i hi => ?_, fun b hb => ?_⟩
  · simp only [Nat.add_zero, if_pos hi]
    exact hc.outside (by omega)
  · exact hc.outside (by omega)

theorem of_shift (data : ℕ) (s : Host) : Slid data 1 s.mem (shift data s).mem where
  upper i hi := by
    have hnext : data + 4 + (i + 1) = data + (4 + i + 1) := by omega
    rw [Nat.add_assoc, shift_mem (by omega), hnext]
    by_cases hlast : i + 1 < 4
    · rw [if_pos (by omega), if_pos hlast]
    · rw [if_neg (by omega), if_neg hlast]
  outside _ ha := shift_mem_outside ha

/-- **Nothing changed only if nothing moved, or zeros.** -/
theorem unchanged_iff (h : Slid data j m m') :
    (∀ a, data + 4 ≤ a → m' a = m a) ↔ j = 0 ∨ ∀ i < 4, m (data + 4 + i) = 0 := by
  constructor
  · intro hsame
    refine or_iff_not_imp_left.mpr fun hj => ?_
    have hzero : ∀ left i, i < 4 → 4 ≤ i + left → m (data + 4 + i) = 0 := by
      intro left
      induction left with
      | zero => omega
      | succ left ih =>
        intro i hi hleft
        rw [← hsame _ (by omega), h.upper i hi]
        by_cases hin : i + j < 4
        · rw [if_pos hin]
          exact ih _ hin (by omega)
        · exact if_neg hin
    exact fun i hi => hzero 4 i hi (by omega)
  · rintro hstill a ha
    by_cases hin : a < data + 8
    · obtain ⟨i, rfl⟩ : ∃ i, a = data + 4 + i := ⟨a - (data + 4), by omega⟩
      rw [h.upper i (by omega)]
      obtain rfl | hzero := hstill
      · simp only [Nat.add_zero, if_pos (show i < 4 by omega)]
      · rw [hzero i (by omega)]
        split_ifs with hin'
        · exact hzero _ hin'
        · rfl
    · exact h.outside a (by omega)

end Slid

/-- **Every round moves the upper half of the word once.** -/
theorem findSync_slid (data left : ℕ) (s : Host) :
    ∃ j, Slid data j s.mem (findSync data left s).2.mem ∧ (j = 0 ↔ synced data s.mem = true) := by
  induction left using Nat.strong_induction_on generalizing s with
  | _ left ih =>
    by_cases hsynced : synced data s.mem = true
    · rw [findSync_of_synced _ hsynced]
      exact ⟨0, .refl data s.mem, by simp [hsynced]⟩
    · have hround : Slid data 1 s.mem (readData (data + 3) 1 2 (shift data s)).2.mem :=
        (Slid.of_shift data s).trans (.of_readData (by omega) (by omega) _)
      obtain hlast | ⟨more, hmore, hgoes⟩ := findSync_host left hsynced
      · rw [hlast]
        exact ⟨1, hround, by simp [hsynced]⟩
      · obtain ⟨j, hj, -⟩ := ih more hmore (readData (data + 3) 1 2 (shift data s)).2
        rw [hgoes]
        exact ⟨1 + j, hround.trans hj, by simp [hsynced]⟩

/-! ## The requests -/

/-- What was requested on the way from `s` to `s'` lies in `[lo, hi)`. -/
def RequestsWithin (lo hi : ℕ) (s s' : Host) : Prop :=
  ∃ issued, s'.requests = s.requests ++ issued ∧ ∀ q ∈ issued, lo ≤ q.1 ∧ q.1 + q.2 ≤ hi

namespace RequestsWithin

variable {lo hi : ℕ} {s s' s'' : Host}

theorem refl (lo hi : ℕ) (s : Host) : RequestsWithin lo hi s s :=
  ⟨[], (List.append_nil _).symm, by simp⟩

theorem trans (h : RequestsWithin lo hi s s') (h' : RequestsWithin lo hi s' s'') :
    RequestsWithin lo hi s s'' := by
  obtain ⟨issued, hissued, hinside⟩ := h
  obtain ⟨issued', hissued', hinside'⟩ := h'
  refine ⟨issued ++ issued', ?_, ?_⟩
  · rw [hissued', hissued, List.append_assoc]
  · exact fun q hq => (List.mem_append.mp hq).elim (hinside q) (hinside' q)

theorem of_readData {a n tries : ℕ} (hlo : lo ≤ a) (hhi : a + n ≤ hi) (s : Host) :
    RequestsWithin lo hi s (readData a n tries s).2 := by
  obtain ⟨issued, hissued⟩ := readData_issued a n tries s
  refine ⟨issued, hissued.requests, fun q hq => ?_⟩
  have hends := hissued.ends q hq
  omega

end RequestsWithin

/-! ## The loads and the stores -/

/-- `findSync` with the accesses to `*syncword` it makes: a load for every test, a load and a store
for every shift. -/
def findSyncTraced (data left : ℕ) (s : Host) : (ℤ × Host) × List Memory.Access :=
  if synced data s.mem then ((4, s), [.load data 8])
  else
    let shifted := Memory.bytesOf (syncword data s.mem >>> 8) 8
    let r := readData (data + 3) 1 2 { s with mem := s.mem.store data shifted }
    let accesses : List Memory.Access := [.load data 8, .load data 8, .store data 8]
    if toInt r.1 = 0 then ((MPEG_FILE_EMPTY, r.2), accesses)
    else if toInt r.1 = -1 then ((MPEG_FILE_ERROR, r.2), accesses)
    else match left with
      | 0 => ((MPEG_SYNC_NOT_FOUND, r.2), accesses)
      | left + 1 =>
        let rest := findSyncTraced data left r.2
        (rest.1, accesses ++ rest.2)

/-- `readMpegHeader` with the accesses it makes itself; what `read` stores is told by the requests. -/
def readMpegHeaderTraced (data : ℕ) (size : ℤ) (s : Host) : (ℤ × Host) × List Memory.Access :=
  if size < 4 then ((MPEG_BUFFER_OVERFLOW, s), [])
  else
    let r := readData data 4 2 s
    if toInt r.1 = 0 then ((MPEG_FILE_EMPTY, r.2), [])
    else if toInt r.1 = -1 then ((MPEG_FILE_ERROR, r.2), [])
    else if toInt r.1 < 4 then ((MPEG_BUFFER_UNDERFLOW, r.2), [])
    else findSyncTraced data 1200 r.2

/-- **The trace is one of the search**: without it the same is done. -/
theorem findSyncTraced_fst (data left : ℕ) (s : Host) :
    (findSyncTraced data left s).1 = findSync data left s := by
  induction left generalizing s with
  | zero =>
    rw [findSyncTraced, findSync]
    simp only
    split_ifs <;> rfl
  | succ left ih =>
    rw [findSyncTraced, findSync]
    simp only
    split_ifs
    · rfl
    · rfl
    · rfl
    · exact ih _

theorem readMpegHeaderTraced_fst (data : ℕ) (size : ℤ) (s : Host) :
    (readMpegHeaderTraced data size s).1 = readMpegHeader data size s := by
  rw [readMpegHeaderTraced, readMpegHeader]
  simp only
  split_ifs
  · rfl
  · rfl
  · rfl
  · rfl
  · exact findSyncTraced_fst data 1200 _

/-- **The search begins with a load of the whole word.** -/
theorem load_mem_findSyncTraced (data left : ℕ) (s : Host) :
    Memory.Access.load data 8 ∈ (findSyncTraced data left s).2 := by
  rw [findSyncTraced.eq_def]
  simp only
  split_ifs
  · exact List.mem_cons_self
  · exact List.mem_cons_self
  · exact List.mem_cons_self
  · cases left with
    | zero => exact List.mem_cons_self
    | succ left => exact List.mem_append_left _ List.mem_cons_self

/-! ## The whole call -/

section Header

variable {size : ℤ}

/-- **Without its four bytes the call does not look at the buffer.** -/
theorem readMpegHeaderTraced_of_unserved {data : ℕ} {s : Host} (hsize : 4 ≤ size) (h : Unserved s) :
    (readMpegHeaderTraced data size s).2 = [] := by
  have hsmall := result_of_unserved data h
  rw [readMpegHeaderTraced, if_neg (by omega)]
  simp only
  split_ifs <;> rfl

/-- **With them it looks at the word they are the lower half of.** -/
theorem load_mem_readMpegHeaderTraced {data : ℕ} {s : Host} (hsize : 4 ≤ size) (h : ¬ Unserved s) :
    Memory.Access.load data 8 ∈ (readMpegHeaderTraced data size s).2 := by
  rw [readMpegHeaderTraced, if_neg (by omega)]
  simp only [(readData_header_iff data s).mpr h]
  rw [if_neg (by decide), if_neg (by decide), if_neg (by decide)]
  exact load_mem_findSyncTraced data 1200 _

/-- `readMpegHeader` reads and writes the four bytes of the header: it loads and stores nowhere else,
no read goes elsewhere, and no other byte is another one after the call. -/
structure TouchesHeaderOnly (data : ℕ) (size : ℤ) (s : Host) : Prop where
  accesses : ∀ a ∈ (readMpegHeaderTraced data size s).2, a.Within data (data + 4)
  requests : ∃ issued, (readMpegHeader data size s).2.requests = s.requests ++ issued ∧
    ∀ q ∈ issued, data ≤ q.1 ∧ q.1 + q.2 ≤ data + 4
  below : ∀ a < data, (readMpegHeader data size s).2.mem a = s.mem a
  above : ∀ a, data + 4 ≤ a → (readMpegHeader data size s).2.mem a = s.mem a

/-- **What the call does to the upper half of the word**: it is moved exactly if a search is made. -/
theorem readMpegHeader_slid (data : ℕ) (s : Host) (hsize : 4 ≤ size) :
    ∃ j, Slid data j s.mem (readMpegHeader data size s).2.mem ∧
      (j = 0 ↔ Unserved s ∨ HeaderAt s.file.rest 0) := by
  have hread : Slid data 0 s.mem (readData data 4 2 s).2.mem :=
    .of_readData (Nat.le_refl data) (Nat.le_refl (data + 4)) s
  by_cases hserved : Unserved s
  · rw [readMpegHeader_of_unserved hsize hserved]
    exact ⟨0, hread, by simp [hserved]⟩
  · obtain ⟨j, hj, hzero⟩ := findSync_slid data 1200 (readData data 4 2 s).2
    rw [readMpegHeader_of_served hsize hserved]
    refine ⟨0 + j, hread.trans hj, ?_⟩
    rw [Nat.zero_add, hzero, synced_iff_headerAt (window_of_served data hserved) (Nat.zero_le _)]
    tauto

/-- **The first request is for the header, the others for its fourth byte.** -/
theorem readMpegHeader_requests (data : ℕ) (s : Host) (hsize : 4 ≤ size) :
    RequestsWithin data (data + 4) s (readMpegHeader data size s).2 := by
  refine readMpegHeader_keeps hsize (RequestsWithin.refl _ _) RequestsWithin.trans
    (fun t => ?_) (fun t => ?_) s
  · exact .of_readData (Nat.le_refl data) (Nat.le_refl (data + 4)) t
  · exact RequestsWithin.of_readData (by omega) (by omega) (shift data t)

/-- **The caller's bytes are left as they were** exactly if the search has nothing to do or nothing to
move: the first header is not read, or it is one, or the four bytes behind it are zeros already. -/
theorem readMpegHeader_unchanged_iff (data : ℕ) (s : Host) (hsize : 4 ≤ size) :
    (∀ a, data + 4 ≤ a → (readMpegHeader data size s).2.mem a = s.mem a) ↔
      (Unserved s ∨ HeaderAt s.file.rest 0) ∨ ∀ i < 4, s.mem (data + 4 + i) = 0 := by
  obtain ⟨j, hj, hstill⟩ := readMpegHeader_slid data s hsize
  rw [← hstill]
  exact hj.unchanged_iff

/-- **Only the header is touched exactly if it is not there**: any four bytes that are read are tested
as the lower half of a word. -/
theorem touchesHeaderOnly_iff (data : ℕ) (size : ℤ) (s : Host) (hsize : 4 ≤ size) :
    TouchesHeaderOnly data size s ↔ Unserved s := by
  constructor
  · intro h
    by_contra hserved
    have hword := (h.accesses _ (load_mem_readMpegHeaderTraced hsize hserved)).2
    omega
  · intro hserved
    obtain ⟨j, hj, -⟩ := readMpegHeader_slid data s hsize
    refine ⟨?_, readMpegHeader_requests data s hsize, fun a ha => hj.outside a (.inl ha), ?_⟩
    · rw [readMpegHeaderTraced_of_unserved hsize hserved]
      exact fun a ha => absurd ha List.not_mem_nil
    · exact (readMpegHeader_unchanged_iff data s hsize).mpr (.inl (.inl hserved))

/-- A stream delivered as it is asked for, into a buffer of `0xaa`s. -/
def filled (stream : List (BitVec 8)) : Host where
  mem := fun _ => 0xaa
  file := { stream := stream, pos := 0, seekable := true, answers := .const (.bytes 4096) }
  errno := .other
  requests := []

/-- The first two bytes of a header, and the end of the stream. -/
theorem touchesHeaderOnly_cut : TouchesHeaderOnly 0 64 (filled [0xff, 0xf5]) :=
  (touchesHeaderOnly_iff 0 64 _ (by decide)).mpr (.inl (by decide))

/-- **One byte of noise is enough**: `data[7]` is a zero after the call. -/
theorem not_touchesHeaderOnly_noise :
    ¬ TouchesHeaderOnly 0 64 (filled [0x47, 0xff, 0xf5, 0x14, 0x00, 0x55]) := by
  intro h
  have hbyte : (readMpegHeader 0 64 (filled [0x47, 0xff, 0xf5, 0x14, 0x00, 0x55])).2.mem 7 = 0 := by
    decide +kernel
  have hsame : (readMpegHeader 0 64 (filled [0x47, 0xff, 0xf5, 0x14, 0x00, 0x55])).2.mem 7 = 0xaa :=
    h.above 7 (by omega)
  exact absurd (hbyte.symm.trans hsame) (by decide)

end Header

end Mpeg
