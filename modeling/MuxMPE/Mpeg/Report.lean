import Mathlib.Data.List.Basic
import MuxMPE.Mpeg.Delivery
import MuxMPE.Mpeg.Search

/-!
# Mpeg/Report — what a request that falls short reports

    answers              read                readData
    EAGAIN, EAGAIN       −1, −1              0        as at the end of the file
    bytes 3, ✗           3, −1               −1       and the three bytes are gone
    bytes 3, EAGAIN      3, −1               3
    bytes 0, EAGAIN      0, −1               0

`readData` is to report as `read` does, and does not always: `0` comes back for nothing but `EAGAIN` as
well as at the end of the file, and `-1` for a failure behind bytes already consumed.  The answers that
have it do so are told exactly (`reportsLikeRead_iff`), those met by `readMpegHeader` included.
-/

open Posix

namespace Mpeg

/-! ## What is promised -/

/-- One of the reads `last`, issued after the reads `before`, reported the end of the file. -/
def EndReported (s : Host) (before last : List (ℕ × ℕ)) (t : Host) : Prop :=
  t.requests = s.requests ++ (before ++ last) ∧ 0 ∈ (reads last (reads before s).2).1

/-- Failures are reported the way `read` does: nothing is returned only at the end of the file, and `-1`
only with the stream where it was.  For the header it is the last two reads that count, those of the
request that came back empty. -/
structure ReportsLikeRead (data size tries : ℕ) (s : Host) : Prop where
  empty : (readData data size tries s).1 = 0 →
    ∃ issued, EndReported s [] issued (readData data size tries s).2
  header : ∀ n, (readMpegHeader data n s).1 = MPEG_FILE_EMPTY →
    ∃ before q q', EndReported s before [q, q'] (readMpegHeader data n s).2
  error : (readData data size tries s).1 = -1 →
    (readData data size tries s).2.file.pos = s.file.pos

/-! ## Nothing but `EAGAIN` -/

/-- The next `tries` reads would all block. -/
def OnlyAgain (tries : ℕ) (as : Stream' Answer) : Prop := ∀ i < tries, as.get i = .fails .EAGAIN

section Request

variable {data size tries : ℕ} {s : Host}

theorem OnlyAgain.tail {as : Stream' Answer} (h : OnlyAgain (tries + 1) as) :
    OnlyAgain tries as.tail :=
  fun i hi => h (i + 1) (Nat.succ_lt_succ hi)

theorem OnlyAgain.of_tail {as : Stream' Answer} (hhead : as.head = .fails .EAGAIN)
    (h : OnlyAgain tries as.tail) : OnlyAgain (tries + 1) as
  | 0, _ => hhead
  | i + 1, hi => h i (Nat.lt_of_succ_lt_succ hi)

theorem not_onlyAgain {as : Stream' Answer} (h : as.head ≠ .fails .EAGAIN) :
    ¬ OnlyAgain (tries + 1) as :=
  fun hagain => h (hagain 0 (Nat.succ_pos tries))

/-- A request and the reads it issued: it comes back empty for nothing but `EAGAIN`, and otherwise only
if a read reported the end. -/
structure Replayed (size tries : ℕ) (s : Host) (issued : List (ℕ × ℕ)) (r : ℤ × Host) : Prop where
  after : After issued s r.2
  minus_one_le : -1 ≤ r.1
  length : r.1 = 0 → size ≠ 0 → issued.length = tries
  empty : r.1 = 0 → size ≠ 0 → (0 ∈ (reads issued s).1 ↔ ¬ OnlyAgain tries s.file.answers)
  again : OnlyAgain tries s.file.answers → r.1 = 0

theorem Replayed.after_bytes {k c : ℕ} {issued : List (ℕ × ℕ)} {r : ℤ × Host} (hsize : size ≠ 0)
    (hhead : s.file.answers.head = .bytes k) (hc : min (min size k) s.file.rest.length = c)
    (h : Replayed (size - c) tries (s.deliver data size (s.file.rest.take c)) issued r) :
    Replayed size (tries + 1) s ((data, size) :: issued) (joined c r) := by
  have hread : read data size s = ((c : ℤ), s.deliver data size (s.file.rest.take c)) :=
    read_bytes hhead hc
  have hnot : ¬ OnlyAgain (tries + 1) s.file.answers :=
    not_onlyAgain (by rw [hhead]; exact nofun)
  have hzero := joined_eq_zero (c := c) h.minus_one_le
  refine ⟨?_, minus_one_le_joined h.minus_one_le, fun hresult _ => ?_, fun hresult _ => ?_,
    fun hagain => absurd hagain hnot⟩
  · rw [joined_host]
    exact h.after.cons hread rfl
  · obtain ⟨rfl, hothers⟩ := hzero hresult
    rw [List.length_cons, h.length hothers hsize]
  · obtain ⟨rfl, -⟩ := hzero hresult
    have hreturned : (read data size s).1 = 0 := by rw [hread]; rfl
    exact iff_of_true (List.mem_cons.mpr (.inl hreturned.symm)) hnot

theorem Replayed.after_again {issued : List (ℕ × ℕ)} {r : ℤ × Host}
    (hhead : s.file.answers.head = .fails .EAGAIN)
    (h : Replayed size tries (s.fail data size .EAGAIN) issued r) :
    Replayed size (tries + 1) s ((data, size) :: issued) r where
  after := h.after.cons (read_fails hhead) rfl
  minus_one_le := h.minus_one_le
  length hresult hsize := by rw [List.length_cons, h.length hresult hsize]
  empty hresult hsize := by
    have hread : read data size s = (-1, s.fail data size .EAGAIN) := read_fails hhead
    have hothers : OnlyAgain (tries + 1) s.file.answers ↔
        OnlyAgain tries (s.fail data size .EAGAIN).file.answers := ⟨.tail, .of_tail hhead⟩
    have hblocked : (0 : ℤ) ≠ -1 := by decide
    rw [reads, hread, List.mem_cons, hothers, ← h.empty hresult hsize]
    exact or_iff_right hblocked
  again hagain := h.again hagain.tail

/-- **What a request reports is told by its reads.** -/
theorem readData_replayed (data size tries : ℕ) (s : Host) :
    ∃ issued, Replayed size tries s issued (readData data size tries s) := by
  refine readData_induction
    (motive := fun _ size tries s r => ∃ issued, Replayed size tries s issued r)
    ?idle ?bytes ?again ?fails data size tries s
  case idle =>
    have hnonneg : (-1 : ℤ) ≤ 0 := by omega
    refine fun data size tries s hidle => ⟨[], .idle rfl rfl, hnonneg, fun _ hsize => ?_,
      fun _ hsize => ?_, fun _ => rfl⟩
    · exact (hidle.resolve_left hsize).symm
    · obtain rfl := hidle.resolve_left hsize
      exact iff_of_false (List.not_mem_nil) fun hnot => hnot fun i hi => absurd hi (Nat.not_lt_zero i)
  case bytes =>
    rintro data size tries s k c r hsize hhead hc ⟨issued, hissued⟩
    exact ⟨_, hissued.after_bytes hsize hhead hc⟩
  case again =>
    rintro data size tries s r - hhead ⟨issued, hissued⟩
    exact ⟨_, hissued.after_again hhead⟩
  case fails =>
    intro data size tries s errno _ hhead herrno
    have hnot : ¬ OnlyAgain (tries + 1) s.file.answers :=
      not_onlyAgain (by rw [hhead]; exact fun heq => herrno (Answer.fails.inj heq))
    exact ⟨[(data, size)], (After.idle rfl rfl).cons (read_fails hhead) rfl, Int.le_refl _, nofun,
      nofun, fun hagain => absurd hagain hnot⟩

theorem readData_of_onlyAgain (data size : ℕ) (h : OnlyAgain tries s.file.answers) :
    (readData data size tries s).1 = 0 := by
  obtain ⟨issued, hissued⟩ := readData_replayed data size tries s
  exact hissued.again h

/-- **An empty request met the end of the file**, unless every read would have blocked. -/
theorem readData_endReported_iff (hsize : size ≠ 0) (h : (readData data size tries s).1 = 0) :
    (∃ issued, EndReported s [] issued (readData data size tries s).2) ↔
      ¬ OnlyAgain tries s.file.answers := by
  obtain ⟨issued, hissued⟩ := readData_replayed data size tries s
  rw [← hissued.empty h hsize]
  constructor
  · rintro ⟨others, hothers, hend⟩
    obtain rfl : others = issued :=
      List.append_cancel_left (hothers.symm.trans hissued.after.requests)
    exact hend
  · exact fun hend => ⟨issued, hissued.after.requests, hend⟩

/-! ## A failure behind consumed bytes -/

/-- The bytes an answer allows. -/
def offers : Answer → ℕ
  | .bytes k => k
  | .fails _ => 0

/-- The bytes the next `n` answers allow between them. -/
def offered : ℕ → Stream' Answer → ℕ
  | 0, _ => 0
  | n + 1, as => offers as.head + offered n as.tail

/-- A request for `size` of the `left` bytes still to come fails for good at its read `i`, the first such
answer, reached with bytes still missing. -/
structure FailsAt (size tries left : ℕ) (as : Stream' Answer) (i : ℕ) : Prop where
  lt : i < tries
  fails : FailsForGood (as.get i)
  first : ∀ j < i, ¬ FailsForGood (as.get j)
  missing : min (offered i as) left < size

/-- The request fails for good behind bytes it has consumed. -/
def FailsLate (size tries : ℕ) (s : Host) : Prop :=
  ∃ i, FailsAt size tries s.file.rest.length s.file.answers i ∧
    0 < min (offered i s.file.answers) s.file.rest.length

theorem FailsAt.of_head {left : ℕ} {as : Stream' Answer} (hsize : size ≠ 0)
    (h : FailsForGood as.head) : FailsAt size (tries + 1) left as 0 where
  lt := Nat.succ_pos tries
  fails := h
  first j hj := absurd hj (Nat.not_lt_zero j)
  missing := by
    rw [offered, Nat.zero_min]
    exact Nat.pos_of_ne_zero hsize

theorem delivers_eq (missing left : ℕ) (answer : Answer) :
    delivers missing left answer = min (min missing (offers answer)) left := by
  cases answer with
  | bytes k => rfl
  | fails errno => rw [delivers, offers, Nat.min_zero, Nat.zero_min]

section Offered

variable {left i c : ℕ} {as : Stream' Answer}

/-- Bytes are missing before a read exactly if they are for the request that follows the first. -/
theorem missing_succ_iff (hc : c = delivers size left as.head) :
    min (offered (i + 1) as) left < size ↔ min (offered i as.tail) (left - c) < size - c := by
  rw [delivers_eq] at hc
  rw [offered]
  omega

/-- **The bytes consumed before a read** are those of the first and those of the request that follows. -/
theorem min_offered_succ (hc : c = delivers size left as.head)
    (hmissing : min (offered i as.tail) (left - c) < size - c) :
    min (offered (i + 1) as) left = c + min (offered i as.tail) (left - c) := by
  rw [delivers_eq] at hc
  rw [offered]
  omega

/-- The first read does not fail for good, and the failure is one of the request that follows. -/
theorem failsAt_succ_iff (hanswer : ¬ FailsForGood as.head) (hc : c = delivers size left as.head) :
    FailsAt size (tries + 1) left as (i + 1) ↔ FailsAt (size - c) tries (left - c) as.tail i := by
  have hmissing := missing_succ_iff (i := i) hc
  constructor
  · exact fun h => ⟨Nat.lt_of_succ_lt_succ h.lt, h.fails,
      fun j hj => h.first (j + 1) (Nat.succ_lt_succ hj), hmissing.mp h.missing⟩
  · refine fun h => ⟨Nat.succ_lt_succ h.lt, h.fails, fun j hj => ?_, hmissing.mpr h.missing⟩
    cases j with
    | zero => exact hanswer
    | succ j => exact h.first j (Nat.lt_of_succ_lt_succ hj)

end Offered

/-- A request fails exactly at a failure for good, and has then consumed what was offered before it. -/
structure FailsThere (size tries : ℕ) (s : Host) (r : ℤ × Host) : Prop where
  minus_one_le : -1 ≤ r.1
  failed : r.1 = -1 → ∃ i, FailsAt size tries s.file.rest.length s.file.answers i
  there : ∀ i, FailsAt size tries s.file.rest.length s.file.answers i →
    r.1 = -1 ∧ r.2.file.pos = s.file.pos + min (offered i s.file.answers) s.file.rest.length

theorem FailsThere.after {c : ℕ} {t : Host} {r : ℤ × Host} (hread : ReadOnce data size s c t)
    (h : FailsThere (size - c) tries t r) : FailsThere size (tries + 1) s (joined c r) := by
  have hfailed := joined_failed_iff (c := c) h.minus_one_le
  refine ⟨minus_one_le_joined h.minus_one_le, fun hminus => ?_, fun i hi => ?_⟩
  · obtain ⟨i, hi⟩ := h.failed (hfailed.mp hminus)
    rw [hread.rest, hread.answers] at hi
    exact ⟨i + 1, (failsAt_succ_iff hread.answer hread.count).mpr hi⟩
  · cases i with
    | zero => exact absurd hi.fails hread.answer
    | succ i =>
      have hothers := (failsAt_succ_iff hread.answer hread.count).mp hi
      have hconsumed := min_offered_succ hread.count hothers.missing
      rw [← hread.rest, ← hread.answers] at hothers
      obtain ⟨hminus, hmoved⟩ := h.there i hothers
      refine ⟨hfailed.mpr hminus, ?_⟩
      rw [joined_host, hmoved, hread.pos, hconsumed, hread.rest, hread.answers, Nat.add_assoc]

theorem readData_failsThere (data size tries : ℕ) (s : Host) :
    FailsThere size tries s (readData data size tries s) := by
  refine readData_induction_once (motive := fun _ size tries s r => FailsThere size tries s r)
    ?idle ?once ?fails data size tries s
  case idle =>
    have hnonneg : (-1 : ℤ) ≤ 0 := by omega
    refine fun data size tries s hidle => ⟨hnonneg, nofun, fun i hi => ?_⟩
    have hlt := hi.lt
    have hmissing := hi.missing
    omega
  case once => exact fun data size tries s c t r _ hread h => h.after hread
  case fails =>
    intro data size tries s errno hsize hhead herrno
    have hgood : FailsForGood s.file.answers.head := ⟨errno, hhead, herrno⟩
    refine ⟨Int.le_refl _, fun _ => ⟨0, .of_head hsize hgood⟩, fun i hi => ⟨rfl, ?_⟩⟩
    obtain rfl : i = 0 := by
      by_contra hne
      exact hi.first 0 (Nat.pos_of_ne_zero hne) hgood
    rw [offered, Nat.zero_min]
    rfl

/-- **A failed request leaves the stream where it was**, unless it failed behind consumed bytes. -/
theorem readData_error_iff (data size tries : ℕ) (s : Host) :
    ((readData data size tries s).1 = -1 →
      (readData data size tries s).2.file.pos = s.file.pos) ↔ ¬ FailsLate size tries s := by
  have htold := readData_failsThere data size tries s
  constructor
  · rintro hkept ⟨i, hi, hconsumed⟩
    obtain ⟨hfailed, hpos⟩ := htold.there i hi
    have hsame := hkept hfailed
    omega
  · intro hnot hfailed
    obtain ⟨i, hi⟩ := htold.failed hfailed
    obtain ⟨-, hpos⟩ := htold.there i hi
    by_contra hmoved
    exact hnot ⟨i, hi, by omega⟩

end Request

/-! ## The requests of a header -/

/-- The answers that a request of `readMpegHeader` meets: that for the first four bytes, or that for the
byte behind a window that starts no header, as no window before it did. -/
def Meets (s : Host) (as : Stream' Answer) : Prop :=
  as = s.file.answers ∨ ∃ k ≤ 1200, k + 4 ≤ s.file.rest.length ∧
    (∀ j ≤ k, ¬ HeaderAt s.file.rest j) ∧
    ServesAll 2 (4 :: List.replicate k 1) s.file.answers as

/-- A request of `readMpegHeader` would block twice. -/
def Stalls (s : Host) : Prop := ∃ as, Meets s as ∧ OnlyAgain 2 as

/-- The call has searched up to offset `k` of the stream. -/
structure CameTo (data : ℕ) (n : ℤ) (s : Host) (k : ℕ) (t : Host) : Prop where
  le : k ≤ 1200
  call : readMpegHeader data n s = findSync data (1200 - k) t
  window : ∀ i < 4, s.file.rest[k + i]? = some (t.mem (data + i))
  rest : t.file.rest = s.file.rest.drop (k + 4)
  none : ∀ j < k, ¬ HeaderAt s.file.rest j
  after : ∃ before, After before s t
  served : ServesAll 2 (4 :: List.replicate k 1) s.file.answers t.file.answers

/-- The call ends with a request, made in state `t`, that comes back empty. -/
structure ComesBackEmpty (s t : Host) (r : ℤ × Host) : Prop where
  after : ∃ before, After before s t
  request : ∃ data size, size ≠ 0 ∧ (readData data size 2 t).1 = 0 ∧ r.2 = (readData data size 2 t).2

section Header

variable {data k : ℕ} {n : ℤ} {s t : Host}

theorem CameTo.start (data : ℕ) (hn : 4 ≤ n) (h : ¬ Unserved s) :
    CameTo data n s 0 (readData data 4 2 s).2 := by
  obtain ⟨hrest, hserves⟩ := not_or.mp h
  obtain ⟨as, has⟩ := not_not.mp hserves
  have hread := readData_of_serves data has (by omega) rfl (Nat.not_lt.mp hrest)
  obtain ⟨issued, hissued⟩ := readData_replayed data 4 2 s
  refine ⟨Nat.zero_le _, readMpegHeader_of_served hn h, window_of_served data h, ?_,
    fun j hj => absurd hj (Nat.not_lt_zero j), ⟨issued, hissued.after⟩, ?_⟩
  · rw [hread.file, File.rest, File.rest, List.drop_drop]
  · rw [hread.file]
    exact .cons has .nil

/-- The request for the next byte, as the call makes it. -/
theorem CameTo.after_shift (h : CameTo data n s k t) : ∃ before, After before s (shift data t) := by
  obtain ⟨before, hbefore⟩ := h.after
  exact ⟨before, hbefore.requests, hbefore.file⟩

theorem CameTo.not_synced (h : CameTo data n s k t) (hnot : ¬ HeaderAt s.file.rest k) :
    ¬ synced data t.mem = true :=
  fun hsynced => hnot ((synced_iff_headerAt h.window h.le).mp hsynced)

/-- **The search comes one byte further** if the window starts no header and the next byte is handed
out. -/
theorem CameTo.next (h : CameTo data n s k t) (hk : k < 1200) (hnot : ¬ HeaderAt s.file.rest k)
    {as : Stream' Answer} (hserves : Serves 2 1 t.file.answers as)
    (hmore : k + 5 ≤ s.file.rest.length) :
    CameTo data n s (k + 1) (readData (data + 3) 1 2 (shift data t)).2 ∧
      (readData (data + 3) 1 2 (shift data t)).2.file.answers = as := by
  have hleft : 1 ≤ (shift data t).file.rest.length := by
    have hrest : (shift data t).file.rest = s.file.rest.drop (k + 4) := h.rest
    rw [hrest, List.length_drop]
    omega
  have hread := readData_of_serves (s := shift data t) (data + 3) hserves (by omega) rfl hleft
  have hanswers : (readData (data + 3) 1 2 (shift data t)).2.file.answers = as := by
    rw [hread.file]
  obtain ⟨hwindow, hrest⟩ := window_next h.window h.rest hread hmore
  obtain ⟨before, hbefore⟩ := h.after_shift
  obtain ⟨issued, hissued⟩ := readData_replayed (data + 3) 1 2 (shift data t)
  refine ⟨⟨hk, ?_, hwindow, hrest, fun j hj => ?_, ⟨_, hbefore.trans hissued.after⟩, ?_⟩, hanswers⟩
  · have hrounds : 1200 - k = 1200 - (k + 1) + 1 := by omega
    rw [h.call, findSync_of_not_synced (h.not_synced hnot), hrounds]
    simp only [hread.result]
    rw [if_neg (by decide), if_neg (by decide)]
  · obtain hlt | rfl := Nat.lt_succ_iff_lt_or_eq.mp hj
    · exact h.none j hlt
    · exact hnot
  · rw [hanswers, List.replicate_succ', ← List.cons_append]
    exact h.served.append (.cons hserves .nil)

/-- **The answers bring the search to every offset** they hand out the bytes of, as long as no header
starts before it. -/
theorem cameTo_of_servesAll (data : ℕ) (hn : 4 ≤ n) (hk : k ≤ 1200)
    (hlen : k + 4 ≤ s.file.rest.length) (hnone : ∀ j < k, ¬ HeaderAt s.file.rest j)
    {as : Stream' Answer} (h : ServesAll 2 (4 :: List.replicate k 1) s.file.answers as) :
    ∃ t, CameTo data n s k t ∧ t.file.answers = as := by
  induction k generalizing as with
  | zero =>
    obtain _ | ⟨hserves, ⟨⟩⟩ := h
    have hserved : ¬ Unserved s := by
      rintro (hshort | hnot)
      · omega
      · exact hnot ⟨as, hserves⟩
    have hread := readData_of_serves data hserves (by omega) rfl (by omega)
    exact ⟨_, .start data hn hserved, by rw [hread.file]⟩
  | succ k ih =>
    rw [List.replicate_succ', ← List.cons_append] at h
    obtain ⟨bs, hfirst, hlast⟩ := ServesAll.append_inv h
    obtain _ | ⟨hserves, ⟨⟩⟩ := hlast
    obtain ⟨t, ht, rfl⟩ := ih (by omega) (by omega) (fun j hj => hnone j (by omega)) hfirst
    exact ⟨_, ht.next hk (hnone k (Nat.lt_succ_self k)) hserves (by omega)⟩

/-- An empty request ends the search. -/
theorem CameTo.empty (h : CameTo data n s k t) (hnot : ¬ HeaderAt s.file.rest k)
    (hzero : (readData (data + 3) 1 2 (shift data t)).1 = 0) :
    (readMpegHeader data n s).1 = MPEG_FILE_EMPTY ∧
      ComesBackEmpty s (shift data t) (readMpegHeader data n s) := by
  have hcall : readMpegHeader data n s =
      (MPEG_FILE_EMPTY, (readData (data + 3) 1 2 (shift data t)).2) := by
    rw [h.call, findSync_of_not_synced (h.not_synced hnot)]
    simp only [hzero]
    rw [if_pos (by decide)]
  rw [hcall]
  exact ⟨rfl, h.after_shift, data + 3, 1, Nat.one_ne_zero, hzero, rfl⟩

/-- A search that ends empty has read nothing in this round, or has rounds left. -/
theorem findSync_empty {left : ℕ} (hsynced : ¬ synced data s.mem = true)
    (h : (findSync data left s).1 = MPEG_FILE_EMPTY) :
    (readData (data + 3) 1 2 (shift data s)).1 = 0 ∨
      (readData (data + 3) 1 2 (shift data s)).1 = 1 ∧ left ≠ 0 := by
  obtain ⟨c, hc⟩ := readData_consumed (data + 3) 1 2 (shift data s)
  rw [findSync_of_not_synced hsynced] at h
  obtain hresult | hfailed := hc.result
  · obtain rfl | rfl := Nat.le_one_iff_eq_zero_or_eq_one.mp hc.le_size
    · exact .inl hresult
    · refine .inr ⟨hresult, ?_⟩
      rintro rfl
      have hother : MPEG_SYNC_NOT_FOUND ≠ MPEG_FILE_EMPTY := by decide
      simp only [hresult] at h
      rw [if_neg (by decide), if_neg (by decide)] at h
      exact absurd h hother
  · have hother : MPEG_FILE_ERROR ≠ MPEG_FILE_EMPTY := by decide
    simp only [hfailed] at h
    rw [if_neg (by decide), if_pos (by decide)] at h
    exact absurd h hother

/-- **An empty answer of the search comes from an empty request.** -/
theorem CameTo.empty_inv (h : CameTo data n s k t)
    (hempty : (readMpegHeader data n s).1 = MPEG_FILE_EMPTY) :
    ∃ k t, CameTo data n s k t ∧ ¬ HeaderAt s.file.rest k ∧
      (readData (data + 3) 1 2 (shift data t)).1 = 0 := by
  -- on the rounds left: the empty request is that of this round, or of one the search goes on to
  obtain ⟨left, hleft⟩ := Nat.exists_eq_add_of_le h.le
  induction left using Nat.strong_induction_on generalizing k t with
  | _ left ih =>
    have hsearch := hempty
    rw [h.call] at hsearch
    by_cases hheader : HeaderAt s.file.rest k
    · rw [findSync_of_synced _ ((synced_iff_headerAt h.window h.le).mpr hheader)] at hsearch
      exact absurd hsearch (show (4 : ℤ) ≠ MPEG_FILE_EMPTY by decide)
    · obtain hzero | ⟨hone, hrounds⟩ := findSync_empty (h.not_synced hheader) hsearch
      · exact ⟨k, t, h, hheader, hzero⟩
      · obtain ⟨hmore, as, has⟩ := serves_of_readData Nat.one_ne_zero hone
        have hrest : (shift data t).file.rest = s.file.rest.drop (k + 4) := h.rest
        rw [hrest, List.length_drop] at hmore
        exact ih (left - 1) (by omega) (h.next (by omega) hheader has (by omega)).1 (by omega)

/-- An empty first request ends the call before any search. -/
theorem readMpegHeader_of_nothing (hn : 4 ≤ n) (h : (readData data 4 2 s).1 = 0) :
    (readMpegHeader data n s).1 = MPEG_FILE_EMPTY ∧
      ComesBackEmpty s s (readMpegHeader data n s) := by
  have hcall : readMpegHeader data n s = (MPEG_FILE_EMPTY, (readData data 4 2 s).2) := by
    rw [readMpegHeader, if_neg (by omega)]
    simp only [h]
    rw [if_pos (by decide)]
  rw [hcall]
  exact ⟨rfl, ⟨[], .idle rfl rfl⟩, data, 4, by omega, h, rfl⟩

/-- One to three bytes make an underflow, and a failure an error: neither is empty. -/
theorem nothing_of_unserved (hn : 4 ≤ n) (hserved : Unserved s)
    (hempty : (readMpegHeader data n s).1 = MPEG_FILE_EMPTY) : (readData data 4 2 s).1 = 0 := by
  obtain ⟨c, hc⟩ := readData_consumed data 4 2 s
  have hle := hc.le_size
  have hne : (readData data 4 2 s).1 ≠ 4 := fun hfour => (readData_header_iff data s).mp hfour hserved
  rw [readMpegHeader, if_neg (by omega)] at hempty
  obtain hresult | hfailed := hc.result
  · have hint : toInt (readData data 4 2 s).1 = c := by
      rw [hresult]
      exact toInt_natCast (by omega)
    by_contra hsome
    have hother : MPEG_BUFFER_UNDERFLOW ≠ MPEG_FILE_EMPTY := by decide
    simp only [hint] at hempty
    rw [if_neg (by omega), if_neg (by omega), if_pos (by omega)] at hempty
    exact absurd hempty hother
  · have hother : MPEG_FILE_ERROR ≠ MPEG_FILE_EMPTY := by decide
    simp only [hfailed] at hempty
    rw [if_neg (by decide), if_pos (by decide)] at hempty
    exact absurd hempty hother

/-- **Empty headers come from empty requests**, made where the answers are those of `Meets`. -/
theorem comesBackEmpty_of_empty (hn : 4 ≤ n)
    (hempty : (readMpegHeader data n s).1 = MPEG_FILE_EMPTY) :
    ∃ t, Meets s t.file.answers ∧ ComesBackEmpty s t (readMpegHeader data n s) := by
  by_cases hserved : Unserved s
  · have hzero := nothing_of_unserved hn hserved hempty
    exact ⟨s, .inl rfl, (readMpegHeader_of_nothing hn hzero).2⟩
  · obtain ⟨k, t, ht, hnot, hzero⟩ := (CameTo.start data hn hserved).empty_inv hempty
    refine ⟨shift data t, .inr ⟨k, ht.le, length_le_of_window ht.window, fun j hj => ?_, ht.served⟩,
      (ht.empty hnot hzero).2⟩
    obtain hlt | rfl := Nat.lt_or_eq_of_le hj
    · exact ht.none j hlt
    · exact hnot

/-- **…and every request the call meets with nothing but `EAGAIN` is one.** -/
theorem empty_of_meets (data : ℕ) (hn : 4 ≤ n) {as : Stream' Answer} (h : Meets s as)
    (hagain : OnlyAgain 2 as) :
    (readMpegHeader data n s).1 = MPEG_FILE_EMPTY ∧
      ∃ t, t.file.answers = as ∧ ComesBackEmpty s t (readMpegHeader data n s) := by
  obtain rfl | ⟨k, hk, hlen, hnone, hserves⟩ := h
  · obtain ⟨hempty, hback⟩ := readMpegHeader_of_nothing hn (readData_of_onlyAgain data 4 hagain)
    exact ⟨hempty, s, rfl, hback⟩
  · obtain ⟨t, ht, rfl⟩ := cameTo_of_servesAll data hn hk hlen (fun j hj => hnone j hj.le) hserves
    obtain ⟨hempty, hback⟩ := ht.empty (hnone k (Nat.le_refl k))
      (readData_of_onlyAgain (data + 3) 1 hagain)
    exact ⟨hempty, shift data t, rfl, hback⟩

/-- The two reads of the empty request are the last of the call. -/
theorem ComesBackEmpty.endReported_iff {r : ℤ × Host} (h : ComesBackEmpty s t r) :
    (∃ before q q', EndReported s before [q, q'] r.2) ↔ ¬ OnlyAgain 2 t.file.answers := by
  obtain ⟨before, hbefore⟩ := h.after
  obtain ⟨data, size, hsize, hzero, hhost⟩ := h.request
  obtain ⟨issued, hissued⟩ := readData_replayed data size 2 t
  obtain ⟨q, q', rfl⟩ := List.length_eq_two.mp (hissued.length hzero hsize)
  have hall := hbefore.trans hissued.after
  have hsame : (reads [q, q'] (reads before s).2).1 = (reads [q, q'] t).1 :=
    (reads_congr [q, q'] hbefore.file.symm).1
  rw [← hissued.empty hzero hsize, ← hsame, hhost]
  constructor
  · rintro ⟨others, p, p', hothers, hend⟩
    obtain ⟨rfl, hlast⟩ := List.append_inj' (List.append_cancel_left
      (hothers.symm.trans hall.requests)) rfl
    rwa [hlast] at hend
  · exact fun hend => ⟨before, q, q', hall.requests, hend⟩

/-- **An empty header met the end of the file**, unless a request blocked twice. -/
theorem readMpegHeader_empty_iff (data : ℕ) (s : Host) :
    (∀ n, (readMpegHeader data n s).1 = MPEG_FILE_EMPTY →
      ∃ before q q', EndReported s before [q, q'] (readMpegHeader data n s).2) ↔ ¬ Stalls s := by
  constructor
  · rintro hreports ⟨as, has, hagain⟩
    obtain ⟨hempty, t, rfl, hback⟩ := empty_of_meets data (n := 4) (Int.le_refl 4) has hagain
    exact hback.endReported_iff.mp (hreports 4 hempty) hagain
  · intro hnot n hempty
    by_cases hn : 4 ≤ n
    · obtain ⟨t, ht, hback⟩ := comesBackEmpty_of_empty hn hempty
      exact hback.endReported_iff.mpr fun hagain => hnot ⟨_, ht, hagain⟩
    · rw [readMpegHeader, if_pos (by omega)] at hempty
      exact absurd hempty (show MPEG_BUFFER_OVERFLOW ≠ MPEG_FILE_EMPTY by decide)

end Header

/-! ## When the promise is kept -/

/-- **Failures are reported the way `read` reports them exactly if** not all tries block, no failure comes
behind consumed bytes, and no request for the header blocks twice. -/
theorem reportsLikeRead_iff (data size tries : ℕ) (s : Host) (hsize : size ≠ 0) :
    ReportsLikeRead data size tries s ↔
      ¬ OnlyAgain tries s.file.answers ∧ ¬ FailsLate size tries s ∧ ¬ Stalls s := by
  constructor
  · intro h
    refine ⟨fun hagain => ?_, (readData_error_iff data size tries s).mp h.error,
      (readMpegHeader_empty_iff data s).mp h.header⟩
    have hzero := readData_of_onlyAgain data size hagain
    exact (readData_endReported_iff hsize hzero).mp (h.empty hzero) hagain
  · rintro ⟨hagain, hlate, hstalls⟩
    exact ⟨fun hzero => (readData_endReported_iff hsize hzero).mpr hagain,
      (readMpegHeader_empty_iff data s).mpr hstalls, (readData_error_iff data size tries s).mpr hlate⟩

/-! ### A descriptor that never fails keeps it -/

section NeverFails

variable {size tries : ℕ} {s : Host}

theorem not_onlyAgain_of_neverFails (htries : tries ≠ 0) {as : Stream' Answer} (h : NeverFails as) :
    ¬ OnlyAgain tries as :=
  fun hagain => h.get_ne 0 .EAGAIN (hagain 0 (Nat.pos_of_ne_zero htries))

theorem not_failsLate_of_neverFails (h : NeverFails s.file.answers) : ¬ FailsLate size tries s := by
  rintro ⟨i, hi, -⟩
  obtain ⟨errno, hfails, -⟩ := hi.fails
  exact h.get_ne i errno hfails

theorem not_stalls_of_neverFails (h : NeverFails s.file.answers) : ¬ Stalls s := by
  rintro ⟨as, rfl | ⟨k, -, -, -, hserves⟩, hagain⟩
  · exact not_onlyAgain_of_neverFails (by decide) h hagain
  · exact not_onlyAgain_of_neverFails (by decide) (hserves.neverFails h) hagain

end NeverFails

theorem reportsLikeRead_iff_noisy : ReportsLikeRead 0 4 2 noisy :=
  have hbytes : NeverFails noisy.file.answers := fun _ => ⟨4096, rfl⟩
  (reportsLikeRead_iff 0 4 2 noisy (by decide)).mpr ⟨not_onlyAgain_of_neverFails (by decide) hbytes,
    not_failsLate_of_neverFails hbytes, not_stalls_of_neverFails hbytes⟩

/-- A pipe that has nothing yet when it is asked. -/
def blocked : Host :=
  { noisy with file := { noisy.file with
      answers := .cons (.fails .EAGAIN) (.cons (.fails .EAGAIN) (.const (.bytes 4096))) } }

/-- A descriptor that fails behind the first byte. -/
def cut : Host :=
  { noisy with file := { noisy.file with
      answers := .cons (.bytes 1) (.cons (.fails .other) (.const (.bytes 4096))) } }

/-- **The end of a stream that has not ended, and a byte lost to a failure.** -/
theorem not_reportsLikeRead :
    (blocked.file.rest.length = 8 ∧ (reads [(0, 4), (0, 4)] blocked).1 = [-1, -1] ∧
      (readData 0 4 2 blocked).1 = 0 ∧ (readMpegHeader 0 4 blocked).1 = MPEG_FILE_EMPTY ∧
      ¬ ReportsLikeRead 0 4 2 blocked) ∧
    (readData 0 4 2 cut).1 = -1 ∧ (readData 0 4 2 cut).2.file.pos = 1 ∧
      ¬ ReportsLikeRead 0 4 2 cut := by
  have hblocked : OnlyAgain 2 blocked.file.answers := by
    rintro (_ | _ | i) hi
    · rfl
    · rfl
    · omega
  refine ⟨⟨rfl, rfl, rfl, rfl, fun h => ?_⟩, rfl, rfl, fun h => ?_⟩
  · exact (readData_endReported_iff (by decide) rfl).mp (h.empty rfl) hblocked
  · have hmoved : (readData 0 4 2 cut).2.file.pos = 1 := rfl
    exact absurd (hmoved.symm.trans (h.error rfl)) (by decide)

end Mpeg
