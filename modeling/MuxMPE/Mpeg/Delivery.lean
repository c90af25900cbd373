import Mathlib.Algebra.GroupWithZero.Nat
import MuxMPE.Mpeg.ReadData

/-!
# Mpeg/Delivery — what the reads of one request deliver, read by read

    asks      data, size     data + c₁, size − c₁     data + c₁ + c₂, size − c₁ − c₂   ⋯
    delivers      c₁                  c₂                          c₃                   ⋯

A request is told by the counts its reads delivered, one for each read.  They fix what every read asked
for, and with the answers of the descriptor what the caller is returned: their sum, unless the last read
failed for good.
-/

open Posix

namespace Mpeg

/-- The `(address, size)` of the reads that deliver `counts`: each asks for what is still missing. -/
def asks (data size : ℕ) : List ℕ → List (ℕ × ℕ)
  | [] => []
  | c :: counts => (data, size) :: asks (data + c) (size - c) counts

/-- How many bytes a read delivers that asks for `missing` of them with `left` to come. -/
def delivers (missing left : ℕ) : Answer → ℕ
  | .bytes k => min (min missing k) left
  | .fails _ => 0

/-- A failure that is not for want of data. -/
def FailsForGood (answer : Answer) : Prop := ∃ errno, answer = .fails errno ∧ errno ≠ .EAGAIN

/-- The first read of a request, unless it fails for good: it delivers `c` bytes, or none because the
call would block. -/
structure ReadOnce (data size : ℕ) (s : Host) (c : ℕ) (t : Host) : Prop where
  answer : ¬ FailsForGood s.file.answers.head
  count : c = delivers size s.file.rest.length s.file.answers.head
  requests : t.requests = s.requests ++ [(data, size)]
  answers : t.file.answers = s.file.answers.tail
  pos : t.file.pos = s.file.pos + c
  rest : t.file.rest.length = s.file.rest.length - c

/-- A request told by its reads. -/
structure Reads (data size tries : ℕ) (s : Host) (counts : List ℕ) (r : ℤ × Host) : Prop where
  length_le : counts.length ≤ tries
  requests : r.2.requests = s.requests ++ asks data size counts
  count : ∀ i < counts.length, counts[i]? = some (delivers (size - (counts.take i).sum)
    (s.file.rest.length - (counts.take i).sum) (s.file.answers.get i))
  fails : r.1 = -1 ↔ ∃ i < counts.length, FailsForGood (s.file.answers.get i)
  result : r.1 ≠ -1 → r.1 = counts.sum
  exhausted : r.1 ≠ -1 → counts.sum < size → counts.length = tries

section Request

variable {data size tries : ℕ} {s : Host}

theorem ReadOnce.of_bytes {k c : ℕ} (hhead : s.file.answers.head = .bytes k)
    (hc : min (min size k) s.file.rest.length = c) :
    ReadOnce data size s c (s.deliver data size (s.file.rest.take c)) := by
  have hle : c ≤ s.file.rest.length := by omega
  refine ⟨?_, ?_, rfl, rfl, ?_, ?_⟩
  · rintro ⟨errno, hfails, -⟩
    exact nomatch hhead.symm.trans hfails
  · rw [hhead, ← hc]
    rfl
  · rw [Host.deliver, List.length_take_of_le hle]
  · rw [rest_deliver data size hle, List.length_drop]

theorem ReadOnce.of_again (hhead : s.file.answers.head = .fails .EAGAIN) :
    ReadOnce data size s 0 (s.fail data size .EAGAIN) := by
  refine ⟨?_, ?_, rfl, rfl, rfl, rfl⟩
  · rintro ⟨errno, hfails, herrno⟩
    rw [hhead, Answer.fails.injEq] at hfails
    exact herrno hfails.symm
  · rw [hhead]
    rfl

/-- **A request is a sequence of reads**, to a failure for good or until nothing is left of it. -/
theorem readData_induction_once {motive : ℕ → ℕ → ℕ → Host → ℤ × Host → Prop}
    (idle : ∀ data size tries s, size = 0 ∨ tries = 0 → motive data size tries s (0, s))
    (once : ∀ data size tries s c t r, size ≠ 0 → ReadOnce data size s c t →
      motive (data + c) (size - c) tries t r → motive data size (tries + 1) s (joined c r))
    (fails : ∀ data size tries s errno, size ≠ 0 → s.file.answers.head = .fails errno →
      errno ≠ .EAGAIN → motive data size (tries + 1) s (-1, s.fail data size errno))
    (data size tries : ℕ) (s : Host) : motive data size tries s (readData data size tries s) := by
  refine readData_induction (motive := motive) idle ?bytes ?again fails data size tries s
  case bytes =>
    exact fun data size tries s k c r hsize hhead hc h =>
      once data size tries s c _ r hsize (.of_bytes hhead hc) h
  case again =>
    intro data size tries s r hsize hhead h
    have hagain := once data size tries s 0 _ r hsize (.of_again hhead) h
    rwa [joined_zero] at hagain

theorem Reads.nothing (h : size = 0 ∨ tries = 0) : Reads data size tries s [] (0, s) where
  length_le := Nat.zero_le tries
  requests := (List.append_nil _).symm
  count := by simp
  fails := by simp
  result _ := rfl
  exhausted _ hshort := by
    rw [List.sum_nil] at hshort
    exact (h.resolve_left (Nat.ne_of_gt hshort)).symm

/-- A request that goes on after a read. -/
theorem Reads.after {c : ℕ} {t : Host} {counts : List ℕ} {r : ℤ × Host}
    (hread : ReadOnce data size s c t) (h : Reads (data + c) (size - c) tries t counts r) :
    Reads data size (tries + 1) s (c :: counts) (joined c r) := by
  have hfailed : (joined c r).1 = -1 ↔ r.1 = -1 := by
    refine joined_failed_iff ?_
    by_contra hbelow
    have hsum := h.result (by omega)
    omega
  have hget (i : ℕ) : t.file.answers.get i = s.file.answers.get (i + 1) := by
    rw [hread.answers]
    rfl
  refine ⟨Nat.succ_le_succ h.length_le, ?_, fun i hi => ?_, ?_, fun hdone => ?_,
    fun hdone hshort => ?_⟩
  · rw [joined_host, h.requests, hread.requests, List.append_assoc]
    rfl
  · cases i with
    | zero =>
      rw [List.getElem?_cons_zero, hread.count]
      rfl
    | succ i =>
      rw [List.getElem?_cons_succ, h.count i (Nat.lt_of_succ_lt_succ hi), List.take_succ_cons,
        List.sum_cons, hread.rest, hget, Nat.sub_sub, Nat.sub_sub]
  · rw [hfailed, h.fails]
    constructor
    · rintro ⟨i, hi, hfails⟩
      exact ⟨i + 1, Nat.succ_lt_succ hi, hget i ▸ hfails⟩
    · rintro ⟨i, hi, hfails⟩
      cases i with
      | zero => exact absurd hfails hread.answer
      | succ i => exact ⟨i, Nat.lt_of_succ_lt_succ hi, (hget i).symm ▸ hfails⟩
  · have hothers : r.1 ≠ -1 := mt hfailed.mpr hdone
    rw [joined_result hothers, List.sum_cons, Nat.cast_add, h.result hothers]
  · have hothers : r.1 ≠ -1 := mt hfailed.mpr hdone
    rw [List.sum_cons] at hshort
    rw [List.length_cons, h.exhausted hothers (by omega)]

theorem Reads.failed {errno : Errno} (hhead : s.file.answers.head = .fails errno)
    (herrno : errno ≠ .EAGAIN) :
    Reads data size (tries + 1) s [0] (-1, s.fail data size errno) where
  length_le := Nat.succ_le_succ (Nat.zero_le tries)
  requests := rfl
  count i hi := by
    obtain rfl : i = 0 := Nat.lt_one_iff.mp hi
    have hget : s.file.answers.get 0 = .fails errno := hhead
    rw [hget]
    rfl
  fails := iff_of_true rfl ⟨0, Nat.one_pos, errno, hhead, herrno⟩
  result hdone := absurd rfl hdone
  exhausted hdone := absurd rfl hdone

/-- **Every request is told by its reads.** -/
theorem readData_reads (data size tries : ℕ) (s : Host) :
    ∃ counts, Reads data size tries s counts (readData data size tries s) := by
  refine readData_induction_once
    (motive := fun data size tries s r => ∃ counts, Reads data size tries s counts r)
    ?idle ?once ?fails data size tries s
  case idle => exact fun _ _ _ _ h => ⟨[], .nothing h⟩
  case once =>
    rintro data size tries s c t r - hread ⟨counts, hcounts⟩
    exact ⟨c :: counts, hcounts.after hread⟩
  case fails =>
    exact fun data size tries s errno _ hhead herrno => ⟨[0], .failed hhead herrno⟩

/-- The next `n` bytes, and no others, are in the buffer from `data` on. -/
structure Stored (data size n : ℕ) (s t : Host) : Prop where
  le_size : n ≤ size
  le_rest : n ≤ s.file.rest.length
  pos : t.file.pos = s.file.pos + n
  stream : t.file.stream = s.file.stream
  window : t.mem.window data n = s.file.rest.take n
  outside : ∀ a, a < data ∨ data + n ≤ a → t.mem a = s.mem a

theorem Consumed.stored {c : ℕ} {r : ℤ × Host} (h : Consumed data size s c r) :
    Stored data size c s r.2 :=
  ⟨h.le_size, h.le_rest, h.pos, h.stream, h.window, fun _ => h.outside⟩

/-- **A request delivers what it consumed**: its result is `-1` if one of its reads fails for good, and
otherwise the number of the bytes stored, short of `size` only after all tries. -/
theorem readData_delivers (data size tries : ℕ) (s : Host) :
    ∃ counts, Reads data size tries s counts (readData data size tries s) ∧
      ((readData data size tries s).1 ≠ -1 →
        ∃ n : ℕ, (readData data size tries s).1 = n ∧
          Stored data size n s (readData data size tries s).2 ∧
          (n < size → counts.length = tries)) := by
  obtain ⟨counts, hcounts⟩ := readData_reads data size tries s
  obtain ⟨c, hc⟩ := readData_consumed data size tries s
  refine ⟨counts, hcounts, fun hdone => ?_⟩
  have hresult := hc.result.resolve_right hdone
  have hsum : counts.sum = c := Int.natCast_inj.mp ((hcounts.result hdone).symm.trans hresult)
  exact ⟨c, hresult, hc.stored, fun hshort => hcounts.exhausted hdone (hsum ▸ hshort)⟩

end Request

end Mpeg
