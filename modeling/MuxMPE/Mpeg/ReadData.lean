import Mathlib.Algebra.Group.Nat.Defs
import Mathlib.Algebra.Ring.Int.Defs
import MuxMPE.Machinery.Descriptor

/-!
# Mpeg/ReadData — one request, in several reads

    request   data ├───────────── size ─────────────┤
    try 1          ├──── c₁ ────┤                       the descriptor delivers what it likes
    try 2                       ├──── c₂ ────┤          each read asks for all that is missing
                   └──── consumed, stored ───┘

Whatever the descriptor answers, the bytes consumed are those stored (`Consumed`) and no read reaches
behind the request (`Issued`); the request is met in full exactly if the bytes are there and the
answers hand them out in time (`readData_of_serves`, `serves_of_readData`).
-/

open Posix

namespace Mpeg

/-! ## Integers -/

/-- `int` from a wider value. -/
def toInt (n : ℤ) : ℤ := n.bmod (2 ^ 32)

/-- `size_t` from an `int`: a negative one comes out close to `2 ^ 64`. -/
def toSize (n : ℤ) : ℕ := (n % 2 ^ 64).toNat

theorem toInt_natCast {n : ℕ} (h : n < 2 ^ 31) : toInt n = n := by
  rw [toInt, Int.bmod_eq_of_le] <;> omega

theorem toSize_natCast {n : ℕ} (h : n < 2 ^ 64) : toSize n = n := by
  rw [toSize]
  omega

/-! ## Reading -/

/-- Reads until all bytes are there, at most `tries` times. -/
def readData (data size : ℕ) : ℕ → Host → ℤ × Host
  | 0, s => (0, s)
  | tries + 1, s =>
    if size = 0 then (0, s)
    else
      let r := read data size s
      if r.1 = -1 then
        if r.2.errno = .EAGAIN then readData data size tries r.2 else (-1, r.2)
      else
        let offset := r.1.toNat
        let r' := readData (data + offset) (size - offset) tries r.2
        if r'.1 = -1 then (-1, r'.2) else (offset + r'.1, r'.2)

@[simp] theorem readData_zero (data tries : ℕ) (s : Host) : readData data 0 tries s = (0, s) := by
  cases tries <;> rfl

/-- What a request returns whose first read delivered `c` bytes, the one for the others coming to `r`. -/
def joined (c : ℕ) (r : ℤ × Host) : ℤ × Host := if r.1 = -1 then (-1, r.2) else (c + r.1, r.2)

section Joined

variable {c : ℕ} {r : ℤ × Host}

@[simp] theorem joined_host (c : ℕ) (r : ℤ × Host) : (joined c r).2 = r.2 := by
  rw [joined]
  split <;> rfl

theorem joined_fst (c : ℕ) (r : ℤ × Host) :
    (joined c r).1 = if r.1 = -1 then -1 else c + r.1 := by
  rw [joined]
  split <;> rfl

/-- Nothing read before changes nothing. -/
theorem joined_zero (r : ℤ × Host) : joined 0 r = r := by
  ext
  · rw [joined_fst]
    split_ifs with hfailed
    · exact hfailed.symm
    · exact Int.zero_add r.1
  · rw [joined_host]

theorem joined_result (h : r.1 ≠ -1) : (joined c r).1 = c + r.1 := by rw [joined_fst, if_neg h]

/-- **A request fails where it goes on failing**, and returns nothing where both parts return nothing. -/
theorem joined_failed_iff (h : -1 ≤ r.1) : (joined c r).1 = -1 ↔ r.1 = -1 := by
  rw [joined_fst]
  split_ifs <;> omega

theorem joined_eq_zero (h : -1 ≤ r.1) (hzero : (joined c r).1 = 0) : c = 0 ∧ r.1 = 0 := by
  rw [joined_fst] at hzero
  split_ifs at hzero
  omega

theorem minus_one_le_joined (h : -1 ≤ r.1) : -1 ≤ (joined c r).1 := by
  rw [joined_fst]
  split_ifs <;> omega

end Joined

/-- The whole of a request is there: `n` bytes stored at `data`, the answers left being `as`. -/
structure Delivered (data n : ℕ) (as : Stream' Answer) (s : Host) (r : ℤ × Host) : Prop where
  result : r.1 = n
  mem : r.2.mem = s.mem.store data (s.file.rest.take n)
  file : r.2.file = { s.file with pos := s.file.pos + n, answers := as }

section Retry

variable {data size tries : ℕ} {s : Host}

/-- One try that delivers `c` bytes leaves the rest of the request to the others. -/
theorem readData_of_bytes {k c : ℕ} (hsize : size ≠ 0) (h : s.file.answers.head = .bytes k)
    (hc : min (min size k) s.file.rest.length = c) :
    readData data size (tries + 1) s = joined c
      (readData (data + c) (size - c) tries (s.deliver data size (s.file.rest.take c))) := by
  have hne : (c : ℤ) ≠ -1 := by omega
  simp only [readData, if_neg hsize, read_bytes h hc, if_neg hne, Int.toNat_natCast, joined]

/-- `EAGAIN` costs one of the tries. -/
theorem readData_of_again (hsize : size ≠ 0) (h : s.file.answers.head = .fails .EAGAIN) :
    readData data size (tries + 1) s = readData data size tries (s.fail data size .EAGAIN) := by
  rw [readData, if_neg hsize, read_fails h, if_pos rfl]
  exact if_pos rfl

/-- Any other failure ends the call. -/
theorem readData_of_fails {errno : Errno} (hsize : size ≠ 0)
    (h : s.file.answers.head = .fails errno) (herrno : errno ≠ .EAGAIN) :
    readData data size (tries + 1) s = (-1, s.fail data size errno) := by
  rw [readData, if_neg hsize, read_fails h, if_pos rfl]
  exact if_neg herrno

/-- **A request is a sequence of tries**: nothing is left of it, or some bytes come and then the rest, or
it is made once more after an `EAGAIN`, or it fails. -/
theorem readData_induction {motive : ℕ → ℕ → ℕ → Host → ℤ × Host → Prop}
    (idle : ∀ data size tries s, size = 0 ∨ tries = 0 → motive data size tries s (0, s))
    (bytes : ∀ data size tries s k c r, size ≠ 0 → s.file.answers.head = .bytes k →
      min (min size k) s.file.rest.length = c →
      motive (data + c) (size - c) tries (s.deliver data size (s.file.rest.take c)) r →
      motive data size (tries + 1) s (joined c r))
    (again : ∀ data size tries s r, size ≠ 0 → s.file.answers.head = .fails .EAGAIN →
      motive data size tries (s.fail data size .EAGAIN) r → motive data size (tries + 1) s r)
    (fails : ∀ data size tries s errno, size ≠ 0 → s.file.answers.head = .fails errno →
      errno ≠ .EAGAIN → motive data size (tries + 1) s (-1, s.fail data size errno))
    (data size tries : ℕ) (s : Host) : motive data size tries s (readData data size tries s) := by
  induction tries generalizing data size s with
  | zero => exact idle data size 0 s (.inr rfl)
  | succ tries ih =>
    by_cases hsize : size = 0
    · have hidle := idle data size (tries + 1) s (.inl hsize)
      rw [hsize, readData_zero]
      rwa [hsize] at hidle
    · cases hhead : s.file.answers.head with
      | bytes k =>
        rw [readData_of_bytes hsize hhead rfl]
        exact bytes data size tries s k _ _ hsize hhead rfl (ih _ _ _)
      | fails errno =>
        by_cases herrno : errno = .EAGAIN
        · subst herrno
          rw [readData_of_again hsize hhead]
          exact again data size tries s _ hsize hhead (ih _ _ _)
        · rw [readData_of_fails hsize hhead herrno]
          exact fails data size tries s errno hsize hhead herrno

/-- What a request comes to, whatever the answers: the next `c` bytes are consumed and stored at
`data`, and their number is the result unless a failure came after them. -/
structure Consumed (data size : ℕ) (s : Host) (c : ℕ) (r : ℤ × Host) : Prop where
  le_size : c ≤ size
  le_rest : c ≤ s.file.rest.length
  result : r.1 = c ∨ r.1 = -1
  mem : r.2.mem = s.mem.store data (s.file.rest.take c)
  pos : r.2.file.pos = s.file.pos + c
  stream : r.2.file.stream = s.file.stream
  seekable : r.2.file.seekable = s.file.seekable

/-- A request that moved nothing. -/
theorem Consumed.nothing {r : ℤ × Host} (hresult : r.1 = 0 ∨ r.1 = -1) (hmem : r.2.mem = s.mem)
    (hstream : r.2.file.stream = s.file.stream) (hpos : r.2.file.pos = s.file.pos)
    (hseekable : r.2.file.seekable = s.file.seekable) : Consumed data size s 0 r where
  le_size := Nat.zero_le _
  le_rest := Nat.zero_le _
  result := hresult
  mem := by rw [List.take_zero, Memory.store_nil, hmem]
  pos := hpos
  stream := hstream
  seekable := hseekable

/-- **What was consumed stands where it was asked for**, and everything else where it was. -/
theorem Consumed.window {c : ℕ} {r : ℤ × Host} (h : Consumed data size s c r) :
    r.2.mem.window data c = s.file.rest.take c := by
  have hlen : (s.file.rest.take c).length = c := List.length_take_of_le h.le_rest
  have hstored := s.mem.window_store data (s.file.rest.take c)
  rwa [hlen, ← h.mem] at hstored

/-- What lies outside the bytes consumed is as before. -/
theorem Consumed.outside {c : ℕ} {r : ℤ × Host} (h : Consumed data size s c r) {a : ℕ}
    (ha : a < data ∨ data + c ≤ a) : r.2.mem a = s.mem a := by
  have hlen : (s.file.rest.take c).length = c := List.length_take_of_le h.le_rest
  rw [h.mem]
  exact s.mem.store_outside data (by rwa [hlen])

/-- A read that delivers `c` bytes, and a request for those still missing. -/
theorem Consumed.after {c d : ℕ} {r : ℤ × Host} (hsize : c ≤ size) (hrest : c ≤ s.file.rest.length)
    (h : Consumed (data + c) (size - c) (s.deliver data size (s.file.rest.take c)) d r) :
    Consumed data size s (c + d) (joined c r) := by
  have hmoved := rest_deliver (s := s) data size hrest
  have hlen : (s.file.rest.take c).length = c := List.length_take_of_le hrest
  have hle_size := h.le_size
  have hle_rest := h.le_rest
  rw [hmoved, List.length_drop] at hle_rest
  refine ⟨by omega, by omega, ?_, ?_, ?_, ?_, ?_⟩
  · obtain hdelivered | hfailed := h.result
    · rw [joined_result (by omega), hdelivered]
      exact .inl (Nat.cast_add c d).symm
    · exact .inr (by rw [joined_fst, if_pos hfailed])
  · rw [joined_host, h.mem, store_deliver _ _ hrest]
  · rw [joined_host, h.pos, Host.deliver, hlen, Nat.add_assoc]
  · rw [joined_host, h.stream, Host.deliver]
  · rw [joined_host, h.seekable, Host.deliver]

/-- **Whatever the descriptor does**, what was consumed is in the buffer. -/
theorem readData_consumed (data size tries : ℕ) (s : Host) :
    ∃ c, Consumed data size s c (readData data size tries s) := by
  refine readData_induction (motive := fun data size _ s r => ∃ c, Consumed data size s c r)
    ?idle ?bytes ?again ?fails data size tries s
  case idle => exact fun _ _ _ _ _ => ⟨0, .nothing (.inl rfl) rfl rfl rfl rfl⟩
  case bytes =>
    rintro data size tries s k c r - - hc ⟨d, hd⟩
    exact ⟨c + d, .after (by omega) (by omega) hd⟩
  case again =>
    rintro data size tries s r - - ⟨c, hc⟩
    exact ⟨c, hc.le_size, hc.le_rest, hc.result, hc.mem, hc.pos, hc.stream, hc.seekable⟩
  case fails => exact fun _ _ _ _ _ _ _ _ => ⟨0, .nothing (.inr rfl) rfl rfl rfl rfl⟩

/-- The reads a request issues: the first asks for all of it, and every one ends where it ends. -/
structure Issued (data size tries : ℕ) (s : Host) (issued : List (ℕ × ℕ)) (r : ℤ × Host) : Prop where
  requests : r.2.requests = s.requests ++ issued
  ends : ∀ q ∈ issued, data ≤ q.1 ∧ q.1 + q.2 = data + size
  first : size ≠ 0 → tries ≠ 0 → issued.head? = some (data, size)

theorem Issued.nothing {r : ℤ × Host} (h : size = 0 ∨ tries = 0)
    (hrequests : r.2.requests = s.requests) : Issued data size tries s [] r where
  requests := by rw [hrequests, List.append_nil]
  ends := by simp
  first := by tauto

/-- A read that fell short is followed by the requests for the rest. -/
theorem Issued.after {c : ℕ} {t : Host} {issued : List (ℕ × ℕ)} {r : ℤ × Host} (hsize : c ≤ size)
    (hasked : t.requests = s.requests ++ [(data, size)])
    (h : Issued (data + c) (size - c) tries t issued r) :
    Issued data size (tries + 1) s ((data, size) :: issued) r where
  requests := by rw [h.requests, hasked, List.append_assoc, List.singleton_append]
  ends := by
    rintro q (_ | ⟨_, hq⟩)
    · exact ⟨Nat.le_refl _, rfl⟩
    · have hq := h.ends q hq
      omega
  first _ _ := rfl

/-- **Every read of a request ends where the request does.** -/
theorem readData_issued (data size tries : ℕ) (s : Host) :
    ∃ issued, Issued data size tries s issued (readData data size tries s) := by
  refine readData_induction
    (motive := fun data size tries s r => ∃ issued, Issued data size tries s issued r)
    ?idle ?bytes ?again ?fails data size tries s
  case idle => exact fun _ _ _ _ h => ⟨[], .nothing h rfl⟩
  case bytes =>
    rintro data size tries s k c r - - hc ⟨issued, hissued⟩
    have hall := hissued.after (s := s) (by omega) rfl
    refine ⟨_, ?_, hall.ends, hall.first⟩
    rw [joined_host]
    exact hall.requests
  case again =>
    rintro data size tries s r - - ⟨issued, hissued⟩
    exact ⟨_, .after (c := 0) (Nat.zero_le _) rfl hissued⟩
  case fails =>
    intro data size tries s errno _ _ _
    refine ⟨[(data, size)], rfl, ?_, fun _ _ => rfl⟩
    rintro q (_ | ⟨_, ⟨⟩⟩)
    exact ⟨Nat.le_refl _, rfl⟩

/-- A read that delivers `c` bytes, and the others delivered. -/
theorem Delivered.after {c : ℕ} {as : Stream' Answer} {r : ℤ × Host} (hsize : c ≤ size)
    (hrest : c ≤ s.file.rest.length)
    (h : Delivered (data + c) (size - c) as (s.deliver data size (s.file.rest.take c)) r) :
    Delivered data size as s (joined c r) := by
  have hlen : (s.file.rest.take c).length = c := List.length_take_of_le hrest
  have hresult := h.result
  refine ⟨?_, ?_, ?_⟩
  · rw [joined_result (by omega), hresult]
    omega
  · have hadd : c + (size - c) = size := by omega
    rw [joined_host, h.mem, store_deliver _ _ hrest, hadd]
  · have hpos : s.file.pos + c + (size - c) = s.file.pos + size := by omega
    simp only [joined_host, h.file, Host.deliver, hlen, hpos]

/-- **Retrying delivers what the answers hand out between them.** -/
theorem readData_of_serves (data : ℕ) {as bs : Stream' Answer} (h : Serves tries size as bs)
    (hsize : size ≠ 0) (has : s.file.answers = as) (hrest : size ≤ s.file.rest.length) :
    Delivered data size bs s (readData data size tries s) := by
  induction h generalizing data s with
  | @all tries n k as hk =>
    have hc : min (min n k) s.file.rest.length = n := by omega
    have hlen : (s.file.rest.take n).length = n := List.length_take_of_le hrest
    have hnone : (0 : ℤ) ≠ -1 := by decide
    rw [readData_of_bytes hsize (by rw [has]; rfl) hc, Nat.sub_self, readData_zero]
    refine ⟨(joined_result hnone).trans (Int.add_zero _), ?_, ?_⟩
    · rw [joined_host]
      rfl
    · simp only [joined_host, Host.deliver, hlen, has, Stream'.tail_cons]
  | @part tries n k as bs hk _ ih =>
    have hc : min (min n k) s.file.rest.length = k := by omega
    have hmoved := rest_deliver (s := s) data n (c := k) (by omega)
    rw [readData_of_bytes hsize (by rw [has]; rfl) hc]
    refine .after (by omega) (by omega) (ih (data + k) (by omega) (by rw [Host.deliver, has]; rfl) ?_)
    rw [hmoved, List.length_drop]
    omega
  | @again tries n as bs _ ih =>
    rw [readData_of_again hsize (by rw [has]; rfl)]
    have hothers := ih data (s := s.fail data n .EAGAIN) hsize
      (by rw [Host.fail, has]; rfl) hrest
    exact ⟨hothers.result, hothers.mem, hothers.file⟩

/-- **Nothing else delivers a whole request**: its bytes are there, and the answers hand them out. -/
theorem serves_of_readData (hsize : size ≠ 0) (h : (readData data size tries s).1 = size) :
    size ≤ s.file.rest.length ∧ ∃ as, Serves tries size s.file.answers as := by
  have hrest : size ≤ s.file.rest.length := by
    obtain ⟨c, hc⟩ := readData_consumed data size tries s
    obtain hresult | hresult := hc.result
    · have hle := hc.le_rest
      omega
    · omega
  refine ⟨hrest, ?_⟩
  revert hsize h hrest
  refine readData_induction (motive := fun _ size tries s r => size ≠ 0 → r.1 = size →
      size ≤ s.file.rest.length → ∃ as, Serves tries size s.file.answers as)
    ?idle ?bytes ?again ?fails data size tries s
  case idle =>
    intro data size tries s _ hsize h _
    exact absurd h.symm (Int.natCast_ne_zero.mpr hsize)
  case bytes =>
    intro data size tries s k c r hsize hhead hc ih _ h hrest
    rw [← s.file.answers.eta, hhead]
    by_cases hk : size ≤ k
    · exact ⟨_, .all hk⟩
    · obtain rfl : c = k := by omega
      have hmoved := rest_deliver (s := s) data size (c := c) (by omega)
      have hothers : r.1 = (size - c : ℕ) := by
        rw [joined_fst] at h
        split_ifs at h
        omega
      obtain ⟨as, has⟩ := ih (by omega) hothers (by rw [hmoved, List.length_drop]; omega)
      exact ⟨as, .part (by omega) has⟩
  case again =>
    intro data size tries s r hsize hhead ih _ h hrest
    obtain ⟨as, has⟩ := ih hsize h hrest
    rw [← s.file.answers.eta, hhead]
    exact ⟨as, .again has⟩
  case fails =>
    intro data size tries s errno _ _ _ _ h _
    simp only at h
    omega

/-- **At the end of the file nothing is delivered**, however often one tries. -/
theorem readData_at_end (hrest : s.file.rest = []) (hbytes : NeverFails s.file.answers) :
    (readData data size tries s).1 = 0 := by
  revert hrest hbytes
  refine readData_induction
    (motive := fun _ _ _ s r => s.file.rest = [] → NeverFails s.file.answers → r.1 = 0)
    ?idle ?bytes ?again ?fails data size tries s
  case idle => exact fun _ _ _ _ _ _ _ => rfl
  case bytes =>
    intro data size tries s k c r _ _ hc ih hrest hbytes
    obtain rfl : c = 0 := by rw [← hc, hrest, List.length_nil, Nat.min_zero]
    have hrest' : (s.deliver data size (s.file.rest.take 0)).file.rest = [] := by
      rw [rest_deliver _ _ (Nat.zero_le _), hrest, List.drop_nil]
    rw [joined_zero]
    exact ih hrest' hbytes.tail
  case again =>
    intro data size tries s r _ hhead _ _ hbytes
    exact absurd hhead (hbytes.get_ne 0 .EAGAIN)
  case fails =>
    intro data size tries s errno _ hhead _ _ hbytes
    exact absurd hhead (hbytes.get_ne 0 errno)

/-- **A request that the stream cannot meet returns all that is left**, if the answers hand that out and
none of them is a failure then. -/
theorem readData_to_end {n : ℕ} {as bs : Stream' Answer} (data : ℕ) (h : Serves tries n as bs)
    (has : s.file.answers = as) (hrest : s.file.rest.length = n) (hle : n ≤ size) (hsize : size ≠ 0)
    (hend : NeverFails bs) : (readData data size tries s).1 = n := by
  have hnone : (0 : ℤ) ≠ -1 := by decide
  induction h generalizing data size s with
  | @all tries n k as hk =>
    have hc : min (min size k) s.file.rest.length = n := by omega
    have hlast : (s.deliver data size (s.file.rest.take n)).file.rest = [] := by
      rw [rest_deliver data size (by omega), List.drop_eq_nil_of_le (by omega)]
    have hbytes : NeverFails (s.deliver data size (s.file.rest.take n)).file.answers := by
      rw [Host.deliver, has]
      exact hend
    have hzero : (readData (data + n) (size - n) tries
        (s.deliver data size (s.file.rest.take n))).1 = 0 := readData_at_end hlast hbytes
    rw [readData_of_bytes hsize (by rw [has]; rfl) hc, joined_result (by rwa [hzero]), hzero]
    exact Int.add_zero _
  | @part tries n k as bs hk _ ih =>
    have hc : min (min size k) s.file.rest.length = k := by omega
    have hmoved := rest_deliver (s := s) data size (c := k) (by omega)
    have hothers : (readData (data + k) (size - k) tries
        (s.deliver data size (s.file.rest.take k))).1 = ((n - k : ℕ) : ℤ) :=
      ih (data + k) (by rw [Host.deliver, has]; rfl) (by rw [hmoved, List.length_drop]; omega)
        (by omega) (by omega) hend
    rw [readData_of_bytes hsize (by rw [has]; rfl) hc, joined_result (by rw [hothers]; omega), hothers]
    omega
  | @again tries n as bs _ ih =>
    rw [readData_of_again hsize (by rw [has]; rfl)]
    exact ih data (by rw [Host.fail, has]; rfl) hrest hle hsize hend

end Retry

end Mpeg
