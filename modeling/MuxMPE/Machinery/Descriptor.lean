import Mathlib.Data.Stream.Init
import MuxMPE.Machinery.Memory

/-!
# Machinery/Descriptor — a memory and a file descriptor that answers as it likes

    stream   ▓▓▓▓▓▓▓▓▓▓▓▓░░░░░░░░░░░░░░░░
                         ▲ pos            `rest` is what lies behind it
    answers  bytes 3, EAGAIN, bytes 512, ⋯   one for each `read`, in order

What a descriptor does is the list of its answers: a `read` delivers at most the bytes its answer
allows, or fails.  A fact about every list of answers is a fact about every behaviour.  `Serves`
says that the next answers hand out a number of bytes within a number of reads.  What reads returned
is told by making them again: they depend on the file alone (`reads_congr`, `After`).
-/

namespace Posix

inductive Errno
  | EAGAIN
  | other
  deriving DecidableEq, Repr

/-- What one `read` meets: some bytes (at most `k` of them), or a failure. -/
inductive Answer
  | bytes (k : ℕ)
  | fails (errno : Errno)
  deriving DecidableEq, Repr

/-- An open file: its bytes, the position in them, and the answers still to come. -/
structure File where
  stream : List (BitVec 8)
  pos : ℕ
  seekable : Bool
  answers : Stream' Answer

/-- The bytes not yet consumed. -/
def File.rest (f : File) : List (BitVec 8) := f.stream.drop f.pos

/-- A process with one open file, and the `(address, size)` of every `read` it has issued. -/
structure Host where
  mem : Memory
  file : File
  errno : Errno
  requests : List (ℕ × ℕ)

variable (data size : ℕ) (s : Host)

/-- After a `read` that delivered `got`. -/
def Host.deliver (got : List (BitVec 8)) : Host where
  mem := s.mem.store data got
  file := { s.file with pos := s.file.pos + got.length, answers := s.file.answers.tail }
  errno := s.errno
  requests := s.requests ++ [(data, size)]

/-- After a `read` that failed. -/
def Host.fail (errno : Errno) : Host where
  mem := s.mem
  file := { s.file with answers := s.file.answers.tail }
  errno := errno
  requests := s.requests ++ [(data, size)]

/-- `read(2)`: the number of bytes delivered, or `-1` with `errno` set.  What it does for a `size` above
`SSIZE_MAX` is left to the implementation; a read of that size delivers here like any other, and one
that is refused is an answer `fails`. -/
def read : ℤ × Host :=
  match s.file.answers.head with
  | .bytes k =>
    let got := s.file.rest.take (min size k)
    (got.length, s.deliver data size got)
  | .fails errno => (-1, s.fail data size errno)

/-- `lseek(2)` with `SEEK_CUR`. -/
def lseek (offset : ℤ) : ℤ × Host :=
  let pos := s.file.pos + offset
  if s.file.seekable && 0 ≤ pos then
    (pos, { s with file := { s.file with pos := pos.toNat } })
  else (-1, { s with errno := .other })

variable {data size s}

/-! ## One read -/

/-- A read that delivers: the count, and the bytes stored. -/
theorem read_bytes {k c : ℕ} (h : s.file.answers.head = .bytes k)
    (hc : min (min size k) s.file.rest.length = c) :
    read data size s = ((c : ℤ), s.deliver data size (s.file.rest.take c)) := by
  have htake : s.file.rest.take (min size k) = s.file.rest.take c := by
    rw [← hc, List.take_eq_take_min]
  have hlen : (s.file.rest.take c).length = c := by rw [← htake, List.length_take, hc]
  simp only [read, h, htake, hlen]

/-- A read that fails stores nothing. -/
theorem read_fails {errno : Errno} (h : s.file.answers.head = .fails errno) :
    read data size s = (-1, s.fail data size errno) := by
  simp only [read, h]

/-- **A read moves on by what it delivers.** -/
theorem rest_deliver (data size : ℕ) {c : ℕ} (h : c ≤ s.file.rest.length) :
    (s.deliver data size (s.file.rest.take c)).file.rest = s.file.rest.drop c := by
  simp only [Host.deliver, File.rest, List.drop_drop, List.length_take]
  congr 2
  exact Nat.min_eq_left h

/-- **Two deliveries in a row are one** of the bytes of both. -/
theorem store_deliver (data size : ℕ) {c : ℕ} (h : c ≤ s.file.rest.length) (d : ℕ) :
    (s.deliver data size (s.file.rest.take c)).mem.store (data + c)
        ((s.deliver data size (s.file.rest.take c)).file.rest.take d)
      = s.mem.store data (s.file.rest.take (c + d)) := by
  have hlen : (s.file.rest.take c).length = c := List.length_take_of_le h
  have hstore := s.mem.store_store data (s.file.rest.take c) ((s.file.rest.drop c).take d)
  rw [hlen, ← List.take_add] at hstore
  rw [rest_deliver data size h]
  exact hstore

/-! ## Reads in a row -/

/-- The reads `qs` one after the other: what each returned, and the host after them. -/
def reads : List (ℕ × ℕ) → Host → List ℤ × Host
  | [], s => ([], s)
  | q :: qs, s =>
    let r := read q.1 q.2 s
    let rs := reads qs r.2
    (r.1 :: rs.1, rs.2)

/-- **What a read returns depends on the file only**, and so does the file after it. -/
theorem read_congr {t : Host} (data size : ℕ) (h : s.file = t.file) :
    (read data size s).1 = (read data size t).1 ∧
      (read data size s).2.file = (read data size t).2.file := by
  simp only [read, h]
  split <;> exact ⟨rfl, by simp only [Host.deliver, Host.fail, h]⟩

/-- The descriptor alone decides what is read. -/
theorem reads_congr {t : Host} (qs : List (ℕ × ℕ)) (h : s.file = t.file) :
    (reads qs s).1 = (reads qs t).1 ∧ (reads qs s).2.file = (reads qs t).2.file := by
  induction qs generalizing s t with
  | nil => exact ⟨rfl, h⟩
  | cons q qs ih =>
    obtain ⟨hreturned, hfile⟩ := read_congr q.1 q.2 h
    obtain ⟨hothers, hlast⟩ := ih hfile
    exact ⟨congrArg₂ List.cons hreturned hothers, hlast⟩

/-- Requests are served one after the other. -/
theorem reads_append (qs qs' : List (ℕ × ℕ)) (s : Host) :
    (reads (qs ++ qs') s).2 = (reads qs' (reads qs s).2).2 := by
  induction qs generalizing s with
  | nil => rfl
  | cons q qs ih => exact ih _

/-- `t` comes after `s` by the reads `qs`: these were issued, and the file is where they leave it. -/
structure After (qs : List (ℕ × ℕ)) (s t : Host) : Prop where
  requests : t.requests = s.requests ++ qs
  file : t.file = (reads qs s).2.file

/-- Nothing was read. -/
theorem After.idle {t : Host} (hrequests : t.requests = s.requests) (hfile : t.file = s.file) :
    After [] s t where
  requests := by rw [hrequests, List.append_nil]
  file := hfile

/-- Two stretches of requests are one. -/
theorem After.trans {qs qs' : List (ℕ × ℕ)} {t u : Host} (h : After qs s t) (h' : After qs' t u) :
    After (qs ++ qs') s u where
  requests := by rw [h'.requests, h.requests, List.append_assoc]
  file := by
    rw [reads_append, h'.file]
    exact (reads_congr qs' h.file).2

/-- One read and the reads after it. -/
theorem After.cons {qs : List (ℕ × ℕ)} {t u : Host} {returned : ℤ}
    (hread : read data size s = (returned, t)) (hasked : t.requests = s.requests ++ [(data, size)])
    (h : After qs t u) : After ((data, size) :: qs) s u where
  requests := by rw [h.requests, hasked, List.append_assoc, List.singleton_append]
  file := by
    rw [h.file, reads]
    simp only [hread]

/-! ## Seeking -/

@[simp] theorem lseek_mem (s : Host) (offset : ℤ) : (lseek s offset).2.mem = s.mem := by
  simp only [lseek]
  split <;> rfl

@[simp] theorem lseek_requests (s : Host) (offset : ℤ) :
    (lseek s offset).2.requests = s.requests := by
  simp only [lseek]
  split <;> rfl

/-- **A file that can be positioned is**, wherever in it or behind it. -/
theorem lseek_pos {offset : ℤ} (hseekable : s.file.seekable = true)
    (hpos : 0 ≤ s.file.pos + offset) :
    ((lseek s offset).2.file.pos : ℤ) = s.file.pos + offset := by
  have hguard : (s.file.seekable && decide (0 ≤ s.file.pos + offset)) = true := by
    rw [hseekable, decide_eq_true hpos, Bool.and_self]
  rw [lseek, if_pos hguard]
  exact Int.toNat_of_nonneg hpos

/-! ## Serving a request -/

/-- `Serves tries n as bs`: the answers `as` hand out `n` bytes within `tries` reads, each read
asking for what is missing, and leave the answers `bs`. -/
inductive Serves : ℕ → ℕ → Stream' Answer → Stream' Answer → Prop
  | all {tries n k : ℕ} {as : Stream' Answer} :
      n ≤ k → Serves (tries + 1) n (.cons (.bytes k) as) as
  | part {tries n k : ℕ} {as bs : Stream' Answer} :
      k < n → Serves tries (n - k) as bs → Serves (tries + 1) n (.cons (.bytes k) as) bs
  | again {tries n : ℕ} {as bs : Stream' Answer} :
      Serves tries n as bs → Serves (tries + 1) n (.cons (.fails .EAGAIN) as) bs

/-- The answers serve the requests one after the other. -/
inductive ServesAll (tries : ℕ) : List ℕ → Stream' Answer → Stream' Answer → Prop
  | nil {as : Stream' Answer} : ServesAll tries [] as as
  | cons {n : ℕ} {ns : List ℕ} {as bs cs : Stream' Answer} :
      Serves tries n as bs → ServesAll tries ns bs cs → ServesAll tries (n :: ns) as cs

/-- Two runs of chunks are served one after the other. -/
theorem ServesAll.append {tries : ℕ} {ms ns : List ℕ} {as bs cs : Stream' Answer}
    (h : ServesAll tries ms as bs) (h' : ServesAll tries ns bs cs) :
    ServesAll tries (ms ++ ns) as cs := by
  induction h with
  | nil => exact h'
  | cons hm _ ih => exact .cons hm (ih h')

/-- Where two runs of chunks are served, the first is, and then the second. -/
theorem ServesAll.append_inv {tries : ℕ} {ms ns : List ℕ} {as cs : Stream' Answer}
    (h : ServesAll tries (ms ++ ns) as cs) :
    ∃ bs, ServesAll tries ms as bs ∧ ServesAll tries ns bs cs := by
  induction ms generalizing as with
  | nil => exact ⟨as, .nil, h⟩
  | cons m ms ih =>
    obtain _ | ⟨hm, hms⟩ := h
    obtain ⟨bs, hfirst, hrest⟩ := ih hms
    exact ⟨bs, .cons hm hfirst, hrest⟩

/-- Every read of up to `n` bytes is answered in full, as long as there are bytes. -/
def DeliversAll (n : ℕ) (as : Stream' Answer) : Prop := ∀ i, ∃ k, n ≤ k ∧ as.get i = .bytes k

theorem DeliversAll.tail {n : ℕ} {as : Stream' Answer} (h : DeliversAll n as) :
    DeliversAll n as.tail :=
  fun i => h (i + 1)

theorem DeliversAll.serves {m n tries : ℕ} {as : Stream' Answer} (h : DeliversAll n as)
    (hm : m ≤ n) : Serves (tries + 1) m as as.tail := by
  obtain ⟨k, hk, hhead⟩ := h 0
  have hcons : as = .cons (.bytes k) as.tail := by
    rw [← hhead]
    exact as.eta.symm
  rw [hcons]
  exact .all (by omega)

/-- **Answers that deliver all there is serve every request up to their bound.** -/
theorem DeliversAll.servesAll {n : ℕ} {as : Stream' Answer} (h : DeliversAll n as) (tries : ℕ)
    {ms : List ℕ} (hms : ∀ m ∈ ms, m ≤ n) :
    ∃ bs, ServesAll (tries + 1) ms as bs ∧ DeliversAll n bs := by
  induction ms generalizing as with
  | nil => exact ⟨as, .nil, h⟩
  | cons m ms ih =>
    obtain ⟨bs, hserves, hbs⟩ := ih h.tail fun m' hm' => hms m' (List.mem_cons_of_mem m hm')
    exact ⟨bs, .cons (h.serves (hms m List.mem_cons_self)) hserves, hbs⟩

/-- No answer is a failure: with nothing left to deliver, each of them reports the end. -/
def NeverFails (as : Stream' Answer) : Prop := ∀ i, ∃ k, as.get i = .bytes k

theorem NeverFails.tail {as : Stream' Answer} (h : NeverFails as) : NeverFails as.tail :=
  fun i => h (i + 1)

theorem NeverFails.get_ne {as : Stream' Answer} (h : NeverFails as) (i : ℕ) (errno : Errno) :
    as.get i ≠ .fails errno := by
  obtain ⟨k, hk⟩ := h i
  rw [hk]
  exact nofun

theorem Serves.neverFails {tries n : ℕ} {as bs : Stream' Answer} (h : Serves tries n as bs)
    (has : NeverFails as) : NeverFails bs := by
  induction h with
  | all _ => exact has.tail
  | part _ _ ih => exact ih has.tail
  | again _ ih => exact ih has.tail

theorem ServesAll.neverFails {tries : ℕ} {ns : List ℕ} {as bs : Stream' Answer}
    (h : ServesAll tries ns as bs) (has : NeverFails as) : NeverFails bs := by
  induction h with
  | nil => exact has
  | cons hn _ ih => exact ih (hn.neverFails has)

theorem DeliversAll.neverFails {n : ℕ} {as : Stream' Answer} (h : DeliversAll n as) :
    NeverFails as := by
  intro i
  obtain ⟨k, -, hk⟩ := h i
  exact ⟨k, hk⟩

end Posix
