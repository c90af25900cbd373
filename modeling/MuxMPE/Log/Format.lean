import Mathlib.Algebra.Ring.Int.Defs
import Mathlib.Algebra.Order.Ring.Int
import Mathlib.Data.Nat.Find
import MuxMPE.Log.Logger

/-!
# Log/Format — the text of a `log` call, formatted into a string that is grown

    size    100 ──fails──▸ 200 ──fails──▸ 400 ──⋯──▸ 100 · 2²⁴ ──fails──▸ past INT_MAX
             │              │
             └─────full─────┴─▸ n < size: done        else  n + 1 ──full──▸ done
                                                             └──fails──▸ 2 (n + 1) ──⋯──▸

`vsnprintf` either fails or tells the length of the whole text, each time it is called.  A failure
doubles `size`, a length fixes it; that length is then enough, so what ends the loop is two successes,
and what keeps it from ending is an `int` that is doubled once too often.
-/

namespace Log

def INT_MAX : ℤ := 2147483647

/-! ## One call of `vsnprintf` -/

/-- What a call of `vsnprintf` comes to. -/
inductive Outcome
  /-- it returns `-(k + 1)`, and leaves whatever it likes in the buffer -/
  | fails (k : ℕ) (garbage : List Char)
  /-- it returns the length of the text, and stores what fits of it -/
  | full

def Outcome.succeeds : Outcome → Bool
  | .fails _ _ => false
  | .full => true

theorem Outcome.eq_full_of_succeeds (outcome : Outcome) (h : outcome.succeeds = true) :
    outcome = .full := by
  cases outcome with
  | fails k garbage => exact absurd h (by simp [succeeds])
  | full => rfl

/-- The first bytes of a buffer overwritten. -/
def overwrite (buffer bytes : List Char) : List Char := bytes ++ buffer.drop bytes.length

def vsnprintf (text : List Char) (size : ℕ) (buffer : List Char) : Outcome → ℤ × List Char
  | .fails k garbage => (.negSucc k, overwrite buffer (garbage.take size))
  | .full => (text.length, overwrite buffer (text.take (size - 1) ++ [Char.ofNat 0]))

/-- `std::string::resize`. -/
def resize (str : List Char) (n : ℕ) : List Char :=
  str.take n ++ List.replicate (n - str.length) (Char.ofNat 0)

/-! ## The loop -/

inductive Loop
  | running (size : ℤ) (str : List Char)
  /-- past the `break` -/
  | finished (str : List Char)
  /-- past an overflow of `size`: undefined, so no iteration follows -/
  | overflowed

/-- One pass of the `while (1)`. -/
def iterate (text : List Char) (outcome : Outcome) (size : ℤ) (str : List Char) : Loop :=
  let r := vsnprintf text size.toNat (resize str size.toNat) outcome
  if r.1 > -1 ∧ r.1 < size then .finished (resize r.2 r.1.toNat)
  else
    let size := if r.1 > -1 then r.1 + 1 else size * 2
    if size ≤ INT_MAX then .running size r.2 else .overflowed

variable (text : List Char) (outcomes : ℕ → Outcome)

/-- The loop after `k` passes, `vsnprintf` doing each time as `outcomes` says. -/
def loop : ℕ → Loop
  | 0 => .running 100 []
  | k + 1 =>
    match loop k with
    | .running size str => iterate text (outcomes k) size str
    | ended => ended

/-- What a `log` call is to do with its text. -/
structure Formats : Prop where
  ends : ∃ k str, loop text outcomes k = .finished str
  size_pos : ∀ k size str, loop text outcomes k = .running size str → 0 < size ∧ size ≤ INT_MAX
  noOverflow : ∀ k, loop text outcomes k ≠ .overflowed
  whole : ∀ k str, loop text outcomes k = .finished str → str = text

/-! ## One pass -/

section Pass

variable {text} {size : ℤ} (str : List Char)

/-- **What fits is the text.** -/
theorem resize_vsnprintf {n : ℕ} (buffer : List Char) (h : text.length < n) :
    resize (vsnprintf text n buffer .full).2 text.length = text := by
  have hall : text.take (n - 1) = text := List.take_of_length_le (by omega)
  have hlen : text.length ≤ (overwrite buffer (text ++ [Char.ofNat 0])).length := by
    rw [overwrite, List.length_append, List.length_append]
    omega
  rw [vsnprintf, hall, resize, Nat.sub_eq_zero_of_le hlen, List.replicate_zero, List.append_nil,
    overwrite, List.append_assoc, List.take_left']
  rfl

/-- What a pass leaves in the string, if it is not the last. -/
def stored (text : List Char) (outcome : Outcome) (size : ℤ) (str : List Char) : List Char :=
  (vsnprintf text size.toNat (resize str size.toNat) outcome).2

/-- A failure doubles the size. -/
theorem iterate_fails {outcome : Outcome} (h : outcome.succeeds = false) :
    iterate text outcome size str =
      if size * 2 ≤ INT_MAX then .running (size * 2) (stored text outcome size str)
      else .overflowed := by
  cases outcome with
  | full => exact absurd h (by decide)
  | fails k garbage =>
    have hnegative : ¬ Int.negSucc k > -1 := by omega
    simp only [iterate, stored, vsnprintf, hnegative, false_and, if_false]

/-- A length above the size is the size of the next pass. -/
theorem iterate_full_of_le (h : size ≤ text.length) :
    iterate text .full size str =
      if (text.length : ℤ) + 1 ≤ INT_MAX then .running (text.length + 1) (stored text .full size str)
      else .overflowed := by
  have hlength : (text.length : ℤ) > -1 := by omega
  have hlonger : ¬ (text.length : ℤ) < size := by omega
  simp only [iterate, stored, vsnprintf, hlength, hlonger, and_false, if_false, if_true]

/-- **A length below the size ends the loop**, with the whole text. -/
theorem iterate_full_of_lt (h : text.length < size) :
    iterate text .full size str = .finished text := by
  have hlength : (text.length : ℤ) > -1 ∧ (text.length : ℤ) < size := by omega
  have hwhole := resize_vsnprintf (resize str size.toNat) (by omega : text.length < size.toNat)
  simp only [vsnprintf] at hwhole
  simp only [iterate, vsnprintf, if_pos hlength, Int.toNat_natCast, hwhole]

end Pass

/-! ## The passes -/

/-- The size is that of an `int`, and the string that is left is the text. -/
structure Loop.Sound (text : List Char) (l : Loop) : Prop where
  size_pos : ∀ size str, l = .running size str → 0 < size ∧ size ≤ INT_MAX
  whole : ∀ str, l = .finished str → str = text

section Passes

variable {text outcomes} {k : ℕ} {size : ℤ} {str : List Char}

theorem Loop.Sound.of_running (hsize : 0 < size) (hfits : size ≤ INT_MAX) :
    (Loop.running size str).Sound text where
  size_pos := by
    rintro size str ⟨⟩
    exact ⟨hsize, hfits⟩
  whole := nofun

theorem iterate_sound (outcome : Outcome) (str : List Char) (hsize : 0 < size) :
    (iterate text outcome size str).Sound text := by
  cases hsucceeds : outcome.succeeds with
  | false =>
    rw [iterate_fails str hsucceeds]
    split_ifs with hfits
    · exact .of_running (by omega) hfits
    · exact ⟨nofun, nofun⟩
  | true =>
    obtain rfl : outcome = .full := outcome.eq_full_of_succeeds hsucceeds
    obtain hlt | hle := Int.lt_or_le text.length size
    · rw [iterate_full_of_lt str hlt]
      exact ⟨nofun, by rintro str ⟨⟩; rfl⟩
    · rw [iterate_full_of_le str hle]
      split_ifs with hfits
      · exact .of_running (by omega) hfits
      · exact ⟨nofun, nofun⟩

theorem loop_succ (h : loop text outcomes k = .running size str) :
    loop text outcomes (k + 1) = iterate text (outcomes k) size str := by
  rw [loop, h]

/-- **Every pass is sound.** -/
theorem loop_sound (text : List Char) (outcomes : ℕ → Outcome) (k : ℕ) :
    (loop text outcomes k).Sound text := by
  induction k with
  | zero => exact .of_running (by decide) (by decide)
  | succ k ih =>
    cases hk : loop text outcomes k with
    | running size str =>
      rw [loop_succ hk]
      exact iterate_sound _ _ (ih.size_pos size str hk).1
    | finished str =>
      rw [loop, hk]
      rwa [hk] at ih
    | overflowed =>
      rw [loop, hk]
      exact ⟨nofun, nofun⟩

/-- **What is over stays over.** -/
theorem loop_add_of_ended {ended : Loop} (hended : ∀ size str, ended ≠ .running size str)
    (h : loop text outcomes k = ended) (j : ℕ) : loop text outcomes (k + j) = ended := by
  induction j with
  | zero => exact h
  | succ j ih =>
    rw [← Nat.add_assoc, loop, ih]
    cases ended with
    | running size str => exact absurd rfl (hended size str)
    | finished str => rfl
    | overflowed => rfl

/-- A loop that ends has done what it is for. -/
theorem formats_of_finished (h : loop text outcomes k = .finished str) : Formats text outcomes where
  ends := ⟨k, str, h⟩
  size_pos j := (loop_sound text outcomes j).size_pos
  noOverflow j hj := by
    have hfinished := loop_add_of_ended (by simp) h j
    have hendedflowed := loop_add_of_ended (by simp) hj k
    rw [Nat.add_comm, hfinished] at hendedflowed
    exact nomatch hendedflowed
  whole j := (loop_sound text outcomes j).whole

/-- **Failures double the size**, as long as it is an `int`. -/
theorem loop_failures {g : ℕ} (h : loop text outcomes k = .running size str) (hsize : 0 < size)
    (hfails : ∀ i < g, (outcomes (k + i)).succeeds = false) (hfits : size * 2 ^ g ≤ INT_MAX) :
    ∃ str', loop text outcomes (k + g) = .running (size * 2 ^ g) str' := by
  induction g with
  | zero => exact ⟨str, by rw [pow_zero, mul_one, Nat.add_zero, h]⟩
  | succ g ih =>
    have hpow : 0 < size * 2 ^ g := Int.mul_pos hsize (Int.pow_pos (by decide))
    rw [pow_succ, ← mul_assoc] at hfits ⊢
    obtain ⟨str', hg⟩ := ih (fun i hi => hfails i (by omega)) (by omega)
    refine ⟨stored text (outcomes (k + g)) (size * 2 ^ g) str', ?_⟩
    rw [← Nat.add_assoc, loop_succ hg, iterate_fails _ (hfails g (Nat.lt_succ_self g)), if_pos hfits]

/-- **Too many failures overflow it.** -/
theorem overflowed_of_failures {g : ℕ} (h : loop text outcomes k = .running size str)
    (hfails : ∀ i < g, (outcomes (k + i)).succeeds = false) (hbig : INT_MAX < size * 2 ^ g) :
    ∃ j, loop text outcomes j = .overflowed := by
  obtain ⟨hsize, hint⟩ := (loop_sound text outcomes k).size_pos size str h
  induction g with
  | zero =>
    rw [pow_zero, mul_one] at hbig
    omega
  | succ g ih =>
    have hearlier : ∀ i < g, (outcomes (k + i)).succeeds = false := fun i hi => hfails i (by omega)
    obtain hbefore | hfits := Int.lt_or_le INT_MAX (size * 2 ^ g)
    · exact ih hearlier hbefore
    · obtain ⟨str', hg⟩ := loop_failures h hsize hearlier hfits
      rw [pow_succ, ← mul_assoc] at hbig
      refine ⟨k + g + 1, ?_⟩
      rw [loop_succ hg, iterate_fails _ (hfails g (Nat.lt_succ_self g)), if_neg (by omega)]

end Passes

/-! ## When the loop does what it is for -/

/-- From call `k` on, `vsnprintf` fails `g` times and then succeeds. -/
def SucceedsAfter (k g : ℕ) : Prop :=
  (∀ i < g, (outcomes (k + i)).succeeds = false) ∧ (outcomes (k + g)).succeeds = true

/-- The failures before the first success leave `size` an `int`, and if the text does not fit then, so
do those after it, until the next. -/
def Succeeds : Prop :=
  ∃ f, SucceedsAfter outcomes 0 f ∧ 100 * 2 ^ f ≤ INT_MAX ∧
    (text.length < (100 * 2 ^ f : ℤ) ∨
      ∃ g, SucceedsAfter outcomes (f + 1) g ∧ (text.length + 1) * 2 ^ g ≤ INT_MAX)

section When

variable {text outcomes} {k : ℕ} {size : ℤ} {str : List Char}

/-- **A loop that does not overflow comes to a success.** -/
theorem succeedsAfter_of_noOverflow (h : loop text outcomes k = .running size str)
    (hnone : ∀ j, loop text outcomes j ≠ .overflowed) :
    ∃ g, SucceedsAfter outcomes k g ∧ size * 2 ^ g ≤ INT_MAX := by
  obtain ⟨hsize, -⟩ := (loop_sound text outcomes k).size_pos size str h
  have hfits (g : ℕ) (hfails : ∀ i < g, (outcomes (k + i)).succeeds = false) :
      size * 2 ^ g ≤ INT_MAX := by
    refine Int.not_lt.mp fun hbig => ?_
    obtain ⟨j, hj⟩ := overflowed_of_failures h hfails hbig
    exact hnone j hj
  by_cases hsome : ∃ g, (outcomes (k + g)).succeeds = true
  · have hbefore : ∀ i < Nat.find hsome, (outcomes (k + i)).succeeds = false :=
      fun i hi => Bool.eq_false_iff.mpr (Nat.find_min hsome hi)
    exact ⟨Nat.find hsome, ⟨hbefore, Nat.find_spec hsome⟩, hfits _ hbefore⟩
  · have hall : ∀ i < 31, (outcomes (k + i)).succeeds = false :=
      fun i _ => Bool.eq_false_iff.mpr fun hi => hsome ⟨i, hi⟩
    have hlarge := hfits 31 hall
    rw [INT_MAX] at hlarge
    omega

/-- **The loop ends with the whole text** exactly if `vsnprintf` succeeds in time. -/
theorem formats_iff (text : List Char) (outcomes : ℕ → Outcome) (hint : text.length < INT_MAX) :
    Formats text outcomes ↔ Succeeds text outcomes := by
  constructor
  · intro h
    obtain ⟨f, hf, hfits⟩ := succeedsAfter_of_noOverflow (k := 0) rfl h.noOverflow
    refine ⟨f, hf, hfits, ?_⟩
    obtain hlt | hle := Int.lt_or_le text.length (100 * 2 ^ f)
    · exact .inl hlt
    · obtain ⟨str, hrunning⟩ := loop_failures (k := 0) rfl (by decide) hf.1 hfits
      have hnext := loop_succ hrunning
      rw [(outcomes _).eq_full_of_succeeds hf.2, iterate_full_of_le _ hle,
        if_pos (by omega)] at hnext
      rw [Nat.zero_add] at hnext
      exact .inr (succeedsAfter_of_noOverflow hnext h.noOverflow)
  · rintro ⟨f, hf, hfits, hrest⟩
    obtain ⟨str, hrunning⟩ := loop_failures (k := 0) rfl (by decide) hf.1 hfits
    have hnext := loop_succ hrunning
    rw [(outcomes _).eq_full_of_succeeds hf.2] at hnext
    obtain hlt | hle := Int.lt_or_le text.length (100 * 2 ^ f)
    · rw [iterate_full_of_lt _ hlt] at hnext
      exact formats_of_finished hnext
    · obtain ⟨g, hg, hfits'⟩ := hrest.resolve_left (by omega)
      rw [iterate_full_of_le _ hle, if_pos (by omega), Nat.zero_add] at hnext
      obtain ⟨str', hrunning'⟩ := loop_failures hnext (by omega) hg.1 hfits'
      have hlast := loop_succ hrunning'
      have hpow : (1 : ℤ) ≤ 2 ^ g := Int.pow_pos (by decide)
      have henough : (text.length : ℤ) + 1 ≤ (text.length + 1) * 2 ^ g :=
        le_mul_of_one_le_right (by omega) hpow
      rw [(outcomes _).eq_full_of_succeeds hg.2, iterate_full_of_lt _ (by omega)] at hlast
      exact formats_of_finished hlast

/-- A text of three characters, and a `vsnprintf` that fails once. -/
theorem formats_iff_retry :
    Formats ['o', 'd', 'r'] (fun k => if k = 0 then .fails 0 [] else .full) :=
  (formats_iff _ _ (by decide)).mpr ⟨1, ⟨by decide, by decide⟩, by decide, .inl (by decide)⟩

/-- **A `vsnprintf` that keeps failing** overflows `size` with the 25th failure. -/
theorem not_formats_failing : ¬ Formats ['o', 'd', 'r'] (fun _ => .fails 0 []) :=
  fun h => h.noOverflow 25 rfl

end When

end Log
