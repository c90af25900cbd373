import Mathlib.Data.Nat.Notation
import Mathlib.Tactic.Ext

/-!
# Machinery/Memory — bytes at addresses, and little-endian words over them

    address   a      a+1    a+2    a+3   ⋯
              ┌──────┬──────┬──────┬──────┐
    word      │ bits │ bits │ bits │ bits │
              │ 0–7  │ 8–15 │ 16–23│ 24–31│
              └──────┴──────┴──────┴──────┘

`store` lays a list of bytes down at an address, `window` reads a number of them back.  Two stores
at adjacent addresses are one (`store_store`), so what was written piecemeal is read as a whole.
-/

/-- The bytes of a memory, by address. -/
abbrev Memory := ℕ → BitVec 8

namespace Memory

variable (m : Memory) (a : ℕ)

/-- The memory with `bytes` at `a`, `a + 1`, …. -/
def store (bytes : List (BitVec 8)) : Memory := fun i =>
  if a ≤ i then bytes[i - a]?.getD (m i) else m i

/-- The `n` bytes from `a` on. -/
def window (n : ℕ) : List (BitVec 8) := (List.range n).map fun i => m (a + i)

/-! ## Stores -/

theorem store_of_lt {bytes : List (BitVec 8)} {i : ℕ} (h : i < a) : m.store a bytes i = m i :=
  if_neg (Nat.not_le.mpr h)

/-- **What lies behind a store is not touched.** -/
theorem store_of_le {bytes : List (BitVec 8)} {i : ℕ} (h : a + bytes.length ≤ i) :
    m.store a bytes i = m i := by
  have hout : bytes[i - a]? = none := List.getElem?_eq_none (by omega)
  rw [store, hout, Option.getD_none, ite_self]

/-- **A store changes only what it covers.** -/
theorem store_outside {bytes : List (BitVec 8)} {i : ℕ} (h : i < a ∨ a + bytes.length ≤ i) :
    m.store a bytes i = m i :=
  h.elim (m.store_of_lt a) (m.store_of_le a)

theorem store_add {bytes : List (BitVec 8)} {i : ℕ} (h : i < bytes.length) :
    m.store a bytes (a + i) = bytes[i] := by
  have hin : bytes[a + i - a]? = some bytes[i] := by
    rw [Nat.add_sub_cancel_left, List.getElem?_eq_getElem h]
  rw [store, if_pos (Nat.le_add_right a i), hin, Option.getD_some]

@[simp] theorem store_nil : m.store a [] = m := by
  ext i
  rw [store, List.getElem?_nil, Option.getD_none, ite_self]

/-- **Adjacent stores are one.** -/
theorem store_store (xs ys : List (BitVec 8)) :
    (m.store a xs).store (a + xs.length) ys = m.store a (xs ++ ys) := by
  ext i
  obtain hlow | hhigh := Nat.lt_or_ge i (a + xs.length)
  · rw [store_of_lt _ _ hlow]
    by_cases ha : a ≤ i
    · have hx : (xs ++ ys)[i - a]? = xs[i - a]? := List.getElem?_append_left (by omega)
      rw [store, store, hx]
    · rw [store_of_lt _ _ (by omega), store_of_lt _ _ (by omega)]
  · have hy : (xs ++ ys)[i - a]? = ys[i - (a + xs.length)]? := by
      rw [List.getElem?_append_right (by omega)]
      congr 1
      omega
    rw [store, if_pos hhigh, store_of_le _ _ hhigh, store, if_pos (by omega), hy]

/-! ## Windows -/

@[simp] theorem length_window (n : ℕ) : (m.window a n).length = n := by
  rw [window, List.length_map, List.length_range]

/-- **What was stored is read back.** -/
theorem window_store (bytes : List (BitVec 8)) :
    (m.store a bytes).window a bytes.length = bytes := by
  refine List.ext_getElem (length_window _ _ _) fun i _ h => ?_
  simp only [window, List.getElem_map, List.getElem_range]
  exact store_add _ _ h

/-- **A store is read back behind what was there before it.** -/
theorem window_store_append (n : ℕ) (bytes : List (BitVec 8)) :
    (m.store (a + n) bytes).window a (n + bytes.length) = m.window a n ++ bytes := by
  have hlow : (m.store (a + n) bytes).window a n = m.window a n := by
    refine List.map_congr_left fun i hi => ?_
    rw [List.mem_range] at hi
    exact store_of_lt _ _ (by omega)
  have hhigh : (List.range bytes.length).map (fun i => m.store (a + n) bytes (a + (n + i))) = bytes := by
    refine Eq.trans (List.map_congr_left fun i _ => ?_) (window_store m (a + n) bytes)
    rw [Nat.add_assoc]
  rw [← hlow, window, List.range_add, List.map_append, List.map_map]
  exact congrArg _ hhigh

/-! ## Words -/

/-- The word of `n` bytes at `a`, the least significant byte first. -/
def load (m : Memory) (a : ℕ) : (n : ℕ) → BitVec (8 * n)
  | 0 => 0#0
  | n + 1 => load m (a + 1) n ++ m a

/-- The bytes of a word, the least significant first. -/
def bytesOf {w : ℕ} (v : BitVec w) (n : ℕ) : List (BitVec 8) :=
  (List.range n).map fun i => v.extractLsb' (8 * i) 8

@[simp] theorem length_bytesOf {w : ℕ} (v : BitVec w) (n : ℕ) : (bytesOf v n).length = n := by
  rw [bytesOf, List.length_map, List.length_range]

/-- **The bytes of a word are those it was loaded from**, and none behind its end. -/
theorem extractLsb'_load (n i : ℕ) :
    (m.load a n).extractLsb' (8 * i) 8 = if i < n then m (a + i) else 0#8 := by
  induction n generalizing a i with
  | zero =>
    rw [if_neg (Nat.not_lt_zero i)]
    ext j hj
    simp [load]
  | succ n ih =>
    rw [load]
    cases i with
    | zero =>
      rw [if_pos (Nat.succ_pos n)]
      ext j hj
      simp [BitVec.getLsbD_append, hj]
    | succ i =>
      have hdrop : (m.load (a + 1) n ++ m a).extractLsb' (8 * (i + 1)) 8
          = (m.load (a + 1) n).extractLsb' (8 * i) 8 := by
        ext j hj
        have hhigh : ¬ 8 * (i + 1) + j < 8 := by omega
        have hsub : 8 * (i + 1) + j - 8 = 8 * i + j := by omega
        simp only [BitVec.getElem_extractLsb', BitVec.getLsbD_append, hhigh, hsub, if_false]
      have hnext : a + 1 + i = a + (i + 1) := by omega
      rw [hdrop, ih, hnext]
      simp only [Nat.add_lt_add_iff_right]

/-- **A word shifted by a byte and stored back** moves its bytes one down; a zero comes in last. -/
theorem store_shifted {n i : ℕ} (h : i < n) :
    m.store a (bytesOf (m.load a n >>> 8) n) (a + i)
      = if i + 1 < n then m (a + (i + 1)) else 0#8 := by
  rw [store_add _ _ (by rwa [length_bytesOf]), ← extractLsb'_load]
  simp only [bytesOf, List.getElem_map, List.getElem_range]
  ext j hj
  have hsum : 8 * (i + 1) + j = 8 + (8 * i + j) := by omega
  simp only [BitVec.getElem_extractLsb', BitVec.getLsbD_ushiftRight, hsum]

/-! ## Accesses -/

/-- What a program does to its memory itself: `width` bytes at an address read or written. -/
inductive Access
  | load (address width : ℕ)
  | store (address width : ℕ)
  deriving DecidableEq, Repr

/-- The bytes of an access all lie in `[lo, hi)`. -/
def Access.Within (lo hi : ℕ) : Access → Prop
  | .load address width | .store address width => lo ≤ address ∧ address + width ≤ hi

end Memory

namespace BitVec

variable {v w : ℕ}

theorem append_inj {x x' : BitVec v} {y y' : BitVec w} :
    x ++ y = x' ++ y' ↔ x = x' ∧ y = y' := by
  refine ⟨fun h => ⟨?_, ?_⟩, fun ⟨hx, hy⟩ => hx ▸ hy ▸ rfl⟩
  · ext i hi
    have hbit := congrArg (fun z => z.getLsbD (w + i)) h
    have hhigh : ¬ w + i < w := by omega
    simpa [getLsbD_append, hi, hhigh] using hbit
  · ext i hi
    have hbit := congrArg (fun z => z.getLsbD i) h
    simpa [getLsbD_append, hi] using hbit

/-- **A mask is met byte by byte.** -/
theorem and_append_eq_iff {x p x' : BitVec v} {y q y' : BitVec w} :
    (x ++ y) &&& (p ++ q) = x' ++ y' ↔ x &&& p = x' ∧ y &&& q = y' := by
  rw [and_append, append_inj]

end BitVec
