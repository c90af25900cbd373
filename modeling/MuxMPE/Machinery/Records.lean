import Mathlib.Data.List.Basic

/-!
# Machinery/Records — records in a row, told apart by what ends and what starts them

    ┌ tag ┬ rest ┐t┌ tag ┬ rest ┐t ⋯

Records that do not hold their terminator are split again where it stands (`split_terminated`), two
texts are told apart at the first or the last delimiter (`append_cons_inj`), and a record is told by its
tag if no tag begins another (`untag_append`).
-/

namespace Records

variable {α κ : Type*}

/-! ## Terminators -/

/-- Records one after the other, each ended by `t`. -/
def terminated (t : α) (rs : List (List α)) : List α := rs.flatMap (· ++ [t])

@[simp] theorem terminated_nil (t : α) : terminated t [] = [] := rfl

@[simp] theorem terminated_cons (t : α) (r : List α) (rs : List (List α)) :
    terminated t (r :: rs) = r ++ [t] ++ terminated t rs := rfl

variable [DecidableEq α]

/-- The records of a list, the last of them ended or not. -/
def split (t : α) : List α → List (List α)
  | [] => []
  | a :: as =>
    if a = t then [] :: split t as
    else match split t as with
      | [] => [[a]]
      | r :: rs => (a :: r) :: rs

variable {t : α}

theorem split_append_cons {r : List α} (h : t ∉ r) (more : List α) :
    split t (r ++ t :: more) = r :: split t more := by
  induction r with
  | nil => rw [List.nil_append, split, if_pos rfl]
  | cons a r ih =>
    rw [List.mem_cons, not_or] at h
    rw [List.cons_append, split, if_neg (Ne.symm h.1), ih h.2]

/-- **What was ended by its terminator is split there again.** -/
theorem split_terminated {rs : List (List α)} (h : ∀ r ∈ rs, t ∉ r) :
    split t (terminated t rs) = rs := by
  induction rs with
  | nil => rfl
  | cons r rs ih =>
    rw [List.forall_mem_cons] at h
    rw [terminated_cons, List.append_assoc, List.singleton_append, split_append_cons h.1, ih h.2]

/-! ## A delimiter between two texts -/

omit [DecidableEq α] in
/-- **A delimiter that is not before itself** is the first there is. -/
theorem append_cons_inj {r r' s s' : List α} (h : t ∉ r) (h' : t ∉ r')
    (heq : r ++ t :: s = r' ++ t :: s') : r = r' ∧ s = s' := by
  induction r generalizing r' with
  | nil =>
    cases r' with
    | nil => exact ⟨rfl, (List.cons.inj heq).2⟩
    | cons a r' => exact absurd (List.cons.inj heq).1 fun ht => h' (ht ▸ List.mem_cons_self)
  | cons a r ih =>
    cases r' with
    | nil => exact absurd (List.cons.inj heq).1 fun ht => h (ht ▸ List.mem_cons_self)
    | cons a' r' =>
      obtain ⟨rfl, hrest⟩ := List.cons.inj heq
      obtain ⟨rfl, hs⟩ := ih (fun hr => h (List.mem_cons_of_mem a hr))
        (fun hr => h' (List.mem_cons_of_mem a hr)) hrest
      exact ⟨rfl, hs⟩

omit [DecidableEq α] in
/-- **A delimiter that is not behind itself** is the last there is. -/
theorem append_cons_inj_last {r r' s s' : List α} (h : t ∉ s) (h' : t ∉ s')
    (heq : r ++ t :: s = r' ++ t :: s') : r = r' ∧ s = s' := by
  have hreverse : s.reverse ++ t :: r.reverse = s'.reverse ++ t :: r'.reverse := by
    simpa using congrArg List.reverse heq
  obtain ⟨hs, hr⟩ := append_cons_inj (by rwa [List.mem_reverse]) (by rwa [List.mem_reverse]) hreverse
  exact ⟨List.reverse_injective hr, List.reverse_injective hs⟩

/-! ## Tags -/

/-- The first key whose tag the record starts with, and what follows the tag. -/
def untag (tag : κ → List α) (keys : List κ) (r : List α) : Option (κ × List α) :=
  keys.findSome? fun k => (r.dropPrefix? (tag k)).map (k, ·)

theorem dropPrefix?_append (p s : List α) : (p ++ s).dropPrefix? p = some s :=
  List.dropPrefix?_eq_some_iff.mpr ⟨p, rfl, beq_self_eq_true p⟩

/-- **A tag is told from the others** if none of them begins it, or begins with it. -/
theorem untag_append {tag : κ → List α} {keys : List κ}
    (hapart : ∀ k ∈ keys, ∀ k' ∈ keys, tag k <+: tag k' → k = k') {k : κ} (hk : k ∈ keys)
    (s : List α) : untag tag keys (tag k ++ s) = some (k, s) := by
  have hother : ∀ k' ∈ keys, ∀ r, (tag k ++ s).dropPrefix? (tag k') = some r → k' = k := by
    intro k' hk' r hr
    obtain ⟨p, hp, hbeq⟩ := List.dropPrefix?_eq_some_iff.mp hr
    obtain rfl := eq_of_beq hbeq
    obtain hpre | hpre := List.prefix_or_prefix_of_prefix (List.prefix_append (tag k) s)
      (hp ▸ List.prefix_append (tag k') r)
    · exact (hapart k hk k' hk' hpre).symm
    · exact hapart k' hk' k hk hpre
  clear hapart
  induction keys with
  | nil => nomatch hk
  | cons k' keys ih =>
    rw [untag, List.findSome?_cons]
    cases hr : (tag k ++ s).dropPrefix? (tag k') with
    | some r =>
      obtain rfl := hother k' List.mem_cons_self r hr
      rw [dropPrefix?_append] at hr
      obtain rfl := Option.some.inj hr
      rfl
    | none =>
      have hne : k ≠ k' := by
        rintro rfl
        rw [dropPrefix?_append] at hr
        nomatch hr
      exact ih ((List.mem_cons.mp hk).resolve_left hne) fun k' hk' =>
        hother k' (List.mem_cons_of_mem _ hk')

end Records
