import Mathlib.Data.List.Basic
import Mathlib.Data.Nat.Notation

/-!
# Machinery/Utf16 — UTF-16 as a code over the Unicode scalar values

    below U+10000     one unit, no surrogate
    above             lead (d800–dbff), trail (dc00–dfff): ten bits each
    anything else     a surrogate out of place

A character's units tell which form they have (`encodeChar_cases`), and units that are no text show
where they leave off being one (`exists_text`).
-/

namespace Utf16

/-- The UTF-16 code units of a character. -/
def encodeChar (c : Char) : List UInt16 :=
  if c.val.toNat < 0x10000 then [UInt16.ofNat c.val.toNat]
  else
    [UInt16.ofNat (0xd800 + (c.val.toNat - 0x10000) / 0x400),
      UInt16.ofNat (0xdc00 + (c.val.toNat - 0x10000) % 0x400)]

/-- The UTF-16 code units of a text. -/
def encode (cs : List Char) : List UInt16 := cs.flatMap encodeChar

@[simp] theorem encode_nil : encode [] = [] := rfl

@[simp] theorem encode_cons (c : Char) (cs : List Char) :
    encode (c :: cs) = encodeChar c ++ encode cs := rfl

/-! ## Surrogates -/

/-- The first unit of a pair. -/
def IsLead (u : UInt16) : Prop := 0xd800 ≤ u.toNat ∧ u.toNat < 0xdc00

/-- The second unit of a pair. -/
def IsTrail (u : UInt16) : Prop := 0xdc00 ≤ u.toNat ∧ u.toNat < 0xe000

instance : DecidablePred IsLead := fun _ => inferInstanceAs (Decidable (_ ∧ _))

instance : DecidablePred IsTrail := fun _ => inferInstanceAs (Decidable (_ ∧ _))

/-- The unit that is out of place where these units start. -/
inductive Broken : UInt16 → List UInt16 → Prop
  | trail {u : UInt16} (more : List UInt16) : IsTrail u → Broken u (u :: more)
  | lead {u : UInt16} : IsLead u → Broken u [u]
  | pair {u v : UInt16} (more : List UInt16) : IsLead u → ¬ IsTrail v → Broken v (u :: v :: more)

theorem toNat_ofNat {n : ℕ} (h : n < 0x10000) : (UInt16.ofNat n).toNat = n := by
  rw [UInt16.toNat_ofNat', Nat.mod_eq_of_lt h]

section Char

variable {c : Char}

theorem toNat_val_lt (c : Char) : c.val.toNat < 0x110000 := by
  have hvalid := c.valid
  simp only [UInt32.isValidChar, Nat.isValidChar] at hvalid
  omega

/-- **A character is a unit that is no surrogate, or a pair of surrogates.** -/
theorem encodeChar_cases (c : Char) :
    (∃ u, encodeChar c = [u] ∧ u.toNat = c.val.toNat ∧ ¬ IsLead u ∧ ¬ IsTrail u) ∨
      ∃ u v, encodeChar c = [u, v] ∧ IsLead u ∧ IsTrail v ∧
        c.val.toNat = 0x10000 + (u.toNat - 0xd800) * 0x400 + (v.toNat - 0xdc00) := by
  have hmax := toNat_val_lt c
  have hvalid := c.valid
  simp only [UInt32.isValidChar, Nat.isValidChar] at hvalid
  rw [encodeChar]
  split_ifs with hsmall
  · have hunit := toNat_ofNat hsmall
    refine .inl ⟨_, rfl, hunit, ?_, ?_⟩
    · rintro ⟨hle, hlt⟩
      omega
    · rintro ⟨hle, hlt⟩
      omega
  · have hlead := toNat_ofNat (n := 0xd800 + (c.val.toNat - 0x10000) / 0x400) (by omega)
    have htrail := toNat_ofNat (n := 0xdc00 + (c.val.toNat - 0x10000) % 0x400) (by omega)
    refine .inr ⟨_, _, rfl, ⟨by omega, by omega⟩, ⟨by omega, by omega⟩, ?_⟩
    rw [hlead, htrail]
    omega

/-- **Every unit that is no surrogate is a character**, and every pair of surrogates. -/
theorem encodeChar_of_not_surrogate {u : UInt16} (hlead : ¬ IsLead u) (htrail : ¬ IsTrail u) :
    ∃ c, encodeChar c = [u] ∧ c.val.toNat = u.toNat := by
  have hlt := u.toNat_lt
  have hvalid : u.toUInt32.isValidChar := by
    simp only [IsLead, IsTrail] at hlead htrail
    simp only [UInt32.isValidChar, Nat.isValidChar, UInt16.toNat_toUInt32]
    omega
  refine ⟨⟨u.toUInt32, hvalid⟩, ?_, UInt16.toNat_toUInt32 u⟩
  rw [encodeChar, UInt16.toNat_toUInt32, if_pos hlt, UInt16.ofNat_toNat]

/-- **Every pair is a character.** -/
theorem encodeChar_of_pair {u v : UInt16} (hlead : IsLead u) (htrail : IsTrail v) :
    ∃ c, encodeChar c = [u, v] ∧
      c.val.toNat = 0x10000 + (u.toNat - 0xd800) * 0x400 + (v.toNat - 0xdc00) := by
  obtain ⟨hu, hu'⟩ := hlead
  obtain ⟨hv, hv'⟩ := htrail
  set n := 0x10000 + (u.toNat - 0xd800) * 0x400 + (v.toNat - 0xdc00) with hn
  have hnat : (UInt32.ofNat n).toNat = n := by
    rw [UInt32.toNat_ofNat', Nat.mod_eq_of_lt (by omega)]
  have hvalid : (UInt32.ofNat n).isValidChar := by
    simp only [UInt32.isValidChar, Nat.isValidChar, hnat]
    omega
  have hfirst : 0xd800 + (n - 0x10000) / 0x400 = u.toNat := by omega
  have hsecond : 0xdc00 + (n - 0x10000) % 0x400 = v.toNat := by omega
  refine ⟨⟨UInt32.ofNat n, hvalid⟩, ?_, hnat⟩
  rw [encodeChar, hnat, if_neg (by omega), hfirst, hsecond, UInt16.ofNat_toNat, UInt16.ofNat_toNat]

end Char

/-! ## Texts -/

/-- **Units are a text up to the first that is out of place.** -/
theorem exists_text : ∀ units : List UInt16, ∃ cs rest, units = encode cs ++ rest ∧
    (rest = [] ∨ ∃ u, Broken u rest)
  | [] => ⟨[], [], rfl, .inl rfl⟩
  | u :: more => by
    by_cases htrail : IsTrail u
    · exact ⟨[], _, rfl, .inr ⟨u, .trail more htrail⟩⟩
    · by_cases hlead : IsLead u
      · obtain _ | ⟨v, more⟩ := more
        · exact ⟨[], [u], rfl, .inr ⟨u, .lead hlead⟩⟩
        · by_cases hpair : IsTrail v
          · obtain ⟨c, hc, -⟩ := encodeChar_of_pair hlead hpair
            obtain ⟨cs, rest, rfl, hrest⟩ := exists_text more
            exact ⟨c :: cs, rest, by rw [encode_cons, hc]; rfl, hrest⟩
          · exact ⟨[], _, rfl, .inr ⟨v, .pair more hlead hpair⟩⟩
      · obtain ⟨c, hc, -⟩ := encodeChar_of_not_surrogate hlead htrail
        obtain ⟨cs, rest, rfl, hrest⟩ := exists_text more
        exact ⟨c :: cs, rest, by rw [encode_cons, hc]; rfl, hrest⟩

end Utf16
