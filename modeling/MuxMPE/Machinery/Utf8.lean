import Mathlib.Data.List.Basic
import Mathlib.Data.Nat.Notation

/-!
# Machinery/Utf8 — UTF-8 as a prefix code over the Unicode scalar values

    c₁ c₂ c₃ ⋯  ──encode──▸  ▓▓ ▓ ▓▓▓ ⋯       well-formed: nothing but whole characters
                             ▓▓ ▓ ▓▓▓ ░░░      the longest well-formed prefix ends where
                                      ▲        no character starts

No character's bytes begin another's, so a well-formed text splits into its characters in one way
(`encode_injective`), and what is left of a well-formed text behind a well-formed prefix is well-formed
(`WellFormed.append_iff`).
-/

namespace Utf8

/-- The UTF-8 bytes of a text; its characters are the Unicode scalar values. -/
def encode (cs : List Char) : List UInt8 := cs.flatMap String.utf8EncodeChar

@[simp] theorem encode_nil : encode [] = [] := rfl

@[simp] theorem encode_cons (c : Char) (cs : List Char) :
    encode (c :: cs) = String.utf8EncodeChar c ++ encode cs := rfl

theorem encode_append (cs ds : List Char) : encode (cs ++ ds) = encode cs ++ encode ds :=
  List.flatMap_append

/-- The bytes of whole characters, and nothing else: no overlong form, no surrogate, nothing above
U+10FFFF, nothing cut short. -/
def WellFormed (bytes : List UInt8) : Prop := ∃ cs, encode cs = bytes

theorem WellFormed.nil : WellFormed [] := ⟨[], rfl⟩

theorem wellFormed_encode (cs : List Char) : WellFormed (encode cs) := ⟨cs, rfl⟩

/-! ## The bytes of a character -/

section Char

variable {c : Char}

/-- Seven bits: one octet. -/
theorem utf8EncodeChar_one (h : c.val.toNat < 0x80) :
    String.utf8EncodeChar c = [UInt8.ofNat c.val.toNat] := by
  rw [String.utf8EncodeChar, if_pos (by omega)]

/-- Eleven bits: two octets. -/
theorem utf8EncodeChar_two (h : 0x80 ≤ c.val.toNat) (h' : c.val.toNat < 0x800) :
    String.utf8EncodeChar c
      = [UInt8.ofNat (0xc0 + c.val.toNat / 64), UInt8.ofNat (0x80 + c.val.toNat % 64)] := by
  have hlead : c.val.toNat / 64 % 0x20 + 0xc0 = 0xc0 + c.val.toNat / 64 := by omega
  rw [String.utf8EncodeChar, if_neg (by omega), if_pos (by omega), hlead, Nat.add_comm 0x80]

/-- Sixteen bits: three octets. -/
theorem utf8EncodeChar_three (h : 0x800 ≤ c.val.toNat) (h' : c.val.toNat < 0x10000) :
    String.utf8EncodeChar c
      = [UInt8.ofNat (0xe0 + c.val.toNat / 4096), UInt8.ofNat (0x80 + c.val.toNat / 64 % 64),
          UInt8.ofNat (0x80 + c.val.toNat % 64)] := by
  have hlead : c.val.toNat / 4096 % 0x10 + 0xe0 = 0xe0 + c.val.toNat / 4096 := by omega
  rw [String.utf8EncodeChar, if_neg (by omega), if_neg (by omega), if_pos (by omega), hlead,
    Nat.add_comm 0x80, Nat.add_comm 0x80]

/-- Above, four octets. -/
theorem utf8EncodeChar_four (h : 0x10000 ≤ c.val.toNat) :
    String.utf8EncodeChar c
      = [UInt8.ofNat (0xf0 + c.val.toNat / 262144), UInt8.ofNat (0x80 + c.val.toNat / 4096 % 64),
          UInt8.ofNat (0x80 + c.val.toNat / 64 % 64), UInt8.ofNat (0x80 + c.val.toNat % 64)] := by
  have hmax : c.val.toNat < 0x110000 := by
    have hvalid := c.valid
    simp only [UInt32.isValidChar, Nat.isValidChar] at hvalid
    omega
  have hlead : c.val.toNat / 262144 % 0x08 + 0xf0 = 0xf0 + c.val.toNat / 262144 := by omega
  rw [String.utf8EncodeChar, if_neg (by omega), if_neg (by omega), if_neg (by omega), hlead,
    Nat.add_comm 0x80, Nat.add_comm 0x80, Nat.add_comm 0x80]

end Char

/-! ## Characters are told apart -/

theorem utf8EncodeChar_ne_nil (c : Char) : String.utf8EncodeChar c ≠ [] := by
  intro h
  have hlen := String.length_utf8EncodeChar c
  have hpos := Char.utf8Size_pos c
  rw [h, List.length_nil] at hlen
  omega

/-- **No character's bytes begin another's.** -/
theorem utf8EncodeChar_append_inj {c d : Char} {xs ys : List UInt8}
    (h : String.utf8EncodeChar c ++ xs = String.utf8EncodeChar d ++ ys) : c = d ∧ xs = ys := by
  have hdecode : ∀ (c : Char) (xs : List UInt8),
      (String.utf8EncodeChar c ++ xs).toByteArray.utf8DecodeChar? 0 = some c := by
    intro c xs
    rw [List.toByteArray_append]
    exact ByteArray.utf8DecodeChar?_utf8EncodeChar_append
  have hchar : c = d := by
    have hsame := congrArg (fun l => l.toByteArray.utf8DecodeChar? 0) h
    simp only [hdecode] at hsame
    exact Option.some_inj.mp hsame
  subst hchar
  exact ⟨rfl, List.append_cancel_left h⟩

/-- **What follows a text in a text** is a text. -/
theorem encode_append_inv {cs ds : List Char} {q : List UInt8} (h : encode cs = encode ds ++ q) :
    ∃ es, cs = ds ++ es ∧ encode es = q := by
  induction ds generalizing cs with
  | nil => exact ⟨cs, rfl, h⟩
  | cons d ds ih =>
    cases cs with
    | nil =>
      have hnil := List.append_eq_nil_iff.mp (List.append_eq_nil_iff.mp h.symm).1
      exact absurd hnil.1 (utf8EncodeChar_ne_nil d)
    | cons c cs =>
      rw [encode_cons, encode_cons, List.append_assoc] at h
      obtain ⟨rfl, hrest⟩ := utf8EncodeChar_append_inj h
      obtain ⟨es, rfl, hes⟩ := ih hrest
      exact ⟨es, rfl, hes⟩

/-- **A text is known by its bytes.** -/
theorem encode_injective : Function.Injective encode := by
  intro cs ds h
  obtain ⟨es, rfl, hes⟩ := encode_append_inv (h.trans (List.append_nil _).symm)
  cases es with
  | nil => exact List.append_nil ds
  | cons e es => exact absurd (List.append_eq_nil_iff.mp hes).1 (utf8EncodeChar_ne_nil e)

/-- A well-formed beginning may be cut off. -/
theorem WellFormed.append_iff {p q : List UInt8} (hp : WellFormed p) :
    WellFormed (p ++ q) ↔ WellFormed q := by
  obtain ⟨ds, rfl⟩ := hp
  constructor
  · rintro ⟨cs, hcs⟩
    obtain ⟨es, -, hes⟩ := encode_append_inv hcs
    exact ⟨es, hes⟩
  · rintro ⟨es, rfl⟩
    exact ⟨ds ++ es, encode_append ds es⟩

/-! ## Leads and trails -/

/-- An octet that begins no character. -/
def IsTrail (b : UInt8) : Prop := 0x80 ≤ b.toNat ∧ b.toNat < 0xc0

/-- **A character is a lead and its trails.** -/
theorem exists_lead (c : Char) : ∃ lead trails, String.utf8EncodeChar c = lead :: trails ∧
    ¬ IsTrail lead ∧ ∀ b ∈ trails, IsTrail b := by
  have htrail (n : ℕ) : IsTrail (UInt8.ofNat (0x80 + n % 64)) := by
    rw [IsTrail, UInt8.toNat_ofNat']
    omega
  have hlead {n : ℕ} (h : n < 0x80 ∨ 0xc0 ≤ n) (hlt : n < 256) : ¬ IsTrail (UInt8.ofNat n) := by
    rw [IsTrail, UInt8.toNat_ofNat']
    omega
  have hmax : c.val.toNat < 0x110000 := by
    have hvalid := c.valid
    simp only [UInt32.isValidChar, Nat.isValidChar] at hvalid
    omega
  by_cases hone : c.val.toNat < 0x80
  · exact ⟨_, _, utf8EncodeChar_one hone, hlead (by omega) (by omega), by simp⟩
  by_cases htwo : c.val.toNat < 0x800
  · exact ⟨_, _, utf8EncodeChar_two (by omega) htwo, hlead (by omega) (by omega),
      List.forall_mem_singleton.mpr (htrail _)⟩
  by_cases hthree : c.val.toNat < 0x10000
  · exact ⟨_, _, utf8EncodeChar_three (by omega) hthree, hlead (by omega) (by omega),
      List.forall_mem_cons.mpr ⟨htrail _, List.forall_mem_singleton.mpr (htrail _)⟩⟩
  · exact ⟨_, _, utf8EncodeChar_four (by omega), hlead (by omega) (by omega),
      List.forall_mem_cons.mpr ⟨htrail _, List.forall_mem_cons.mpr
        ⟨htrail _, List.forall_mem_singleton.mpr (htrail _)⟩⟩⟩

/-! ## The longest well-formed prefix -/

/-- `p` is well-formed, and so is no longer prefix of `bytes`. -/
structure LongestPrefix (p bytes : List UInt8) : Prop where
  isPrefix : p <+: bytes
  wellFormed : WellFormed p
  longest : ∀ q, q <+: bytes → WellFormed q → q <+: p

/-- **A text ends where no character starts.** -/
theorem longestPrefix_of_not_char {p r : List UInt8} (hp : WellFormed p)
    (hr : ∀ c more, r ≠ String.utf8EncodeChar c ++ more) : LongestPrefix p (p ++ r) where
  isPrefix := List.prefix_append p r
  wellFormed := hp
  longest := by
    intro q hq hwell
    obtain hshort | ⟨t, rfl⟩ := List.prefix_or_prefix_of_prefix hq (List.prefix_append p r)
    · exact hshort
    · have ht : t <+: r := (List.prefix_append_right_inj p).mp hq
      obtain ⟨cs, rfl⟩ := hp.append_iff.mp hwell
      cases cs with
      | nil => exact ⟨[], by simp only [encode_nil, List.append_nil]⟩
      | cons c cs =>
        obtain ⟨more, hmore⟩ := ht
        rw [encode_cons, List.append_assoc] at hmore
        exact absurd hmore.symm (hr c _)

end Utf8
