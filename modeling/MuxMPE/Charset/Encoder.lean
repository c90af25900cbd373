import MuxMPE.Charset.Decoder

/-!
# Charset/Encoder — code points written as UTF-8

    cp₁  cp₂  cp₃ ⋯  ──append──▸  ▓▓ ▓ ▓▓▓ ⋯
    ok   ok   surrogate           thrown: invalid_code_point(cp₃)

`append` refuses what is no scalar value and writes every other code point as its character's bytes, so
that the encoder and the decoder undo each other (`utf32_round_trip`).
-/

namespace Utf8

/-! ## One code point -/

/-- The octets of a code point, valid or not. -/
def octets (cp : UInt32) : List UInt8 :=
  if cp < 0x80 then [cp.toUInt8]
  else if cp < 0x800 then [(cp >>> 6 ||| 0xc0).toUInt8, (cp &&& 0x3f ||| 0x80).toUInt8]
  else if cp < 0x10000 then
    [(cp >>> 12 ||| 0xe0).toUInt8, (cp >>> 6 &&& 0x3f ||| 0x80).toUInt8, (cp &&& 0x3f ||| 0x80).toUInt8]
  else
    [(cp >>> 18 ||| 0xf0).toUInt8, (cp >>> 12 &&& 0x3f ||| 0x80).toUInt8,
      (cp >>> 6 &&& 0x3f ||| 0x80).toUInt8, (cp &&& 0x3f ||| 0x80).toUInt8]

/-- What is written at `result`. -/
def append (cp : UInt32) : Except Exception (List UInt8) :=
  if !isCodePointValid cp then .error (.invalidCodePoint cp) else .ok (octets cp)

/-- An octet put together from its mark and the bits below it. -/
theorem toUInt8_or {x mark : UInt32} {i a : ℕ} (hmark : mark.toNat = 2 ^ i * a)
    (hx : x.toNat < 2 ^ i) : (x ||| mark).toUInt8 = UInt8.ofNat (mark.toNat + x.toNat) := by
  have hor : x.toNat ||| mark.toNat = mark.toNat + x.toNat := by
    rw [Nat.or_comm, hmark, Nat.two_pow_add_eq_or_of_lt hx]
  rw [← UInt8.toNat_inj, UInt32.toNat_toUInt8, UInt32.toNat_or, hor, UInt8.toNat_ofNat']

theorem toNat_shiftRight {x s : UInt32} (k : ℕ) (hs : s.toNat = k) (hk : k < 32) :
    (x >>> s).toNat = x.toNat / 2 ^ k := by
  rw [UInt32.toNat_shiftRight, hs, Nat.mod_eq_of_lt hk, Nat.shiftRight_eq_div_pow]

theorem toNat_low (x : UInt32) : (x &&& 0x3f).toNat = x.toNat % 64 := by
  rw [UInt32.toNat_and]
  exact Nat.and_two_pow_sub_one_eq_mod x.toNat 6

/-- The trail octet of the low six bits. -/
theorem toUInt8_trail (x : UInt32) :
    (x &&& 0x3f ||| 0x80).toUInt8 = UInt8.ofNat (0x80 + x.toNat % 64) := by
  have hlow := toNat_low x
  rw [toUInt8_or (i := 7) (a := 1) rfl (by omega), hlow]
  rfl

/-- **The octets of a scalar value are its character's.** -/
theorem octets_val (c : Char) : octets c.val = String.utf8EncodeChar c := by
  simp only [octets, UInt32.lt_iff_toNat_lt, UInt32.toNat_ofNat, Nat.reducePow, Nat.reduceMod]
  have h₆ := toNat_shiftRight (x := c.val) (s := 6) 6 rfl (by omega)
  have h₁₂ := toNat_shiftRight (x := c.val) (s := 12) 12 rfl (by omega)
  have h₁₈ := toNat_shiftRight (x := c.val) (s := 18) 18 rfl (by omega)
  have hmax : c.val.toNat < 0x110000 := by
    have hvalid := c.valid
    simp only [UInt32.isValidChar, Nat.isValidChar] at hvalid
    omega
  split_ifs with hone htwo hthree
  · rw [utf8EncodeChar_one hone]
    rfl
  · rw [utf8EncodeChar_two (by omega) htwo, toUInt8_trail, toUInt8_or (i := 6) (a := 3) rfl (by omega),
      h₆]
    rfl
  · rw [utf8EncodeChar_three (by omega) hthree, toUInt8_trail, toUInt8_trail,
      toUInt8_or (i := 5) (a := 7) rfl (by omega), h₆, h₁₂]
    rfl
  · rw [utf8EncodeChar_four (by omega), toUInt8_trail, toUInt8_trail, toUInt8_trail,
      toUInt8_or (i := 4) (a := 15) rfl (by omega), h₆, h₁₂, h₁₈]
    rfl

theorem append_val (c : Char) : append c.val = .ok (String.utf8EncodeChar c) := by
  rw [append, isCodePointValid_iff.mpr c.valid, octets_val]
  rfl

theorem append_of_not_valid {cp : UInt32} (h : ¬ cp.isValidChar) :
    append cp = .error (.invalidCodePoint cp) := by
  rw [append, if_pos]
  rw [Bool.not_eq_true', ← Bool.not_eq_true, isCodePointValid_iff]
  exact h

/-! ## A text -/

def utf32to8 : List UInt32 → Except Exception (List UInt8)
  | [] => .ok []
  | cp :: cps => do
    let written ← append cp
    let result ← utf32to8 cps
    return written ++ result

/-- **A text is encoded as it is decoded.** -/
theorem utf32to8_map_val (cs : List Char) : utf32to8 (cs.map Char.val) = .ok (encode cs) := by
  induction cs with
  | nil => rfl
  | cons c cs ih =>
    rw [List.map_cons, utf32to8, append_val, ih]
    rfl

/-- **The first code point that is no scalar value is thrown.** -/
theorem utf32to8_of_not_valid (cs : List Char) {cp : UInt32} (h : ¬ cp.isValidChar)
    (more : List UInt32) :
    utf32to8 (cs.map Char.val ++ cp :: more) = .error (.invalidCodePoint cp) := by
  induction cs with
  | nil =>
    rw [List.map_nil, List.nil_append, utf32to8, append_of_not_valid h]
    rfl
  | cons c cs ih =>
    rw [List.map_cons, List.cons_append, utf32to8, append_val, ih]
    rfl

/-- Code points are those of a text, up to the first that is no scalar value. -/
theorem exists_chars (cps : List UInt32) : ∃ cs : List Char,
    cps = cs.map Char.val ∨
      ∃ cp more, ¬ cp.isValidChar ∧ cps = cs.map Char.val ++ cp :: more := by
  induction cps with
  | nil => exact ⟨[], .inl rfl⟩
  | cons cp cps ih =>
    by_cases hcp : cp.isValidChar
    · obtain ⟨cs, rfl | ⟨bad, more, hbad, rfl⟩⟩ := ih
      · exact ⟨⟨cp, hcp⟩ :: cs, .inl rfl⟩
      · exact ⟨⟨cp, hcp⟩ :: cs, .inr ⟨bad, more, hbad, rfl⟩⟩
    · exact ⟨[], .inr ⟨cp, cps, hcp, rfl⟩⟩

/-- **The encoder and the decoder undo each other**: what one makes of code points the other makes them
of again, and the encoder throws nothing but the first code point that is no scalar value. -/
theorem utf32_round_trip (cps : List UInt32) :
    (∀ bytes, utf32to8 cps = .ok bytes ↔ utf8to32 bytes = .ok cps) ∧
      ∀ thrown, utf32to8 cps = .error thrown ↔ ∃ (cs : List Char) (cp : UInt32) (more : List UInt32),
        cps = cs.map Char.val ++ cp :: more ∧ ¬ cp.isValidChar ∧ thrown = .invalidCodePoint cp := by
  refine ⟨fun bytes => ⟨fun h => ?_, fun h => ?_⟩, fun thrown => ⟨fun h => ?_, ?_⟩⟩
  · obtain ⟨cs, rfl | ⟨cp, more, hcp, rfl⟩⟩ := exists_chars cps
    · rw [utf32to8_map_val, Except.ok.injEq] at h
      rw [← h, utf8to32_encode]
    · rw [utf32to8_of_not_valid cs hcp] at h
      nomatch h
  · obtain ⟨cs, rfl, rfl⟩ := utf8to32_eq_ok.mp h
    exact utf32to8_map_val cs
  · obtain ⟨cs, rfl | ⟨cp, more, hcp, rfl⟩⟩ := exists_chars cps
    · rw [utf32to8_map_val] at h
      nomatch h
    · rw [utf32to8_of_not_valid cs hcp, Except.error.injEq] at h
      exact ⟨cs, cp, more, rfl, hcp, h.symm⟩
  · rintro ⟨cs, cp, more, rfl, hcp, rfl⟩
    exact utf32to8_of_not_valid cs hcp more

end Utf8
