import MuxMPE.Charset.Encoder
import MuxMPE.Machinery.Utf16

/-!
# Charset/Utf16 — UTF-16 to UTF-8 and back

    UTF-16   u      lead trail      lead u        trail
             │      └───┬────┘          ╎         ╎
    UTF-8    ▓▓▓      ▓▓▓▓          thrown: u    thrown: trail

A code unit that is no surrogate is a code point, and so is a pair of surrogates; every other unit is
thrown.  What is converted is converted back (`utf16_round_trip`).
-/

namespace Utf8

/-! ## Units -/

def mask16 (oc : UInt16) : UInt16 := 0xffff &&& oc

def LEAD_SURROGATE_MAX : UInt32 := 0xdbff
def TRAIL_SURROGATE_MIN : UInt32 := 0xdc00
def LEAD_OFFSET : UInt32 := LEAD_SURROGATE_MIN - (0x10000 : UInt32) >>> 10
def SURROGATE_OFFSET : UInt32 :=
  0x10000 - LEAD_SURROGATE_MIN <<< (10 : UInt32) - TRAIL_SURROGATE_MIN

/-- The first unit of a surrogate pair. -/
def isLeadSurrogate (cp : UInt32) : Bool := LEAD_SURROGATE_MIN ≤ cp && cp ≤ LEAD_SURROGATE_MAX

/-- The second unit of a surrogate pair. -/
def isTrailSurrogate (cp : UInt32) : Bool := TRAIL_SURROGATE_MIN ≤ cp && cp ≤ TRAIL_SURROGATE_MAX

/-- The exceptions of the conversion from UTF-16. -/
inductive Thrown
  | utf8 (thrown : Exception)
  | invalidUtf16 (u16 : UInt16)
  deriving DecidableEq, Repr

/-- The code units of a code point. -/
def units (cp : UInt32) : List UInt16 :=
  if cp > 0xffff then
    [(cp >>> 10 + LEAD_OFFSET).toUInt16, ((cp &&& 0x3ff) + TRAIL_SURROGATE_MIN).toUInt16]
  else [cp.toUInt16]

/-- The code point of a pair of surrogates. -/
def paired (lead trail : UInt32) : UInt32 := lead <<< 10 + trail + SURROGATE_OFFSET

/-- The units of a text, or the first exception. -/
def utf8to16 : List UInt8 → Except Exception (List UInt16)
  | [] => .ok []
  | lead :: rest =>
    match h : next lead rest with
    | .error e => .error e
    | .ok (cp, more) => do
      have := length_of_validateNext (validateNext_eq_ok.mpr (next_eq_ok.mp h))
      let result ← utf8to16 more
      return units cp ++ result
termination_by bytes => bytes.length
decreasing_by assumption

/-- `append`, with the exceptions of the conversion. -/
def written (cp : UInt32) : Except Thrown (List UInt8) := (append cp).mapError .utf8

/-- The bytes of the units, or the first exception. -/
def utf16to8 : List UInt16 → Except Thrown (List UInt8)
  | [] => .ok []
  | [u] =>
    let cp := (mask16 u).toUInt32
    if isLeadSurrogate cp || isTrailSurrogate cp then .error (.invalidUtf16 cp.toUInt16) else written cp
  | u :: v :: rest =>
    let cp := (mask16 u).toUInt32
    if isLeadSurrogate cp then
      let trail := (mask16 v).toUInt32
      if isTrailSurrogate trail then do
        let octets ← written (paired cp trail)
        let result ← utf16to8 rest
        return octets ++ result
      else .error (.invalidUtf16 trail.toUInt16)
    else if isTrailSurrogate cp then .error (.invalidUtf16 cp.toUInt16)
    else do
      let octets ← written cp
      let result ← utf16to8 (v :: rest)
      return octets ++ result

/-! ## Units in numbers -/

theorem mask16_eq (oc : UInt16) : mask16 oc = oc := by
  rw [mask16, UInt16.and_comm]
  exact UInt16.and_neg_one

/-- The source's test is the interval. -/
theorem isLeadSurrogate_iff {u : UInt16} :
    isLeadSurrogate (mask16 u).toUInt32 = true ↔ Utf16.IsLead u := by
  rw [mask16_eq, isLeadSurrogate, Bool.and_eq_true, decide_eq_true_eq, decide_eq_true_eq,
    UInt32.le_iff_toNat_le, UInt32.le_iff_toNat_le, UInt16.toNat_toUInt32, Utf16.IsLead,
    Nat.lt_iff_add_one_le]
  exact and_congr_right fun _ => Nat.add_le_add_iff_right.symm

theorem isTrailSurrogate_iff {u : UInt16} :
    isTrailSurrogate (mask16 u).toUInt32 = true ↔ Utf16.IsTrail u := by
  rw [mask16_eq, isTrailSurrogate, Bool.and_eq_true, decide_eq_true_eq, decide_eq_true_eq,
    UInt32.le_iff_toNat_le, UInt32.le_iff_toNat_le, UInt16.toNat_toUInt32, Utf16.IsTrail,
    Nat.lt_iff_add_one_le]
  exact and_congr_right fun _ => Nat.add_le_add_iff_right.symm

/-- **The units of a scalar value are its character's.** -/
theorem units_val (c : Char) : units c.val = Utf16.encodeChar c := by
  have hmax := Utf16.toNat_val_lt c
  have hlow : (c.val &&& 0x3ff).toNat = c.val.toNat % 0x400 := by
    rw [UInt32.toNat_and]
    exact Nat.and_two_pow_sub_one_eq_mod c.val.toNat 10
  have hhigh := toNat_shiftRight (x := c.val) (s := 10) 10 rfl (by omega)
  have hlead : LEAD_OFFSET.toNat = 0xd7c0 := rfl
  have htrail : TRAIL_SURROGATE_MIN.toNat = 0xdc00 := rfl
  rw [units, Utf16.encodeChar]
  by_cases hsmall : c.val.toNat < 0x10000
  · rw [if_neg, if_pos hsmall]
    · rfl
    · rw [gt_iff_lt, UInt32.lt_iff_toNat_lt]
      exact Nat.not_lt.mpr (Nat.le_of_lt_succ hsmall)
  · have hfirst : (c.val >>> 10 + LEAD_OFFSET).toUInt16
        = UInt16.ofNat (0xd800 + (c.val.toNat - 0x10000) / 0x400) := by
      rw [← UInt16.toNat_inj, UInt32.toNat_toUInt16, UInt32.toNat_add, hhigh, hlead,
        UInt16.toNat_ofNat']
      omega
    have hsecond : ((c.val &&& 0x3ff) + TRAIL_SURROGATE_MIN).toUInt16
        = UInt16.ofNat (0xdc00 + (c.val.toNat - 0x10000) % 0x400) := by
      rw [← UInt16.toNat_inj, UInt32.toNat_toUInt16, UInt32.toNat_add, hlow, htrail,
        UInt16.toNat_ofNat']
      omega
    rw [if_pos, if_neg hsmall, hfirst, hsecond]
    rw [gt_iff_lt, UInt32.lt_iff_toNat_lt]
    exact Nat.lt_of_succ_le (Nat.le_of_not_lt hsmall)

/-- Ten bits of each unit, above the first plane; no `uint32_t` wraps. -/
theorem paired_toNat {u v : UInt16} (hlead : Utf16.IsLead u) (htrail : Utf16.IsTrail v) :
    (paired (mask16 u).toUInt32 (mask16 v).toUInt32).toNat
      = 0x10000 + (u.toNat - 0xd800) * 0x400 + (v.toNat - 0xdc00) := by
  obtain ⟨hu, hu'⟩ := hlead
  obtain ⟨hv, hv'⟩ := htrail
  have hoffset : SURROGATE_OFFSET.toNat = 2 ^ 32 + 0x10000 - 0xd800 * 0x400 - 0xdc00 := rfl
  have hshift : (u.toUInt32 <<< 10).toNat = u.toNat * 0x400 := by
    have hten : (10 : UInt32).toNat % 32 = 10 := rfl
    rw [UInt32.toNat_shiftLeft, UInt16.toNat_toUInt32, Nat.shiftLeft_eq, hten]
    exact Nat.mod_eq_of_lt (by omega)
  rw [mask16_eq, mask16_eq, paired, UInt32.toNat_add, UInt32.toNat_add, hshift,
    UInt16.toNat_toUInt32, hoffset]
  omega

/-! ## A character -/

/-- A character is written as its octets. -/
theorem written_val (c : Char) : written c.val = .ok (String.utf8EncodeChar c) := by
  rw [written, append_val]
  rfl

/-- **A character's units are converted to its octets.** -/
theorem utf16to8_encodeChar_append (c : Char) (more : List UInt16) :
    utf16to8 (Utf16.encodeChar c ++ more)
      = (utf16to8 more).map (String.utf8EncodeChar c ++ ·) := by
  obtain ⟨u, hu, hval, hlead, htrail⟩ | ⟨u, v, hu, hlead, htrail, hval⟩ := Utf16.encodeChar_cases c
  · have hcp : (mask16 u).toUInt32 = c.val := by
      rw [← UInt32.toNat_inj, mask16_eq, UInt16.toNat_toUInt32, hval]
    rw [← isLeadSurrogate_iff, hcp] at hlead
    rw [← isTrailSurrogate_iff, hcp] at htrail
    rw [hu, List.singleton_append]
    cases more with
    | nil =>
      simp only [utf16to8, hcp, hlead, htrail, written_val, Bool.or_self, Bool.false_eq_true, if_false]
      simp [Except.map]
    | cons v more =>
      simp only [utf16to8, hcp, hlead, htrail, written_val, Bool.false_eq_true, if_false]
      rfl
  · have hcp : paired (mask16 u).toUInt32 (mask16 v).toUInt32 = c.val := by
      rw [← UInt32.toNat_inj, paired_toNat hlead htrail, hval]
    rw [hu, List.cons_append, List.singleton_append, utf16to8]
    simp only [isLeadSurrogate_iff.mpr hlead, isTrailSurrogate_iff.mpr htrail, hcp, written_val, if_true]
    rfl

/-- **A unit out of place is thrown.** -/
theorem utf16to8_of_broken {u : UInt16} {rest : List UInt16} (h : Utf16.Broken u rest) :
    utf16to8 rest = .error (.invalidUtf16 u) := by
  have hback (v : UInt16) : (mask16 v).toUInt32.toUInt16 = v := by
    rw [mask16_eq]
    exact UInt16.toUInt16_toUInt32 v
  cases h with
  | trail more htrail =>
    have hlead : isLeadSurrogate (mask16 u).toUInt32 = false := by
      rw [← Bool.not_eq_true, isLeadSurrogate_iff]
      exact fun hlead => absurd htrail.1 (Nat.not_le.mpr hlead.2)
    cases more with
    | nil => simp only [utf16to8, isTrailSurrogate_iff.mpr htrail, Bool.or_true, if_true, hback]
    | cons v more =>
      simp only [utf16to8, hlead, isTrailSurrogate_iff.mpr htrail, Bool.false_eq_true, if_false,
        if_true, hback]
  | lead hlead => simp only [utf16to8, isLeadSurrogate_iff.mpr hlead, Bool.true_or, if_true, hback]
  | pair more hlead htrail =>
    rw [← isTrailSurrogate_iff, Bool.not_eq_true] at htrail
    simp only [utf16to8, isLeadSurrogate_iff.mpr hlead, htrail, Bool.false_eq_true, if_false, if_true,
      hback]

/-! ## A text -/

/-- **What comes behind a text is converted as it would be alone.** -/
theorem utf16to8_encode_append (cs : List Char) (more : List UInt16) :
    utf16to8 (Utf16.encode cs ++ more) = (utf16to8 more).map (encode cs ++ ·) := by
  induction cs with
  | nil =>
    cases h : utf16to8 more <;> simp [h, Except.map]
  | cons c cs ih =>
    rw [Utf16.encode_cons, List.append_assoc, utf16to8_encodeChar_append, ih]
    cases utf16to8 more with
    | error e => rfl
    | ok bytes => simp only [Except.map, encode_cons, List.append_assoc]

/-- **Every text comes back** from its units. -/
theorem utf16to8_encode (cs : List Char) : utf16to8 (Utf16.encode cs) = .ok (encode cs) := by
  have h := utf16to8_encode_append cs []
  rw [List.append_nil] at h
  rw [h, utf16to8]
  simp [Except.map]

/-- **The conversion to UTF-16 is the decoder's**, each code point written as its units. -/
theorem utf8to16_eq (bytes : List UInt8) :
    utf8to16 bytes = (utf8to32 bytes).map (List.flatMap units) := by
  fun_induction utf8to32 bytes with
  | case1 =>
    rw [utf8to16]
    rfl
  | case2 lead rest e h =>
    rw [utf8to16]
    split
    · next h' =>
      rw [h] at h'
      rw [Except.error.inj h']
      rfl
    · next h' => rw [h] at h'; cases h'
  | case3 lead rest cp more h _ ih =>
    rw [utf8to16]
    split
    · next h' => rw [h] at h'; cases h'
    · next h' =>
      rw [h] at h'
      obtain ⟨rfl, rfl⟩ := Prod.mk.inj (Except.ok.inj h')
      rw [ih]
      cases utf8to32 more <;> rfl

/-- **Texts become their units**, and nothing else does. -/
theorem utf8to16_eq_ok {bytes : List UInt8} {us : List UInt16} :
    utf8to16 bytes = .ok us ↔ ∃ cs, encode cs = bytes ∧ us = Utf16.encode cs := by
  have hmap (cs : List Char) : (cs.map Char.val).flatMap units = Utf16.encode cs := by
    rw [List.flatMap_map, Utf16.encode]
    exact List.flatMap_congr fun c _ => units_val c
  rw [utf8to16_eq]
  constructor
  · intro h
    cases hdecoded : utf8to32 bytes with
    | error e =>
      rw [hdecoded] at h
      nomatch h
    | ok cps =>
      obtain ⟨cs, rfl, rfl⟩ := utf8to32_eq_ok.mp hdecoded
      rw [hdecoded] at h
      exact ⟨cs, rfl, (Except.ok.inj h).symm.trans (hmap cs)⟩
  · rintro ⟨cs, rfl, rfl⟩
    rw [utf8to32_encode, Except.map, hmap]

/-- **The two conversions undo each other**: what one makes of code units the other makes them of again,
and the one from UTF-16 throws nothing but the first unit that is out of place behind a text. -/
theorem utf16_round_trip (us : List UInt16) :
    (∀ bytes, utf16to8 us = .ok bytes ↔ utf8to16 bytes = .ok us) ∧
      ∀ thrown, utf16to8 us = .error thrown ↔
        ∃ cs u rest, us = Utf16.encode cs ++ rest ∧ Utf16.Broken u rest ∧ thrown = .invalidUtf16 u := by
  have hbroken {cs : List Char} {u : UInt16} {rest : List UInt16} (h : Utf16.Broken u rest) :
      utf16to8 (Utf16.encode cs ++ rest) = .error (.invalidUtf16 u) := by
    rw [utf16to8_encode_append, utf16to8_of_broken h]
    rfl
  refine ⟨fun bytes => ⟨fun h => ?_, fun h => ?_⟩, fun thrown => ⟨fun h => ?_, ?_⟩⟩
  · obtain ⟨cs, rest, rfl, rfl | ⟨u, hu⟩⟩ := Utf16.exists_text us
    · rw [List.append_nil, utf16to8_encode] at h
      exact utf8to16_eq_ok.mpr ⟨cs, Except.ok.inj h, List.append_nil _⟩
    · rw [hbroken hu] at h
      nomatch h
  · obtain ⟨cs, rfl, rfl⟩ := utf8to16_eq_ok.mp h
    exact utf16to8_encode cs
  · obtain ⟨cs, rest, rfl, rfl | ⟨u, hu⟩⟩ := Utf16.exists_text us
    · rw [List.append_nil, utf16to8_encode] at h
      nomatch h
    · rw [hbroken hu] at h
      exact ⟨cs, u, rest, rfl, hu, (Except.error.inj h).symm⟩
  · rintro ⟨cs, u, rest, rfl, hu, rfl⟩
    exact hbroken hu

end Utf8
