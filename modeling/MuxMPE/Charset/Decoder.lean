import Mathlib.Algebra.Group.Nat.Defs
import MuxMPE.Machinery.Fallible
import MuxMPE.Machinery.Utf8

/-!
# Charset/Decoder — the checked UTF-8 decoder

    it ──▸ lead ░ ░ ░ ⋯ end        sequence_length(lead)
           └────┬───┘              get_sequence_1 ⋯ 4
             cp, it'               is_code_point_valid, !is_overlong_sequence

An iterator is the list of the bytes from it to the end; one that is dereferenced is given as its byte
and those behind it.  `validateNext` takes one character off, or says why there is none, and `next`,
`findInvalid` and `utf8to32` are made of it.
-/

namespace Utf8

/-! ## Octets -/

def mask8 (oc : UInt8) : UInt8 := 0xff &&& oc

/-- An octet `10xxxxxx`. -/
def isTrail (oc : UInt8) : Bool := mask8 oc >>> 6 == 0x2

def LEAD_SURROGATE_MIN : UInt32 := 0xd800
def TRAIL_SURROGATE_MAX : UInt32 := 0xdfff
def CODE_POINT_MAX : UInt32 := 0x0010ffff

/-- A half of a UTF-16 surrogate pair, which is no code point of its own. -/
def isSurrogate (cp : UInt32) : Bool := LEAD_SURROGATE_MIN ≤ cp && cp ≤ TRAIL_SURROGATE_MAX

/-- A code point that UTF-8 may carry. -/
def isCodePointValid (cp : UInt32) : Bool := cp ≤ CODE_POINT_MAX && !isSurrogate cp

/-- How many octets the lead announces; 0 where it is no lead. -/
def sequenceLength (lead : UInt8) : ℕ :=
  if mask8 lead < 0x80 then 1
  else if mask8 lead >>> 5 == 0x6 then 2
  else if mask8 lead >>> 4 == 0xe then 3
  else if mask8 lead >>> 3 == 0x1e then 4
  else 0

/-- The code point was not written in the octets its size asks for. -/
def isOverlongSequence (cp : UInt32) (length : ℕ) : Bool :=
  if cp < 0x80 then length != 1
  else if cp < 0x800 then length != 2
  else if cp < 0x10000 then length != 3
  else false

/-! ## One character -/

/-- `internal::utf_error`, without its `UTF8_OK`. -/
inductive UtfError
  | NOT_ENOUGH_ROOM
  | INVALID_LEAD
  | INCOMPLETE_SEQUENCE
  | OVERLONG_SEQUENCE
  | INVALID_CODE_POINT
  deriving DecidableEq, Repr

/-- The trail octet that comes next, and what is behind it. -/
def increaseSafely : List UInt8 → Except UtfError (UInt8 × List UInt8)
  | [] => .error .NOT_ENOUGH_ROOM
  | b :: rest => if isTrail b then .ok (b, rest) else .error .INCOMPLETE_SEQUENCE

variable (lead : UInt8) (rest : List UInt8)

/-- An ASCII octet is its own code point. -/
def getSequence1 : Except UtfError (UInt32 × List UInt8) := .ok ((mask8 lead).toUInt32, rest)

/-- Five bits of the lead, six of the trail octet. -/
def getSequence2 : Except UtfError (UInt32 × List UInt8) := do
  let cp := (mask8 lead).toUInt32
  let (b, rest) ← increaseSafely rest
  return ((cp <<< 6 &&& 0x7ff) + (b &&& 0x3f).toUInt32, rest)

/-- Four bits of the lead, six of each of two trail octets. -/
def getSequence3 : Except UtfError (UInt32 × List UInt8) := do
  let cp := (mask8 lead).toUInt32
  let (b, rest) ← increaseSafely rest
  let cp := (cp <<< 12 &&& (0xffff : UInt32)) + ((mask8 b).toUInt32 <<< 6 &&& (0xfff : UInt32))
  let (c, rest) ← increaseSafely rest
  return (cp + (c &&& 0x3f).toUInt32, rest)

/-- Three bits of the lead, six of each of three trail octets. -/
def getSequence4 : Except UtfError (UInt32 × List UInt8) := do
  let cp := (mask8 lead).toUInt32
  let (b, rest) ← increaseSafely rest
  let cp := (cp <<< 18 &&& (0x1fffff : UInt32)) + ((mask8 b).toUInt32 <<< 12 &&& (0x3ffff : UInt32))
  let (c, rest) ← increaseSafely rest
  let cp := cp + ((mask8 c).toUInt32 <<< 6 &&& 0xfff)
  let (d, rest) ← increaseSafely rest
  return (cp + (d &&& 0x3f).toUInt32, rest)

/-- The security checks, on a code point decoded from `length` octets. -/
def checked (length : ℕ) (r : UInt32 × List UInt8) : Except UtfError (UInt32 × List UInt8) :=
  if isCodePointValid r.1 then
    if isOverlongSequence r.1 length then .error .OVERLONG_SEQUENCE else .ok r
  else .error .INVALID_CODE_POINT

/-- The next code point and the bytes behind it. -/
def validateNext : Except UtfError (UInt32 × List UInt8) :=
  match sequenceLength lead with
  | 1 => getSequence1 lead rest >>= checked 1
  | 2 => getSequence2 lead rest >>= checked 2
  | 3 => getSequence3 lead rest >>= checked 3
  | 4 => getSequence4 lead rest >>= checked 4
  | _ => .error .INVALID_LEAD

/-! ## The same in numbers -/

theorem mask8_eq (oc : UInt8) : mask8 oc = oc := by
  rw [mask8, UInt8.and_comm]
  exact UInt8.and_neg_one

/-- Trail octets are an interval. -/
theorem isTrail_iff {oc : UInt8} : isTrail oc = true ↔ 0x80 ≤ oc.toNat ∧ oc.toNat < 0xc0 := by
  rw [isTrail, mask8_eq, beq_iff_eq, ← UInt8.toNat_inj, UInt8.toNat_shiftRight]
  simp only [Nat.shiftRight_eq_div_pow]
  have h2 : (2 : UInt8).toNat = 2 := rfl
  have h6 : (6 : UInt8).toNat % 8 = 6 := rfl
  rw [h2, h6]
  omega

/-- The shifts of `sequence_length` cut the octets into intervals. -/
theorem sequenceLength_eq (lead : UInt8) : sequenceLength lead =
    if lead.toNat < 0x80 then 1
    else if 0xc0 ≤ lead.toNat ∧ lead.toNat < 0xe0 then 2
    else if 0xe0 ≤ lead.toNat ∧ lead.toNat < 0xf0 then 3
    else if 0xf0 ≤ lead.toNat ∧ lead.toNat < 0xf8 then 4
    else 0 := by
  have hlt := lead.toNat_lt
  simp only [sequenceLength, mask8_eq, beq_iff_eq, ← UInt8.toNat_inj, UInt8.toNat_shiftRight,
    UInt8.lt_iff_toNat_lt, Nat.shiftRight_eq_div_pow, UInt8.toNat_ofNat,
    Nat.reducePow, Nat.reduceMod]
  split_ifs <;> first | rfl | omega

/-- The six bits a trail octet carries. -/
theorem toNat_trail (b : UInt8) : (b &&& 0x3f).toUInt32.toNat = b.toNat % 64 := by
  rw [UInt8.toNat_toUInt32, UInt8.toNat_and]
  exact Nat.and_two_pow_sub_one_eq_mod b.toNat 6

/-- Octets shifted and masked, as numbers. -/
theorem toNat_shifted {b : UInt8} {s mask : UInt32} (k m : ℕ) (hs : s.toNat = k) (hk : k < 24)
    (hmask : mask.toNat = 2 ^ m - 1) :
    (b.toUInt32 <<< s &&& mask).toNat = b.toNat * 2 ^ k % 2 ^ m := by
  have hb := b.toNat_lt
  have hsmall : b.toNat * 2 ^ k < 2 ^ 32 := by
    calc b.toNat * 2 ^ k < 2 ^ 8 * 2 ^ 24 :=
          Nat.mul_lt_mul_of_lt_of_le hb (Nat.pow_le_pow_right (by omega) (by omega)) (by omega)
      _ = 2 ^ 32 := (Nat.pow_add 2 8 24).symm
  rw [UInt32.toNat_and, hmask, Nat.and_two_pow_sub_one_eq_mod, UInt32.toNat_shiftLeft, hs,
    UInt8.toNat_toUInt32, Nat.mod_eq_of_lt (by omega : k < 32), Nat.shiftLeft_eq,
    Nat.mod_eq_of_lt hsmall]

variable {lead rest} {more : List UInt8} {cp : UInt32}

/-- `increase` succeeds on a trail octet and on nothing else. -/
theorem increaseSafely_eq_ok {b : UInt8} :
    increaseSafely rest = .ok (b, more) ↔ rest = b :: more ∧ isTrail b = true := by
  cases rest with
  | nil => simp [increaseSafely]
  | cons b' rest =>
    by_cases h : isTrail b' = true
    · rw [increaseSafely, if_pos h, Except.ok.injEq, Prod.mk.injEq, List.cons.injEq]
      refine ⟨fun heq => ⟨heq, heq.1 ▸ h⟩, fun heq => heq.1⟩
    · rw [increaseSafely, if_neg h]
      refine ⟨nofun, ?_⟩
      rintro ⟨heq, hb⟩
      rw [List.cons.injEq] at heq
      exact absurd (heq.1 ▸ hb) h

/-- What passes the security checks passes unchanged. -/
theorem checked_eq_ok {length : ℕ} {r : UInt32 × List UInt8} : checked length r = .ok (cp, more) ↔
    r = (cp, more) ∧ isCodePointValid cp = true ∧ isOverlongSequence cp length = false := by
  suffices checked length r = .ok (cp, more) ↔ r = (cp, more) ∧ isCodePointValid r.1 = true ∧
      isOverlongSequence r.1 length = false by
    rw [this]
    exact and_congr_right fun h => by rw [h]
  rw [checked]
  split_ifs with hvalid hoverlong
  · simp [hoverlong]
  · simp [hvalid, hoverlong]
  · simp [hvalid]

/-- The code points that pass are Lean's characters. -/
theorem isCodePointValid_iff : isCodePointValid cp = true ↔ cp.isValidChar := by
  simp only [isCodePointValid, isSurrogate, CODE_POINT_MAX, LEAD_SURROGATE_MIN, TRAIL_SURROGATE_MAX,
    Bool.and_eq_true, Bool.not_eq_true', Bool.and_eq_false_iff, decide_eq_true_eq,
    decide_eq_false_iff_not, UInt32.le_iff_toNat_le, UInt32.isValidChar, Nat.isValidChar,
    UInt32.toNat_ofNat, Nat.reducePow, Nat.reduceMod]
  omega

/-- What the length must be, for each size of code point. -/
theorem isOverlongSequence_iff {length : ℕ} : isOverlongSequence cp length = false ↔
    (length = 1 ∨ 0x80 ≤ cp.toNat) ∧ (length = 2 ∨ cp.toNat < 0x80 ∨ 0x800 ≤ cp.toNat) ∧
      (length = 3 ∨ cp.toNat < 0x800 ∨ 0x10000 ≤ cp.toNat) := by
  simp only [isOverlongSequence, UInt32.lt_iff_toNat_lt, UInt32.toNat_ofNat, Nat.reducePow,
    Nat.reduceMod]
  split_ifs <;> simp <;> omega

/-- Two octets, decoded in numbers. -/
theorem getSequence2_eq_ok : getSequence2 lead rest = .ok (cp, more) ↔
    ∃ b, rest = b :: more ∧ isTrail b = true ∧
      cp.toNat = lead.toNat * 2 ^ 6 % 2 ^ 11 + b.toNat % 64 := by
  have hvalue (b : UInt8) : cp.toNat = lead.toNat * 2 ^ 6 % 2 ^ 11 + b.toNat % 64 ↔
      ((mask8 lead).toUInt32 <<< 6 &&& 0x7ff) + (b &&& 0x3f).toUInt32 = cp := by
    rw [← UInt32.toNat_inj, UInt32.toNat_add, mask8_eq, toNat_shifted 6 11 rfl (by omega) rfl,
      toNat_trail]
    omega
  simp only [hvalue, getSequence2, Except.bind_eq_ok, Prod.exists, increaseSafely_eq_ok]
  constructor
  · rintro ⟨b, _, ⟨rfl, hb⟩, hr⟩
    obtain ⟨rfl, rfl⟩ := Prod.mk.inj (Except.ok.inj hr)
    exact ⟨b, rfl, hb, rfl⟩
  · rintro ⟨b, rfl, hb, rfl⟩
    exact ⟨b, more, ⟨rfl, hb⟩, rfl⟩

/-- Three octets, decoded in numbers. -/
theorem getSequence3_eq_ok : getSequence3 lead rest = .ok (cp, more) ↔
    ∃ b c, rest = b :: c :: more ∧ isTrail b = true ∧ isTrail c = true ∧
      cp.toNat = lead.toNat * 2 ^ 12 % 2 ^ 16 + b.toNat * 2 ^ 6 % 2 ^ 12 + c.toNat % 64 := by
  have hvalue (b c : UInt8) :
      cp.toNat = lead.toNat * 2 ^ 12 % 2 ^ 16 + b.toNat * 2 ^ 6 % 2 ^ 12 + c.toNat % 64 ↔
      ((mask8 lead).toUInt32 <<< 12 &&& (0xffff : UInt32))
        + ((mask8 b).toUInt32 <<< 6 &&& (0xfff : UInt32))
        + (c &&& 0x3f).toUInt32 = cp := by
    rw [← UInt32.toNat_inj, UInt32.toNat_add, UInt32.toNat_add, mask8_eq, mask8_eq,
      toNat_shifted 12 16 rfl (by omega) rfl, toNat_shifted 6 12 rfl (by omega) rfl, toNat_trail]
    omega
  simp only [hvalue, getSequence3, Except.bind_eq_ok, Prod.exists, increaseSafely_eq_ok]
  constructor
  · rintro ⟨b, _, ⟨rfl, hb⟩, c, _, ⟨rfl, hc⟩, hr⟩
    obtain ⟨rfl, rfl⟩ := Prod.mk.inj (Except.ok.inj hr)
    exact ⟨b, c, rfl, hb, hc, rfl⟩
  · rintro ⟨b, c, rfl, hb, hc, rfl⟩
    exact ⟨b, c :: more, ⟨rfl, hb⟩, c, more, ⟨rfl, hc⟩, rfl⟩

/-- Four octets, decoded in numbers. -/
theorem getSequence4_eq_ok : getSequence4 lead rest = .ok (cp, more) ↔
    ∃ b c d, rest = b :: c :: d :: more ∧ isTrail b = true ∧ isTrail c = true ∧ isTrail d = true ∧
      cp.toNat = lead.toNat * 2 ^ 18 % 2 ^ 21 + b.toNat * 2 ^ 12 % 2 ^ 18 + c.toNat * 2 ^ 6 % 2 ^ 12
        + d.toNat % 64 := by
  have hvalue (b c d : UInt8) :
      cp.toNat = lead.toNat * 2 ^ 18 % 2 ^ 21 + b.toNat * 2 ^ 12 % 2 ^ 18 + c.toNat * 2 ^ 6 % 2 ^ 12
        + d.toNat % 64 ↔
      ((mask8 lead).toUInt32 <<< 18 &&& (0x1fffff : UInt32))
        + ((mask8 b).toUInt32 <<< 12 &&& (0x3ffff : UInt32))
        + ((mask8 c).toUInt32 <<< 6 &&& (0xfff : UInt32)) + (d &&& 0x3f).toUInt32 = cp := by
    rw [← UInt32.toNat_inj, UInt32.toNat_add, UInt32.toNat_add, UInt32.toNat_add, mask8_eq, mask8_eq,
      mask8_eq, toNat_shifted 18 21 rfl (by omega) rfl, toNat_shifted 12 18 rfl (by omega) rfl,
      toNat_shifted 6 12 rfl (by omega) rfl, toNat_trail]
    omega
  simp only [hvalue, getSequence4, Except.bind_eq_ok, Prod.exists, increaseSafely_eq_ok]
  constructor
  · rintro ⟨b, _, ⟨rfl, hb⟩, c, _, ⟨rfl, hc⟩, d, _, ⟨rfl, hd⟩, hr⟩
    obtain ⟨rfl, rfl⟩ := Prod.mk.inj (Except.ok.inj hr)
    exact ⟨b, c, d, rfl, hb, hc, hd, rfl⟩
  · rintro ⟨b, c, d, rfl, hb, hc, hd, rfl⟩
    exact ⟨b, c :: d :: more, ⟨rfl, hb⟩, c, d :: more, ⟨rfl, hc⟩, d, more, ⟨rfl, hd⟩, rfl⟩

theorem ofNat_eq_iff {n : ℕ} {b : UInt8} (h : n < 256) : UInt8.ofNat n = b ↔ b.toNat = n := by
  rw [← UInt8.toNat_inj, UInt8.toNat_ofNat_of_lt' h]
  exact eq_comm

/-- The trail octet for the low six bits of a number. -/
theorem toNat_trailOctet (n : ℕ) : (UInt8.ofNat (0x80 + n % 64)).toNat = 0x80 + n % 64 :=
  (ofNat_eq_iff (by omega)).mp rfl

theorem isTrail_trailOctet (n : ℕ) : isTrail (UInt8.ofNat (0x80 + n % 64)) = true := by
  rw [isTrail_iff, toNat_trailOctet]
  omega

/-- A trail octet is known by its low six bits. -/
theorem trailOctet_eq {n : ℕ} {b : UInt8} (hb : isTrail b = true) (hn : n % 64 = b.toNat % 64) :
    UInt8.ofNat (0x80 + n % 64) = b := by
  rw [isTrail_iff] at hb
  exact (ofNat_eq_iff (by omega)).mpr (by omega)

/-- Each length, as an interval of leads. -/
theorem sequenceLength_iff (lead : UInt8) :
    (sequenceLength lead = 1 ↔ lead.toNat < 0x80) ∧
      (sequenceLength lead = 2 ↔ 0xc0 ≤ lead.toNat ∧ lead.toNat < 0xe0) ∧
      (sequenceLength lead = 3 ↔ 0xe0 ≤ lead.toNat ∧ lead.toNat < 0xf0) ∧
      (sequenceLength lead = 4 ↔ 0xf0 ≤ lead.toNat ∧ lead.toNat < 0xf8) := by
  have hlead := sequenceLength_eq lead
  split_ifs at hlead <;> omega

/-- A sequence of `n` octets, decoded by `get`, passes the checks. -/
def Decodes (n : ℕ) (get : Except UtfError (UInt32 × List UInt8)) (lead : UInt8) (cp : UInt32)
    (more : List UInt8) : Prop :=
  sequenceLength lead = n ∧ get >>= checked n = .ok (cp, more)

/-- One octet decodes to the characters below `0x80`. -/
theorem decodes_one : Decodes 1 (getSequence1 lead rest) lead cp more ↔
    ∃ c : Char, c.val = cp ∧ cp.toNat < 0x80 ∧ lead :: rest = String.utf8EncodeChar c ++ more := by
  rw [Decodes, (sequenceLength_iff lead).1, Except.bind_eq_ok]
  constructor
  · rintro ⟨hlead, r, hr, hchecked⟩
    obtain ⟨rfl, hvalid, -⟩ := checked_eq_ok.mp hchecked
    obtain ⟨rfl, rfl⟩ := Prod.mk.inj (Except.ok.inj hr)
    have hcp : (mask8 lead).toUInt32.toNat = lead.toNat := by rw [UInt8.toNat_toUInt32, mask8_eq]
    refine ⟨⟨_, isCodePointValid_iff.mp hvalid⟩, rfl, by omega, ?_⟩
    rw [utf8EncodeChar_one (by simp only; omega)]
    simp only [hcp, UInt8.ofNat_toNat, List.singleton_append]
  · rintro ⟨c, rfl, hsmall, hbytes⟩
    rw [utf8EncodeChar_one hsmall, List.singleton_append, List.cons.injEq] at hbytes
    obtain ⟨hlead, rfl⟩ := hbytes
    have hcp := (ofNat_eq_iff (by omega)).mp hlead.symm
    refine ⟨by omega, (c.val, rest), ?_, checked_eq_ok.mpr ⟨rfl, isCodePointValid_iff.mpr c.valid, ?_⟩⟩
    · have hvalue : (mask8 lead).toUInt32 = c.val := by
        rw [← UInt32.toNat_inj, UInt8.toNat_toUInt32, mask8_eq, hcp]
      rw [getSequence1, hvalue]
    · exact isOverlongSequence_iff.mpr ⟨.inl rfl, by omega, by omega⟩

/-- Two octets decode to the characters from `0x80` to `0x7ff`. -/
theorem decodes_two : Decodes 2 (getSequence2 lead rest) lead cp more ↔
    ∃ c : Char, c.val = cp ∧ (0x80 ≤ cp.toNat ∧ cp.toNat < 0x800) ∧
      lead :: rest = String.utf8EncodeChar c ++ more := by
  rw [Decodes, (sequenceLength_iff lead).2.1, Except.bind_eq_ok]
  constructor
  · rintro ⟨hlead, r, hr, hchecked⟩
    obtain ⟨rfl, hvalid, hoverlong⟩ := checked_eq_ok.mp hchecked
    obtain ⟨b, rfl, hb, hcp⟩ := getSequence2_eq_ok.mp hr
    rw [isOverlongSequence_iff] at hoverlong
    have hrange : 0x80 ≤ cp.toNat ∧ cp.toNat < 0x800 := by omega
    have hfirst : UInt8.ofNat (0xc0 + cp.toNat / 64) = lead :=
      (ofNat_eq_iff (by omega)).mpr (by omega)
    have hsecond : UInt8.ofNat (0x80 + cp.toNat % 64) = b := trailOctet_eq hb (by omega)
    refine ⟨⟨cp, isCodePointValid_iff.mp hvalid⟩, rfl, hrange, ?_⟩
    rw [utf8EncodeChar_two hrange.1 hrange.2]
    simp only [hfirst, hsecond, List.cons_append, List.nil_append]
  · rintro ⟨c, rfl, hrange, hbytes⟩
    rw [utf8EncodeChar_two hrange.1 hrange.2] at hbytes
    simp only [List.cons_append, List.nil_append, List.cons.injEq] at hbytes
    obtain ⟨hlead, rfl⟩ := hbytes
    have hlead := (ofNat_eq_iff (by omega)).mp hlead.symm
    have hb := toNat_trailOctet c.val.toNat
    refine ⟨by omega, (c.val, more), getSequence2_eq_ok.mpr ⟨_, rfl, isTrail_trailOctet _, by omega⟩,
      checked_eq_ok.mpr ⟨rfl, isCodePointValid_iff.mpr c.valid, ?_⟩⟩
    exact isOverlongSequence_iff.mpr ⟨by omega, .inl rfl, by omega⟩

/-- Three octets decode to the characters from `0x800` to `0xffff`. -/
theorem decodes_three : Decodes 3 (getSequence3 lead rest) lead cp more ↔
    ∃ c : Char, c.val = cp ∧ (0x800 ≤ cp.toNat ∧ cp.toNat < 0x10000) ∧
      lead :: rest = String.utf8EncodeChar c ++ more := by
  rw [Decodes, (sequenceLength_iff lead).2.2.1, Except.bind_eq_ok]
  constructor
  · rintro ⟨hlead, r, hr, hchecked⟩
    obtain ⟨rfl, hvalid, hoverlong⟩ := checked_eq_ok.mp hchecked
    obtain ⟨b, b', rfl, hb, hb', hcp⟩ := getSequence3_eq_ok.mp hr
    rw [isOverlongSequence_iff] at hoverlong
    have hrange : 0x800 ≤ cp.toNat ∧ cp.toNat < 0x10000 := by omega
    have hfirst : UInt8.ofNat (0xe0 + cp.toNat / 4096) = lead :=
      (ofNat_eq_iff (by omega)).mpr (by omega)
    have hsecond : UInt8.ofNat (0x80 + cp.toNat / 64 % 64) = b := trailOctet_eq hb (by omega)
    have hthird : UInt8.ofNat (0x80 + cp.toNat % 64) = b' := trailOctet_eq hb' (by omega)
    refine ⟨⟨cp, isCodePointValid_iff.mp hvalid⟩, rfl, hrange, ?_⟩
    rw [utf8EncodeChar_three hrange.1 hrange.2]
    simp only [hfirst, hsecond, hthird, List.cons_append, List.nil_append]
  · rintro ⟨c, rfl, hrange, hbytes⟩
    rw [utf8EncodeChar_three hrange.1 hrange.2] at hbytes
    simp only [List.cons_append, List.nil_append, List.cons.injEq] at hbytes
    obtain ⟨hlead, rfl⟩ := hbytes
    have hlead := (ofNat_eq_iff (by omega)).mp hlead.symm
    have hb := toNat_trailOctet (c.val.toNat / 64)
    have hb' := toNat_trailOctet c.val.toNat
    refine ⟨by omega, (c.val, more), getSequence3_eq_ok.mpr ⟨_, _, rfl, isTrail_trailOctet _,
      isTrail_trailOctet _, by omega⟩,
      checked_eq_ok.mpr ⟨rfl, isCodePointValid_iff.mpr c.valid, ?_⟩⟩
    exact isOverlongSequence_iff.mpr ⟨by omega, by omega, .inl rfl⟩

/-- Four octets decode to the characters from `0x10000` on. -/
theorem decodes_four : Decodes 4 (getSequence4 lead rest) lead cp more ↔
    ∃ c : Char, c.val = cp ∧ 0x10000 ≤ cp.toNat ∧
      lead :: rest = String.utf8EncodeChar c ++ more := by
  rw [Decodes, (sequenceLength_iff lead).2.2.2, Except.bind_eq_ok]
  constructor
  · rintro ⟨hlead, r, hr, hchecked⟩
    obtain ⟨rfl, hvalid, hoverlong⟩ := checked_eq_ok.mp hchecked
    obtain ⟨b, b', b'', rfl, hb, hb', hb'', hcp⟩ := getSequence4_eq_ok.mp hr
    rw [isOverlongSequence_iff] at hoverlong
    have hrange : 0x10000 ≤ cp.toNat := by omega
    have hfirst : UInt8.ofNat (0xf0 + cp.toNat / 262144) = lead :=
      (ofNat_eq_iff (by omega)).mpr (by omega)
    have hsecond : UInt8.ofNat (0x80 + cp.toNat / 4096 % 64) = b := trailOctet_eq hb (by omega)
    have hthird : UInt8.ofNat (0x80 + cp.toNat / 64 % 64) = b' := trailOctet_eq hb' (by omega)
    have hfourth : UInt8.ofNat (0x80 + cp.toNat % 64) = b'' := trailOctet_eq hb'' (by omega)
    refine ⟨⟨cp, isCodePointValid_iff.mp hvalid⟩, rfl, hrange, ?_⟩
    rw [utf8EncodeChar_four hrange]
    simp only [hfirst, hsecond, hthird, hfourth, List.cons_append, List.nil_append]
  · rintro ⟨c, rfl, hrange, hbytes⟩
    have hmax : c.val.toNat < 0x110000 := by
      have hvalid := c.valid
      simp only [UInt32.isValidChar, Nat.isValidChar] at hvalid
      omega
    rw [utf8EncodeChar_four hrange] at hbytes
    simp only [List.cons_append, List.nil_append, List.cons.injEq] at hbytes
    obtain ⟨hlead, rfl⟩ := hbytes
    have hlead := (ofNat_eq_iff (by omega)).mp hlead.symm
    have hb := toNat_trailOctet (c.val.toNat / 4096)
    have hb' := toNat_trailOctet (c.val.toNat / 64)
    have hb'' := toNat_trailOctet c.val.toNat
    refine ⟨by omega, (c.val, more), getSequence4_eq_ok.mpr ⟨_, _, _, rfl, isTrail_trailOctet _,
      isTrail_trailOctet _, isTrail_trailOctet _, by omega⟩,
      checked_eq_ok.mpr ⟨rfl, isCodePointValid_iff.mpr c.valid, ?_⟩⟩
    exact isOverlongSequence_iff.mpr ⟨by omega, by omega, by omega⟩

/-- **The decoder takes off exactly the characters.** -/
theorem validateNext_eq_ok : validateNext lead rest = .ok (cp, more) ↔
    ∃ c : Char, c.val = cp ∧ lead :: rest = String.utf8EncodeChar c ++ more := by
  have hcases : validateNext lead rest = .ok (cp, more) ↔
      Decodes 1 (getSequence1 lead rest) lead cp more ∨
        Decodes 2 (getSequence2 lead rest) lead cp more ∨
        Decodes 3 (getSequence3 lead rest) lead cp more ∨
        Decodes 4 (getSequence4 lead rest) lead cp more := by
    rw [validateNext]
    simp only [Decodes]
    split <;> simp_all
  rw [hcases, decodes_one, decodes_two, decodes_three, decodes_four]
  constructor
  · rintro (⟨c, hc, -, h⟩ | ⟨c, hc, -, h⟩ | ⟨c, hc, -, h⟩ | ⟨c, hc, -, h⟩) <;> exact ⟨c, hc, h⟩
  · rintro ⟨c, hc, h⟩
    by_cases h₁ : cp.toNat < 0x80
    · exact .inl ⟨c, hc, h₁, h⟩
    by_cases h₂ : cp.toNat < 0x800
    · exact .inr (.inl ⟨c, hc, ⟨by omega, h₂⟩, h⟩)
    by_cases h₃ : cp.toNat < 0x10000
    · exact .inr (.inr (.inl ⟨c, hc, ⟨by omega, h₃⟩, h⟩))
    · exact .inr (.inr (.inr ⟨c, hc, by omega, h⟩))

/-- A character that was taken off is gone. -/
theorem length_of_validateNext (h : validateNext lead rest = .ok (cp, more)) :
    more.length < (lead :: rest).length := by
  obtain ⟨c, -, hbytes⟩ := validateNext_eq_ok.mp h
  rw [hbytes, List.length_append, String.length_utf8EncodeChar]
  have hpos := Char.utf8Size_pos c
  omega

/-! ## The library API -/

/-- `utf8::exception`. -/
inductive Exception
  | invalidCodePoint (cp : UInt32)
  | invalidUtf8 (u8 : UInt8)
  | notEnoughRoom
  deriving DecidableEq, Repr

/-- `utf8::next`: an error of the decoder becomes an exception. -/
def next (lead : UInt8) (rest : List UInt8) : Except Exception (UInt32 × List UInt8) :=
  match validateNext lead rest with
  | .ok r => .ok r
  | .error .NOT_ENOUGH_ROOM => .error .notEnoughRoom
  | .error .INVALID_LEAD | .error .INCOMPLETE_SEQUENCE | .error .OVERLONG_SEQUENCE =>
    .error (.invalidUtf8 lead)
  -- the code point that is reported is still the initial one
  | .error .INVALID_CODE_POINT => .error (.invalidCodePoint 0)

/-- The iterator at the first octet that starts no character, or the end. -/
def findInvalid : List UInt8 → List UInt8
  | [] => []
  | lead :: rest =>
    match h : validateNext lead rest with
    | .ok (_, more) =>
      have := length_of_validateNext h
      findInvalid more
    | .error _ => lead :: rest
termination_by bytes => bytes.length
decreasing_by assumption

/-- `next` takes off what the decoder takes off. -/
theorem next_eq_ok : next lead rest = .ok (cp, more) ↔
    ∃ c : Char, c.val = cp ∧ lead :: rest = String.utf8EncodeChar c ++ more := by
  rw [← validateNext_eq_ok, next]
  split <;> simp_all

/-- The code points of a text, or the first exception. -/
def utf8to32 : List UInt8 → Except Exception (List UInt32)
  | [] => .ok []
  | lead :: rest =>
    match h : next lead rest with
    | .error e => .error e
    | .ok (cp, more) => do
      have := length_of_validateNext (validateNext_eq_ok.mpr (next_eq_ok.mp h))
      let cps ← utf8to32 more
      return cp :: cps
termination_by bytes => bytes.length
decreasing_by assumption

/-- **What `find_invalid` leaves out** is the longest well-formed prefix. -/
theorem findInvalid_longestPrefix (bytes : List UInt8) :
    ∃ p, bytes = p ++ findInvalid bytes ∧ LongestPrefix p bytes := by
  suffices h : ∃ p, bytes = p ++ findInvalid bytes ∧ WellFormed p ∧
      ∀ c more, findInvalid bytes ≠ String.utf8EncodeChar c ++ more by
    obtain ⟨p, hsplit, hwell, hnone⟩ := h
    have hlongest := longestPrefix_of_not_char hwell hnone
    exact ⟨p, hsplit, by rwa [← hsplit] at hlongest⟩
  fun_induction findInvalid bytes with
  | case1 =>
    refine ⟨[], rfl, .nil, fun c more h => ?_⟩
    exact utf8EncodeChar_ne_nil c (List.append_eq_nil_iff.mp h.symm).1
  | case2 lead rest cp more h _ ih =>
    obtain ⟨p, hsplit, hwell, hnone⟩ := ih
    obtain ⟨c, -, hbytes⟩ := validateNext_eq_ok.mp h
    refine ⟨String.utf8EncodeChar c ++ p, ?_, ?_, hnone⟩
    · rw [hbytes, List.append_assoc, ← hsplit]
    · obtain ⟨cs, rfl⟩ := hwell
      exact ⟨c :: cs, rfl⟩
  | case3 lead rest e h =>
    refine ⟨[], rfl, .nil, fun c more hbytes => ?_⟩
    have hok : validateNext lead rest = .ok (c.val, more) :=
      validateNext_eq_ok.mpr ⟨c, rfl, hbytes⟩
    rw [h] at hok
    nomatch hok

/-- **A text is decoded into its characters**, and nothing else is decoded. -/
theorem utf8to32_eq_ok {bytes : List UInt8} {cps : List UInt32} :
    utf8to32 bytes = .ok cps ↔ ∃ cs, encode cs = bytes ∧ cps = cs.map Char.val := by
  fun_induction utf8to32 bytes generalizing cps with
  | case1 =>
    constructor
    · intro h
      exact ⟨[], rfl, (Except.ok.inj h).symm⟩
    · rintro ⟨cs, hcs, rfl⟩
      rw [encode_injective (hcs.trans encode_nil.symm), List.map_nil]
  | case2 lead rest e h =>
    refine ⟨nofun, ?_⟩
    rintro ⟨cs, hcs, -⟩
    cases cs with
    | nil => nomatch hcs
    | cons c cs =>
      have hok : next lead rest = .ok (c.val, encode cs) := next_eq_ok.mpr ⟨c, rfl, hcs.symm⟩
      rw [h] at hok
      nomatch hok
  | case3 lead rest cp more h _ ih =>
    obtain ⟨c, rfl, hbytes⟩ := next_eq_ok.mp h
    rw [Except.bind_eq_ok, hbytes]
    constructor
    · rintro ⟨cps', hcps', hcons⟩
      obtain ⟨cs, rfl, rfl⟩ := ih.mp hcps'
      exact ⟨c :: cs, rfl, (Except.ok.inj hcons).symm⟩
    · rintro ⟨cs, hcs, rfl⟩
      have hhead : encode cs = encode [c] ++ more := by rw [hcs, encode_cons, encode_nil, List.append_nil]
      obtain ⟨ds, rfl, hds⟩ := encode_append_inv hhead
      exact ⟨ds.map Char.val, ih.mpr ⟨ds, hds, rfl⟩, rfl⟩

/-- Every text is decoded. -/
theorem utf8to32_encode (cs : List Char) : utf8to32 (encode cs) = .ok (cs.map Char.val) :=
  utf8to32_eq_ok.mpr ⟨cs, rfl, rfl⟩

/-- **Well-formed is what decodes** without an exception. -/
theorem wellFormed_iff_utf8to32 {bytes : List UInt8} :
    WellFormed bytes ↔ ∃ cps, utf8to32 bytes = .ok cps := by
  constructor
  · rintro ⟨cs, rfl⟩
    exact ⟨_, utf8to32_encode cs⟩
  · rintro ⟨cps, h⟩
    obtain ⟨cs, hcs, -⟩ := utf8to32_eq_ok.mp h
    exact ⟨cs, hcs⟩

end Utf8
