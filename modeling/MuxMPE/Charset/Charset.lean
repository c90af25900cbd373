import Mathlib.Data.List.GetD
import Mathlib.Data.List.Nodup
import MuxMPE.Charset.Decoder

/-!
# Charset/Charset — EBU Latin to UTF-8 and back

    EBU Latin    01   02   03  ⋯  20  ⋯  ff      00
                 │    │    │      │      │       ╎ to UTF-8 only
    character    Ę    Į    Ų  ⋯ space ⋯  ħ       ⁇

One table of UTF-8 strings serves both directions: to UTF-8 it is indexed by the byte, from UTF-8 it is
searched, decoded once by the constructor.  The two agree because every entry is one character and no
character is there twice (`ebuLatin_nodup`); what the table does not have becomes a space.
-/

open Utf8

namespace Charset

/-! ## The converter -/

def CHARSET_TABLE_OFFSET : ℕ := 1
def CHARSET_TABLE_ENTRIES : ℕ := 256 - CHARSET_TABLE_OFFSET

set_option maxRecDepth 2048 in
def utf8EncodedEbuLatin : Vector String CHARSET_TABLE_ENTRIES := #v[
  "Ę", "Į", "Ų", "Ă", "Ė", "Ď", "Ș", "Ț", "Ċ", "\n", "\x0b", "Ġ", "Ĺ", "Ż", "Ń",
  "ą", "ę", "į", "ų", "ă", "ė", "ď", "ș", "ț", "ċ", "Ň", "Ě", "ġ", "ĺ", "ż", "\u0082",
  " ", "!", "\"", "#", "ł", "%", "&", "'", "(", ")", "*", "+", ",", "-", ".", "/",
  "0", "1", "2", "3", "4", "5", "6", "7", "8", "9", ":", ";", "<", "=", ">", "?",
  "@", "A", "B", "C", "D", "E", "F", "G", "H", "I", "J", "K", "L", "M", "N", "O",
  "P", "Q", "R", "S", "T", "U", "V", "W", "X", "Y", "Z", "[", "Ů", "]", "Ł", "_",
  "Ą", "a", "b", "c", "d", "e", "f", "g", "h", "i", "j", "k", "l", "m", "n", "o",
  "p", "q", "r", "s", "t", "u", "v", "w", "x", "y", "z", "«", "ů", "»", "Ľ", "Ħ",
  "á", "à", "é", "è", "í", "ì", "ó", "ò", "ú", "ù", "Ñ", "Ç", "Ş", "ß", "¡", "Ÿ",
  "â", "ä", "ê", "ë", "î", "ï", "ô", "ö", "û", "ü", "ñ", "ç", "ş", "ğ", "ı", "ÿ",
  "Ķ", "Ņ", "©", "Ģ", "Ğ", "ě", "ň", "ő", "Ő", "€", "£", "$", "Ā", "Ē", "Ī", "Ū",
  "ķ", "ņ", "Ļ", "ģ", "ļ", "İ", "ń", "ű", "Ű", "¿", "ľ", "°", "ā", "ē", "ī", "ū",
  "Á", "À", "É", "È", "Í", "Ì", "Ó", "Ò", "Ú", "Ù", "Ř", "Č", "Š", "Ž", "Ð", "Ŀ",
  "Â", "Ä", "Ê", "Ë", "Î", "Ï", "Ô", "Ö", "Û", "Ü", "ř", "č", "š", "ž", "đ", "ŀ",
  "Ã", "Å", "Æ", "Œ", "ŷ", "Ý", "Õ", "Ø", "Þ", "Ŋ", "Ŕ", "Ć", "Ś", "Ź", "Ť", "ð",
  "ã", "å", "æ", "œ", "ŵ", "ý", "õ", "ø", "þ", "ŋ", "ŕ", "ć", "ś", "ź", "ť", "ħ"]

/-- The converter is its table. -/
structure CharsetConverter where
  conversionTable : List UInt32

namespace CharsetConverter

/-- The first code point of an entry. -/
def codePoint (entry : String) : Except Exception UInt32 :=
  match encode entry.toList with
  | [] => .error .notEnoughRoom
  | lead :: rest => do
    let (cp, _) ← next lead rest
    return cp

/-- The constructor: the code points of the table, in its order. -/
def construct : Except Exception CharsetConverter := do
  let conversionTable ← utf8EncodedEbuLatin.toList.mapM codePoint
  return { conversionTable }

variable (cc : CharsetConverter)

/-- The byte of a code point, a space if it has none. -/
def ebuByte (cp : UInt32) : UInt8 :=
  match cc.conversionTable.findIdx? (· == cp) with
  | some index => UInt8.ofNat (index + CHARSET_TABLE_OFFSET)
  | none => 0x20

def utf8ToEbu (line : List UInt8) (upToFirstError : Bool) : Except Exception (List UInt8) := do
  let line :=
    if upToFirstError then line.take (line.length - (findInvalid line).length) else line
  let utf32line ← utf8to32 line
  return utf32line.map cc.ebuByte

/-- The entry of a byte; NUL has none. -/
def utf8Char (c : UInt8) : List UInt8 :=
  if h : CHARSET_TABLE_OFFSET ≤ c.toNat then
    let index := ⟨c.toNat - CHARSET_TABLE_OFFSET, Nat.sub_lt_sub_right h c.toNat_lt⟩
    encode (utf8EncodedEbuLatin.get index).toList
  else encode "⁇".toList

/-- Independent of the code points the constructor found. -/
def ebuToUtf8 (_cc : CharsetConverter) (str : List UInt8) : List UInt8 := str.flatMap utf8Char

end CharsetConverter

/-! ## The charset -/

/-- The characters of the table, the one of byte `c` at `c - 1`. -/
def ebuLatin : List Char := utf8EncodedEbuLatin.toList.flatMap String.toList

/-- All different, compared as numbers. -/
def allDistinct : List ℕ → Bool
  | [] => true
  | n :: ns => ns.all (fun k => !Nat.beq n k) && allDistinct ns

theorem nodup_of_allDistinct {ns : List ℕ} (h : allDistinct ns = true) : ns.Nodup := by
  induction ns with
  | nil => exact List.nodup_nil
  | cons n ns ih =>
    obtain ⟨hhead, htail⟩ := Bool.and_eq_true_iff.mp h
    refine List.nodup_cons.mpr ⟨fun hmem => ?_, ih htail⟩
    have hdiff := List.all_eq_true.mp hhead n hmem
    simp at hdiff

/-- **Every entry of the table is one character.** -/
theorem toList_utf8EncodedEbuLatin :
    utf8EncodedEbuLatin.toList.map String.toList = ebuLatin.map fun c => [c] := by
  decide +kernel

/-- **No character is in the table twice.** -/
theorem ebuLatin_nodup : ebuLatin.Nodup := by
  have hdistinct : allDistinct (ebuLatin.map Char.toNat) = true := by decide +kernel
  exact (nodup_of_allDistinct hdistinct).of_map

theorem length_ebuLatin : ebuLatin.length = 255 := by decide +kernel

/-- The character of a byte. -/
def fromEbu (c : UInt8) : Char := if c = 0 then '⁇' else ebuLatin.getD (c.toNat - 1) ' '

/-- The byte of a character, a space if it has none. -/
def toEbu (c : Char) : UInt8 :=
  if c ∈ ebuLatin then UInt8.ofNat (ebuLatin.idxOf c + 1) else 0x20

theorem toEbu_space : toEbu ' ' = 0x20 := by decide +kernel

/-- A character without an entry becomes a space. -/
theorem toEbu_of_not_mem {c : Char} (h : c ∉ ebuLatin) : toEbu c = 0x20 := if_neg h

/-- An entry is numbered from 1. -/
theorem toNat_toEbu {c : Char} (h : c ∈ ebuLatin) : (toEbu c).toNat = ebuLatin.idxOf c + 1 := by
  have hlt := List.idxOf_lt_length_of_mem h
  rw [length_ebuLatin] at hlt
  rw [toEbu, if_pos h]
  exact (ofNat_eq_iff (by omega)).mp rfl

/-- No character becomes a NUL. -/
theorem toEbu_ne_zero (c : Char) : toEbu c ≠ 0 := by
  intro hzero
  by_cases h : c ∈ ebuLatin
  · have hnat := toNat_toEbu h
    rw [hzero] at hnat
    exact absurd hnat (Nat.zero_ne_add_one _)
  · rw [toEbu_of_not_mem h] at hzero
    exact absurd hzero (by decide)

/-- **A character that has a byte comes back.** -/
theorem fromEbu_toEbu {c : Char} (h : c ∈ ebuLatin) : fromEbu (toEbu c) = c := by
  rw [fromEbu, if_neg (toEbu_ne_zero c), toNat_toEbu h, Nat.add_sub_cancel,
    List.getD_eq_getElem _ _ (List.idxOf_lt_length_of_mem h)]
  exact List.getElem_idxOf _

/-- **Every other becomes a space.** -/
theorem fromEbu_toEbu_of_not_mem {c : Char} (h : c ∉ ebuLatin) : fromEbu (toEbu c) = ' ' := by
  have hspace : ' ' ∈ ebuLatin := by decide +kernel
  rw [toEbu_of_not_mem h, ← toEbu_space]
  exact fromEbu_toEbu hspace

/-- **A byte comes back**, except for NUL. -/
theorem toEbu_fromEbu {c : UInt8} (h : c ≠ 0) : toEbu (fromEbu c) = c := by
  have hpos : 0 < c.toNat := by
    refine Nat.pos_of_ne_zero fun hzero => h ?_
    rw [← UInt8.toNat_inj, hzero]
    rfl
  have hindex : c.toNat - 1 < ebuLatin.length := by
    have hlt := c.toNat_lt
    rw [length_ebuLatin]
    omega
  have hchar : fromEbu c = ebuLatin[c.toNat - 1] := by
    rw [fromEbu, if_neg h, List.getD_eq_getElem _ _ hindex]
  have hmem : fromEbu c ∈ ebuLatin := hchar ▸ List.getElem_mem hindex
  rw [← UInt8.toNat_inj, toNat_toEbu hmem, hchar, ebuLatin_nodup.idxOf_getElem _ hindex]
  omega

theorem toEbu_fromEbu_zero : toEbu (fromEbu 0) = 0x20 := by
  have hnone : '⁇' ∉ ebuLatin := by decide +kernel
  exact toEbu_of_not_mem hnone

/-! ## The converter computes it -/

namespace CharsetConverter

theorem codePoint_of_toList {entry : String} {c : Char} (h : entry.toList = [c]) :
    codePoint entry = .ok c.val := by
  have hbytes : encode entry.toList = String.utf8EncodeChar c ++ [] := by
    rw [h, encode_cons, encode_nil]
  rw [codePoint]
  split
  case h_1 hnil =>
    rw [hnil] at hbytes
    exact absurd (List.append_eq_nil_iff.mp hbytes.symm).1 (utf8EncodeChar_ne_nil c)
  case h_2 lead rest hcons =>
    have hnext : next lead rest = .ok (c.val, []) := next_eq_ok.mpr ⟨c, rfl, hcons.symm.trans hbytes⟩
    rw [hnext]
    rfl

/-- The converter that is constructed. -/
def converter : CharsetConverter where
  conversionTable := ebuLatin.map Char.val

/-- **The constructor throws nothing.** -/
theorem construct_eq : construct = .ok converter := by
  have hall : ∀ (entries : List String) (cs : List Char),
      entries.map String.toList = cs.map (fun c => [c]) →
      entries.mapM codePoint = .ok (cs.map Char.val) := by
    intro entries
    induction entries with
    | nil =>
      intro cs h
      have hnil : cs = [] := List.map_eq_nil_iff.mp h.symm
      subst hnil
      rfl
    | cons entry entries ih =>
      rintro (_ | ⟨c, cs⟩) h
      · nomatch h
      · obtain ⟨hentry, hrest⟩ := List.cons.inj h
        rw [List.mapM_cons, codePoint_of_toList hentry, ih cs hrest]
        rfl
  rw [construct, hall _ _ toList_utf8EncodedEbuLatin]
  rfl

/-- **The search finds the byte of a character.** -/
theorem ebuByte_converter (c : Char) : converter.ebuByte c.val = toEbu c := by
  have hsame : (· == c.val) ∘ Char.val = (· == c) := by
    ext d
    rw [Function.comp_apply, Bool.eq_iff_iff, beq_iff_eq, beq_iff_eq]
    exact ⟨Char.ext, congrArg Char.val⟩
  rw [ebuByte, converter, List.findIdx?_map, hsame]
  by_cases hc : c ∈ ebuLatin
  · have hfound : ebuLatin.findIdx? (· == c) = some (ebuLatin.idxOf c) :=
      List.findIdx?_eq_some_of_exists ⟨c, hc, beq_self_eq_true c⟩
    rw [hfound, toEbu, if_pos hc]
    rfl
  · have hnone : ebuLatin.findIdx? (· == c) = none := by
      refine List.findIdx?_eq_none_iff.mpr fun d hd => beq_eq_false_iff_ne.mpr ?_
      rintro rfl
      exact hc hd
    rw [hnone, toEbu_of_not_mem hc]

theorem toList_get {n : ℕ} {entries : Vector String n} {cs : List Char}
    (h : entries.toList.map String.toList = cs.map fun c => [c]) {i : Fin n}
    (hi : i.val < cs.length) : (entries.get i).toList = [cs[i.val]] := by
  have hget := congrArg (fun l => l[i.val]?) h
  simp only [List.getElem?_map, List.getElem?_eq_getElem hi, Vector.getElem?_toList,
    Vector.getElem?_eq_getElem i.isLt, Option.map_some, Option.some_inj] at hget
  exact hget

theorem utf8Char_eq (c : UInt8) : utf8Char c = String.utf8EncodeChar (fromEbu c) := by
  by_cases hc : c = 0
  · subst hc
    decide +kernel
  · have hpos : CHARSET_TABLE_OFFSET ≤ c.toNat := by
      refine Nat.pos_of_ne_zero fun hzero => hc ?_
      rw [← UInt8.toNat_inj, hzero]
      rfl
    have hindex : c.toNat - CHARSET_TABLE_OFFSET < ebuLatin.length := by
      rw [length_ebuLatin]
      exact Nat.sub_lt_sub_right hpos c.toNat_lt
    have hchar : fromEbu c = ebuLatin[c.toNat - CHARSET_TABLE_OFFSET] := by
      rw [fromEbu, if_neg hc]
      exact List.getD_eq_getElem _ _ hindex
    rw [utf8Char, dif_pos hpos, hchar]
    simp only
    rw [toList_get toList_utf8EncodedEbuLatin hindex, encode_cons, encode_nil, List.append_nil]

/-- **To UTF-8 each byte is its character.** -/
theorem ebuToUtf8_eq (cc : CharsetConverter) (s : List UInt8) :
    cc.ebuToUtf8 s = encode (s.map fromEbu) := by
  rw [ebuToUtf8, encode, List.flatMap_map]
  exact congrArg (List.flatMap · s) (funext utf8Char_eq)

/-- What the conversion from UTF-8 makes of the longest well-formed prefix. -/
theorem utf8ToEbu_true (line : List UInt8) : ∃ p, LongestPrefix p line ∧
    converter.utf8ToEbu line true = converter.utf8ToEbu p false := by
  obtain ⟨p, hsplit, hlongest⟩ := findInvalid_longestPrefix line
  have hlength : line.length - (findInvalid line).length = p.length := by
    have hsum := congrArg List.length hsplit
    rw [List.length_append] at hsum
    omega
  have htake : line.take p.length = p := (List.prefix_iff_eq_take.mp hlongest.isPrefix).symm
  refine ⟨p, hlongest, ?_⟩
  simp only [utf8ToEbu, if_true, hlength, htake, Bool.false_eq_true, if_false]

/-- **Every text is converted**, character by character. -/
theorem utf8ToEbu_false (cs : List Char) :
    converter.utf8ToEbu (encode cs) false = .ok (cs.map toEbu) := by
  have hbytes : (cs.map Char.val).map converter.ebuByte = cs.map toEbu := by
    rw [List.map_map]
    exact List.map_congr_left fun c _ => ebuByte_converter c
  rw [utf8ToEbu]
  simp only [Bool.false_eq_true, if_false, utf8to32_encode]
  exact congrArg Except.ok hbytes

/-- **From UTF-8 each character is its byte**, in either mode. -/
theorem utf8ToEbu_encode (cs : List Char) (upToFirstError : Bool) :
    converter.utf8ToEbu (encode cs) upToFirstError = .ok (cs.map toEbu) := by
  cases upToFirstError with
  | false => exact utf8ToEbu_false cs
  | true =>
    obtain ⟨p, hlongest, heq⟩ := utf8ToEbu_true (encode cs)
    have hwhole : encode cs <+: p := hlongest.longest _ List.prefix_rfl (wellFormed_encode cs)
    rw [heq, hlongest.isPrefix.eq_of_length_le hwhole.length_le]
    exact utf8ToEbu_false cs

end CharsetConverter

/-! ## Round trips -/

/-- **EBU Latin to UTF-8 and back.**  The converter is constructed; it makes of any bytes a text of as
many characters, and gets the bytes back from it in either mode, with spaces for the NULs. -/
theorem ebu_utf8_ebu : ∃ cc, CharsetConverter.construct = .ok cc ∧ ∀ s : List UInt8,
    (∃ cs : List Char, encode cs = cc.ebuToUtf8 s ∧ cs.length = s.length) ∧
      (∀ upToFirstError, cc.utf8ToEbu (cc.ebuToUtf8 s) upToFirstError
        = .ok (s.map fun c => if c = 0 then 0x20 else c)) ∧
      (0 ∉ s → ∀ upToFirstError, cc.utf8ToEbu (cc.ebuToUtf8 s) upToFirstError = .ok s) := by
  refine ⟨.converter, CharsetConverter.construct_eq, fun s => ?_⟩
  have hback : ∀ upToFirstError, CharsetConverter.converter.utf8ToEbu
      (CharsetConverter.converter.ebuToUtf8 s) upToFirstError
        = .ok (s.map fun c => if c = 0 then 0x20 else c) := by
    intro upToFirstError
    rw [CharsetConverter.ebuToUtf8_eq, CharsetConverter.utf8ToEbu_encode, List.map_map]
    refine congrArg Except.ok (List.map_congr_left fun c _ => ?_)
    by_cases hc : c = 0
    · rw [hc, if_pos rfl]
      exact toEbu_fromEbu_zero
    · rw [if_neg hc]
      exact toEbu_fromEbu hc
  refine ⟨⟨s.map fromEbu, ?_, List.length_map _⟩, hback, fun hnul upToFirstError => ?_⟩
  · exact (CharsetConverter.ebuToUtf8_eq _ s).symm
  · have hsame : (s.map fun c => if c = 0 then 0x20 else c) = s := by
      refine (List.map_congr_left fun c hc => if_neg ?_).trans (List.map_id s)
      rintro rfl
      exact hnul hc
    rw [hback, hsame]

/-- The character is one of the table's strings. -/
def HasEntry (c : Char) : Prop := ∃ entry ∈ utf8EncodedEbuLatin.toList, entry.toList = [c]

instance : DecidablePred HasEntry :=
  fun c => inferInstanceAs (Decidable (∃ entry ∈ utf8EncodedEbuLatin.toList, entry.toList = [c]))

theorem hasEntry_iff {c : Char} : HasEntry c ↔ c ∈ ebuLatin := by
  have hmem : [c] ∈ utf8EncodedEbuLatin.toList.map String.toList ↔ HasEntry c := List.mem_map
  rw [← hmem, toList_utf8EncodedEbuLatin, List.mem_map]
  constructor
  · rintro ⟨d, hd, heq⟩
    obtain rfl : d = c := List.head_eq_of_cons_eq heq
    exact hd
  · exact fun hc => ⟨c, hc, rfl⟩

/-- **UTF-8 to EBU Latin and back.**  A text becomes a byte for each character, none of them NUL; back
in UTF-8 it is the text with a space for every character that has no entry, and once more converted it
gives the same bytes. -/
theorem utf8_ebu_utf8 : ∃ cc, CharsetConverter.construct = .ok cc ∧
    ∀ (cs : List Char) (upToFirstError : Bool), ∃ e,
      cc.utf8ToEbu (encode cs) upToFirstError = .ok e ∧ e.length = cs.length ∧ 0 ∉ e ∧
        cc.ebuToUtf8 e = encode (cs.map fun c => if HasEntry c then c else ' ') ∧
        cc.utf8ToEbu (cc.ebuToUtf8 e) upToFirstError = .ok e := by
  refine ⟨.converter, CharsetConverter.construct_eq, fun cs upToFirstError => ?_⟩
  have hchar : ∀ c, fromEbu (toEbu c) = if HasEntry c then c else ' ' := by
    intro c
    by_cases hc : c ∈ ebuLatin
    · rw [if_pos (hasEntry_iff.mpr hc)]
      exact fromEbu_toEbu hc
    · rw [if_neg (mt hasEntry_iff.mp hc)]
      exact fromEbu_toEbu_of_not_mem hc
  refine ⟨cs.map toEbu, CharsetConverter.utf8ToEbu_encode cs upToFirstError, List.length_map _, ?_,
    ?_, ?_⟩
  · intro hzero
    obtain ⟨c, -, hc⟩ := List.mem_map.mp hzero
    exact toEbu_ne_zero c hc
  · rw [CharsetConverter.ebuToUtf8_eq, List.map_map]
    exact congrArg encode (List.map_congr_left fun c _ => hchar c)
  · rw [CharsetConverter.ebuToUtf8_eq, CharsetConverter.utf8ToEbu_encode, List.map_map, List.map_map]
    exact congrArg Except.ok (List.map_congr_left fun c _ => toEbu_fromEbu (toEbu_ne_zero c))

/-! ## The two error modes -/

/-- **With `up_to_first_error` the longest well-formed prefix is converted**, and nothing is thrown;
without, exactly what is not well-formed throws. -/
theorem error_modes : ∃ cc, CharsetConverter.construct = .ok cc ∧ ∀ b : List UInt8,
    (∃ p, LongestPrefix p b ∧ ∃ e, cc.utf8ToEbu b true = .ok e ∧ cc.utf8ToEbu p false = .ok e) ∧
      ((∃ thrown, cc.utf8ToEbu b false = .error thrown) ↔ ¬ WellFormed b) := by
  refine ⟨.converter, CharsetConverter.construct_eq, fun b => ⟨?_, ?_⟩⟩
  · obtain ⟨p, hlongest, heq⟩ := CharsetConverter.utf8ToEbu_true b
    obtain ⟨cs, rfl⟩ := hlongest.wellFormed
    have hprefix := CharsetConverter.utf8ToEbu_false cs
    exact ⟨_, hlongest, _, heq.trans hprefix, hprefix⟩
  · constructor
    · rintro ⟨thrown, hthrown⟩ ⟨cs, rfl⟩
      rw [CharsetConverter.utf8ToEbu_false] at hthrown
      nomatch hthrown
    · intro hnot
      cases hdecoded : utf8to32 b with
      | ok cps => exact absurd (wellFormed_iff_utf8to32.mpr ⟨cps, hdecoded⟩) hnot
      | error thrown =>
        refine ⟨thrown, ?_⟩
        rw [CharsetConverter.utf8ToEbu]
        simp only [Bool.false_eq_true, if_false, hdecoded]
        rfl

end Charset
