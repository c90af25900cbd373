import MuxMPE.Machinery.Xml.Prefixes

/-!
# Machinery/Xml/Values — attribute values, and the text that stands for itself

    text      R & B     |  R&amp;B  |  DabMux
    value     –         |  R&B      |  DabMux

Between its quotes a text is kept as it stands and becomes a value when the quote closes it.  The
value is the text itself exactly if the text is `Plain` (`plain_of_attributeValue`); the digits of a
number are.
-/

namespace Xml

/-! ## Attribute values -/

section Values

variable {tag : Tag} {name raw : List Char} {stack : List (List Char)} {events : List Event}

/-- Text that can stand between double quotes. -/
def isValueText (raw : List Char) : Prop := ∀ c ∈ raw, isChar c = true ∧ c ≠ '"' ∧ c ≠ '<'

/-- Between its quotes the text of an attribute is kept as it stands. -/
theorem run_valueText {text : List Char} (h : isValueText text) :
    run { mode := .attrValue tag name '"' raw, stack := stack, events := events } text
      = some { mode := .attrValue tag name '"' (raw ++ text), stack := stack, events := events } := by
  induction text generalizing raw with
  | nil => simp
  | cons c text ih =>
    obtain ⟨⟨hchar, hquote, hlt⟩, htext⟩ := List.forall_mem_cons.mp h
    have hstep : step { mode := .attrValue tag name '"' raw, stack := stack, events := events } c
        = some { mode := .attrValue tag name '"' (raw ++ [c]), stack := stack, events := events } := by
      rw [step, if_pos hchar, stepIn, if_neg hquote, if_neg hlt]
    rw [run_cons, hstep, Option.bind_some, ih htext, List.append_assoc]
    rfl

/-- Up to the next quote there is nothing else it can be. -/
theorem isValueText_of_run {text rest : List Char} {t : State}
    (hquote : '"' ∉ text)
    (h : run { mode := .attrValue tag name '"' raw, stack := stack, events := events }
      (text ++ rest) = some t) : isValueText text := by
  induction text generalizing raw with
  | nil => simp [isValueText]
  | cons c text ih =>
    obtain ⟨hne, hquote'⟩ : c ≠ '"' ∧ '"' ∉ text := by
      simpa [eq_comm, not_or] using hquote
    obtain ⟨u, hu, hrest⟩ := Option.bind_eq_some_iff.mp h
    obtain ⟨hchar, hstep⟩ := step_eq_some.mp hu
    simp only [stepIn, if_neg hne] at hstep
    split_ifs at hstep with hlt
    obtain rfl := Option.some.inj hstep
    exact List.forall_mem_cons.mpr ⟨⟨hchar, hne, hlt⟩, ih hquote' hrest⟩

/-- The closing quote. -/
theorem run_quote (rest : List Char) :
    run { mode := .attrValue tag name '"' raw, stack := stack, events := events } ('"' :: rest)
      = (tag.add name raw).bind fun tag' =>
        run { mode := .inTag tag' false, stack := stack, events := events } rest := by
  rw [run_cons, step, if_pos (by decide), stepIn, if_pos rfl]
  cases tag.add name raw <;> rfl

end Values

/-! ## Text that stands for itself -/

/-- Text that an attribute value carries as it is: no markup, no quote, no white space but the
space. -/
def Plain (text : List Char) : Prop :=
  ∀ c ∈ text, c ≠ '"' ∧ c ≠ '&' ∧ c ≠ '<' ∧ c ≠ '\t' ∧ c ≠ '\n' ∧ c ≠ '\r'

/-- Expanding a reference shortens a text, and without references nothing is expanded. -/
theorem expandFrom_cases (norm : Char → Char) (raw : List Char) :
    (∀ v, expandFrom norm none raw = some v →
      v.length < raw.length ∨ ('&' ∉ raw ∧ v = raw.map norm)) ∧
    ∀ ref v, expandFrom norm (some ref) raw = some v → v.length ≤ raw.length := by
  induction raw with
  | nil =>
    refine ⟨fun v hv => ?_, fun ref v hv => by simp [expandFrom] at hv⟩
    obtain rfl := Option.some.inj hv
    exact .inr ⟨List.not_mem_nil, rfl⟩
  | cons c raw ih =>
    obtain ⟨ihnone, ihsome⟩ := ih
    constructor
    · intro v hv
      rw [expandFrom] at hv
      split_ifs at hv with hamp
      · exact .inl (Nat.lt_succ_of_le (ihsome _ v hv))
      · obtain ⟨w, hw, rfl⟩ := Option.map_eq_some_iff.mp hv
        obtain hlt | ⟨hnot, rfl⟩ := ihnone w hw
        · exact .inl (Nat.succ_lt_succ hlt)
        · exact .inr ⟨by simp [hnot, Ne.symm hamp], rfl⟩
    · intro ref v hv
      rw [expandFrom] at hv
      split_ifs at hv with hsemi
      · obtain ⟨d, _, hv⟩ := Option.bind_eq_some_iff.mp hv
        obtain ⟨w, hw, rfl⟩ := Option.map_eq_some_iff.mp hv
        obtain hlt | ⟨_, rfl⟩ := ihnone w hw
        · exact Nat.succ_le_succ (Nat.le_of_lt hlt)
        · simp
      · exact Nat.le_succ_of_le (ihsome _ v hv)

theorem expandFrom_of_not_mem {norm : Char → Char} {raw : List Char} (h : '&' ∉ raw) :
    expandFrom norm none raw = some (raw.map norm) := by
  induction raw with
  | nil => rfl
  | cons c raw ih =>
    obtain ⟨hne, hraw⟩ : c ≠ '&' ∧ '&' ∉ raw := by simpa [eq_comm, not_or] using h
    rw [expandFrom, if_neg hne, ih hraw]
    rfl

theorem length_normalizeLineEnds_le (text : List Char) :
    (normalizeLineEnds text).length ≤ text.length := by
  induction text with
  | nil => exact Nat.le_refl 0
  | cons c text ih =>
    rw [normalizeLineEnds]
    split_ifs <;> simp only [List.length_cons] <;> omega

theorem normalizeLineEnds_append_of_not_mem {text : List Char} (h : '\r' ∉ text)
    (rest : List Char) : normalizeLineEnds (text ++ rest) = text ++ normalizeLineEnds rest := by
  induction text with
  | nil => rfl
  | cons c text ih =>
    obtain ⟨hne, htext⟩ : c ≠ '\r' ∧ '\r' ∉ text := by simpa [eq_comm, not_or] using h
    rw [List.cons_append, normalizeLineEnds, if_neg hne, ih htext, List.cons_append]

/-- Without a return there is nothing to normalize. -/
theorem normalizeLineEnds_of_not_mem {text : List Char} (h : '\r' ∉ text) :
    normalizeLineEnds text = text := by
  have happ := normalizeLineEnds_append_of_not_mem h []
  rwa [normalizeLineEnds, List.append_nil] at happ

/-- Pieces are normalized one by one, unless a cut falls within a line end. -/
theorem normalizeLineEnds_append (text : List Char) {rest : List Char}
    (h : rest.head? ≠ some '\n') :
    normalizeLineEnds (text ++ rest) = normalizeLineEnds text ++ normalizeLineEnds rest := by
  induction text with
  | nil => rfl
  | cons c text ih =>
    have hhead : (text ++ rest).head? = some '\n' ↔ text.head? = some '\n' := by
      cases text <;> simp [h]
    simp only [List.cons_append, normalizeLineEnds, ih, hhead]
    split_ifs <;> rfl

namespace Plain

variable {text : List Char}

/-- A plain text is its own value. -/
theorem attributeValue_eq (h : Plain text) : attributeValue text = some text := by
  have hnot : '&' ∉ text := fun hmem => (h _ hmem).2.1 rfl
  have hspace : text.map spaceOut = text := by
    refine (List.map_congr_left fun c hc => ?_).trans (List.map_id text)
    obtain ⟨_, _, _, htab, hlf, hcr⟩ := h c hc
    rw [spaceOut, isSpace]
    by_cases hsp : c = ' ' <;> simp [hsp, htab, hlf, hcr]
  rw [attributeValue, expandFrom_of_not_mem hnot, hspace]

theorem normalizeLineEnds_eq (h : Plain text) : normalizeLineEnds text = text :=
  normalizeLineEnds_of_not_mem fun hmem => (h _ hmem).2.2.2.2.2 rfl

theorem isValueText (h : Plain text) (hchar : ∀ c ∈ text, isChar c = true) :
    Xml.isValueText text := fun c hc => ⟨hchar c hc, (h c hc).1, (h c hc).2.2.1⟩

end Plain

/-- **Only plain text survives**: what is read back as the text itself was plain. -/
theorem plain_of_attributeValue {text raw : List Char}
    (hraw : raw = (normalizeLineEnds text).takeWhile (· ≠ '"')) (hvalue : isValueText raw)
    (h : attributeValue raw = some text) : Plain text := by
  have hle : raw.length ≤ (normalizeLineEnds text).length := hraw ▸ (List.takeWhile_prefix _).length_le
  have hle' := length_normalizeLineEnds_le text
  obtain hlt | ⟨hamp, heq⟩ := (expandFrom_cases spaceOut raw).1 text h
  · omega
  · have hlen : text.length = raw.length := by rw [heq, List.length_map]
    -- nothing was cut off at a quote
    have hfull : raw = normalizeLineEnds text :=
      (hraw ▸ List.takeWhile_prefix _ : raw <+: normalizeLineEnds text).eq_of_length (by omega)
    intro c hc
    rw [heq] at hc
    obtain ⟨d, hd, rfl⟩ := List.mem_map.mp hc
    obtain ⟨_, hquote, hlt⟩ := hvalue d hd
    have hne : d ≠ '&' := fun heq => hamp (heq ▸ hd)
    rw [spaceOut]
    by_cases hs : isSpace d = true
    · rw [if_pos hs]
      decide
    · rw [if_neg hs]
      simp only [isSpace, Bool.or_eq_true, beq_iff_eq, not_or] at hs
      exact ⟨hquote, hne, hlt, hs.1.1.2, hs.1.2, hs.2⟩

/-! ## A value and what follows it -/

section Value

variable {tag : Tag} {name : List Char} {stack : List (List Char)} {events : List Event}

/-- Plain text is read as the value it is. -/
theorem run_value {text value : List Char} (htext : isValueText text)
    (hvalue : attributeValue text = some value) (hname : name ∉ tag.attrs.map Prod.fst)
    (rest : List Char) :
    run { mode := .attrValue tag name '"' [], stack := stack, events := events }
        (text ++ '"' :: rest)
      = run { mode := .inTag (tag.extend [(name, value)]) false, stack := stack, events := events }
        rest := by
  have hadd : tag.add name text = some (tag.extend [(name, value)]) := by
    rw [Tag.add, if_neg hname, hvalue]
    rfl
  rw [run_append_of_eq (run_valueText htext), List.nil_append, run_quote, hadd, Option.bind_some]

/-- A text and a quote behind it are cut at the first quote. -/
theorem upto_quote (text rest : List Char) : '"' ∉ text.takeWhile (· ≠ '"') ∧
    ∃ rest', text ++ '"' :: rest = text.takeWhile (· ≠ '"') ++ '"' :: rest' := by
  induction text with
  | nil => exact ⟨List.not_mem_nil, rest, rfl⟩
  | cons c text ih =>
    obtain ⟨hnot, rest', hrest'⟩ := ih
    by_cases hc : c = '"'
    · subst hc
      exact ⟨by simp, text ++ '"' :: rest, by simp⟩
    · rw [List.takeWhile_cons_of_pos (by simpa using hc)]
      refine ⟨List.not_mem_cons_of_ne_of_not_mem (Ne.symm hc) hnot, rest', ?_⟩
      rw [List.cons_append, hrest', List.cons_append]

/-- **Whatever stands where a value is expected, its part up to the first quote becomes the
value**, if the document is read on at all. -/
theorem begun_of_run_value {text rest : List Char} {t : State}
    (h : run { mode := .attrValue tag name '"' [], stack := stack, events := events }
      (text ++ '"' :: rest) = some t) :
    ∃ value, isValueText (text.takeWhile (· ≠ '"')) ∧
      attributeValue (text.takeWhile (· ≠ '"')) = some value ∧
      Begun events (tag.extend [(name, value)]) t := by
  obtain ⟨hnot, rest', hrest'⟩ := upto_quote text rest
  rw [hrest'] at h
  have htext := isValueText_of_run hnot h
  rw [run_append_of_eq (run_valueText htext), List.nil_append, run_quote] at h
  obtain ⟨tag', htag', hrun⟩ := Option.bind_eq_some_iff.mp h
  obtain ⟨value, hvalue, rfl⟩ := add_eq htag'
  have hbegun : Begun events (tag.extend [(name, value)])
      { mode := .inTag (tag.extend [(name, value)]) false, stack := stack, events := events } :=
    begun_of_tag rfl rfl
  exact ⟨value, htext, hvalue, hbegun.run hrun⟩

end Value

/-! ## Decimal numbers -/

theorem isDigit_of_mem_toDigits {n : ℕ} {c : Char} (h : c ∈ Nat.toDigits 10 n) :
    c.isDigit = true := Nat.isDigit_of_mem_toDigits (by decide) (by decide) h

/-- Digits are read as the number they write. -/
theorem foldlM_digit {cs : List Char} (h : ∀ c ∈ cs, c.isDigit = true) (n : ℕ) :
    cs.foldlM (fun n c => (digit 10 c).map (10 * n + ·)) n = some (Nat.ofDigitChars 10 cs n) := by
  induction cs generalizing n with
  | nil => rfl
  | cons c cs ih =>
    obtain ⟨hc, hcs⟩ := List.forall_mem_cons.mp h
    rw [List.foldlM_cons, digit, if_pos hc]
    exact ih hcs _

/-- **A number is read back from its digits.** -/
theorem number_toDigits (n : ℕ) : number 10 (Nat.toDigits 10 n) = some n := by
  rw [number, if_neg Nat.toDigits_ne_nil, foldlM_digit fun _ => isDigit_of_mem_toDigits,
    Nat.ofDigitChars_ten_toDigits]

/-- Digits are plain. -/
theorem plain_of_isDigit {text : List Char} (h : ∀ c ∈ text, c.isDigit = true) : Plain text := by
  intro c hc
  have hdigit := h c hc
  refine ⟨?_, ?_, ?_, ?_, ?_, ?_⟩ <;> rintro rfl <;> exact absurd hdigit (by decide)

theorem isChar_of_isDigit {c : Char} (h : c.isDigit = true) : isChar c = true := by
  obtain ⟨hlow, hhigh⟩ : 48 ≤ c.toNat ∧ c.toNat ≤ 57 := by
    simpa [Char.isDigit, UInt32.le_iff_toNat_le] using h
  have hle : 0x20 ≤ c.toNat ∧ c.toNat ≤ 0xD7FF := ⟨by omega, by omega⟩
  simp [isChar, hle]

end Xml
