import MuxMPE.Charset.Encoder

/-!
# Charset/Replace — texts repaired

    ▓▓ ▓ ░ ▓▓▓ ▒ ░ ░ ▓ ⋯            ▓ ▓▓ ▓▓▓  characters, copied
    ▓▓ ▓ � ▓▓▓ �     ▓ ⋯            ░         a trail on its own: a mark
                                    ▒ ░ ░     a lead whose sequence is bad: one mark for all of it

`replaceInvalid` throws `not_enough_room` exactly on octets that end within a sequence, and makes a text
of all others.  It reads no further than to the next octet that is no trail, so that what is repaired in
pieces is repaired as a whole (`replaceInvalid_local`).
-/

namespace Utf8

/-! ## Reading ahead -/

/-- `get` reads up to `k` trails: what it reads it reads whatever follows, unless the octets end before
it has seen `k` trails or something else. -/
structure ReadsTrails {α : Type} (k : ℕ) (get : List UInt8 → Except UtfError (α × List UInt8)) :
    Prop where
  append_eq : ∀ rest more, get rest ≠ .error .NOT_ENOUGH_ROOM →
    get (rest ++ more) = (get rest).map (Prod.map id (· ++ more))
  missing_iff : ∀ rest, get rest = .error .NOT_ENOUGH_ROOM ↔
    (∀ b ∈ rest, isTrail b = true) ∧ rest.length < k

namespace ReadsTrails

variable {α : Type} {k : ℕ}

theorem pure (a : α) : ReadsTrails 0 fun rest => return (a, rest) where
  append_eq _ _ _ := rfl
  missing_iff _ := ⟨nofun, nofun⟩

/-- **One trail more.** -/
theorem increaseSafely {get : UInt8 → List UInt8 → Except UtfError (α × List UInt8)}
    (hget : ∀ b, ReadsTrails k (get b)) : ReadsTrails (k + 1) fun rest => (do
      let (b, rest) ← increaseSafely rest
      get b rest) where
  append_eq := by
    intro rest more h
    cases rest with
    | nil => exact absurd rfl h
    | cons b rest =>
      simp only [List.cons_append, Utf8.increaseSafely] at h ⊢
      cases hb : isTrail b with
      | false => rfl
      | true =>
        rw [hb] at h
        exact (hget b).append_eq rest more h
  missing_iff := by
    intro rest
    cases rest with
    | nil => exact ⟨fun _ => ⟨List.forall_mem_nil _, Nat.succ_pos k⟩, fun _ => rfl⟩
    | cons b rest =>
      rw [List.forall_mem_cons, List.length_cons, Nat.succ_lt_succ_iff, and_assoc]
      simp only [Utf8.increaseSafely]
      cases hb : isTrail b with
      | false => exact ⟨fun h => (by cases h), fun h => absurd h.1 (by decide)⟩
      | true => exact ⟨fun h => ⟨rfl, ((hget b).missing_iff rest).mp h⟩,
          fun h => ((hget b).missing_iff rest).mpr h.2⟩

/-- The security checks read nothing. -/
theorem checked {get : List UInt8 → Except UtfError (UInt32 × List UInt8)} (hget : ReadsTrails k get)
    (length : ℕ) : ReadsTrails k fun rest => get rest >>= checked length where
  append_eq := by
    intro rest more h
    have hmissed : get rest ≠ .error .NOT_ENOUGH_ROOM := by
      intro hmissed
      exact h (by simp only [hmissed]; rfl)
    simp only [hget.append_eq rest more hmissed]
    cases get rest with
    | error e => rfl
    | ok r =>
      show Utf8.checked length (Prod.map id (· ++ more) r) = (Utf8.checked length r).map _
      simp only [Utf8.checked, Prod.map, id_eq]
      split_ifs <;> rfl
  missing_iff := by
    intro rest
    rw [← hget.missing_iff rest]
    show (get rest >>= Utf8.checked length) = _ ↔ _
    cases get rest with
    | error e => exact Iff.rfl
    | ok r =>
      refine ⟨fun h => ?_, fun h => by cases h⟩
      change Utf8.checked length r = _ at h
      simp only [Utf8.checked] at h
      split_ifs at h <;> cases h

variable (lead : UInt8)

theorem getSequence1 : ReadsTrails 0 (getSequence1 lead) := pure (mask8 lead).toUInt32

theorem getSequence2 : ReadsTrails 1 (getSequence2 lead) :=
  increaseSafely fun b => pure (((mask8 lead).toUInt32 <<< 6 &&& 0x7ff) + (b &&& 0x3f).toUInt32)

theorem getSequence3 : ReadsTrails 2 (getSequence3 lead) :=
  increaseSafely fun b => increaseSafely fun c =>
    pure (((mask8 lead).toUInt32 <<< 12 &&& (0xffff : UInt32))
      + ((mask8 b).toUInt32 <<< 6 &&& (0xfff : UInt32)) + (c &&& 0x3f).toUInt32)

theorem getSequence4 : ReadsTrails 3 (getSequence4 lead) :=
  increaseSafely fun b => increaseSafely fun c => increaseSafely fun d =>
    pure (((mask8 lead).toUInt32 <<< 18 &&& (0x1fffff : UInt32))
      + ((mask8 b).toUInt32 <<< 12 &&& (0x3ffff : UInt32))
      + ((mask8 c).toUInt32 <<< 6 &&& (0xfff : UInt32)) + (d &&& 0x3f).toUInt32)

end ReadsTrails

/-- **The decoder reads the trails its lead announces.** -/
theorem readsTrails_validateNext (lead : UInt8) :
    ReadsTrails (sequenceLength lead - 1) (validateNext lead) := by
  have hle : sequenceLength lead ≤ 4 := by
    rw [sequenceLength_eq]
    split_ifs <;> omega
  rw [show validateNext lead = fun rest => validateNext lead rest from rfl]
  simp only [validateNext]
  generalize sequenceLength lead = length at hle
  split
  · exact (ReadsTrails.getSequence1 lead).checked 1
  · exact (ReadsTrails.getSequence2 lead).checked 2
  · exact (ReadsTrails.getSequence3 lead).checked 3
  · exact (ReadsTrails.getSequence4 lead).checked 4
  · next h₁ h₂ h₃ h₄ =>
    obtain rfl : length = 0 := by
      by_contra hpos
      obtain rfl | rfl | rfl | rfl : length = 1 ∨ length = 2 ∨ length = 3 ∨ length = 4 := by omega
      · exact h₁ rfl
      · exact h₂ rfl
      · exact h₃ rfl
      · exact h₄ rfl
    exact {
      append_eq := fun _ _ _ => rfl
      missing_iff := fun _ => ⟨fun h => (by cases h), fun h => absurd h.2 (Nat.not_lt_zero _)⟩ }

/-! ## Octets that end within a sequence -/

/-- The octets end in a lead and too few trails for it. -/
def Truncated (bytes : List UInt8) : Prop :=
  ∃ front lead trails, bytes = front ++ lead :: trails ∧ (∀ b ∈ trails, isTrail b = true) ∧
    trails.length + 1 < sequenceLength lead

theorem not_truncated_nil : ¬ Truncated [] := by
  rintro ⟨front, lead, trails, h, -⟩
  exact absurd h (by simp)

/-- The decoder misses something at the lead whose sequence is cut off. -/
theorem truncated_cons {lead : UInt8} {rest : List UInt8} : Truncated (lead :: rest) ↔
    validateNext lead rest = .error .NOT_ENOUGH_ROOM ∨ Truncated rest := by
  rw [(readsTrails_validateNext lead).missing_iff, Nat.lt_sub_iff_add_lt]
  constructor
  · rintro ⟨front, lead', trails, h, htrails, hlen⟩
    cases front with
    | nil =>
      obtain ⟨rfl, rfl⟩ := List.cons.inj h
      exact .inl ⟨htrails, hlen⟩
    | cons b front =>
      obtain ⟨-, rfl⟩ := List.cons.inj h
      exact .inr ⟨front, lead', trails, rfl, htrails, hlen⟩
  · rintro (⟨htrails, hlen⟩ | ⟨front, lead', trails, rfl, htrails, hlen⟩)
    · exact ⟨[], lead, rest, rfl, htrails, hlen⟩
    · exact ⟨lead :: front, lead', trails, rfl, htrails, hlen⟩

theorem validateNext_of_trail {b : UInt8} (hb : isTrail b = true) (rest : List UInt8) :
    validateNext b rest = .error .INVALID_LEAD := by
  have hlength : sequenceLength b = 0 := by
    rw [isTrail_iff] at hb
    rw [sequenceLength_eq]
    split_ifs <;> omega
  rw [validateNext, hlength]
  rfl

/-- Trails in front make no difference. -/
theorem truncated_append {trails : List UInt8} (htrails : ∀ b ∈ trails, isTrail b = true)
    (more : List UInt8) : Truncated (trails ++ more) ↔ Truncated more := by
  induction trails with
  | nil => rfl
  | cons b trails ih =>
    obtain ⟨hb, htrails⟩ := List.forall_mem_cons.mp htrails
    rw [List.cons_append, truncated_cons, validateNext_of_trail hb, ih htrails]
    simp

/-! ## The repair -/

/-- `utf8::replace_invalid`: what is written at `out`. -/
def replaceInvalid (replacement : UInt32) : List UInt8 → Except Exception (List UInt8)
  | [] => .ok []
  | lead :: rest =>
    match h : validateNext lead rest with
    | .ok (_, more) => do
      have := length_of_validateNext h
      let out ← replaceInvalid replacement more
      return (lead :: rest).take ((lead :: rest).length - more.length) ++ out
    | .error .NOT_ENOUGH_ROOM => .error .notEnoughRoom
    | .error .INVALID_LEAD => do
      let mark ← append replacement
      let out ← replaceInvalid replacement rest
      return mark ++ out
    | .error _ => do
      let mark ← append replacement
      -- just one replacement mark for the sequence
      have := (List.dropWhile_suffix isTrail (l := rest)).length_le
      let out ← replaceInvalid replacement (rest.dropWhile isTrail)
      return mark ++ out
termination_by bytes => bytes.length
decreasing_by
  · assumption
  · exact Nat.lt_succ_self _
  · exact Nat.lt_succ_of_le this

/-- `utf8::replace_invalid` with the replacement marker. -/
def replaceInvalidByMarker : List UInt8 → Except Exception (List UInt8) := replaceInvalid 0xfffd

/-- What the loop leaves behind a lead that is replaced. -/
def skip (e : UtfError) (rest : List UInt8) : List UInt8 :=
  if e = .INVALID_LEAD then rest else rest.dropWhile isTrail

/-- Only trails are skipped. -/
theorem exists_skipped (e : UtfError) (rest : List UInt8) :
    ∃ trails, (∀ b ∈ trails, isTrail b = true) ∧ rest = trails ++ skip e rest := by
  rw [skip]
  split_ifs
  · exact ⟨[], nofun, rfl⟩
  · exact ⟨rest.takeWhile isTrail, List.all_eq_true.mp List.all_takeWhile,
      List.takeWhile_append_dropWhile.symm⟩

theorem skip_append (e : UtfError) (rest : List UInt8) {more : List UInt8}
    (hmore : ∀ b ∈ more.head?, isTrail b = false) : skip e (rest ++ more) = skip e rest ++ more := by
  rw [skip, skip]
  split_ifs
  · rfl
  · rw [List.dropWhile_append]
    split_ifs with hall
    · rw [List.isEmpty_iff.mp hall, List.nil_append]
      cases more with
      | nil => rfl
      | cons b more => rw [List.dropWhile_cons_of_neg (by rw [hmore b rfl]; decide)]
    · rfl

section Rounds

variable (replacement : UInt32) {lead : UInt8} {rest : List UInt8}

/-- **A character is copied.** -/
theorem replaceInvalid_char (c : Char) (more : List UInt8) :
    replaceInvalid replacement (String.utf8EncodeChar c ++ more)
      = (replaceInvalid replacement more).map (String.utf8EncodeChar c ++ ·) := by
  obtain ⟨lead, trails, hc, -, -⟩ := exists_lead c
  have hok : validateNext lead (trails ++ more) = .ok (c.val, more) :=
    validateNext_eq_ok.mpr ⟨c, rfl, by rw [hc, List.cons_append]⟩
  have hcopied : (lead :: (trails ++ more)).take ((lead :: (trails ++ more)).length - more.length)
      = lead :: trails := by
    rw [← List.cons_append, List.length_append, Nat.add_sub_cancel, List.take_left]
  rw [hc, List.cons_append, replaceInvalid]
  split
  · next h =>
    rw [hok] at h
    obtain ⟨-, rfl⟩ := Prod.mk.inj (Except.ok.inj h)
    rw [hcopied]
    cases replaceInvalid replacement more <;> rfl
  all_goals next h => rw [hok] at h; nomatch h

/-- **At octets that end within a sequence nothing more is done.** -/
theorem replaceInvalid_missing (h : validateNext lead rest = .error .NOT_ENOUGH_ROOM) :
    replaceInvalid replacement (lead :: rest) = .error .notEnoughRoom := by
  rw [replaceInvalid]
  split <;> simp_all

/-- **A lead that begins no character is marked**, and what is taken for its trails is skipped. -/
theorem replaceInvalid_bad {e : UtfError} (h : validateNext lead rest = .error e)
    (he : e ≠ .NOT_ENOUGH_ROOM) : replaceInvalid replacement (lead :: rest)
      = append replacement >>= fun mark => (replaceInvalid replacement (skip e rest)).map (mark ++ ·) := by
  have hmap (mark : List UInt8) (out : Except Exception (List UInt8)) :
      (do let out ← out; return mark ++ out) = out.map (mark ++ ·) := by
    cases out <;> rfl
  rw [replaceInvalid]
  simp only [hmap]
  split
  · next h' => rw [h] at h'; nomatch h'
  · next h' =>
    rw [h] at h'
    exact absurd (Except.error.inj h') he
  · next h' =>
    rw [h] at h'
    rw [Except.error.inj h', skip, if_pos rfl]
  · next hlead h' =>
    rw [h] at h'
    obtain rfl := Except.error.inj h'
    rw [skip, if_neg hlead]

end Rounds

/-- **The rounds of the loop.** -/
theorem repair_induction {motive : List UInt8 → Prop} (nil : motive [])
    (char : ∀ c more, motive more → motive (String.utf8EncodeChar c ++ more))
    (missing : ∀ lead rest, validateNext lead rest = .error .NOT_ENOUGH_ROOM → motive (lead :: rest))
    (bad : ∀ lead rest e, validateNext lead rest = .error e → e ≠ .NOT_ENOUGH_ROOM →
      motive (skip e rest) → motive (lead :: rest)) (bytes : List UInt8) : motive bytes := by
  induction hlen : bytes.length using Nat.strongRecOn generalizing bytes with
  | ind n ih =>
    cases bytes with
    | nil => exact nil
    | cons lead rest =>
      cases hnext : validateNext lead rest with
      | ok r =>
        obtain ⟨c, -, hc⟩ := validateNext_eq_ok.mp hnext
        rw [hc]
        exact char c r.2 (ih _ (hlen ▸ length_of_validateNext hnext) _ rfl)
      | error e =>
        by_cases he : e = .NOT_ENOUGH_ROOM
        · exact missing lead rest (he ▸ hnext)
        · obtain ⟨trails, -, hskip⟩ := exists_skipped e rest
          refine bad lead rest e hnext he (ih _ ?_ _ rfl)
          have hrest := congrArg List.length hskip
          rw [List.length_append] at hrest
          rw [← hlen, List.length_cons]
          omega

/-! ## What the repair makes of octets -/

/-- Where no character begins nothing is well-formed. -/
theorem not_wellFormed_of_error {lead : UInt8} {rest : List UInt8} {e : UtfError}
    (h : validateNext lead rest = .error e) : ¬ WellFormed (lead :: rest) := by
  rintro ⟨cs, hcs⟩
  cases cs with
  | nil => nomatch hcs
  | cons c cs =>
    have hok : validateNext lead rest = .ok (c.val, encode cs) :=
      validateNext_eq_ok.mpr ⟨c, rfl, hcs.symm⟩
    rw [h] at hok
    nomatch hok

theorem wellFormed_char {c : Char} {more : List UInt8} :
    WellFormed (String.utf8EncodeChar c ++ more) ↔ WellFormed more := by
  have hc : WellFormed (String.utf8EncodeChar c) := ⟨[c], by rw [encode_cons, encode_nil, List.append_nil]⟩
  exact hc.append_iff

theorem truncated_char {c : Char} {more : List UInt8} :
    Truncated (String.utf8EncodeChar c ++ more) ↔ Truncated more := by
  obtain ⟨lead, trails, hc, -, htrails⟩ := exists_lead c
  have hok : validateNext lead (trails ++ more) = .ok (c.val, more) :=
    validateNext_eq_ok.mpr ⟨c, rfl, by rw [hc, List.cons_append]⟩
  rw [hc, List.cons_append, truncated_cons, hok,
    truncated_append fun b hb => isTrail_iff.mpr (htrails b hb)]
  simp

theorem truncated_bad {lead : UInt8} {rest : List UInt8} {e : UtfError}
    (h : validateNext lead rest = .error e) (he : e ≠ .NOT_ENOUGH_ROOM) :
    Truncated (lead :: rest) ↔ Truncated (skip e rest) := by
  obtain ⟨trails, htrails, hskip⟩ := exists_skipped e rest
  have hsame := truncated_append htrails (skip e rest)
  rw [← hskip] at hsame
  rw [truncated_cons, h, hsame]
  simp [he]

section Repairs

variable {replacement : UInt32} {bytes out : List UInt8}

/-- **A text is left as it is.** -/
theorem replaceInvalid_encode (replacement : UInt32) (cs : List Char) (more : List UInt8) :
    replaceInvalid replacement (encode cs ++ more)
      = (replaceInvalid replacement more).map (encode cs ++ ·) := by
  induction cs with
  | nil =>
    rw [encode_nil, List.nil_append]
    cases replaceInvalid replacement more <;> rfl
  | cons c cs ih =>
    rw [encode_cons, List.append_assoc, replaceInvalid_char, ih]
    cases replaceInvalid replacement more with
    | error e => rfl
    | ok out => simp only [Except.map, List.append_assoc]

theorem replaceInvalid_of_wellFormed (replacement : UInt32) (h : WellFormed bytes) :
    replaceInvalid replacement bytes = .ok bytes := by
  obtain ⟨cs, rfl⟩ := h
  have hcopy := replaceInvalid_encode replacement cs []
  rw [List.append_nil, replaceInvalid] at hcopy
  rw [hcopy, Except.map, List.append_nil]

/-- **Whatever is written is a text.** -/
theorem wellFormed_of_replaceInvalid (h : replaceInvalid replacement bytes = .ok out) :
    WellFormed out := by
  induction bytes using repair_induction generalizing out with
  | nil =>
    rw [replaceInvalid] at h
    exact Except.ok.inj h ▸ .nil
  | char c more ih =>
    rw [replaceInvalid_char] at h
    obtain ⟨out, hout, rfl⟩ := Except.map_eq_ok.mp h
    exact wellFormed_char.mpr (ih hout)
  | missing lead rest hnext =>
    rw [replaceInvalid_missing replacement hnext] at h
    nomatch h
  | bad lead rest e hnext he ih =>
    rw [replaceInvalid_bad replacement hnext he] at h
    obtain ⟨mark, hmark, h⟩ := Except.bind_eq_ok.mp h
    obtain ⟨out, hout, rfl⟩ := Except.map_eq_ok.mp h
    by_cases hvalid : replacement.isValidChar
    · have hval := append_val ⟨replacement, hvalid⟩
      rw [hmark] at hval
      rw [Except.ok.inj hval]
      exact wellFormed_char.mpr (ih hout)
    · rw [append_of_not_valid hvalid] at hmark
      nomatch hmark

/-- **The repair fails** only for want of the end of a sequence. -/
theorem replaceInvalid_eq_error (r : Char) {thrown : Exception} :
    replaceInvalid r.val bytes = .error thrown ↔ thrown = .notEnoughRoom ∧ Truncated bytes := by
  induction bytes using repair_induction with
  | nil =>
    rw [replaceInvalid]
    exact ⟨nofun, fun h => absurd h.2 not_truncated_nil⟩
  | char c more ih =>
    rw [replaceInvalid_char, truncated_char, ← ih]
    cases replaceInvalid r.val more <;> simp [Except.map]
  | missing lead rest hnext =>
    rw [replaceInvalid_missing _ hnext, Except.error.injEq, truncated_cons]
    exact ⟨fun h => ⟨h.symm, .inl hnext⟩, fun h => h.1.symm⟩
  | bad lead rest e hnext he ih =>
    rw [replaceInvalid_bad _ hnext he, append_val, truncated_bad hnext he, ← ih]
    show (replaceInvalid r.val (skip e rest)).map _ = _ ↔ _
    cases replaceInvalid r.val (skip e rest) <;> simp [Except.map]

/-- With a replacement that is no scalar value only texts come through. -/
theorem replaceInvalid_eq_ok_of_not_valid (h : ¬ replacement.isValidChar) :
    replaceInvalid replacement bytes = .ok out ↔ WellFormed bytes ∧ out = bytes := by
  induction bytes using repair_induction generalizing out with
  | nil =>
    rw [replaceInvalid, Except.ok.injEq]
    exact ⟨fun heq => ⟨.nil, heq.symm⟩, fun heq => heq.2.symm⟩
  | char c more ih =>
    rw [replaceInvalid_char, wellFormed_char, Except.map_eq_ok]
    constructor
    · rintro ⟨more', hmore, rfl⟩
      obtain ⟨hwell, rfl⟩ := ih.mp hmore
      exact ⟨hwell, rfl⟩
    · rintro ⟨hwell, rfl⟩
      exact ⟨more, ih.mpr ⟨hwell, rfl⟩, rfl⟩
  | missing lead rest hnext =>
    rw [replaceInvalid_missing replacement hnext]
    exact ⟨nofun, fun hout => absurd hout.1 (not_wellFormed_of_error hnext)⟩
  | bad lead rest e hnext he ih =>
    rw [replaceInvalid_bad replacement hnext he, append_of_not_valid h]
    exact ⟨nofun, fun hout => absurd hout.1 (not_wellFormed_of_error hnext)⟩

end Repairs

/-- **The repair makes texts of octets**: what it writes is well-formed, and what was read only if that
was; it keeps the longest well-formed prefix, and a second repair changes nothing.  With a character as
the mark it throws exactly on octets that end within a sequence; with anything else on all but texts. -/
theorem replaceInvalid_repairs (replacement : UInt32) (bytes : List UInt8) :
    (∀ out, replaceInvalid replacement bytes = .ok out →
      WellFormed out ∧ (out = bytes ↔ WellFormed bytes) ∧ (∀ p, LongestPrefix p bytes → p <+: out) ∧
        ∀ r, replaceInvalid r out = .ok out) ∧
    (replacement.isValidChar → ∀ thrown, replaceInvalid replacement bytes = .error thrown ↔
      thrown = .notEnoughRoom ∧ Truncated bytes) ∧
    (¬ replacement.isValidChar → ∀ out, replaceInvalid replacement bytes = .ok out ↔
      WellFormed bytes ∧ out = bytes) := by
  refine ⟨fun out hout => ?_, fun hvalid thrown => replaceInvalid_eq_error ⟨replacement, hvalid⟩,
    fun hvalid out => replaceInvalid_eq_ok_of_not_valid hvalid⟩
  have hwell := wellFormed_of_replaceInvalid hout
  refine ⟨hwell, ⟨fun heq => heq ▸ hwell, fun hbytes => ?_⟩, fun p hp => ?_,
    fun r => replaceInvalid_of_wellFormed r hwell⟩
  · rw [replaceInvalid_of_wellFormed replacement hbytes] at hout
    exact (Except.ok.inj hout).symm
  · obtain ⟨cs, rfl⟩ := hp.wellFormed
    obtain ⟨more, rfl⟩ := hp.isPrefix
    rw [replaceInvalid_encode] at hout
    obtain ⟨more', -, rfl⟩ := Except.map_eq_ok.mp hout
    exact List.prefix_append _ _

/-- **The repair is local**: octets that go on, behind a complete end, with one that is no trail are
repaired as what is before it and what follows. -/
theorem replaceInvalid_local (replacement : UInt32) {x y : List UInt8} (hx : ¬ Truncated x)
    (hy : ∀ b ∈ y.head?, isTrail b = false) : replaceInvalid replacement (x ++ y) = do
      let front ← replaceInvalid replacement x
      let out ← replaceInvalid replacement y
      return front ++ out := by
  induction x using repair_induction with
  | nil =>
    rw [List.nil_append, replaceInvalid]
    show _ = replaceInvalid replacement y >>= fun out => _
    cases replaceInvalid replacement y <;> rfl
  | char c more ih =>
    rw [truncated_char] at hx
    rw [List.append_assoc, replaceInvalid_char, replaceInvalid_char, ih hx]
    cases replaceInvalid replacement more with
    | error e => rfl
    | ok front =>
      cases replaceInvalid replacement y with
      | error e => rfl
      | ok out => exact congrArg Except.ok (List.append_assoc _ _ _).symm
  | missing lead rest hnext => exact absurd (truncated_cons.mpr (.inl hnext)) hx
  | bad lead rest e hnext he ih =>
    rw [truncated_bad hnext he] at hx
    -- the decoder has seen what is wrong before it comes to the end
    have hnext' : validateNext lead (rest ++ y) = .error e := by
      rw [(readsTrails_validateNext lead).append_eq rest y (by rw [hnext]; simpa using he), hnext]
      rfl
    rw [List.cons_append, replaceInvalid_bad replacement hnext' he, skip_append e rest hy, ih hx,
      replaceInvalid_bad replacement hnext he]
    cases append replacement with
    | error thrown => rfl
    | ok mark =>
      show Except.map _ _ = (Except.map _ _ >>= fun front => _)
      cases replaceInvalid replacement (skip e rest) with
      | error thrown => rfl
      | ok front =>
        cases replaceInvalid replacement y with
        | error thrown => rfl
        | ok out => exact congrArg Except.ok (List.append_assoc _ _ _).symm

/-- A sequence broken off by a character, a trail on its own, and a character more. -/
theorem replaceInvalid_local_broken : replaceInvalid 0xfffd ([0xe2, 0x28, 0x80] ++ [0x41]) = do
      let front ← replaceInvalid 0xfffd [0xe2, 0x28, 0x80]
      let out ← replaceInvalid 0xfffd [0x41]
      return front ++ out := by
  have hcomplete : ¬ Truncated [0xe2, 0x28, 0x80] := by
    intro h
    obtain h | h := truncated_cons.mp h
    · exact absurd h (by decide)
    obtain h | h := truncated_cons.mp h
    · exact absurd h (by decide)
    obtain h | h := truncated_cons.mp h
    · exact absurd h (by decide)
    · exact not_truncated_nil h
  refine replaceInvalid_local 0xfffd hcomplete fun b hb => ?_
  obtain rfl := Option.some.inj hb
  rfl

end Utf8
