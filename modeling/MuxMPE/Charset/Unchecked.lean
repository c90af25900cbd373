import MuxMPE.Charset.Utf16
import MuxMPE.Charset.Walk

/-!
# Charset/Unchecked — the same without checks

    checked      ▓▓ ▓ ░ ▓▓▓       throws at ░
    unchecked    ▓▓ ▓ ? ▓▓▓       goes on with whatever the bits add up to, or reads out of the range

The unchecked functions take the octets for what their leads announce.  They follow the checked ones:
where a checked function returns, its unchecked twin returns the same (`unchecked_follow`).
-/

namespace Utf8

open Except

namespace Unchecked

/-! ## One code point -/

/-- `utf8::unchecked::append` writes as `utf8::append` does, whatever the code point. -/
def append (cp : UInt32) : List UInt8 := octets cp

/-- The octet that comes next, unless it is behind the range. -/
def octet : List UInt8 → Option (UInt8 × List UInt8)
  | [] => none
  | b :: rest => some (b, rest)

/-- `utf8::unchecked::next` -/
def next (lead : UInt8) (rest : List UInt8) : Option (UInt32 × List UInt8) :=
  let cp := (mask8 lead).toUInt32
  match sequenceLength lead with
  | 2 => do
    let (b, rest) ← octet rest
    return ((cp <<< 6 &&& 0x7ff) + (b &&& 0x3f).toUInt32, rest)
  | 3 => do
    let (b, rest) ← octet rest
    let cp := (cp <<< 12 &&& (0xffff : UInt32)) + ((mask8 b).toUInt32 <<< 6 &&& (0xfff : UInt32))
    let (c, rest) ← octet rest
    return (cp + (c &&& 0x3f).toUInt32, rest)
  | 4 => do
    let (b, rest) ← octet rest
    let cp := (cp <<< 18 &&& (0x1fffff : UInt32)) + ((mask8 b).toUInt32 <<< 12 &&& (0x3ffff : UInt32))
    let (c, rest) ← octet rest
    let cp := cp + ((mask8 c).toUInt32 <<< 6 &&& 0xfff)
    let (d, rest) ← octet rest
    return (cp + (d &&& 0x3f).toUInt32, rest)
  | _ => some (cp, rest)

theorem followedBy_octet (rest : List UInt8) : FollowedBy (increaseSafely rest) (octet rest) := by
  rintro ⟨b, more⟩ h
  obtain ⟨rfl, -⟩ := increaseSafely_eq_ok.mp h
  rfl

/-- The security checks return what was decoded. -/
theorem followedBy_checked {x : Except UtfError (UInt32 × List UInt8)} {y : Option (UInt32 × List UInt8)}
    (h : FollowedBy x y) (length : ℕ) : FollowedBy (x >>= checked length) y := by
  rintro ⟨cp, more⟩ hok
  obtain ⟨r, hr, hchecked⟩ := bind_eq_ok.mp hok
  obtain ⟨rfl, -⟩ := checked_eq_ok.mp hchecked
  exact h _ hr

/-- **The unchecked decoder follows the checked one.** -/
theorem followedBy_validateNext (lead : UInt8) (rest : List UInt8) :
    FollowedBy (validateNext lead rest) (next lead rest) := by
  rw [validateNext, next]
  generalize sequenceLength lead = length
  split
  · exact followedBy_checked (.pure _) 1
  · exact followedBy_checked (.bind (followedBy_octet rest) fun r _ => .pure _) 2
  · exact followedBy_checked (.bind (followedBy_octet rest) fun r _ =>
      .bind (followedBy_octet r.2) fun r _ => .pure _) 3
  · exact followedBy_checked (.bind (followedBy_octet rest) fun r _ =>
      .bind (followedBy_octet r.2) fun r _ => .bind (followedBy_octet r.2) fun r _ => .pure _) 4
  · exact .error _ _

/-- Nothing is put back. -/
theorem length_of_next {lead : UInt8} {rest more : List UInt8} {cp : UInt32}
    (h : next lead rest = some (cp, more)) : more.length < (lead :: rest).length := by
  have hoctet {l l' : List UInt8} {b : UInt8} (h : octet l = some (b, l')) : l'.length < l.length := by
    cases l with
    | nil => nomatch h
    | cons a l =>
      obtain ⟨-, rfl⟩ := Prod.mk.inj (Option.some.inj h)
      exact Nat.lt_succ_self _
  rw [List.length_cons]
  rw [next] at h
  split at h
  · obtain ⟨⟨b, l⟩, hb, h⟩ := Option.bind_eq_some_iff.mp h
    obtain ⟨-, rfl⟩ := Prod.mk.inj (Option.some.inj h)
    exact Nat.lt_trans (hoctet hb) (Nat.lt_succ_self _)
  · obtain ⟨⟨b, l⟩, hb, h⟩ := Option.bind_eq_some_iff.mp h
    obtain ⟨⟨c, l'⟩, hc, h⟩ := Option.bind_eq_some_iff.mp h
    obtain ⟨-, rfl⟩ := Prod.mk.inj (Option.some.inj h)
    exact Nat.lt_trans (hoctet hc) (Nat.lt_trans (hoctet hb) (Nat.lt_succ_self _))
  · obtain ⟨⟨b, l⟩, hb, h⟩ := Option.bind_eq_some_iff.mp h
    obtain ⟨⟨c, l'⟩, hc, h⟩ := Option.bind_eq_some_iff.mp h
    obtain ⟨⟨d, l''⟩, hd, h⟩ := Option.bind_eq_some_iff.mp h
    obtain ⟨-, rfl⟩ := Prod.mk.inj (Option.some.inj h)
    exact Nat.lt_trans (hoctet hd)
      (Nat.lt_trans (hoctet hc) (Nat.lt_trans (hoctet hb) (Nat.lt_succ_self _)))
  · obtain ⟨-, rfl⟩ := Prod.mk.inj (Option.some.inj h)
    exact Nat.lt_succ_self _

/-! ## A text -/

/-- The loops over `next`: `write` for each code point, `done` at the end. -/
def loop {β : Type} (write : UInt32 → β → β) (done : β) : List UInt8 → Option β
  | [] => some done
  | lead :: rest =>
    match h : next lead rest with
    | none => none
    | some (cp, more) => do
      have := length_of_next h
      let result ← loop write done more
      return write cp result
termination_by bytes => bytes.length
decreasing_by assumption

/-- The code points, whatever they are. -/
def utf8to32 : List UInt8 → Option (List UInt32) := loop (· :: ·) []

/-- The units of the code points, each cut to 16 bits. -/
def utf8to16 : List UInt8 → Option (List UInt16) := loop (fun cp result => units cp ++ result) []

/-- How many steps `next` takes to the end. -/
def distance : List UInt8 → Option ℕ := loop (fun _ dist => dist + 1) 0

/-- The octets of the code points, valid or not. -/
def utf32to8 (cps : List UInt32) : List UInt8 := cps.flatMap append

/-- A lead surrogate is taken with whatever follows. -/
def utf16to8 : List UInt16 → Option (List UInt8)
  | [] => some []
  | [u] =>
    let cp := (mask16 u).toUInt32
    if isLeadSurrogate cp then none else some (append cp)
  | u :: v :: rest =>
    let cp := (mask16 u).toUInt32
    if isLeadSurrogate cp then do
      let result ← utf16to8 rest
      return append (paired cp (mask16 v).toUInt32) ++ result
    else do
      let result ← utf16to8 (v :: rest)
      return append cp ++ result

/-- Where the checked `next` returns, this one does the same. -/
theorem next_of_checked {lead : UInt8} {rest more : List UInt8} {cp : UInt32}
    (h : Utf8.next lead rest = .ok (cp, more)) : next lead rest = some (cp, more) :=
  followedBy_validateNext lead rest _ (validateNext_eq_ok.mpr (next_eq_ok.mp h))

/-- **A loop makes of a text what is made of its code points.** -/
theorem loop_of_checked {β : Type} (write : UInt32 → β → β) (done : β) {bytes : List UInt8}
    {cps : List UInt32} (h : Utf8.utf8to32 bytes = .ok cps) :
    loop write done bytes = some (cps.foldr write done) := by
  fun_induction Utf8.utf8to32 bytes generalizing cps with
  | case1 =>
    rw [loop, ← Except.ok.inj h, List.foldr_nil]
  | case2 lead rest e hnext => cases h
  | case3 lead rest cp more hnext _ ih =>
    obtain ⟨cps, hcps, hcons⟩ := bind_eq_ok.mp h
    rw [← Except.ok.inj hcons, List.foldr_cons, loop]
    split
    · next hnone => rw [next_of_checked hnext] at hnone; cases hnone
    · next hsome =>
      rw [next_of_checked hnext] at hsome
      obtain ⟨rfl, rfl⟩ := Prod.mk.inj (Option.some.inj hsome)
      rw [ih hcps]
      rfl

theorem foldr_units (cps : List UInt32) :
    cps.foldr (fun cp result => units cp ++ result) [] = cps.flatMap units := by
  induction cps with
  | nil => rfl
  | cons cp cps ih => rw [List.foldr_cons, ih, List.flatMap_cons]

theorem foldr_count (cps : List UInt32) : cps.foldr (fun _ dist => dist + 1) 0 = cps.length := by
  induction cps with
  | nil => rfl
  | cons cp cps ih => rw [List.foldr_cons, ih, List.length_cons]

/-- As `append`. -/
theorem followedBy_append (cp : UInt32) : FollowedBy (Utf8.append cp) (some (append cp)) := by
  rw [Utf8.append]
  split_ifs
  · exact .error _ _
  · exact .pure _

theorem followedBy_utf32to8 (cps : List UInt32) :
    FollowedBy (Utf8.utf32to8 cps) (some (utf32to8 cps)) := by
  induction cps with
  | nil => exact .pure _
  | cons cp cps ih => exact (followedBy_append cp).bind fun written _ => ih.bind fun result _ => .pure _

theorem followedBy_written (cp : UInt32) : FollowedBy (written cp) (some (append cp)) := by
  rw [written, Utf8.append]
  split_ifs
  · exact .error _ _
  · exact .pure _

/-- As `utf16to8`. -/
theorem followedBy_utf16to8 (us : List UInt16) : FollowedBy (Utf8.utf16to8 us) (utf16to8 us) := by
  fun_induction Utf8.utf16to8 us with
  | case1 =>
    rw [utf16to8]
    exact fun _ h => congrArg some (Except.ok.inj h)
  | case2 u cp h => exact .error _ _
  | case3 u cp h =>
    have hlead : ¬ isLeadSurrogate cp = true := fun hlead => h (by rw [hlead, Bool.true_or])
    rw [utf16to8, if_neg hlead]
    exact followedBy_written cp
  | case4 u v rest cp hlead trail htrail ih =>
    rw [utf16to8, if_pos hlead]
    intro r hr
    obtain ⟨octets, hoctets, hr⟩ := bind_eq_ok.mp hr
    obtain ⟨result, hresult, hr⟩ := bind_eq_ok.mp hr
    have hwritten := Option.some.inj (followedBy_written _ _ hoctets)
    rw [ih result hresult, ← Except.ok.inj hr, ← hwritten]
    rfl
  | case5 u v rest cp hlead trail htrail => exact .error _ _
  | case6 u v rest cp hlead htrail => exact .error _ _
  | case7 u v rest cp hlead htrail ih =>
    rw [utf16to8, if_neg hlead]
    exact (followedBy_written cp).bind fun octets _ => ih.bind fun result _ => .pure _

/-! ## Iterators -/

/-- `utf8::unchecked::next` at a position of a range. -/
def nextAt (p : Position) : Option (UInt32 × Position) :=
  match p.ahead with
  | [] => none
  | lead :: rest => do
    let (cp, more) ← next lead rest
    let passed := (lead :: rest).take ((lead :: rest).length - more.length)
    return (cp, ⟨passed.reverse ++ p.behind, more⟩)

/-- The loop of `utf8::unchecked::prior`, which goes on out of the range. -/
def priorLoop (ahead trails : List UInt8) (b : UInt8) (behind : List UInt8) : Option (UInt32 × Position) :=
  if isTrail b then
    match behind with
    | [] => none
    | b' :: behind => priorLoop ahead (b :: trails) b' behind
  else do
    let (cp, _) ← next b (trails ++ ahead)
    return (cp, ⟨behind, b :: trails ++ ahead⟩)

/-- `utf8::unchecked::prior`: back to a lead, then one step of `next`. -/
def prior (p : Position) : Option (UInt32 × Position) :=
  match p.behind with
  | [] => none
  | b :: behind => priorLoop p.ahead [] b behind

/-- `utf8::unchecked::advance`: as many steps of `next`. -/
def advance : ℕ → Position → Option Position
  | 0, p => some p
  | n + 1, p => do
    let (_, q) ← nextAt p
    advance n q

theorem nextAt_of_checked {p q : Position} {cp : UInt32} (h : p.next = some (.ok cp, q)) :
    nextAt p = some (cp, q) := by
  obtain ⟨behind, ahead⟩ := p
  cases ahead with
  | nil => nomatch h
  | cons lead rest =>
    rw [Position.next] at h
    cases hnext : Utf8.next lead rest with
    | error e => simp [hnext] at h
    | ok r =>
      simp only [hnext, Option.some.injEq, Prod.mk.injEq, ok.injEq] at h
      obtain ⟨rfl, rfl⟩ := h
      simp only [nextAt, next_of_checked hnext]
      rfl

/-- What lies ahead does not keep the checked decoder from what it has found. -/
theorem next_append {lead : UInt8} {rest more ahead : List UInt8} {cp : UInt32}
    (h : Utf8.next lead rest = .ok (cp, more)) :
    Utf8.next lead (rest ++ ahead) = .ok (cp, more ++ ahead) := by
  obtain ⟨c, hc, hbytes⟩ := next_eq_ok.mp h
  refine next_eq_ok.mpr ⟨c, hc, ?_⟩
  rw [← List.cons_append, hbytes, List.append_assoc]

/-- At a lead both decode. -/
theorem priorLoop_of_lead {ahead trails : List UInt8} {b : UInt8} (hb : isTrail b = false)
    {behind : List UInt8} {cp : UInt32} {q : Position}
    (h : Position.priorLoop ahead trails b behind = (.ok cp, q)) :
    priorLoop ahead trails b behind = some (cp, q) := by
  rw [Position.priorLoop_of_lead ahead hb] at h
  obtain ⟨hcp, rfl⟩ := Prod.mk.inj h
  rw [priorLoop.eq_def, if_neg (by rw [hb]; decide)]
  cases hnext : Utf8.next b trails with
  | error e =>
    rw [hnext] at hcp
    nomatch hcp
  | ok r =>
    rw [hnext] at hcp
    rw [next_of_checked (next_append hnext), ← Except.ok.inj hcp]
    rfl

theorem priorLoop_of_checked {ahead trails : List UInt8} {b : UInt8} {behind : List UInt8}
    {cp : UInt32} {q : Position} (h : Position.priorLoop ahead trails b behind = (.ok cp, q)) :
    priorLoop ahead trails b behind = some (cp, q) := by
  induction behind generalizing trails b with
  | nil =>
    cases hb : isTrail b with
    | false => exact priorLoop_of_lead hb h
    | true =>
      rw [Position.priorLoop.eq_def, if_pos hb] at h
      cases h
  | cons b' behind ih =>
    cases hb : isTrail b with
    | false => exact priorLoop_of_lead hb h
    | true =>
      rw [Position.priorLoop_of_trail ahead hb] at h
      rw [priorLoop.eq_def, if_pos hb]
      exact ih h

/-- Where the checked `prior` returns, this one does the same. -/
theorem prior_of_checked {p q : Position} {cp : UInt32} (h : p.prior = (.ok cp, q)) :
    prior p = some (cp, q) := by
  obtain ⟨behind, ahead⟩ := p
  cases behind with
  | nil => nomatch h
  | cons b behind => exact priorLoop_of_checked h

/-- As `advance`. -/
theorem advance_of_checked {n : ℕ} {p q : Position} (h : Position.advance n p = some (.ok (), q)) :
    advance n p = some q := by
  induction n generalizing p with
  | zero =>
    obtain ⟨-, rfl⟩ := Prod.mk.inj (Option.some.inj h)
    rfl
  | succ n ih =>
    rw [Position.advance] at h
    split at h
    · cases h
    · cases h
    · next cp t hnext =>
      rw [advance, nextAt_of_checked hnext]
      exact ih h

/-- **Without checks the same is done**: wherever one of the checked conversions returns, wherever
`prior` and `advance` do and `distance` does, the unchecked one returns the same, within the range. -/
theorem unchecked_follow :
    (∀ bytes, FollowedBy (Utf8.utf8to32 bytes) (utf8to32 bytes)) ∧
    (∀ bytes, FollowedBy (Utf8.utf8to16 bytes) (utf8to16 bytes)) ∧
    (∀ us, FollowedBy (Utf8.utf16to8 us) (utf16to8 us)) ∧
    (∀ cps, FollowedBy (Utf8.utf32to8 cps) (some (utf32to8 cps))) ∧
    (∀ bytes, FollowedBy (Utf8.distance bytes) (distance bytes)) ∧
    (∀ n p q, Position.advance n p = some (.ok (), q) → advance n p = some q) ∧
    ∀ cp p q, Position.prior p = (.ok cp, q) → prior p = some (cp, q) := by
  refine ⟨fun bytes cps h => ?_, fun bytes us h => ?_, followedBy_utf16to8, followedBy_utf32to8,
    fun bytes n h => ?_, fun n p q => advance_of_checked, fun cp p q => prior_of_checked⟩
  · rw [utf8to32, loop_of_checked _ _ h, List.foldr_cons_nil]
  · rw [Utf8.utf8to16_eq] at h
    obtain ⟨cps, hcps, rfl⟩ := map_eq_ok.mp h
    rw [utf8to16, loop_of_checked _ _ hcps, foldr_units]
  · rw [Utf8.distance_eq] at h
    obtain ⟨cps, hcps, rfl⟩ := map_eq_ok.mp h
    rw [distance, loop_of_checked _ _ hcps, foldr_count]

end Unchecked

end Utf8
