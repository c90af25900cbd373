import MuxMPE.Charset.Decoder

/-!
# Charset/Walk — iterators over UTF-8

    start ░ ░ ░ ░ ░ ◂──prior── it ──next──▸ ░ ░ ░ ⋯ end
          └ behind ┘                       └ ahead ┘

An iterator that goes both ways is a position in its range.  `next` stays where it is when it throws;
`prior` looks for a lead, and has moved when it throws.  Over a text the iterator is a cursor between
its characters (`iterator_walks_text`); over any octets `prior` passes the trails that are too many
along with the character in front of them (`prior_steps_back`).
-/

namespace Utf8

/-- An iterator in its range: the octets back to the start, the nearest first, and those to the end. -/
structure Position where
  behind : List UInt8
  ahead : List UInt8
  deriving DecidableEq, Repr

namespace Position

/-- `utf8::next`, which reads behind the range when there is nothing ahead. -/
def next (p : Position) : Option (Except Exception UInt32 × Position) :=
  match p.ahead with
  | [] => none
  | lead :: rest =>
    match Utf8.next lead rest with
    | .error thrown => some (.error thrown, p)
    | .ok (cp, more) =>
      let passed := (lead :: rest).take ((lead :: rest).length - more.length)
      some (.ok cp, ⟨passed.reverse ++ p.behind, more⟩)

/-- `peek_next`, on a copy of the iterator. -/
def peekNext (p : Position) : Option (Except Exception UInt32) := p.next.map Prod.fst

/-- The loop of `prior`, at the octet `b` with `trails` passed. -/
def priorLoop (ahead trails : List UInt8) (b : UInt8) (behind : List UInt8) :
    Except Exception UInt32 × Position :=
  if isTrail b then
    match behind with
    | [] => (.error (.invalidUtf8 b), ⟨[], b :: trails ++ ahead⟩)
    | b' :: behind => priorLoop ahead (b :: trails) b' behind
  else ((Utf8.next b trails).map Prod.fst, ⟨behind, b :: trails ++ ahead⟩)

/-- `utf8::prior` -/
def prior (p : Position) : Except Exception UInt32 × Position :=
  match p.behind with
  | [] => (.error .notEnoughRoom, p)
  | b :: behind => priorLoop p.ahead [] b behind

def advance : ℕ → Position → Option (Except Exception Unit × Position)
  | 0, p => some (.ok (), p)
  | n + 1, p =>
    match p.next with
    | none => none
    | some (.error thrown, q) => some (.error thrown, q)
    | some (.ok _, q) => advance n q

end Position

/-- `utf8::distance` from `first` to the end. -/
def distance : List UInt8 → Except Exception ℕ
  | [] => .ok 0
  | lead :: rest =>
    match h : next lead rest with
    | .error thrown => .error thrown
    | .ok (_, more) => do
      have := length_of_validateNext (validateNext_eq_ok.mpr (next_eq_ok.mp h))
      let dist ← distance more
      return dist + 1
termination_by bytes => bytes.length
decreasing_by assumption

/-! ## Forward -/

namespace Position

theorem isTrail_iff_octet {b : UInt8} : isTrail b = true ↔ IsTrail b := isTrail_iff

/-- **`next` passes a character.** -/
theorem next_eq_ok {p q : Position} {cp : UInt32} : p.next = some (.ok cp, q) ↔
    ∃ c : Char, c.val = cp ∧ p.ahead = String.utf8EncodeChar c ++ q.ahead ∧
      q.behind = (String.utf8EncodeChar c).reverse ++ p.behind := by
  obtain ⟨behind, ahead⟩ := p
  cases ahead with
  | nil =>
    refine ⟨nofun, ?_⟩
    rintro ⟨c, -, h, -⟩
    exact absurd (List.append_eq_nil_iff.mp h.symm).1 (utf8EncodeChar_ne_nil c)
  | cons lead rest =>
    have hpassed (c : Char) (more : List UInt8) : (String.utf8EncodeChar c ++ more).take
        ((String.utf8EncodeChar c ++ more).length - more.length) = String.utf8EncodeChar c := by
      rw [List.length_append, Nat.add_sub_cancel, List.take_left]
    constructor
    · intro h
      rw [next] at h
      cases hnext : Utf8.next lead rest with
      | error thrown => simp [hnext] at h
      | ok r =>
        obtain ⟨cp', more⟩ := r
        obtain ⟨c, rfl, hc⟩ := Utf8.next_eq_ok.mp hnext
        simp only [hnext, hc, hpassed, Option.some.injEq, Prod.mk.injEq, Except.ok.injEq] at h
        obtain ⟨rfl, rfl⟩ := h
        exact ⟨c, rfl, hc, rfl⟩
    · rintro ⟨c, rfl, hc, hbehind⟩
      have hnext : Utf8.next lead rest = .ok (c.val, q.ahead) := Utf8.next_eq_ok.mpr ⟨c, rfl, hc⟩
      rw [next]
      simp only [hnext, show lead :: rest = _ from hc, hpassed]
      rw [← hbehind]

/-! ## Backward -/

variable (ahead : List UInt8)

theorem priorLoop_of_lead {b : UInt8} (hb : isTrail b = false) (trails behind : List UInt8) :
    priorLoop ahead trails b behind
      = ((Utf8.next b trails).map Prod.fst, ⟨behind, b :: trails ++ ahead⟩) := by
  rw [priorLoop.eq_def, if_neg (by rw [hb]; decide)]

theorem priorLoop_of_trail {b : UInt8} (hb : isTrail b = true) (trails : List UInt8) (b' : UInt8)
    (behind : List UInt8) :
    priorLoop ahead trails b (b' :: behind) = priorLoop ahead (b :: trails) b' behind := by
  rw [priorLoop.eq_def, if_pos hb]

/-- `prior` goes back over trails to what is none, and decodes from there. -/
theorem priorLoop_passed {lead : UInt8} (hlead : isTrail lead = false) (trails behind : List UInt8)
    {passed : List UInt8} (hpassed : ∀ b ∈ passed, isTrail b = true) {b : UInt8} {more : List UInt8}
    (hsplit : passed ++ lead :: behind = b :: more) :
    priorLoop ahead trails b more = ((Utf8.next lead (passed.reverse ++ trails)).map Prod.fst,
      ⟨behind, lead :: (passed.reverse ++ trails) ++ ahead⟩) := by
  induction passed generalizing trails b more with
  | nil =>
    obtain ⟨rfl, rfl⟩ := List.cons.inj hsplit
    exact priorLoop_of_lead ahead hlead trails behind
  | cons a passed ih =>
    rw [List.cons_append] at hsplit
    obtain ⟨rfl, hrest⟩ := List.cons.inj hsplit
    obtain ⟨ha, hpassed⟩ := List.forall_mem_cons.mp hpassed
    obtain ⟨b', more', hmore⟩ : ∃ b' more', passed ++ lead :: behind = b' :: more' :=
      List.exists_cons_of_ne_nil (by simp)
    rw [← hrest, hmore, priorLoop_of_trail ahead ha, ih (a :: trails) hpassed hmore,
      List.reverse_cons, List.append_assoc, List.singleton_append]

/-- Where there are only trails, `prior` ends at the start of the range. -/
theorem priorLoop_trails (trails : List UInt8) {b : UInt8} {behind : List UInt8}
    (hbehind : ∀ a ∈ b :: behind, isTrail a = true) : ∃ first, priorLoop ahead trails b behind
      = (.error (.invalidUtf8 first), ⟨[], (b :: behind).reverse ++ trails ++ ahead⟩) := by
  induction behind generalizing trails b with
  | nil =>
    refine ⟨b, ?_⟩
    rw [priorLoop.eq_def, if_pos (hbehind b List.mem_cons_self)]
    rfl
  | cons b' behind ih =>
    obtain ⟨hb, hbehind⟩ := List.forall_mem_cons.mp hbehind
    obtain ⟨first, hfirst⟩ := ih (b :: trails) hbehind
    refine ⟨first, ?_⟩
    rw [priorLoop_of_trail ahead hb, hfirst]
    simp

variable {ahead}

theorem prior_cons (b : UInt8) (behind : List UInt8) :
    (Position.mk (b :: behind) ahead).prior = priorLoop ahead [] b behind := rfl

/-- **Back over the trails to a lead.** -/
theorem prior_lead {lead : UInt8} (hlead : isTrail lead = false) {trails : List UInt8}
    (htrails : ∀ b ∈ trails, isTrail b = true) (behind : List UInt8) :
    (Position.mk ((lead :: trails).reverse ++ behind) ahead).prior
      = ((Utf8.next lead trails).map Prod.fst, ⟨behind, lead :: trails ++ ahead⟩) := by
  have hsplit : (lead :: trails).reverse ++ behind = trails.reverse ++ lead :: behind := by simp
  obtain ⟨b, more, hmore⟩ : ∃ b more, trails.reverse ++ lead :: behind = b :: more :=
    List.exists_cons_of_ne_nil (by simp)
  have hpassed : ∀ b ∈ trails.reverse, isTrail b = true := fun b hb => htrails b (List.mem_reverse.mp hb)
  have hloop := priorLoop_passed ahead hlead [] behind hpassed hmore
  rw [List.reverse_reverse, List.append_nil] at hloop
  rw [← hloop, hsplit, hmore, prior_cons]

/-- What is behind ends in a lead and its trails, or there are only trails. -/
theorem exists_split (behind : List UInt8) : (∀ b ∈ behind, isTrail b = true) ∨
    ∃ lead trails more, isTrail lead = false ∧ (∀ b ∈ trails, isTrail b = true) ∧
      behind = (lead :: trails).reverse ++ more := by
  induction behind with
  | nil => exact .inl nofun
  | cons b behind ih =>
    cases hb : isTrail b with
    | false => exact .inr ⟨b, [], behind, hb, nofun, rfl⟩
    | true =>
      obtain htrails | ⟨lead, trails, more, hlead, htrails, rfl⟩ := ih
      · exact .inl (List.forall_mem_cons.mpr ⟨hb, htrails⟩)
      · refine .inr ⟨lead, trails ++ [b], more, hlead, fun b' hb' => ?_, by simp⟩
        obtain hb' | hb' := List.mem_append.mp hb'
        · exact htrails b' hb'
        · rw [List.mem_singleton.mp hb', hb]

theorem isTrail_of_lead {lead : UInt8} (hlead : ¬ IsTrail lead) : isTrail lead = false := by
  rwa [← Bool.not_eq_true, isTrail_iff_octet]

/-- **`prior` returns the last character behind**, and passes the trails that follow it. -/
theorem prior_eq_ok {p q : Position} {cp : UInt32} : p.prior = (.ok cp, q) ↔
    ∃ (c : Char) (stray : List UInt8), c.val = cp ∧ (∀ b ∈ stray, isTrail b = true) ∧
      p.behind = (String.utf8EncodeChar c ++ stray).reverse ++ q.behind ∧
      q.ahead = String.utf8EncodeChar c ++ stray ++ p.ahead := by
  obtain ⟨behind, ahead⟩ := p
  constructor
  · intro h
    obtain htrails | ⟨lead, trails, more, hlead, htrails, rfl⟩ := exists_split behind
    · cases behind with
      | nil => simp [prior] at h
      | cons b behind =>
        obtain ⟨first, hfirst⟩ := priorLoop_trails ahead [] htrails
        rw [prior_cons, hfirst] at h
        simp at h
    · rw [prior_lead hlead htrails] at h
      obtain ⟨hcp, rfl⟩ := Prod.mk.inj h
      cases hnext : Utf8.next lead trails with
      | error thrown => simp [hnext, Except.map] at hcp
      | ok r =>
        obtain ⟨cp', stray⟩ := r
        obtain ⟨c, rfl, hc⟩ := Utf8.next_eq_ok.mp hnext
        simp only [hnext, Except.map, Except.ok.injEq] at hcp
        refine ⟨c, stray, hcp, fun b hb => ?_, by rw [hc], by rw [hc]⟩
        obtain ⟨lead', trails', hlead', -, -⟩ := exists_lead c
        rw [hlead', List.cons_append, List.cons.injEq] at hc
        exact htrails b (hc.2 ▸ List.mem_append_right _ hb)
  · rintro ⟨c, stray, rfl, hstray, hbehind, hahead⟩
    obtain ⟨lead, trails, hc, hlead, htrails⟩ := exists_lead c
    have hnext : Utf8.next lead (trails ++ stray) = .ok (c.val, stray) :=
      Utf8.next_eq_ok.mpr ⟨c, rfl, by rw [hc, List.cons_append]⟩
    have hall : ∀ b ∈ trails ++ stray, isTrail b = true := by
      intro b hb
      obtain hb | hb := List.mem_append.mp hb
      · exact isTrail_iff_octet.mpr (htrails b hb)
      · exact hstray b hb
    simp only [hc, List.cons_append] at hbehind hahead
    subst hbehind
    rw [prior_lead (isTrail_of_lead hlead) hall, hnext, List.cons_append, ← hahead]
    rfl

/-- Whatever it throws, `prior` has moved over no more than one octet that is no trail. -/
theorem prior_moves (p : Position) : ∃ moved, p.behind = moved.reverse ++ p.prior.2.behind ∧
    p.prior.2.ahead = moved ++ p.ahead ∧ ∀ b ∈ moved.tail, isTrail b = true := by
  obtain ⟨behind, ahead⟩ := p
  obtain htrails | ⟨lead, trails, more, hlead, htrails, rfl⟩ := exists_split behind
  · cases behind with
    | nil => exact ⟨[], rfl, rfl, nofun⟩
    | cons b behind =>
      obtain ⟨first, hfirst⟩ := priorLoop_trails ahead [] htrails
      rw [prior_cons, hfirst, List.append_nil]
      refine ⟨(b :: behind).reverse, by simp, rfl, fun a ha => ?_⟩
      exact htrails a (List.mem_reverse.mp (List.mem_of_mem_tail ha))
  · rw [prior_lead hlead htrails]
    exact ⟨lead :: trails, rfl, rfl, htrails⟩

/-- **Stepping back**, over any octets: `prior` returns the last character behind and passes the trails
that follow it; it undoes `next`; and when it throws it stays within one lead and its trails. -/
theorem prior_steps_back (p : Position) :
    (∀ cp q, p.prior = (.ok cp, q) ↔ ∃ (c : Char) (stray : List UInt8), c.val = cp ∧
      (∀ b ∈ stray, isTrail b = true) ∧
      p.behind = (String.utf8EncodeChar c ++ stray).reverse ++ q.behind ∧
      q.ahead = String.utf8EncodeChar c ++ stray ++ p.ahead) ∧
    (∀ cp q, p.next = some (.ok cp, q) → q.prior = (.ok cp, p)) ∧
    ∃ moved, p.behind = moved.reverse ++ p.prior.2.behind ∧ p.prior.2.ahead = moved ++ p.ahead ∧
      ∀ b ∈ moved.tail, isTrail b = true := by
  refine ⟨fun cp q => prior_eq_ok, fun cp q h => ?_, prior_moves p⟩
  obtain ⟨c, hc, hahead, hbehind⟩ := next_eq_ok.mp h
  refine prior_eq_ok.mpr ⟨c, [], hc, nofun, ?_, ?_⟩
  · rw [List.append_nil, hbehind]
  · rw [List.append_nil, hahead]

end Position

/-! ## Walks over a text -/

/-- What is done with an iterator. -/
inductive Move
  | deref
  | increment
  | decrement
  deriving DecidableEq, Repr

/-- What is had of it: a code point, nothing, or an exception. -/
abbrev Outcome := Except Exception (Option UInt32)

section Walks

variable {σ τ : Type}

/-- One thing after the other, as long as each is defined; what is thrown is caught. -/
def walk (apply : Move → σ → Option (Outcome × σ)) : List Move → σ → Option (List Outcome × σ)
  | [], s => some ([], s)
  | m :: ms, s => do
    let (outcome, t) ← apply m s
    let (outcomes, u) ← walk apply ms t
    return (outcome :: outcomes, u)

/-- **What agrees in each move agrees in every walk.** -/
theorem walk_map {apply : Move → σ → Option (Outcome × σ)} {apply' : Move → τ → Option (Outcome × τ)}
    {f : σ → τ} (h : ∀ m s, apply' m (f s) = (apply m s).map (Prod.map id f)) (ms : List Move) (s : σ) :
    walk apply' ms (f s) = (walk apply ms s).map (Prod.map id f) := by
  induction ms generalizing s with
  | nil => rfl
  | cons m ms ih =>
    rw [walk, walk, h]
    cases apply m s with
    | none => rfl
    | some r =>
      obtain ⟨outcome, t⟩ := r
      simp only [Option.map_some, Prod.map, id_eq, Option.bind_eq_bind, Option.bind_some, ih t]
      cases walk apply ms t <;> rfl

end Walks

/-- The operators of `utf8::iterator`. -/
def Position.apply : Move → Position → Option (Outcome × Position)
  | .deref, p => p.peekNext.map fun cp => (cp.map some, p)
  | .increment, p => p.next.map fun r => (r.1.map fun _ => none, r.2)
  | .decrement, p => some (p.prior.1.map fun _ => none, p.prior.2)

/-- Between the characters of a text: those before, the nearest first, and those after. -/
structure Cursor where
  before : List Char
  after : List Char
  deriving DecidableEq, Repr

namespace Cursor

/-- What an iterator is for. -/
def apply : Move → Cursor → Option (Outcome × Cursor)
  | .deref, t => t.after.head?.map fun c => (.ok (some c.val), t)
  | .increment, t =>
    match t.after with
    | [] => none
    | c :: after => some (.ok none, ⟨c :: t.before, after⟩)
  | .decrement, t =>
    match t.before with
    | [] => some (.error .notEnoughRoom, t)
    | c :: before => some (.ok none, ⟨before, c :: t.after⟩)

/-- The octets of the text. -/
def position (t : Cursor) : Position := ⟨(encode t.before.reverse).reverse, encode t.after⟩

theorem position_injective : Function.Injective position := by
  rintro ⟨before, after⟩ ⟨before', after'⟩ h
  obtain ⟨hbefore, hafter⟩ := Position.mk.inj h
  have hreverse : before.reverse = before'.reverse := encode_injective (List.reverse_injective hbefore)
  obtain rfl : before = before' := List.reverse_injective hreverse
  obtain rfl : after = after' := encode_injective hafter
  rfl

/-- The octets behind a character that has been passed. -/
theorem behind_cons (c : Char) (before after : List Char) :
    (position ⟨c :: before, after⟩).behind
      = (String.utf8EncodeChar c).reverse ++ (position ⟨before, after⟩).behind := by
  rw [position, position, List.reverse_cons, encode_append, encode_cons, encode_nil, List.append_nil,
    List.reverse_append]

theorem next_position (c : Char) (before after : List Char) :
    (position ⟨before, c :: after⟩).next = some (.ok c.val, position ⟨c :: before, after⟩) :=
  Position.next_eq_ok.mpr ⟨c, rfl, rfl, behind_cons c before after⟩

theorem prior_position (c : Char) (before after : List Char) :
    (position ⟨c :: before, after⟩).prior = (.ok c.val, position ⟨before, c :: after⟩) := by
  refine Position.prior_eq_ok.mpr ⟨c, [], rfl, nofun, ?_, ?_⟩
  · rw [List.append_nil, behind_cons]
    rfl
  · rw [List.append_nil]
    rfl

/-- **An iterator over a text moves as the cursor does.** -/
theorem apply_position (m : Move) (t : Cursor) :
    Position.apply m t.position = (apply m t).map (Prod.map id position) := by
  obtain ⟨before, after⟩ := t
  cases m with
  | deref =>
    cases after with
    | nil => rfl
    | cons c after =>
      rw [Position.apply, Position.peekNext, next_position]
      rfl
  | increment =>
    cases after with
    | nil => rfl
    | cons c after =>
      rw [Position.apply, next_position]
      rfl
  | decrement =>
    cases before with
    | nil => rfl
    | cons c before =>
      rw [Position.apply, prior_position]
      rfl

end Cursor

/-- **The iterator walks over a text**: whatever is done with it, in whatever order, it gives and throws
what the cursor between the characters does, and ends where that ends; and two iterators over a text are
equal exactly if they stand between the same characters. -/
theorem iterator_walks_text : Function.Injective Cursor.position ∧
    ∀ ms t, walk Position.apply ms t.position
      = (walk Cursor.apply ms t).map (Prod.map id Cursor.position) :=
  ⟨Cursor.position_injective, fun ms t => walk_map Cursor.apply_position ms t⟩

/-! ## Counting -/

/-- **`advance` passes as many characters as it is told.** -/
theorem Position.advance_eq_ok {n : ℕ} {p q : Position} : advance n p = some (.ok (), q) ↔
    ∃ cs : List Char, cs.length = n ∧ p.ahead = encode cs ++ q.ahead ∧
      q.behind = (encode cs).reverse ++ p.behind := by
  induction n generalizing p with
  | zero =>
    constructor
    · intro h
      obtain ⟨-, rfl⟩ := Prod.mk.inj (Option.some.inj h)
      exact ⟨[], rfl, rfl, rfl⟩
    · rintro ⟨cs, hlen, hahead, hbehind⟩
      obtain rfl := List.length_eq_zero_iff.mp hlen
      obtain ⟨behind, ahead⟩ := p
      obtain ⟨behind', ahead'⟩ := q
      obtain rfl : ahead = ahead' := hahead
      obtain rfl : behind' = behind := hbehind
      rfl
  | succ n ih =>
    have hstep : advance (n + 1) p = some (.ok (), q) ↔
        ∃ cp t, p.next = some (.ok cp, t) ∧ advance n t = some (.ok (), q) := by
      rw [advance]
      obtain hnext | ⟨⟨e | cp, t⟩, hnext⟩ := Option.eq_none_or_eq_some p.next <;> simp [hnext]
    rw [hstep]
    constructor
    · rintro ⟨cp, t, hnext, hadvance⟩
      obtain ⟨c, -, hahead, hbehind⟩ := next_eq_ok.mp hnext
      obtain ⟨cs, hlen, hahead', hbehind'⟩ := ih.mp hadvance
      refine ⟨c :: cs, by rw [List.length_cons, hlen], ?_, ?_⟩
      · rw [hahead, hahead', encode_cons, List.append_assoc]
      · rw [hbehind', hbehind, encode_cons, List.reverse_append, List.append_assoc]
    · rintro ⟨cs, hlen, hahead, hbehind⟩
      obtain ⟨c, cs, rfl⟩ := List.exists_cons_of_length_eq_add_one hlen
      rw [encode_cons, List.append_assoc] at hahead
      rw [encode_cons, List.reverse_append, List.append_assoc] at hbehind
      exact ⟨c.val, ⟨(String.utf8EncodeChar c).reverse ++ p.behind, encode cs ++ q.ahead⟩,
        next_eq_ok.mpr ⟨c, rfl, hahead, rfl⟩, ih.mpr ⟨cs, by simpa using hlen, rfl, hbehind⟩⟩

/-- `distance` counts what `utf8to32` writes, and throws what it throws. -/
theorem distance_eq (bytes : List UInt8) : distance bytes = (utf8to32 bytes).map List.length := by
  fun_induction utf8to32 bytes with
  | case1 =>
    rw [distance]
    rfl
  | case2 lead rest e h =>
    rw [distance]
    split
    · next h' =>
      rw [h] at h'
      rw [Except.error.inj h']
      rfl
    · next h' => rw [h] at h'; cases h'
  | case3 lead rest cp more h _ ih =>
    rw [distance]
    split
    · next h' => rw [h] at h'; cases h'
    · next h' =>
      rw [h] at h'
      obtain ⟨rfl, rfl⟩ := Prod.mk.inj (Except.ok.inj h')
      rw [ih]
      cases utf8to32 more <;> rfl

/-- **Distances are counted in characters**: `distance` returns on a text the number of its characters,
and throws on anything else what `utf8to32` throws; and `advance` passes the given number of characters,
from anywhere, or does not return. -/
theorem counts_characters (bytes : List UInt8) :
    (∀ n, distance bytes = .ok n ↔ ∃ cs : List Char, encode cs = bytes ∧ cs.length = n) ∧
    (∀ thrown, distance bytes = .error thrown ↔ utf8to32 bytes = .error thrown) ∧
    ∀ n behind q, Position.advance n ⟨behind, bytes⟩ = some (.ok (), q) ↔
      ∃ cs : List Char, cs.length = n ∧ bytes = encode cs ++ q.ahead ∧
        q.behind = (encode cs).reverse ++ behind := by
  refine ⟨fun n => ?_, fun thrown => ?_, fun n behind q => Position.advance_eq_ok⟩
  · rw [distance_eq]
    constructor
    · intro h
      obtain ⟨cps, hcps⟩ | ⟨thrown, hthrown⟩ : (∃ cps, utf8to32 bytes = .ok cps) ∨
          ∃ thrown, utf8to32 bytes = .error thrown := by
        cases utf8to32 bytes <;> simp
      · obtain ⟨cs, hcs, rfl⟩ := utf8to32_eq_ok.mp hcps
        rw [hcps] at h
        exact ⟨cs, hcs, by rw [← Except.ok.inj h, List.length_map]⟩
      · rw [hthrown] at h
        nomatch h
    · rintro ⟨cs, rfl, rfl⟩
      rw [utf8to32_encode, Except.map, List.length_map]
  · rw [distance_eq]
    cases utf8to32 bytes <;> simp [Except.map]

end Utf8
