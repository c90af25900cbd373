import MuxMPE.Machinery.Xml.Reader

/-!
# Machinery/Xml/Prefixes — what has been read stays read

    events   es ++ [start tag]        tag.extend more
                   │                        │
    doc      ⋯ <tag name="value"  ────▸  ⋯ <tag name="value" ⋯ >  ────▸  any rest

A document is read from the left, so nothing that follows can change what was read before.  That a tag
with given attributes has `Begun` is kept by every step (`Begun.step`), hence by every reading
(`Begun.run`), and it shows in the events of the finished document (`Begun.close`).
-/

namespace Xml

/-! ## Reading from the left -/

@[simp] theorem run_nil (s : State) : run s [] = some s := rfl

@[simp] theorem run_cons (s : State) (c : Char) (doc : List Char) :
    run s (c :: doc) = (step s c).bind fun t => run t doc := rfl

/-- Two pieces are read one after the other. -/
theorem run_append (s : State) (doc doc' : List Char) :
    run s (doc ++ doc') = (run s doc).bind fun t => run t doc' := List.foldlM_append

/-- Reading goes on where the first piece has led. -/
theorem run_append_of_eq {s t : State} {doc : List Char} (h : run s doc = some t)
    (doc' : List Char) : run s (doc ++ doc') = run t doc' := by
  rw [run_append, h, Option.bind_some]

section Events

variable {s t : State}

/-- Text that is flushed is added behind the events. -/
theorem flush_eq {raw : List Char} (h : s.flush raw = some t) :
    t.mode = s.mode ∧ s.events <+: t.events := by
  rw [State.flush] at h
  split_ifs at h
  · obtain rfl := Option.some.inj h
    exact ⟨rfl, List.prefix_rfl⟩
  · obtain rfl := Option.some.inj h
    exact ⟨rfl, List.prefix_rfl⟩
  · obtain ⟨content, _, rfl⟩ := Option.map_eq_some_iff.mp h
    exact ⟨rfl, List.prefix_append _ _⟩

/-- A start tag is the next event. -/
theorem start_eq {tag : Tag} (h : s.start tag = some t) :
    t.mode = .content [] ∧ t.events = s.events ++ [.start tag] := by
  rw [State.start] at h
  split_ifs at h
  obtain rfl := Option.some.inj h
  exact ⟨rfl, rfl⟩

/-- An end tag is the next event. -/
theorem finish_eq {name : List Char} (h : s.finish name = some t) :
    t.events = s.events ++ [.finish name] := by
  rw [State.finish] at h
  split at h
  · simp at h
  · split_ifs at h
    obtain rfl := Option.some.inj h
    rfl

end Events

/-! ## A tag that has begun stays -/

/-- A tag with more attributes. -/
def Tag.extend (tag : Tag) (more : List (List Char × List Char)) : Tag :=
  { tag with attrs := tag.attrs ++ more }

/-- The tag being read. -/
def Mode.tag? : Mode → Option Tag
  | .inTag tag _ | .attrName tag _ | .attrEq tag _ | .attrOpen tag _ | .attrValue tag _ _ _
  | .emptyTag tag => some tag
  | _ => none

/-- After the events `es` the tag was begun: it is still being read, or is the next event; in
either case it may have more attributes by now. -/
def Begun (es : List Event) (tag : Tag) (s : State) : Prop :=
  (∃ more, s.mode.tag? = some (tag.extend more) ∧ s.events = es) ∨
    ∃ more rest, s.events = es ++ .start (tag.extend more) :: rest

section Begun

variable {s t : State} {tag : Tag}

@[simp] theorem Tag.extend_nil (tag : Tag) : tag.extend [] = tag := by simp [Tag.extend]

@[simp] theorem Tag.extend_extend (tag : Tag) (more more' : List (List Char × List Char)) :
    (tag.extend more).extend more' = tag.extend (more ++ more') := by simp [Tag.extend]

/-- The tag being read has begun. -/
theorem begun_of_tag (htag : t.mode.tag? = some tag) (hes : t.events = s.events) :
    Begun s.events tag t := .inl ⟨[], by simpa using htag, hes⟩

/-- A tag that is the next event has begun. -/
theorem begun_of_start {more : List Event} (h : t.events = s.events ++ .start tag :: more) :
    Begun s.events tag t := .inr ⟨[], more, by simpa using h⟩

/-- The events before the tag are still there. -/
theorem Begun.isPrefix {es : List Event} (h : Begun es tag s) : es <+: s.events := by
  obtain ⟨_, _, rfl⟩ | ⟨_, _, h⟩ := h
  · exact List.prefix_rfl
  · exact h ▸ List.prefix_append _ _

/-- A character inside a start tag keeps the tag. -/
theorem begun_stepInTag {spaced : Bool} {c : Char} (h : stepInTag s tag spaced c = some t) :
    Begun s.events tag t := by
  rw [stepInTag] at h
  split_ifs at h
  · obtain rfl := Option.some.inj h
    exact begun_of_tag rfl rfl
  · exact begun_of_start (start_eq h).2
  · obtain rfl := Option.some.inj h
    exact begun_of_tag rfl rfl
  · obtain rfl := Option.some.inj h
    exact begun_of_tag rfl rfl

/-- So does one between an attribute's name and its value. -/
theorem begun_stepAttrEq {name : List Char} {c : Char} (h : stepAttrEq s tag name c = some t) :
    Begun s.events tag t := by
  rw [stepAttrEq] at h
  split_ifs at h <;> obtain rfl := Option.some.inj h <;> exact begun_of_tag rfl rfl

/-- An attribute that is added stands behind the others. -/
theorem add_eq {tag' : Tag} {name raw : List Char} (h : tag.add name raw = some tag') :
    ∃ value, attributeValue raw = some value ∧ tag' = tag.extend [(name, value)] := by
  rw [Tag.add] at h
  split_ifs at h
  obtain ⟨value, hvalue, rfl⟩ := Option.map_eq_some_iff.mp h
  exact ⟨value, hvalue, rfl⟩

/-- One character keeps the tag being read. -/
theorem begun_of_stepIn {mode : Mode} {c : Char} (htag : mode.tag? = some tag)
    (h : stepIn s c mode = some t) : Begun s.events tag t := by
  rcases mode <;> simp only [Mode.tag?, Option.some.injEq, reduceCtorEq] at htag <;> subst htag <;>
    simp only [stepIn] at h
  case inTag => exact begun_stepInTag h
  case attrName =>
    split_ifs at h
    · obtain rfl := Option.some.inj h
      exact begun_of_tag rfl rfl
    · exact begun_stepAttrEq h
  case attrEq => exact begun_stepAttrEq h
  case attrOpen => split_ifs at h <;> obtain rfl := Option.some.inj h <;> exact begun_of_tag rfl rfl
  case attrValue =>
    split_ifs at h
    · obtain ⟨tag', htag', rfl⟩ := Option.map_eq_some_iff.mp h
      obtain ⟨value, _, rfl⟩ := add_eq htag'
      exact .inl ⟨_, rfl, rfl⟩
    · obtain rfl := Option.some.inj h
      exact begun_of_tag rfl rfl
  case emptyTag tag =>
    split_ifs at h
    obtain ⟨u, hu, hfinish⟩ := Option.bind_eq_some_iff.mp h
    have hevents : t.events = s.events ++ .start tag :: [.finish tag.name] := by
      rw [finish_eq hfinish, (start_eq hu).2, List.append_assoc]
      rfl
    exact begun_of_start hevents

/-- The end of an end tag only adds events. -/
theorem prefix_stepEndSpace {name : List Char} {c : Char} (h : stepEndSpace s name c = some t) :
    s.events <+: t.events := by
  rw [stepEndSpace] at h
  split_ifs at h
  · obtain rfl := Option.some.inj h
    exact List.prefix_rfl
  · exact finish_eq h ▸ List.prefix_append _ _

/-- **Events stay**: what was read is not changed by what is read next. -/
theorem prefix_of_stepIn {mode : Mode} {c : Char} (h : stepIn s c mode = some t) :
    s.events <+: t.events := by
  cases htag : mode.tag? with
  | some tag => exact (begun_of_stepIn htag h).isPrefix
  | none =>
    rcases mode <;> simp only [Mode.tag?, reduceCtorEq] at htag <;> simp only [stepIn, stepMarkup,
      stepDeclaration, stepComment, stepCdata, stepInstruction, stepEndName] at h
    case content =>
      split_ifs at h
      · obtain ⟨u, hu, rfl⟩ := Option.map_eq_some_iff.mp h
        exact (flush_eq hu).2
      · obtain rfl := Option.some.inj h
        exact List.prefix_rfl
    case cdata =>
      split_ifs at h <;> obtain rfl := Option.some.inj h
      · exact List.prefix_append _ _
      · exact List.prefix_rfl
    case tagName =>
      split_ifs at h
      · obtain rfl := Option.some.inj h
        exact List.prefix_rfl
      · exact (begun_stepInTag h).isPrefix
    case endName =>
      split_ifs at h
      · obtain rfl := Option.some.inj h
        exact List.prefix_rfl
      · exact prefix_stepEndSpace h
    case endSpace => exact prefix_stepEndSpace h
    all_goals
      split_ifs at h <;> obtain rfl := Option.some.inj h <;> exact List.prefix_rfl

/-- A step is one of an allowed character. -/
theorem step_eq_some {c : Char} :
    step s c = some t ↔ isChar c = true ∧ stepIn s c s.mode = some t := by
  rw [step]
  cases isChar c <;> simp

/-- A tag that has begun stays. -/
theorem Begun.step {es : List Event} (hb : Begun es tag s) {c : Char}
    (h : Xml.step s c = some t) : Begun es tag t := by
  have hstep := (step_eq_some.mp h).2
  obtain ⟨more, htag, rfl⟩ | ⟨more, rest, hes⟩ := hb
  · obtain ⟨more', htag', hes'⟩ | ⟨more', rest, hes'⟩ := begun_of_stepIn htag hstep
    · exact .inl ⟨more ++ more', by rw [htag', Tag.extend_extend], hes'⟩
    · exact .inr ⟨more ++ more', rest, by rw [hes', Tag.extend_extend]⟩
  · obtain ⟨rest', hrest'⟩ := prefix_of_stepIn hstep
    exact .inr ⟨more, rest ++ rest', by rw [← hrest', hes, List.append_assoc, List.cons_append]⟩

/-- **So it does to the end of the document.** -/
theorem Begun.run {es : List Event} (hb : Begun es tag s) {doc : List Char}
    (h : Xml.run s doc = some t) : Begun es tag t := by
  induction doc generalizing s with
  | nil =>
    obtain rfl := Option.some.inj h
    exact hb
  | cons c doc ih =>
    obtain ⟨u, hu, hrest⟩ := Option.bind_eq_some_iff.mp h
    exact ih (hb.step hu) hrest

/-- **A tag that has begun is among the events** of the finished document. -/
theorem Begun.close {es events : List Event} (hb : Begun es tag s)
    (h : s.close = some events) : ∃ more rest, events = es ++ .start (tag.extend more) :: rest := by
  rw [State.close] at h
  split at h
  · rename_i raw hmode
    split_ifs at h
    obtain rfl := Option.some.inj h
    obtain ⟨more, htag, _⟩ | hb := hb
    · rw [hmode] at htag
      simp [Mode.tag?] at htag
    · exact hb
  · simp at h

end Begun

/-! ## What can be read of any document -/

/-- A scan only adds events. -/
theorem prefix_scan (s : State) (doc : List Char) : s.events <+: scan s doc := by
  induction doc generalizing s with
  | nil => exact List.prefix_rfl
  | cons c doc ih =>
    rw [scan]
    split
    · exact List.prefix_rfl
    · rename_i t ht
      exact (prefix_of_stepIn (step_eq_some.mp ht).2).trans (ih t)

/-- A scan goes through what can be read. -/
theorem scan_append {s t : State} {doc : List Char} (h : run s doc = some t) (rest : List Char) :
    scan s (doc ++ rest) = scan t rest := by
  induction doc generalizing s with
  | nil => rw [Option.some.inj h, List.nil_append]
  | cons c doc ih =>
    obtain ⟨u, hu, hrest⟩ := Option.bind_eq_some_iff.mp h
    rw [List.cons_append, scan, hu]
    exact ih hrest

/-- A well-formed document is skimmed to its end. -/
theorem skim_of_read {doc : List Char} {events : List Event} (h : read doc = some events) :
    skim doc = events := by
  obtain ⟨t, hrun, hclose⟩ := Option.bind_eq_some_iff.mp h
  have hscan := scan_append hrun []
  rw [List.append_nil] at hscan
  rw [skim, hscan, scan]
  rw [State.close] at hclose
  split at hclose
  · split_ifs at hclose
    exact Option.some.inj hclose
  · simp at hclose

@[simp] theorem tags_append (es fs : List Event) : tags (es ++ fs) = tags es ++ tags fs :=
  List.filterMap_append

/-- What is found among the first events is found. -/
theorem attributeOf_of_prefix {es fs : List Event} (h : es <+: fs) {element name : List Char}
    {tag : Tag} (htag : (tags es).find? (·.name = element) = some tag) :
    attributeOf fs element name = tag.attrs.lookup name := by
  obtain ⟨rest, rfl⟩ := h
  rw [attributeOf, tags_append, List.find?_append, htag]
  rfl

end Xml
