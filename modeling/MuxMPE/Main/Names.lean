import MuxMPE.Main.Psi

/-!
# Main/Names — which names the SDT carries

    … service_name="⟨service_name⟩" service_provider_name="⟨service_provider_name⟩"/> …

The names are put between the quotes as they are, unescaped.  A reader takes what stands before the
first quote for the service name, whatever the name meant it to be; so a name is carried exactly
when it is `Plain`.
-/

open Xml

namespace Main

/-- The elements of the SDT's document, each with its attributes. -/
def sdtShape : List (List Char × List (List Char)) :=
  [(u "tsduck", []),
    (u "SDT", [u "version", u "current", u "transport_stream_id", u "original_network_id",
      u "actual"]),
    (u "service", [u "service_id", u "EIT_schedule", u "EIT_present_following", u "running_status",
      u "CA_mode"]),
    (u "service_descriptor", [u "service_type", u "service_name", u "service_provider_name"])]

/-- **The SDT carries the names**: it is well-formed, has the intended elements and attributes and
no others, and its service descriptor says `name` and `provider`. -/
def CarriesNames (opt : TSProcessorArgs) (name provider : List Char) : Prop :=
  ∃ sdt events, injectionOf opt (u "SDT") = some sdt ∧ Xml.read sdt.table = some events ∧
    (tags events).map (fun tag => (tag.name, tag.attrs.map Prod.fst)) = sdtShape ∧
    attributeOf events (u "service_descriptor") (u "service_name") = some name ∧
    attributeOf events (u "service_descriptor") (u "service_provider_name") = some provider

/-- The service descriptor, once the service name is read. -/
def descriptorTag (name : List Char) : Tag := descriptorHead.extend [(u "service_name", name)]

/-- The whole service descriptor. -/
def namesTag (name provider : List Char) : Tag :=
  (descriptorTag name).extend [(u "service_provider_name", provider)]

/-- The reader where it expects the provider's name. -/
def atProviderName (dest : TsDestination) (name : List Char) : State where
  mode := .attrValue (descriptorTag name) (u "service_provider_name") '"' []
  stack := [u "service", u "SDT", u "tsduck"]
  events := sdtHead dest

/-- What the SDT says, its names read as they are. -/
def sdtEvents (dest : TsDestination) (name provider : List Char) : List Event :=
  sdtHead dest ++ [.start (namesTag name provider), .finish (u "service_descriptor"), .text (u " "),
    .finish (u "service"), .finish (u "SDT"), .finish (u "tsduck")]

section Reading

variable {ts : TSDuck} {dest : TsDestination} {name provider : List Char}

/-- The document behind the service name, line ends normalized. -/
def behindName (provider : List Char) : List Char :=
  u " service_provider_name=\"" ++ (normalizeLineEnds provider ++ '"' ::
    u "/> </service></SDT></tsduck>")

/-- The document is read from the service name on. -/
theorem read_sdt (hdec : PlainDecimal ts) (hname : ts.fromUTF8 dest.serviceName = name)
    (hprovider : ts.fromUTF8 dest.serviceProviderName = provider) : Xml.read (sdt ts dest)
      = (run (atServiceName dest) (normalizeLineEnds name ++ '"' :: behindName provider)).bind
        State.close := by
  have hfirst : u "\" service_provider_name=\"" = '"' :: u " service_provider_name=\"" := rfl
  have hlast : u "\"/> </service></SDT></tsduck>" = '"' :: u "/> </service></SDT></tsduck>" := rfl
  have hlastnorm : normalizeLineEnds (u "\"/> </service></SDT></tsduck>")
      = u "\"/> </service></SDT></tsduck>" := normalizeLineEnds_of_not_mem (by decide)
  have hbehind : normalizeLineEnds (u "\" service_provider_name=\"" ++ (provider ++
      u "\"/> </service></SDT></tsduck>")) = '"' :: behindName provider := by
    rw [normalizeLineEnds_append_of_not_mem (by decide), normalizeLineEnds_append _ (by decide),
      hlastnorm, hfirst, hlast]
    rfl
  rw [Xml.read, sdt_eq hdec, hname, hprovider,
    normalizeLineEnds_append_of_not_mem return_not_mem_declaration, dropDeclaration_append,
    normalizeLineEnds_append_of_not_mem (return_not_mem_sdtFront dest),
    normalizeLineEnds_append name (by simp [hfirst]), hbehind,
    run_append_of_eq (run_sdtFront dest)]

/-- A name that stands for itself is passed as it is. -/
theorem run_name (hplain : Plain name) (hchar : ∀ c ∈ name, isChar c = true) :
    run (atServiceName dest) (normalizeLineEnds name ++ '"' :: behindName provider)
      = run (atProviderName dest name) (normalizeLineEnds provider ++ '"' ::
          u "/> </service></SDT></tsduck>") := by
  have hlit : run
      { mode := .inTag (descriptorTag name) false
        stack := [u "service", u "SDT", u "tsduck"], events := sdtHead dest }
      (u " service_provider_name=\"") = some (atProviderName dest name) := rfl
  rw [hplain.normalizeLineEnds_eq, atServiceName]
  refine (run_value (hplain.isValueText hchar) hplain.attributeValue_eq (by decide) _).trans ?_
  exact run_append_of_eq hlit _

/-- Where the service name is expected, its part before the first quote is what is read. -/
theorem name_of_run {t : State} {events : List Event}
    (hrun : run (atServiceName dest) (normalizeLineEnds name ++ '"' :: behindName provider) = some t)
    (hclose : t.close = some events)
    (hattr : attributeOf events (u "service_descriptor") (u "service_name") = some name) :
    Plain name := by
  obtain ⟨value, htext, hvalue, hbegun⟩ := begun_of_run_value hrun
  obtain ⟨more, rest, hevents⟩ := hbegun.close hclose
  have hread : attributeOf events (u "service_descriptor") (u "service_name") = some value := by
    rw [hevents]
    rfl
  rw [hattr] at hread
  exact plain_of_attributeValue rfl htext (hvalue.trans hread.symm)

theorem providerName_of_run {t : State} {events : List Event}
    (hrun : run (atProviderName dest name) (normalizeLineEnds provider ++ '"' ::
      u "/> </service></SDT></tsduck>") = some t)
    (hclose : t.close = some events)
    (hattr : attributeOf events (u "service_descriptor") (u "service_provider_name")
      = some provider) : Plain provider := by
  obtain ⟨value, htext, hvalue, hbegun⟩ := begun_of_run_value hrun
  obtain ⟨more, rest, hevents⟩ := hbegun.close hclose
  have hread : attributeOf events (u "service_descriptor") (u "service_provider_name")
      = some value := by
    rw [hevents]
    rfl
  rw [hattr] at hread
  exact plain_of_attributeValue rfl htext (hvalue.trans hread.symm)

/-- Two names that stand for themselves are read to the end. -/
theorem run_names (hname : Plain name) (hprovider : Plain provider)
    (hchar : ∀ c ∈ name, isChar c = true) (hchar' : ∀ c ∈ provider, isChar c = true) :
    run (atServiceName dest) (normalizeLineEnds name ++ '"' :: behindName provider)
      = some { events := sdtEvents dest name provider } := by
  have hlit : run
      { mode := .inTag (namesTag name provider) false
        stack := [u "service", u "SDT", u "tsduck"], events := sdtHead dest }
      (u "/> </service></SDT></tsduck>")
      = some { events := sdtEvents dest name provider } := rfl
  rw [run_name hname hchar, hprovider.normalizeLineEnds_eq, atProviderName]
  refine (run_value (hprovider.isValueText hchar') hprovider.attributeValue_eq ?_ _).trans hlit
  simp [descriptorTag, descriptorHead, Tag.extend, u]

end Reading

section Accepted

variable {ts : TSDuck} {tr : Translator} {pt : PTree} {cfg : Config} {opt : TSProcessorArgs}
  {name provider : List Char}

/-- What the SDT carries was plain. -/
theorem plain_of_carriesNames (hdec : PlainDecimal ts) (h : Accepts ts tr pt cfg opt)
    (hname : ts.fromUTF8 cfg.dest.serviceName = name)
    (hprovider : ts.fromUTF8 cfg.dest.serviceProviderName = provider)
    (hchar : ∀ c ∈ name, isChar c = true) (hcarries : CarriesNames opt name provider) :
    Plain name ∧ Plain provider := by
  obtain ⟨table, events, hsdt, hread, _, hattr, hattr'⟩ := hcarries
  obtain rfl := Option.some.inj ((injectionOf_sdt hdec h).symm.trans hsdt)
  rw [read_sdt hdec hname hprovider] at hread
  obtain ⟨t, hrun, hclose⟩ := Option.bind_eq_some_iff.mp hread
  have hplain := name_of_run hrun hclose hattr
  rw [run_name hplain hchar] at hrun
  exact ⟨hplain, providerName_of_run hrun hclose hattr'⟩

/-- **The SDT carries exactly the plain names**: those without double quote, ampersand, less-than
sign, tab, line feed and carriage return. -/
theorem carriesNames_iff (hdec : PlainDecimal ts) (h : Accepts ts tr pt cfg opt)
    (hservice : cfg.dest.serviceName = utf8 name)
    (hprovider : cfg.dest.serviceProviderName = utf8 provider)
    (hchar : ∀ c ∈ name, isChar c = true) (hchar' : ∀ c ∈ provider, isChar c = true)
    (htext : ts.fromUTF8 (utf8 name) = name) (htext' : ts.fromUTF8 (utf8 provider) = provider) :
    CarriesNames opt name provider ↔ Plain name ∧ Plain provider := by
  rw [← hservice] at htext
  rw [← hprovider] at htext'
  refine ⟨plain_of_carriesNames hdec h htext htext' hchar, fun ⟨hplain, hplain'⟩ => ?_⟩
  refine ⟨_, sdtEvents cfg.dest name provider, injectionOf_sdt hdec h, ?_, rfl, rfl, rfl⟩
  rw [read_sdt hdec htext htext', run_names hplain hplain' hchar hchar']
  rfl

/-- The shipped names are plain. -/
theorem carriesNames_iff_shipped : ∃ opt,
    Accepts asciiDuck decimalTranslator (exampleMux "1" "1" "256" "DabMux")
      (exampleConfig 1 1 256 "DabMux") opt ∧
    (CarriesNames opt (u "DabMux") (u "ODR-DabMux") ↔
      Plain (u "DabMux") ∧ Plain (u "ODR-DabMux")) := by
  obtain ⟨opt, h⟩ := accepts_shipped
  exact ⟨opt, h, carriesNames_iff plainDecimal_asciiDuck h rfl rfl (List.all_eq_true.mp rfl)
    (List.all_eq_true.mp rfl) (by decide) (by decide)⟩

/-- **An ampersand in the service name breaks the SDT.** -/
theorem not_carriesNames_ampersand : ∃ opt,
    Accepts asciiDuck decimalTranslator (exampleMux "1" "1" "256" "R&B")
      (exampleConfig 1 1 256 "R&B") opt ∧
    ¬ CarriesNames opt (u "R&B") (u "ODR-DabMux") := by
  have haccepts : ∃ opt, Accepts asciiDuck decimalTranslator (exampleMux "1" "1" "256" "R&B")
      (exampleConfig 1 1 256 "R&B") opt := ⟨_, rfl, rfl⟩
  obtain ⟨opt, h⟩ := haccepts
  refine ⟨opt, h, fun hcarries => ?_⟩
  have hplain := plain_of_carriesNames plainDecimal_asciiDuck h (by decide) (by decide)
    (List.all_eq_true.mp rfl) hcarries
  exact (hplain.1 '&' (by decide)).2.1 rfl

end Accepted

end Main
