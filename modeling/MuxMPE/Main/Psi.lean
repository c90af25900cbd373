import MuxMPE.Main.Tables

/-!
# Main/Psi — what a receiver learns from the injected tables

    PID 0: PAT ──program_map_PID──▸ PID p: PMT ──elementary_PID──▸ PID e: the MPE data

`inject` puts the table that is its first argument on the PID behind `--pid`, `mpeinject` puts the
MPE data on the PID behind `-p`.  A receiver has nothing but these.
-/

open Xml

namespace Main

/-! ## Reading the options -/

/-- The argument behind an option. -/
def optionValue (option : UString) : List UString → Option UString
  | arg :: value :: args => if arg = option then some value else optionValue option (value :: args)
  | _ => none

/-- A number given as an option or an attribute. -/
def numberOf (text : Option UString) : Option ℕ := text.bind (number 10)

/-- A table on a PID. -/
structure Injection where
  pid : ℕ
  table : UString

/-- What an `inject` plugin injects. -/
def injection (plugin : PluginOptions) : Option Injection :=
  if plugin.name = u "inject" then
    match plugin.args with
    | [] => none
    | table :: args => (numberOf (optionValue (u "--pid") args)).map fun pid => { pid, table }
  else none

/-- The name of the table a document holds: that of the root's first child. -/
def tableName (table : UString) : Option (List Char) := ((tags (skim table))[1]?).map Tag.name

/-- How a table is injected. -/
def injectionOf (opt : TSProcessorArgs) (name : UString) : Option Injection :=
  (opt.plugins.filterMap injection).find? fun i => tableName i.table = some name

/-- The PID of the MPE data. -/
def mpePid (opt : TSProcessorArgs) : Option ℕ :=
  (opt.plugins.find? (·.name = u "mpeinject")).bind fun plugin =>
    numberOf (optionValue (u "-p") plugin.args)

/-- A number in a table. -/
def tableNumber (events : List Event) (element name : String) : Option ℕ :=
  numberOf (attributeOf events (u element) (u name))

/-! ## The chain and the identity of the stream -/

/-- **Following the tables leads to the data**: the PMT is on the PID that the PAT announces, under
the service the PAT announces, and its component is on the PID of the MPE data. -/
def LeadsToData (opt : TSProcessorArgs) : Prop :=
  ∃ patTable pmtTable pat pmt,
    injectionOf opt (u "PAT") = some patTable ∧ Xml.read patTable.table = some pat ∧
    injectionOf opt (u "PMT") = some pmtTable ∧ Xml.read pmtTable.table = some pmt ∧
    tableNumber pat "service" "program_map_PID" = some pmtTable.pid ∧
    (∃ serviceId, tableNumber pat "service" "service_id" = some serviceId ∧
      tableNumber pmt "PMT" "service_id" = some serviceId) ∧
    ∃ pid, tableNumber pmt "component" "elementary_PID" = some pid ∧ mpePid opt = some pid

section Accepted

variable {ts : TSDuck} {tr : Translator} {pt : PTree} {cfg : Config} {opt : TSProcessorArgs}

theorem skim_pat (hdec : PlainDecimal ts) (dest : TsDestination) :
    skim (pat ts dest) = patEvents dest := skim_of_read (read_pat hdec dest)

theorem skim_pmt (hdec : PlainDecimal ts) (dest : TsDestination) :
    skim (pmt ts dest) = pmtEvents dest := skim_of_read (read_pmt hdec dest)

theorem injections_eq (h : Accepts ts tr pt cfg opt) : opt.plugins.filterMap injection
    = [{ pid := 0, table := pat ts cfg.dest }, { pid := 256, table := pmt ts cfg.dest },
        { pid := 17, table := sdt ts cfg.dest }] := by
  rw [h.plugins_eq]
  rfl

theorem injectionOf_pat (hdec : PlainDecimal ts) (h : Accepts ts tr pt cfg opt) :
    injectionOf opt (u "PAT") = some { pid := 0, table := pat ts cfg.dest } := by
  have hname : tableName (pat ts cfg.dest) = some (u "PAT") := by
    rw [tableName, skim_pat hdec]
    rfl
  rw [injectionOf, injections_eq h, List.find?_cons_of_pos (by simpa using hname)]

theorem injectionOf_pmt (hdec : PlainDecimal ts) (h : Accepts ts tr pt cfg opt) :
    injectionOf opt (u "PMT") = some { pid := 256, table := pmt ts cfg.dest } := by
  have hpat : tableName (pat ts cfg.dest) = some (u "PAT") := by
    rw [tableName, skim_pat hdec]
    rfl
  have hname : tableName (pmt ts cfg.dest) = some (u "PMT") := by
    rw [tableName, skim_pmt hdec]
    rfl
  have hne : u "PAT" ≠ u "PMT" := by decide
  rw [injectionOf, injections_eq h, List.find?_cons_of_neg (by simp [hpat, hne]),
    List.find?_cons_of_pos (by simpa using hname)]

theorem mpePid_eq (hdec : PlainDecimal ts) (h : Accepts ts tr pt cfg opt) :
    mpePid opt = some cfg.dest.payloadPid.toNat := by
  have hfind : opt.plugins.find? (·.name = u "mpeinject") = some (mpeinject ts cfg) := by
    rw [h.plugins_eq]
    rfl
  have hvalue : optionValue (u "-p") (mpeinject ts cfg).args
      = some (decimal ts cfg.dest.payloadPid) := rfl
  rw [mpePid, hfind, Option.bind_some, hvalue, decimal, hdec]
  exact number_toDigits _

theorem announced_eq (dest : TsDestination) :
    tableNumber (patEvents dest) "service" "program_map_PID" = some dest.pmtPid.toNat :=
  number_toDigits _

/-- What the PAT announces is where the PMT is. -/
theorem pmtPid_of_leadsToData (hdec : PlainDecimal ts) (h : Accepts ts tr pt cfg opt)
    (hleads : LeadsToData opt) : cfg.dest.pmtPid.toNat = 256 := by
  obtain ⟨patTable, pmtTable, pat, pmt, hpat, hreadpat, hpmt, _, hpid, _, _⟩ := hleads
  obtain rfl := Option.some.inj ((injectionOf_pat hdec h).symm.trans hpat)
  obtain rfl := Option.some.inj ((injectionOf_pmt hdec h).symm.trans hpmt)
  obtain rfl := Option.some.inj ((read_pat hdec cfg.dest).symm.trans hreadpat)
  exact Option.some.inj ((announced_eq cfg.dest).symm.trans hpid)

/-- **The chain leads to the data exactly for the one `pmt_pid` that `inject` is given.** -/
theorem leadsToData_iff (hdec : PlainDecimal ts) (h : Accepts ts tr pt cfg opt) :
    LeadsToData opt ↔ cfg.dest.pmtPid.toNat = 256 := by
  refine ⟨pmtPid_of_leadsToData hdec h, fun hpid => ?_⟩
  refine ⟨_, _, _, _, injectionOf_pat hdec h, read_pat hdec cfg.dest, injectionOf_pmt hdec h,
    read_pmt hdec cfg.dest, ?_, ⟨cfg.dest.serviceId.toNat, ?_, ?_⟩,
    cfg.dest.payloadPid.toNat, ?_, mpePid_eq hdec h⟩
  · rw [announced_eq, hpid]
  · exact number_toDigits _
  · exact number_toDigits _
  · exact number_toDigits _

/-- The shipped value is that one. -/
theorem leadsToData_iff_shipped : ∃ opt,
    Accepts asciiDuck decimalTranslator (exampleMux "1" "1" "256" "DabMux")
      (exampleConfig 1 1 256 "DabMux") opt ∧
    (LeadsToData opt ↔ (exampleConfig 1 1 256 "DabMux").dest.pmtPid.toNat = 256) := by
  obtain ⟨opt, h⟩ := accepts_shipped
  exact ⟨opt, h, leadsToData_iff plainDecimal_asciiDuck h⟩

/-- **With any other value the PMT is not where the PAT says.** -/
theorem not_leadsToData_pmtPid_300 : ∃ opt,
    Accepts asciiDuck decimalTranslator (exampleMux "1" "1" "300" "DabMux")
      (exampleConfig 1 1 300 "DabMux") opt ∧ ¬ LeadsToData opt := by
  have haccepts : ∃ opt, Accepts asciiDuck decimalTranslator (exampleMux "1" "1" "300" "DabMux")
      (exampleConfig 1 1 300 "DabMux") opt := ⟨_, rfl, rfl⟩
  obtain ⟨opt, h⟩ := haccepts
  refine ⟨opt, h, fun hleads => ?_⟩
  exact absurd (pmtPid_of_leadsToData plainDecimal_asciiDuck h hleads) (by decide)

/-! ## The identity of the stream -/

/-- **The tables agree on the stream**: PAT and SDT say it is `tsId`, and all three tables name the
service `serviceId`. -/
def SameStream (opt : TSProcessorArgs) (tsId serviceId : ℕ) : Prop :=
  ∃ pat pmt sdt, injectionOf opt (u "PAT") = some pat ∧ injectionOf opt (u "PMT") = some pmt ∧
    injectionOf opt (u "SDT") = some sdt ∧
    tableNumber (skim pat.table) "PAT" "transport_stream_id" = some tsId ∧
    tableNumber (skim sdt.table) "SDT" "transport_stream_id" = some tsId ∧
    tableNumber (skim sdt.table) "service" "service_id" = some serviceId ∧
    tableNumber (skim pat.table) "service" "service_id" = some serviceId ∧
    tableNumber (skim pmt.table) "PMT" "service_id" = some serviceId

/-- The SDT says its identity before any name is read. -/
theorem prefix_skim_sdt (hdec : PlainDecimal ts) (dest : TsDestination) :
    sdtHead dest <+: skim (sdt ts dest) := by
  rw [sdt_eq hdec, skim, normalizeLineEnds_append_of_not_mem return_not_mem_declaration,
    dropDeclaration_append, normalizeLineEnds_append_of_not_mem (return_not_mem_sdtFront dest),
    scan_append (run_sdtFront dest)]
  exact prefix_scan (atServiceName dest) _

theorem tableNumber_sdt (hdec : PlainDecimal ts) (dest : TsDestination) :
    tableNumber (skim (sdt ts dest)) "SDT" "transport_stream_id" = some dest.serviceId.toNat ∧
      tableNumber (skim (sdt ts dest)) "service" "service_id" = some dest.serviceId.toNat := by
  have hprefix := prefix_skim_sdt hdec dest
  constructor
  · have hfind : (tags (sdtHead dest)).find? (·.name = u "SDT") = some (sdtTag dest) := rfl
    rw [tableNumber, attributeOf_of_prefix hprefix hfind]
    exact number_toDigits _
  · have hfind : (tags (sdtHead dest)).find? (·.name = u "service") = some (sdtServiceTag dest) :=
      rfl
    rw [tableNumber, attributeOf_of_prefix hprefix hfind]
    exact number_toDigits _

theorem injectionOf_sdt (hdec : PlainDecimal ts) (h : Accepts ts tr pt cfg opt) :
    injectionOf opt (u "SDT") = some { pid := 17, table := sdt ts cfg.dest } := by
  have hpat : tableName (pat ts cfg.dest) = some (u "PAT") := by
    rw [tableName, skim_pat hdec]
    rfl
  have hpmt : tableName (pmt ts cfg.dest) = some (u "PMT") := by
    rw [tableName, skim_pmt hdec]
    rfl
  have hname : tableName (sdt ts cfg.dest) = some (u "SDT") := by
    obtain ⟨rest, hrest⟩ := prefix_skim_sdt hdec cfg.dest
    rw [tableName, ← hrest]
    rfl
  have hne : u "PAT" ≠ u "SDT" := by decide
  have hne' : u "PMT" ≠ u "SDT" := by decide
  rw [injectionOf, injections_eq h, List.find?_cons_of_neg (by simp [hpat, hne]),
    List.find?_cons_of_neg (by simp [hpmt, hne']), List.find?_cons_of_pos (by simpa using hname)]

/-- What the SDT calls the stream is what the configuration calls the service. -/
theorem serviceId_of_sameStream (hdec : PlainDecimal ts) (h : Accepts ts tr pt cfg opt)
    (hsame : SameStream opt cfg.dest.tsId.toNat cfg.dest.serviceId.toNat) :
    cfg.dest.serviceId = cfg.dest.tsId := by
  obtain ⟨_, _, table, _, _, hsdt, _, htsId, _⟩ := hsame
  obtain rfl := Option.some.inj ((injectionOf_sdt hdec h).symm.trans hsdt)
  have heq := (tableNumber_sdt hdec cfg.dest).1.symm.trans htsId
  exact BitVec.eq_of_toNat_eq (Option.some.inj heq)

/-- **The tables agree on the stream exactly when the configuration gives stream and service one
number**; on the service they always agree. -/
theorem sameStream_iff (hdec : PlainDecimal ts) (h : Accepts ts tr pt cfg opt) :
    SameStream opt cfg.dest.tsId.toNat cfg.dest.serviceId.toNat ↔
      cfg.dest.serviceId = cfg.dest.tsId := by
  refine ⟨serviceId_of_sameStream hdec h, fun heq => ?_⟩
  refine ⟨_, _, _, injectionOf_pat hdec h, injectionOf_pmt hdec h, injectionOf_sdt hdec h, ?_, ?_,
    (tableNumber_sdt hdec cfg.dest).2, ?_, ?_⟩
  · rw [skim_pat hdec]
    exact number_toDigits _
  · rw [← heq]
    exact (tableNumber_sdt hdec cfg.dest).1
  · rw [skim_pat hdec]
    exact number_toDigits _
  · rw [skim_pmt hdec]
    exact number_toDigits _

/-- In the shipped configuration they are one number. -/
theorem sameStream_iff_shipped : ∃ opt,
    Accepts asciiDuck decimalTranslator (exampleMux "1" "1" "256" "DabMux")
      (exampleConfig 1 1 256 "DabMux") opt ∧
    (SameStream opt 1 1 ↔ (1 : BitVec 32) = 1) := by
  obtain ⟨opt, h⟩ := accepts_shipped
  exact ⟨opt, h, sameStream_iff plainDecimal_asciiDuck h⟩

/-- **Two numbers, and the SDT names another stream than the PAT.** -/
theorem not_sameStream_tsId_2 : ∃ opt,
    Accepts asciiDuck decimalTranslator (exampleMux "2" "1" "256" "DabMux")
      (exampleConfig 2 1 256 "DabMux") opt ∧ ¬ SameStream opt 2 1 := by
  have haccepts : ∃ opt, Accepts asciiDuck decimalTranslator (exampleMux "2" "1" "256" "DabMux")
      (exampleConfig 2 1 256 "DabMux") opt := ⟨_, rfl, rfl⟩
  obtain ⟨opt, h⟩ := haccepts
  refine ⟨opt, h, fun hsame => ?_⟩
  exact absurd (serviceId_of_sameStream plainDecimal_asciiDuck h hsame) (by decide)

end Accepted

end Main
