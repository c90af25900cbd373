import MuxMPE.Machinery.Records
import MuxMPE.Main.Network
import MuxMPE.Main.Tables

/-!
# Main/Effective — what of a configuration takes effect

    inputs   name  protocol  sourceip │ source  sourceport ──▸ mpeinject
    output                            │ ts_id  service_id  pmt_pid  payload_pid  service_type  names ──▸ PSI
                                      │ output  host  port  source  (ttl  passphrase: srt) ──▸ output

The options handed to TSDuck can be read back: two accepted configurations lead to the same options
exactly if they agree in what is on the right (`options_eq_iff`).
-/

namespace Main

/-! ## The part that takes effect -/

/-- Where the stream goes. -/
inductive Outlet
  | srt (host : StdString) (port : BitVec 32) (sourceAddress : StdString) (ttl : BitVec 32)
    (passphrase : StdString)
  | udp (host : StdString) (port : BitVec 32) (sourceAddress : StdString)
  deriving DecidableEq

/-- The output plugin `main` picks, if it knows the type. -/
def TsDestination.outlet (dest : TsDestination) : Option Outlet :=
  if dest.output = str "srt" then
    some (.srt dest.outputHost dest.outputPort dest.outputSourceAddress dest.outputTtl
      dest.outputSrtPassphrase)
  else if dest.output = str "udp" then
    some (.udp dest.outputHost dest.outputPort dest.outputSourceAddress)
  else none

/-- What of a configuration takes effect. -/
@[ext] structure Effective where
  tsId : BitVec 32
  serviceId : BitVec 32
  pmtPid : BitVec 32
  payloadPid : BitVec 32
  serviceType : BitVec 32
  serviceName : StdString
  serviceProviderName : StdString
  /-- source and port of each input, in their order -/
  sources : List (StdString × BitVec 32)
  outlet : Option Outlet
  deriving DecidableEq

/-- The part of `cfg` that takes effect. -/
def Config.effective (cfg : Config) : Effective where
  tsId := cfg.dest.tsId
  serviceId := cfg.dest.serviceId
  pmtPid := cfg.dest.pmtPid
  payloadPid := cfg.dest.payloadPid
  serviceType := cfg.dest.serviceType
  serviceName := cfg.dest.serviceName
  serviceProviderName := cfg.dest.serviceProviderName
  sources := cfg.inputs.map fun input => (input.source, input.sourceport)
  outlet := cfg.dest.outlet

/-! ## The tables are read back -/

section Tables

variable {ts : TSDuck} {dest dest' : TsDestination}

theorem toNat_injective {v w : BitVec 32} (h : Nat.toDigits 10 v.toNat = Nat.toDigits 10 w.toNat) :
    v = w := BitVec.eq_of_toNat_eq (toDigits_injective h)

/-- What the PAT shows of a destination. -/
theorem pat_eq_iff (hdec : PlainDecimal ts) : pat ts dest = pat ts dest' ↔
    dest.tsId = dest'.tsId ∧ dest.serviceId = dest'.serviceId ∧ dest.pmtPid = dest'.pmtPid := by
  constructor
  · intro h
    have hevents := read_pat hdec dest
    rw [h, read_pat hdec dest'] at hevents
    simp only [patEvents, patTag, patServiceTag, Option.some.injEq, List.cons.injEq,
      Xml.Event.start.injEq, Xml.Tag.mk.injEq, Prod.mk.injEq, true_and, and_true] at hevents
    exact ⟨(toNat_injective hevents.1).symm, (toNat_injective hevents.2.1).symm,
      (toNat_injective hevents.2.2).symm⟩
  · rintro ⟨htsId, hserviceId, hpmtPid⟩
    rw [pat, pat, htsId, hserviceId, hpmtPid]

/-- What the PMT shows of a destination. -/
theorem pmt_eq_iff (hdec : PlainDecimal ts) : pmt ts dest = pmt ts dest' ↔
    dest.serviceId = dest'.serviceId ∧ dest.payloadPid = dest'.payloadPid ∧
      dest.serviceType = dest'.serviceType := by
  constructor
  · intro h
    have hevents := read_pmt hdec dest
    rw [h, read_pmt hdec dest'] at hevents
    simp only [pmtEvents, pmtTag, componentTag, Option.some.injEq, List.cons.injEq,
      Xml.Event.start.injEq, Xml.Tag.mk.injEq, Prod.mk.injEq, true_and, and_true] at hevents
    exact ⟨(toNat_injective hevents.1).symm, (toNat_injective hevents.2.1).symm,
      (toNat_injective hevents.2.2).symm⟩
  · rintro ⟨hserviceId, hpayloadPid, hserviceType⟩
    rw [pmt, pmt, hserviceId, hpayloadPid, hserviceType]

/-- The service name ends at its quote. -/
structure Unquoted (ts : TSDuck) (dest : TsDestination) : Prop where
  serviceName : '"' ∉ ts.fromUTF8 dest.serviceName
  serviceProviderName : '"' ∉ ts.fromUTF8 dest.serviceProviderName

/-- What the SDT shows of a destination, besides the service id. -/
theorem sdt_eq_iff (hdec : PlainDecimal ts) (hts : FaithfulText ts) (hquote : Unquoted ts dest)
    (hquote' : Unquoted ts dest') (hserviceId : dest.serviceId = dest'.serviceId) :
    sdt ts dest = sdt ts dest' ↔ dest.serviceName = dest'.serviceName ∧
      dest.serviceProviderName = dest'.serviceProviderName := by
  constructor
  · intro h
    have hfront : sdtFront dest = sdtFront dest' := by rw [sdtFront, sdtFront, hserviceId]
    rw [sdt_eq hdec, sdt_eq hdec, hfront] at h
    have hnames := List.append_cancel_left (List.append_cancel_left h)
    obtain ⟨hname, hrest⟩ := Records.append_cons_inj hquote.serviceName hquote'.serviceName hnames
    have hproviders : ts.fromUTF8 dest.serviceProviderName ++ u "\"/> </service></SDT></tsduck>"
        = ts.fromUTF8 dest'.serviceProviderName ++ u "\"/> </service></SDT></tsduck>" :=
      List.append_cancel_left (show u " service_provider_name=\"" ++ _ = _ ++ _ from hrest)
    obtain ⟨hprovider, -⟩ := Records.append_cons_inj hquote.serviceProviderName
      hquote'.serviceProviderName hproviders
    exact ⟨hts.fromUTF8 hname, hts.fromUTF8 hprovider⟩
  · rintro ⟨hname, hprovider⟩
    rw [sdt, sdt, hserviceId, hname, hprovider]

end Tables

/-! ## The plugins are -/

section Plugins

variable {ts : TSDuck} {cfg cfg' : Config} {dest dest' : TsDestination}

/-- **The port stands behind the last colon.** -/
theorem text_port_iff (hdec : PlainDecimal ts) (hts : FaithfulText ts) {text text' : StdString}
    {port port' : BitVec 32} : ts.fromUTF8 text ++ u ":" ++ decimal ts port
        = ts.fromUTF8 text' ++ u ":" ++ decimal ts port' ↔ text = text' ∧ port = port' := by
  have hcolon (value : BitVec 32) : ':' ∉ decimal ts value := by
    rw [decimal, hdec]
    exact fun hmem => absurd (Xml.isDigit_of_mem_toDigits hmem) (by decide)
  constructor
  · intro h
    rw [List.append_assoc, List.append_assoc] at h
    obtain ⟨htext, hport⟩ := Records.append_cons_inj_last (hcolon port) (hcolon port') h
    exact ⟨hts.fromUTF8 htext, BitVec.eq_of_toNat_eq (hts.decimal hport)⟩
  · rintro ⟨rfl, rfl⟩
    rfl

/-- What the options of `mpeinject` show. -/
theorem mpeinject_eq_iff (hdec : PlainDecimal ts) (hts : FaithfulText ts) :
    mpeinject ts cfg = mpeinject ts cfg' ↔ cfg.dest.payloadPid = cfg'.dest.payloadPid ∧
      cfg.effective.sources = cfg'.effective.sources := by
  have hsources : cfg.inputs.map (sourceArg ts) = cfg'.inputs.map (sourceArg ts) ↔
      cfg.effective.sources = cfg'.effective.sources := by
    have hmap (inputs : List UdpSource) : inputs.map (sourceArg ts)
        = (inputs.map fun input => (input.source, input.sourceport)).map
          fun source => ts.fromUTF8 source.1 ++ u ":" ++ decimal ts source.2 := by
      rw [List.map_map]
      rfl
    have hinjective : Function.Injective fun source : StdString × BitVec 32 =>
        ts.fromUTF8 source.1 ++ u ":" ++ decimal ts source.2 := by
      rintro ⟨text, port⟩ ⟨text', port'⟩ h
      obtain ⟨rfl, rfl⟩ := (text_port_iff hdec hts).mp h
      rfl
    rw [hmap, hmap]
    exact hinjective.list_map.eq_iff
  rw [← hsources, mpeinject, mpeinject]
  simp only [PluginOptions.mk.injEq, true_and, List.cons_append, List.nil_append, List.cons.injEq]
  exact and_congr_left fun _ => ⟨fun h => BitVec.eq_of_toNat_eq (hts.decimal h), fun h => by rw [h]⟩

/-- The output plugin of a destination that has one. -/
def Outlet.plugin (ts : TSDuck) : Outlet → PluginOptions
  | .srt host port sourceAddress ttl passphrase => {
      name := u "srt"
      args := [u "-c", ts.fromUTF8 host ++ u ":" ++ decimal ts port, u "-e", u "--local-interface",
        ts.fromUTF8 sourceAddress, u "--ipttl", ts.decimalDefault ttl.toNat] ++
          if passphrase ≠ str "" then [u "--passphrase", ts.fromUTF8 passphrase] else [] }
  | .udp host port sourceAddress => {
      name := u "ip"
      args := [u "-e", u "-f", u "-l", ts.fromUTF8 sourceAddress,
        ts.fromUTF8 host ++ u ":" ++ decimal ts port] }

theorem outputPlugin_eq (dest : TsDestination) :
    outputPlugin ts dest = dest.outlet.map (Outlet.plugin ts) := by
  rw [outputPlugin, TsDestination.outlet]
  split_ifs with hsrt hpassphrase hudp
  · simp [Outlet.plugin, hpassphrase]
  · simp [Outlet.plugin, hpassphrase]
  · rfl
  · rfl

/-- **The output plugin tells its outlet.** -/
theorem plugin_injective (hdec : PlainDecimal ts) (hts : FaithfulText ts) :
    Function.Injective (Outlet.plugin ts) := by
  intro o o' h
  cases o with
  | srt host port sourceAddress ttl passphrase =>
    cases o' with
    | udp => exact absurd (congrArg PluginOptions.name h) (show u "srt" ≠ u "ip" by decide)
    | srt host' port' sourceAddress' ttl' passphrase' =>
      simp only [Outlet.plugin, PluginOptions.mk.injEq, true_and, List.cons_append, List.nil_append,
        List.cons.injEq] at h
      obtain ⟨hendpoint, hsource, httl, hpassphrase⟩ := h
      obtain ⟨rfl, rfl⟩ := (text_port_iff hdec hts).mp hendpoint
      obtain rfl := hts.fromUTF8 hsource
      obtain rfl := BitVec.eq_of_toNat_eq (hts.decimalDefault httl)
      obtain rfl : passphrase = passphrase' := by
        split_ifs at hpassphrase with hne hne' hne'
        · exact hts.fromUTF8 (List.cons.inj (List.cons.inj hpassphrase).2).1
        · rw [not_not.mp hne, not_not.mp hne']
      rfl
  | udp host port sourceAddress =>
    cases o' with
    | srt => exact absurd (congrArg PluginOptions.name h) (show u "ip" ≠ u "srt" by decide)
    | udp host' port' sourceAddress' =>
      simp only [Outlet.plugin, PluginOptions.mk.injEq, true_and, List.cons.injEq, and_true] at h
      obtain ⟨hsource, hendpoint⟩ := h
      obtain ⟨rfl, rfl⟩ := (text_port_iff hdec hts).mp hendpoint
      obtain rfl := hts.fromUTF8 hsource
      rfl

end Plugins

/-! ## The options are -/

/-- **The options tell what of the configuration takes effect**, and nothing else: two accepted
configurations lead to the same options exactly if they agree in it. -/
theorem options_eq_iff {ts : TSDuck} {tr : Translator} {pt pt' : PTree} {cfg cfg' : Config}
    {opt opt' : TSProcessorArgs} (hdec : PlainDecimal ts) (hts : FaithfulText ts)
    (h : Accepts ts tr pt cfg opt) (h' : Accepts ts tr pt' cfg' opt') (hquote : Unquoted ts cfg.dest)
    (hquote' : Unquoted ts cfg'.dest) : opt = opt' ↔ cfg.effective = cfg'.effective := by
  have houtput : opt.output = opt'.output ↔ cfg.dest.outlet = cfg'.dest.outlet := by
    have hopt := h.output_eq
    have hopt' := h'.output_eq
    rw [outputPlugin_eq] at hopt hopt'
    rw [← Option.some_inj, ← hopt, ← hopt']
    exact (Option.map_injective (plugin_injective hdec hts)).eq_iff
  have hplugins : opt.plugins = opt'.plugins ↔ pat ts cfg.dest = pat ts cfg'.dest ∧
      pmt ts cfg.dest = pmt ts cfg'.dest ∧ sdt ts cfg.dest = sdt ts cfg'.dest ∧
      mpeinject ts cfg = mpeinject ts cfg' := by
    rw [h.plugins_eq, h'.plugins_eq, plugins, plugins]
    simp
  have hopt : opt = opt' ↔ opt.plugins = opt'.plugins ∧ opt.output = opt'.output := by
    obtain ⟨output, -, rfl⟩ := Option.map_eq_some_iff.mp h.options
    obtain ⟨output', -, rfl⟩ := Option.map_eq_some_iff.mp h'.options
    simp
  rw [hopt, hplugins, houtput, pat_eq_iff hdec, pmt_eq_iff hdec, mpeinject_eq_iff hdec hts]
  constructor
  · rintro ⟨⟨⟨htsId, hserviceId, hpmtPid⟩, ⟨-, hpayloadPid, hserviceType⟩, hsdt, -, hsources⟩, houtlet⟩
    obtain ⟨hname, hprovider⟩ := (sdt_eq_iff hdec hts hquote hquote' hserviceId).mp hsdt
    exact Effective.ext htsId hserviceId hpmtPid hpayloadPid hserviceType hname hprovider hsources
      houtlet
  · intro heq
    have hserviceId := congrArg Effective.serviceId heq
    have hpayloadPid := congrArg Effective.payloadPid heq
    have hsdt := (sdt_eq_iff hdec hts hquote hquote' hserviceId).mpr
      ⟨congrArg Effective.serviceName heq, congrArg Effective.serviceProviderName heq⟩
    exact ⟨⟨⟨congrArg Effective.tsId heq, hserviceId, congrArg Effective.pmtPid heq⟩,
      ⟨hserviceId, hpayloadPid, congrArg Effective.serviceType heq⟩, hsdt, hpayloadPid,
      congrArg Effective.sources heq⟩, congrArg Effective.outlet heq⟩

/-- `doc/example.mux` with debugging on, and the inputs without names and protocols. -/
def unnamedMux : PTree :=
  .node []
    [(str "general", values [("syslog", "false"), ("tsduck_debug", "true")]),
      (str "inputs", .node []
        [(str "mux-1", values [("name", ""), ("protocol", ""),
            ("source", "239.199.200.1"), ("sourceport", "5001"), ("sourceip", "")]),
          (str "mux-2", values [("name", ""), ("protocol", ""),
            ("source", "239.199.200.2"), ("sourceport", "5001"), ("sourceip", "127.0.0.1")])]),
      (str "output", values [("ts_id", "1"), ("service_id", "1"), ("service_name", "DabMux"),
        ("service_provider_name", "ODR-DabMux"), ("payload_pid", "1234"), ("pmt_pid", "256"),
        ("service_type", "5"), ("output", "srt"), ("output_host", "192.168.105.2"),
        ("output_port", "5102"), ("output_source_address", "172.27.159.171"),
        ("output_srt_passphrase", "odrmuxmpetest"), ("output_ttl", "64")])]

def unnamedConfig : Config where
  inputs :=
    [{ name := [], protocol := [], source := str "239.199.200.1", sourceip := []
       sourceport := 5001 },
      { name := [], protocol := [], source := str "239.199.200.2", sourceip := str "127.0.0.1"
        sourceport := 5001 }]
  dest := (exampleConfig 1 1 256 "DabMux").dest
  debuglevel := .debug

theorem accepts_unnamed : ∃ opt, Accepts asciiDuck decimalTranslator unnamedMux unnamedConfig opt :=
  ⟨_, rfl, rfl⟩

/-- The options are those of the shipped configuration. -/
theorem options_eq_iff_unnamed : ∃ opt opt',
    Accepts asciiDuck decimalTranslator (exampleMux "1" "1" "256" "DabMux")
      (exampleConfig 1 1 256 "DabMux") opt ∧
    Accepts asciiDuck decimalTranslator unnamedMux unnamedConfig opt' ∧ opt = opt' := by
  obtain ⟨opt, h⟩ := accepts_shipped
  obtain ⟨opt', h'⟩ := accepts_unnamed
  have hquote : Unquoted asciiDuck unnamedConfig.dest := ⟨by decide, by decide⟩
  exact ⟨opt, opt', h, h',
    (options_eq_iff plainDecimal_asciiDuck faithfulText_asciiDuck h h' hquote hquote).mpr rfl⟩

end Main
