import Mathlib.Algebra.Group.Nat.Defs
import MuxMPE.Main.Config

/-!
# Main/Options — the processing chain `main` hands to TSDuck

    null ─▸ regulate ─▸ inject PAT ─▸ inject PMT ─▸ inject SDT ─▸ mpeinject ─▸ srt | ip

The three tables are XML documents put together from literals and configured values.  TSDuck's
`UString` is the text it holds; how it renders numbers and reads UTF-8 is a parameter (`TSDuck`).
-/

namespace Main

abbrev UString := List Char

/-- What `main` uses of `ts::UString`. -/
structure TSDuck where
  /-- `UString::Decimal(value, min_width, right_justified, separator, force_sign, pad)` -/
  decimal (value minWidth : ℕ) (rightJustified : Bool) (separator : UString) (forceSign : Bool)
    (pad : Char) : UString
  /-- `UString::Decimal(value)`, the other arguments at their defaults -/
  decimalDefault (value : ℕ) : UString
  fromUTF8 (s : StdString) : UString
  /-- `ts::SPACE` -/
  space : Char

/-- A literal of the source. -/
def u (literal : String) : UString := literal.toList

/-- `ts::PluginOptions`. -/
structure PluginOptions where
  name : UString
  args : List UString := []

/-- `ts::TSProcessorArgs`, as far as it is set. -/
structure TSProcessorArgs where
  appName : UString
  fixedBitrate : ℕ
  maxFlushPkt : ℕ
  input : PluginOptions
  plugins : List PluginOptions
  output : PluginOptions

variable (ts : TSDuck)

/-- The call of `Decimal` that all numbers but one go through: no separator, no padding. -/
def decimal (value : BitVec 32) : UString := ts.decimal value.toNat 0 true (u "") false ts.space

/-! ## The tables -/

/-- The document injected as the PAT. -/
def pat (dest : TsDestination) : UString :=
  u "<?xml version=\"1.0\" encoding=\"UTF-8\"?><tsduck><PAT version=\"0\" transport_stream_id=\"" ++
    decimal ts dest.tsId ++ u "\" network_PID=\"0x0010\"><service service_id=\"" ++
    decimal ts dest.serviceId ++ u "\" program_map_PID=\"" ++ decimal ts dest.pmtPid ++
    u "\"/></PAT></tsduck>"

/-- The one injected as the PMT. -/
def pmt (dest : TsDestination) : UString :=
  u "<?xml version=\"1.0\" encoding=\"UTF-8\"?><tsduck><PMT version=\"0\" service_id=\"" ++
    decimal ts dest.serviceId ++ u "\"><component elementary_PID=\"" ++
    decimal ts dest.payloadPid ++ u "\" stream_type=\"" ++ decimal ts dest.serviceType ++
    u "\"/></PMT></tsduck>"

/-- The one injected as the SDT. -/
def sdt (dest : TsDestination) : UString :=
  u "<?xml version=\"1.0\" encoding=\"UTF-8\"?><tsduck><SDT version=\"0\" current=\"true\" transport_stream_id=\"" ++
    decimal ts dest.serviceId ++
    u "\" original_network_id=\"2\" actual=\"true\"> <service service_id=\"" ++
    decimal ts dest.serviceId ++
    u "\" EIT_schedule=\"false\" EIT_present_following=\"false\" running_status=\"running\" CA_mode=\"false\"><service_descriptor service_type=\"0x0C\" service_name=\"" ++
    ts.fromUTF8 dest.serviceName ++ u "\" service_provider_name=\"" ++
    ts.fromUTF8 dest.serviceProviderName ++ u "\"/> </service></SDT></tsduck>"

/-! ## The plugins -/

/-- The argument of `mpeinject` for an input. -/
def sourceArg (input : UdpSource) : UString :=
  ts.fromUTF8 input.source ++ u ":" ++ decimal ts input.sourceport

def mpeinject (cfg : Config) : PluginOptions where
  name := u "mpeinject"
  args := [u "-b", u "100000", u "--max-queue", u "10000", u "-p", decimal ts cfg.dest.payloadPid] ++
    cfg.inputs.map (sourceArg ts)

/-- The plugins in the order `main` adds them. -/
def plugins (cfg : Config) : List PluginOptions :=
  [{ name := u "regulate", args := [u "--packet-burst", u "14"] },
    { name := u "inject"
      args := [pat ts cfg.dest, u "--pid", u "0", u "-s", u "--inter-packet", u "100"] },
    { name := u "inject"
      args := [pmt ts cfg.dest, u "--pid", u "256", u "-s", u "--inter-packet", u "100"] },
    { name := u "inject"
      args := [sdt ts cfg.dest, u "--pid", u "17", u "-s", u "--inter-packet", u "1000"] },
    mpeinject ts cfg]

/-- `opt.output`; `none` where the configured output is neither kind. -/
def outputPlugin (dest : TsDestination) : Option PluginOptions :=
  let port := decimal ts dest.outputPort
  if dest.output = str "srt" then
    if dest.outputSrtPassphrase ≠ str "" then
      some {
        name := u "srt"
        args := [u "-c", ts.fromUTF8 dest.outputHost ++ u ":" ++ port, u "-e",
          u "--local-interface", ts.fromUTF8 dest.outputSourceAddress, u "--ipttl",
          ts.decimalDefault dest.outputTtl.toNat, u "--passphrase",
          ts.fromUTF8 dest.outputSrtPassphrase] }
    else
      some {
        name := u "srt"
        args := [u "-c", ts.fromUTF8 dest.outputHost ++ u ":" ++ port, u "-e",
          u "--local-interface", ts.fromUTF8 dest.outputSourceAddress, u "--ipttl",
          ts.decimalDefault dest.outputTtl.toNat] }
  else if dest.output = str "udp" then
    some {
      name := u "ip"
      args := [u "-e", u "-f", u "-l", ts.fromUTF8 dest.outputSourceAddress,
        ts.fromUTF8 dest.outputHost ++ u ":" ++ port] }
  else none

/-- What `tsproc.start` is called with; `none` is the `return -1` before it. -/
def tspOptions (cfg : Config) : Option TSProcessorArgs :=
  (outputPlugin ts cfg.dest).map fun output =>
    { appName := u "odr-muxmpe"
      fixedBitrate := 5000000
      maxFlushPkt := 70
      input := { name := u "null" }
      plugins := plugins ts cfg
      output := output }

/-- **`main` accepts a configuration**: it is read and the chain is handed to TSDuck. -/
structure Accepts (tr : Translator) (pt : PTree) (cfg : Config) (opt : TSProcessorArgs) : Prop where
  read : readConfig tr pt = .ok cfg
  options : tspOptions ts cfg = some opt

/-- The assumption on `Decimal`: with an empty separator it renders plain decimal. -/
def PlainDecimal : Prop := ∀ value, ts.decimal value 0 true (u "") false ts.space
  = Nat.toDigits 10 value

section Accepted

variable {ts} {tr : Translator} {pt : PTree} {cfg : Config} {opt : TSProcessorArgs}

/-- Only two kinds of output come to TSDuck. -/
theorem kind_of_tspOptions (h : tspOptions ts cfg = some opt) :
    cfg.dest.output = str "srt" ∨ cfg.dest.output = str "udp" := by
  by_contra hneither
  obtain ⟨hsrt, hudp⟩ := not_or.mp hneither
  rw [tspOptions, outputPlugin, if_neg hsrt, if_neg hudp] at h
  nomatch h

theorem Accepts.plugins_eq (h : Accepts ts tr pt cfg opt) : opt.plugins = plugins ts cfg := by
  obtain ⟨output, _, rfl⟩ := Option.map_eq_some_iff.mp h.options
  rfl

theorem Accepts.output_eq (h : Accepts ts tr pt cfg opt) :
    outputPlugin ts cfg.dest = some opt.output := by
  obtain ⟨output, houtput, rfl⟩ := Option.map_eq_some_iff.mp h.options
  exact houtput

end Accepted

/-! ## The shipped configuration

`doc/example.mux` with the values that matter below left open, and stand-ins for the two libraries
that are right on the calls it leads to. -/

/-- The digits, in groups of three. -/
def groupThousands : List Char → List Char
  | a :: b :: c :: d :: rest => a :: b :: c :: ',' :: groupThousands (d :: rest)
  | digits => digits

/-- TSDuck for text in ASCII, and for numbers without sign or padding. -/
def asciiDuck : TSDuck where
  decimal value _ _ separator _ _ :=
    if separator = [] then Nat.toDigits 10 value
    else (groupThousands (Nat.toDigits 10 value).reverse).reverse
  decimalDefault value := (groupThousands (Nat.toDigits 10 value).reverse).reverse
  fromUTF8 s := s.map fun b => Char.ofNat b.toNat
  space := ' '

theorem plainDecimal_asciiDuck : PlainDecimal asciiDuck := fun _ => rfl

/-- A stream that reads unsigned decimal numbers. -/
def decimalTranslator : Translator where
  unsignedInt s :=
    let digits := s.map fun b => Char.ofNat b.toNat
    let value := Nat.ofDigitChars 10 digits 0
    if digits ≠ [] ∧ digits.all Char.isDigit ∧ value < 2 ^ 32 then some (BitVec.ofNat 32 value)
    else none

/-- A section that holds values. -/
def values (entries : List (String × String)) : PTree :=
  .node [] (entries.map fun e => (str e.1, .node (str e.2) []))

def exampleMux (tsId serviceId pmtPid serviceName : String) : PTree :=
  .node []
    [(str "general", values [("syslog", "false"), ("tsduck_debug", "false")]),
      (str "inputs", .node []
        [(str "mux-1", values [("name", "Test1"), ("protocol", "udp"),
            ("source", "239.199.200.1"), ("sourceport", "5001"), ("sourceip", "")]),
          (str "mux-2", values [("name", "Test2"), ("protocol", "udp"),
            ("source", "239.199.200.2"), ("sourceport", "5001"), ("sourceip", "")])]),
      (str "output", values [("protocol", "ts"), ("ts_id", tsId), ("service_id", serviceId),
        ("service_name", serviceName), ("service_provider_name", "ODR-DabMux"),
        ("payload_pid", "1234"), ("pmt_pid", pmtPid), ("service_type", "5"), ("output", "srt"),
        ("output_host", "192.168.105.2"), ("output_port", "5102"),
        ("output_source_address", "172.27.159.171"), ("output_srt_passphrase", "odrmuxmpetest"),
        ("output_ttl", "64")])]

def exampleConfig (tsId serviceId pmtPid : BitVec 32) (serviceName : String) : Config where
  inputs :=
    [{ name := str "Test1", protocol := str "udp", source := str "239.199.200.1"
       sourceip := str "", sourceport := 5001 },
      { name := str "Test2", protocol := str "udp", source := str "239.199.200.2"
        sourceip := str "", sourceport := 5001 }]
  dest :=
    { payloadPid := 1234, pmtPid := pmtPid, tsId := tsId, serviceType := 5, serviceId := serviceId
      serviceName := str serviceName, serviceProviderName := str "ODR-DabMux", output := str "srt"
      outputHost := str "192.168.105.2", outputPort := 5102
      outputSourceAddress := str "172.27.159.171", outputTtl := 64
      outputSrtPassphrase := str "odrmuxmpetest" }
  debuglevel := .info

/-- The configuration is accepted as it is shipped. -/
theorem accepts_shipped : ∃ opt, Accepts asciiDuck decimalTranslator
    (exampleMux "1" "1" "256" "DabMux") (exampleConfig 1 1 256 "DabMux") opt :=
  ⟨_, rfl, rfl⟩

end Main
