import Mathlib.Logic.Function.Basic
import MuxMPE.Main.Options

/-!
# Main/Network — what the network parameters of the output do

              output_host  output_port   output_source_address   output_ttl
    srt       -c host:port               --local-interface       --ipttl
    ip        host:port                  -l

All four keys are mandatory, for either kind of output.  For `srt` each of them changes the options of
the output plugin; for `udp` the time to live is read and used for nothing.
-/

namespace Main

/-! ## The parameters -/

inductive NetworkKey
  | outputHost
  | outputPort
  | outputSourceAddress
  | outputTtl
  deriving DecidableEq

/-- What is configured under a key. -/
def TsDestination.network (dest : TsDestination) : NetworkKey → StdString ⊕ BitVec 32
  | .outputHost => .inl dest.outputHost
  | .outputPort => .inr dest.outputPort
  | .outputSourceAddress => .inl dest.outputSourceAddress
  | .outputTtl => .inr dest.outputTtl

/-- Of the four keys, `key` is the one under which the two differ. -/
def DifferIn (key : NetworkKey) (dest₁ dest₂ : TsDestination) : Prop :=
  ∀ k, dest₁.network k = dest₂.network k ↔ k ≠ key

/-- The assumptions on `UString`: what is different reads differently. -/
structure FaithfulText (ts : TSDuck) : Prop where
  decimal : Function.Injective fun value =>
    ts.decimal value 0 true (u "") false ts.space
  decimalDefault : Function.Injective ts.decimalDefault
  fromUTF8 : Function.Injective ts.fromUTF8

section DifferIn

variable {key : NetworkKey} {dest₁ dest₂ : TsDestination}

theorem DifferIn.ne (h : DifferIn key dest₁ dest₂) : dest₁.network key ≠ dest₂.network key :=
  fun heq => (h key).mp heq rfl

/-- One difference is not in host and port at once. -/
theorem DifferIn.host_or_port (h : DifferIn key dest₁ dest₂) :
    dest₁.outputHost = dest₂.outputHost ∨ dest₁.outputPort = dest₂.outputPort := by
  obtain rfl | hkey := eq_or_ne key .outputHost
  · exact .inr (Sum.inr.inj ((h .outputPort).mpr (by decide)))
  · exact .inl (Sum.inl.inj ((h .outputHost).mpr hkey.symm))

end DifferIn

/-! ## The options -/

variable (ts : TSDuck)

def endpoint (dest : TsDestination) : UString :=
  ts.fromUTF8 dest.outputHost ++ u ":" ++ decimal ts dest.outputPort

theorem outputPlugin_srt {dest : TsDestination} (h : dest.output = str "srt") :
    ∃ passphrase, outputPlugin ts dest = some {
      name := u "srt"
      args := [u "-c", endpoint ts dest, u "-e", u "--local-interface",
        ts.fromUTF8 dest.outputSourceAddress, u "--ipttl", ts.decimalDefault dest.outputTtl.toNat]
          ++ passphrase } := by
  rw [outputPlugin, if_pos h]
  split_ifs
  · exact ⟨_, rfl⟩
  · exact ⟨[], rfl⟩

theorem outputPlugin_udp {dest : TsDestination} (h : dest.output = str "udp") :
    outputPlugin ts dest = some {
      name := u "ip"
      args := [u "-e", u "-f", u "-l", ts.fromUTF8 dest.outputSourceAddress, endpoint ts dest] } := by
  have hsrt : dest.output ≠ str "srt" := by
    rw [h]
    decide
  rw [outputPlugin, if_neg hsrt, if_pos h]
  rfl

section Faithful

variable {ts} {key : NetworkKey} {dest₁ dest₂ : TsDestination}

/-- **The end point tells host and port**, as long as only one of them differs. -/
theorem endpoint_eq_iff (hts : FaithfulText ts)
    (h : dest₁.outputHost = dest₂.outputHost ∨ dest₁.outputPort = dest₂.outputPort) :
    endpoint ts dest₁ = endpoint ts dest₂ ↔
      dest₁.outputHost = dest₂.outputHost ∧ dest₁.outputPort = dest₂.outputPort := by
  constructor
  · intro heq
    obtain hhost | hport := h
    · rw [endpoint, endpoint, hhost, List.append_cancel_left_eq] at heq
      exact ⟨hhost, BitVec.eq_of_toNat_eq (hts.decimal heq)⟩
    · rw [endpoint, endpoint, hport, List.append_cancel_right_eq, List.append_cancel_right_eq] at heq
      exact ⟨hts.fromUTF8 heq, hport⟩
  · rintro ⟨hhost, hport⟩
    rw [endpoint, endpoint, hhost, hport]

/-- **For `srt` every parameter takes effect.** -/
theorem outputPlugin_ne_of_srt (hts : FaithfulText ts) (hsrt₁ : dest₁.output = str "srt")
    (hsrt₂ : dest₂.output = str "srt") (hdiffer : DifferIn key dest₁ dest₂) :
    outputPlugin ts dest₁ ≠ outputPlugin ts dest₂ := by
  intro heq
  obtain ⟨passphrase₁, hplugin₁⟩ := outputPlugin_srt ts hsrt₁
  obtain ⟨passphrase₂, hplugin₂⟩ := outputPlugin_srt ts hsrt₂
  rw [hplugin₁, hplugin₂] at heq
  simp only [Option.some.injEq, PluginOptions.mk.injEq, List.cons_append, List.cons.injEq,
    true_and] at heq
  obtain ⟨hendpoint, hsource, httl, -⟩ := heq
  obtain ⟨hhost, hport⟩ := (endpoint_eq_iff hts hdiffer.host_or_port).mp hendpoint
  refine hdiffer.ne ?_
  cases key with
  | outputHost => exact congrArg Sum.inl hhost
  | outputPort => exact congrArg Sum.inr hport
  | outputSourceAddress => exact congrArg Sum.inl (hts.fromUTF8 hsource)
  | outputTtl => exact congrArg Sum.inr (BitVec.eq_of_toNat_eq (hts.decimalDefault httl))

/-- **For `udp` every parameter but the time to live does.** -/
theorem outputPlugin_eq_iff_of_udp (hts : FaithfulText ts) (hudp₁ : dest₁.output = str "udp")
    (hudp₂ : dest₂.output = str "udp") (hdiffer : DifferIn key dest₁ dest₂) :
    outputPlugin ts dest₁ = outputPlugin ts dest₂ ↔ key = .outputTtl := by
  rw [outputPlugin_udp ts hudp₁, outputPlugin_udp ts hudp₂]
  simp only [Option.some.injEq, PluginOptions.mk.injEq, List.cons.injEq, true_and, and_true]
  constructor
  · rintro ⟨hsource, hendpoint⟩
    obtain ⟨hhost, hport⟩ := (endpoint_eq_iff hts hdiffer.host_or_port).mp hendpoint
    cases key with
    | outputHost => exact absurd (congrArg Sum.inl hhost) hdiffer.ne
    | outputPort => exact absurd (congrArg Sum.inr hport) hdiffer.ne
    | outputSourceAddress => exact absurd (congrArg Sum.inl (hts.fromUTF8 hsource)) hdiffer.ne
    | outputTtl => rfl
  · rintro rfl
    have hhost := Sum.inl.inj ((hdiffer .outputHost).mpr (by decide))
    have hport := Sum.inr.inj ((hdiffer .outputPort).mpr (by decide))
    have hsource := Sum.inl.inj ((hdiffer .outputSourceAddress).mpr (by decide))
    exact ⟨congrArg ts.fromUTF8 hsource,
      (endpoint_eq_iff hts (.inl hhost)).mpr ⟨hhost, hport⟩⟩

/-- **A network parameter takes effect** exactly if it is not the time to live of a `udp` output. -/
theorem takesEffect_iff {tr : Translator} {pt₁ pt₂ : PTree} {cfg₁ cfg₂ : Config}
    {opt₁ opt₂ : TSProcessorArgs} (hts : FaithfulText ts) (h₁ : Accepts ts tr pt₁ cfg₁ opt₁)
    (h₂ : Accepts ts tr pt₂ cfg₂ opt₂) (hkind : cfg₁.dest.output = cfg₂.dest.output)
    (hdiffer : DifferIn key cfg₁.dest cfg₂.dest) :
    opt₁.output ≠ opt₂.output ↔ ¬ (cfg₁.dest.output = str "udp" ∧ key = .outputTtl) := by
  have houtput : opt₁.output ≠ opt₂.output ↔
      outputPlugin ts cfg₁.dest ≠ outputPlugin ts cfg₂.dest := by
    rw [h₁.output_eq, h₂.output_eq, Ne, Ne, Option.some.injEq]
  rw [houtput]
  obtain hsrt | hudp := kind_of_tspOptions h₁.options
  · have hnot : cfg₁.dest.output ≠ str "udp" := by
      rw [hsrt]
      decide
    exact iff_of_true (outputPlugin_ne_of_srt hts hsrt (hkind ▸ hsrt) hdiffer) fun h => hnot h.1
  · rw [Ne, outputPlugin_eq_iff_of_udp hts hudp (hkind ▸ hudp) hdiffer, and_iff_right hudp]

end Faithful

/-! ## The shipped configuration, as it is and with another value -/

/-- The commas taken out again. -/
theorem filter_groupThousands {digits : List Char} (h : ∀ c ∈ digits, c ≠ ',') :
    (groupThousands digits).filter (· ≠ ',') = digits := by
  have hkeep : ∀ {cs : List Char}, (∀ c ∈ cs, c ≠ ',') → cs.filter (· ≠ ',') = cs := fun hcs =>
    List.filter_eq_self.mpr fun c hc => decide_eq_true (hcs c hc)
  fun_induction groupThousands digits with
  | case1 a b c d rest ih =>
    have hgroup : [a, b, c].filter (· ≠ ',') = [a, b, c] := 
      hkeep fun x hx => h x (List.mem_append_left (d :: rest) hx)
    have hrest := ih fun x hx => h x (List.mem_append_right [a, b, c] hx)
    have happend : a :: b :: c :: ',' :: groupThousands (d :: rest) =
        [a, b, c] ++ ([','] ++ groupThousands (d :: rest)) := rfl
    rw [happend, List.filter_append, List.filter_append, hgroup, hrest]
    rfl
  | case2 digits hshort => exact hkeep h

theorem toDigits_injective : Function.Injective (Nat.toDigits 10) :=
  Function.LeftInverse.injective fun _ => Nat.ofDigitChars_ten_toDigits

theorem filter_decimalDefault (value : ℕ) :
    (asciiDuck.decimalDefault value).filter (· ≠ ',') = Nat.toDigits 10 value := by
  have hdigits : ∀ c ∈ (Nat.toDigits 10 value).reverse, c ≠ ',' := by
    rintro c hc rfl
    exact absurd (Nat.isDigit_of_mem_toDigits (by decide) (by decide) (List.mem_reverse.mp hc))
      (by decide)
  rw [asciiDuck, List.filter_reverse, filter_groupThousands hdigits, List.reverse_reverse]

/-- The assumptions on `UString` are those of a text. -/
theorem faithfulText_asciiDuck : FaithfulText asciiDuck where
  decimal := toDigits_injective
  decimalDefault value₁ value₂ heq := by
    have hfilter := congrArg (List.filter (· ≠ ',')) heq
    rw [filter_decimalDefault, filter_decimalDefault] at hfilter
    exact toDigits_injective hfilter
  fromUTF8 := by
    refine List.map_injective_iff.mpr fun b₁ b₂ heq => ?_
    have hchar : ∀ b : BitVec 8, (Char.ofNat b.toNat).toNat = b.toNat := by decide +kernel
    have hcode := congrArg Char.toNat heq
    rw [hchar, hchar] at hcode
    exact BitVec.eq_of_toNat_eq hcode

/-- `doc/example.mux` with the kind of the output, its host and its time to live left open. -/
def networkMux (output host ttl : String) : PTree :=
  .node []
    [(str "general", values [("tsduck_debug", "false")]),
      (str "inputs", .node [] []),
      (str "output", values [("protocol", "ts"), ("ts_id", "1"), ("service_id", "1"),
        ("service_name", "DabMux"), ("service_provider_name", "ODR-DabMux"),
        ("payload_pid", "1234"), ("pmt_pid", "256"), ("service_type", "5"), ("output", output),
        ("output_host", host), ("output_port", "5186"),
        ("output_source_address", "192.168.104.6"), ("output_ttl", ttl)])]

def networkConfig (output host : String) (ttl : BitVec 32) : Config where
  inputs := []
  dest :=
    { payloadPid := 1234, pmtPid := 256, tsId := 1, serviceType := 5, serviceId := 1
      serviceName := str "DabMux", serviceProviderName := str "ODR-DabMux", output := str output
      outputHost := str host, outputPort := 5186
      outputSourceAddress := str "192.168.104.6", outputTtl := ttl, outputSrtPassphrase := [] }
  debuglevel := .info

/-- Another host is another output. -/
theorem takesEffect_iff_host : ∃ opt₁ opt₂,
    Accepts asciiDuck decimalTranslator (networkMux "udp" "192.168.105.2" "64")
      (networkConfig "udp" "192.168.105.2" 64) opt₁ ∧
    Accepts asciiDuck decimalTranslator (networkMux "udp" "192.168.105.3" "64")
      (networkConfig "udp" "192.168.105.3" 64) opt₂ ∧
    opt₁.output ≠ opt₂.output := by
  have hdiffer : DifferIn .outputHost (networkConfig "udp" "192.168.105.2" 64).dest
      (networkConfig "udp" "192.168.105.3" 64).dest := by
    rintro (_ | _ | _ | _) <;> decide
  obtain ⟨opt₁, h₁⟩ : ∃ opt, Accepts asciiDuck decimalTranslator
      (networkMux "udp" "192.168.105.2" "64") (networkConfig "udp" "192.168.105.2" 64) opt :=
    ⟨_, rfl, rfl⟩
  obtain ⟨opt₂, h₂⟩ : ∃ opt, Accepts asciiDuck decimalTranslator
      (networkMux "udp" "192.168.105.3" "64") (networkConfig "udp" "192.168.105.3" 64) opt :=
    ⟨_, rfl, rfl⟩
  exact ⟨opt₁, opt₂, h₁, h₂,
    (takesEffect_iff faithfulText_asciiDuck h₁ h₂ rfl hdiffer).mpr (by simp)⟩

/-- **Another time to live of a `udp` output changes nothing.** -/
theorem not_takesEffect_ttl : FaithfulText asciiDuck ∧ ∃ opt₁ opt₂,
    Accepts asciiDuck decimalTranslator (networkMux "udp" "192.168.105.2" "64")
      (networkConfig "udp" "192.168.105.2" 64) opt₁ ∧
    Accepts asciiDuck decimalTranslator (networkMux "udp" "192.168.105.2" "1")
      (networkConfig "udp" "192.168.105.2" 1) opt₂ ∧
    DifferIn .outputTtl (networkConfig "udp" "192.168.105.2" 64).dest
      (networkConfig "udp" "192.168.105.2" 1).dest ∧
    opt₁.output = opt₂.output := by
  refine ⟨faithfulText_asciiDuck, _, _, ⟨rfl, rfl⟩, ⟨rfl, rfl⟩, ?_, rfl⟩
  rintro (_ | _ | _ | _) <;> decide

end Main
