import MuxMPE.Machinery.Fallible
import MuxMPE.Main.Options

/-!
# Main/Complete — the configurations that can be read

    inputs   a section of distinct uids     name, protocol, source, sourceip, sourceport
    output   a section                      ts and output values, the passphrase for srt
    general  a section                      tsduck_debug

What has to be there is told as such (`Complete`), and then shown to be what `readConfig` does not
throw at: each lookup throws exactly if its key is missing or its number is none, and each is made
whatever the others find, up to the passphrase.
-/

namespace Main

/-! ## What is there -/

/-- The first child under the key. -/
def lookup (pt : PTree) (key : String) : Option PTree :=
  (pt.children.find? (·.1 = str key)).map (·.2)

/-- The key names a child. -/
def HasText (pt : PTree) (key : String) : Prop := ∃ child, lookup pt key = some child

def HasNumber (tr : Translator) (pt : PTree) (key : String) : Prop :=
  ∃ child, lookup pt key = some child ∧ ∃ value, tr.unsignedInt child.data = some value

/-- The configuration of an input is complete. -/
structure CompleteInput (tr : Translator) (pt : PTree) : Prop where
  texts : ∀ key ∈ ["name", "protocol", "source", "sourceip"], HasText pt key
  sourceport : HasNumber tr pt "sourceport"

/-- The configuration of the output is complete. -/
structure CompleteOutput (tr : Translator) (pt : PTree) : Prop where
  texts : ∀ key ∈ ["output", "service_name", "service_provider_name", "output_host",
    "output_source_address"], HasText pt key
  numbers : ∀ key ∈ ["payload_pid", "pmt_pid", "ts_id", "service_type", "service_id", "output_port",
    "output_ttl"], HasNumber tr pt key
  passphrase : ∀ kind, lookup pt "output" = some kind → kind.data = str "srt" →
    HasText pt "output_srt_passphrase"

/-- Every section and key is there, every number is one, and no uid is there twice. -/
structure Complete (tr : Translator) (pt : PTree) : Prop where
  inputs : ∃ section_, lookup pt "inputs" = some section_ ∧
    (section_.children.map (·.1)).Nodup ∧ ∀ input ∈ section_.children, CompleteInput tr input.2
  output : ∃ section_, lookup pt "output" = some section_ ∧ CompleteOutput tr section_
  general : ∃ section_, lookup pt "general" = some section_ ∧ HasText section_ "tsduck_debug"

/-- Complete, and for an output there is. -/
structure Valid (tr : Translator) (pt : PTree) : Prop where
  complete : Complete tr pt
  kind : ∃ section_ kind, lookup pt "output" = some section_ ∧ lookup section_ "output" = some kind ∧
    (kind.data = str "srt" ∨ kind.data = str "udp")

/-! ## What each lookup needs -/

variable {tr : Translator} {pt : PTree} {key : String}

theorem getChild_eq_ok {child : PTree} : getChild pt key = .ok child ↔ lookup pt key = some child := by
  rw [getChild, lookup]
  cases pt.children.find? (·.1 = str key) with
  | none => exact ⟨nofun, nofun⟩
  | some entry => rw [Option.map_some, Option.some_inj, Except.ok.injEq]

theorem returns_getChild_bind {α : Type} {f : PTree → Except Thrown α} :
    (getChild pt key >>= f).Returns ↔ ∃ child, lookup pt key = some child ∧ (f child).Returns := by
  rw [Except.returns_bind]
  exact exists_congr fun child => and_congr_left fun _ => getChild_eq_ok

theorem getString_eq_ok {text : StdString} :
    getString pt key = .ok text ↔ ∃ child, lookup pt key = some child ∧ child.data = text := by
  rw [getString, Except.bind_eq_ok]
  exact exists_congr fun child => and_congr getChild_eq_ok ⟨Except.ok.inj, congrArg Except.ok⟩

/-- A text is returned where there is a child. -/
theorem exists_getString : (∃ text, getString pt key = .ok text) ↔ HasText pt key := by
  change (getString pt key).Returns ↔ HasText pt key
  rw [getString, returns_getChild_bind, HasText]
  exact exists_congr fun child => and_iff_left (Except.returns_ok child.data)

/-- A number is returned where there is a child that the translator takes for one. -/
theorem exists_getUnsigned :
    (∃ value, getUnsigned tr pt key = .ok value) ↔ HasNumber tr pt key := by
  change (getUnsigned tr pt key).Returns ↔ HasNumber tr pt key
  rw [getUnsigned, returns_getChild_bind, HasNumber]
  refine exists_congr fun child => and_congr_right fun _ => ?_
  cases tr.unsignedInt child.data with
  | none => exact ⟨fun h => absurd h (Except.not_returns_error _), nofun⟩
  | some value => exact ⟨fun _ => ⟨value, rfl⟩, fun _ => Except.returns_ok value⟩

/-! ## What each section needs -/

/-- **An input is read when it is complete.** -/
theorem returns_readInput : (readInput tr pt).Returns ↔ CompleteInput tr pt := by
  have hall : (readInput tr pt).Returns ↔ HasText pt "name" ∧ HasText pt "protocol" ∧
      HasText pt "source" ∧ HasText pt "sourceip" ∧ HasNumber tr pt "sourceport" := by
    simp only [readInput, Except.returns_bind, Except.returns_pure, and_true, exists_and_right,
      exists_getString, exists_getUnsigned]
  rw [hall]
  constructor
  · rintro ⟨hname, hprotocol, hsource, hsourceip, hsourceport⟩
    exact ⟨by simp [hname, hprotocol, hsource, hsourceip], hsourceport⟩
  · rintro ⟨htexts, hsourceport⟩
    exact ⟨htexts _ (by simp), htexts _ (by simp), htexts _ (by simp), htexts _ (by simp),
      hsourceport⟩

/-- **The inputs are read** if each is complete and none has a uid of another, or one seen before. -/
theorem returns_readInputs {seen : List StdString} {entries : List (StdString × PTree)} :
    (readInputs tr seen entries).Returns ↔ (entries.map (·.1)).Nodup ∧
      (∀ entry ∈ entries, entry.1 ∉ seen) ∧ ∀ entry ∈ entries, CompleteInput tr entry.2 := by
  induction entries generalizing seen with
  | nil => simp [readInputs, Except.returns_pure]
  | cons entry entries ih =>
    obtain ⟨uid, pt⟩ := entry
    by_cases hseen : uid ∈ seen
    · rw [readInputs, if_pos hseen]
      constructor
      · intro h
        obtain ⟨_, hthrow, -⟩ := Except.returns_bind.mp h
        nomatch hthrow
      · rintro ⟨-, hfresh, -⟩
        exact absurd hseen (hfresh _ List.mem_cons_self)
    · have hstep : (readInputs tr seen ((uid, pt) :: entries)).Returns ↔
          (readInput tr pt).Returns ∧ (readInputs tr (uid :: seen) entries).Returns := by
        rw [readInputs, if_neg hseen]
        simp only [Except.returns_bind, Except.returns_pure, and_true, exists_and_right]
        rfl
      rw [hstep, returns_readInput, ih, List.map_cons, List.nodup_cons, List.forall_mem_cons,
        List.forall_mem_cons]
      have hfresh : (∀ entry ∈ entries, entry.1 ∉ uid :: seen) ↔
          uid ∉ entries.map (·.1) ∧ ∀ entry ∈ entries, entry.1 ∉ seen := by
        simp only [List.mem_cons, not_or, List.mem_map, not_exists, not_and]
        exact ⟨fun h => ⟨fun entry hmem => (h entry hmem).1, fun entry hmem => (h entry hmem).2⟩,
          fun h entry hmem => ⟨h.1 entry hmem, h.2 entry hmem⟩⟩
      rw [hfresh]
      tauto

/-- **The output is read when it is complete.** -/
theorem returns_readDestination : (readDestination tr pt).Returns ↔ CompleteOutput tr pt := by
  have hkind : ∀ p : StdString → Prop, (∃ kind, getString pt "output" = .ok kind ∧ p kind) ↔
      ∃ kind, lookup pt "output" = some kind ∧ p kind.data := by
    intro p
    simp only [getString_eq_ok]
    constructor
    · rintro ⟨_, ⟨child, hchild, rfl⟩, hp⟩
      exact ⟨child, hchild, hp⟩
    · rintro ⟨child, hchild, hp⟩
      exact ⟨child.data, ⟨child, hchild, rfl⟩, hp⟩
  simp only [readDestination, Except.returns_bind, Except.returns_pure, and_true, exists_and_right,
    exists_getString, exists_getUnsigned, Except.returns_ite, pure_bind, implies_true, hkind]
  constructor
  · rintro ⟨houtput, hpayload, hpmt, hts, htype, hservice, hname, hprovider, kind, hkind, hhost,
      hport, hsource, httl, hpassphrase⟩
    have htext : HasText pt "output" := houtput
    refine ⟨by simp [htext, hname, hprovider, hhost, hsource],
      by simp [hpayload, hpmt, hts, htype, hservice, hport, httl], fun kind' hkind' => ?_⟩
    obtain rfl : kind = kind' := Option.some_inj.mp (hkind.symm.trans hkind')
    exact hpassphrase
  · rintro ⟨htexts, hnumbers, hpassphrase⟩
    obtain ⟨kind, hkind⟩ := htexts "output" (by simp)
    exact ⟨⟨kind, hkind⟩, hnumbers _ (by simp), hnumbers _ (by simp), hnumbers _ (by simp),
      hnumbers _ (by simp), hnumbers _ (by simp), htexts _ (by simp), htexts _ (by simp), kind, hkind,
      htexts _ (by simp), hnumbers _ (by simp), htexts _ (by simp), hnumbers _ (by simp),
      hpassphrase kind hkind⟩

/-- **A configuration is read exactly if it is complete.** -/
theorem returns_readConfig : (readConfig tr pt).Returns ↔ Complete tr pt := by
  have hinputs : ∀ entries, (∃ inputs, readInputs tr [] entries = .ok inputs) ↔
      (entries.map (·.1)).Nodup ∧ ∀ entry ∈ entries, CompleteInput tr entry.2 := by
    intro entries
    refine returns_readInputs.trans (and_congr_right fun _ => and_iff_right fun entry _ => ?_)
    exact List.not_mem_nil
  have houtput : ∀ pt, (∃ dest, readDestination tr pt = .ok dest) ↔ CompleteOutput tr pt :=
    fun _ => returns_readDestination
  simp only [readConfig, Except.returns_bind, Except.returns_pure, and_true, exists_and_right,
    getChild_eq_ok, exists_getString, hinputs, houtput]
  constructor
  · rintro ⟨inputs, hinputs, ⟨hnodup, hall⟩, output, houtput, hcomplete, hgeneral⟩
    exact ⟨⟨inputs, hinputs, hnodup, hall⟩, ⟨output, houtput, hcomplete⟩, hgeneral⟩
  · rintro ⟨⟨inputs, hinputs, hnodup, hall⟩, ⟨output, houtput, hcomplete⟩, hgeneral⟩
    exact ⟨inputs, hinputs, ⟨hnodup, hall⟩, output, houtput, hcomplete, hgeneral⟩

theorem output_of_readDestination {dest : TsDestination} (h : readDestination tr pt = .ok dest) :
    ∃ kind, lookup pt "output" = some kind ∧ kind.data = dest.output := by
  simp only [readDestination, Except.bind_eq_ok] at h
  obtain ⟨_, -, _, -, _, -, _, -, _, -, _, -, _, -, _, -, output, houtput, _, -, _, -, _, -, _, -, h⟩ := h
  have hdest : dest.output = output := by
    split at h
    all_goals
      obtain ⟨_, -, h⟩ := Except.bind_eq_ok.mp h
      rw [← Except.ok.inj h]
  rw [hdest]
  exact getString_eq_ok.mp houtput

/-- The kind of output is the configured one. -/
theorem output_of_readConfig {cfg : Config} (h : readConfig tr pt = .ok cfg) :
    ∃ section_ kind, lookup pt "output" = some section_ ∧ lookup section_ "output" = some kind ∧
      kind.data = cfg.dest.output := by
  simp only [readConfig, Except.bind_eq_ok, getChild_eq_ok] at h
  obtain ⟨_, -, _, -, section_, hsection, dest, hdest, _, -, _, -, hcfg⟩ := h
  obtain ⟨kind, hkind, hdata⟩ := output_of_readDestination hdest
  obtain rfl := Except.ok.inj hcfg
  exact ⟨section_, kind, hsection, hkind, hdata⟩

end Main
