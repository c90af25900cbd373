import MuxMPE.Main.Complete

/-!
# Main/Main — from the arguments to the exit

    argv ──▸ parser ──▸ startup check │ inputs, output ──▸ TSDuck
    └───────────── try ──────────────┘ └────── no handler ─────┘

What is thrown while the configuration is found and parsed is caught and ends in a return code.  What is
thrown while the parsed configuration is read is not: `main` returns exactly on the complete ones.
-/

namespace Main

/-! ## The environment -/

/-- How the child of `system` ended. -/
inductive WaitStatus
  | exited (status : BitVec 8)
  | terminated
  deriving DecidableEq

/-- What `main` meets: its arguments, the parsers, the shell, and TSDuck. -/
structure Environment where
  argv : List StdString
  /-- `sigaction` returns -1 for one of the four signals -/
  sigactionFails : Bool
  /-- `read_json` and `read_info`; a failure is a `runtime_error` with that text -/
  readJson : StdString → Except StdString PTree
  readInfo : StdString → Except StdString PTree
  system : StdString → WaitStatus
  translator : Translator
  tsduck : TSDuck
  /-- `tsproc.start` -/
  start : TSProcessorArgs → Bool

/-- `main` returns, or something is thrown out of it. -/
inductive Exit
  | returned (code : ℤ)
  | thrown (e : Thrown)

/-! ## Initialisation -/

def stringEndsWith (fullString ending : StdString) : Bool :=
  ending.length ≤ fullString.length &&
    fullString.drop (fullString.length - ending.length) == ending

/-- `get<string>("section.key", "")`: with a default nothing is thrown. -/
def getStringOrEmpty (pt : PTree) (section_ key : String) : StdString :=
  match getChild pt section_ >>= (getString · key) with
  | .ok text => text
  | .error _ => []

/-- `InitException`, with its message. -/
abbrev InitException := StdString

variable (env : Environment)

def confFile : StdString := if env.argv.length = 2 then env.argv.getD 1 [] else []

/-- The parser goes by the name of the file. -/
def parse : Except StdString PTree :=
  if stringEndsWith (confFile env) (str ".json") then env.readJson (confFile env)
  else env.readInfo (confFile env)

/-- The startup check: the configuration goes on, or a code is returned at once. -/
def startup (pt : PTree) : ℤ ⊕ PTree :=
  let startupcheck := getStringOrEmpty pt "general" "startupcheck"
  if startupcheck = [] then .inr pt
  else
    match env.system startupcheck with
    | .exited status => if status = 0 then .inr pt else .inl 1
    | .terminated => .inl 1

/-- The block that is guarded.  Nothing but an `InitException` is thrown in it: what the parsers throw
is made one, and `get` is called with defaults only. -/
def initialise : Except InitException (ℤ ⊕ PTree) :=
  if confFile env = str "-h" then throw (str "Nothing to do")
  else if confFile env = [] then throw (str "No configuration file specified")
  else do
    let pt ← parse env
    return startup env pt

/-- What is done with the configuration, outside of any handler. -/
def process (pt : PTree) : Exit :=
  match readConfig env.translator pt with
  | .error e => .thrown e
  | .ok cfg =>
    match tspOptions env.tsduck cfg with
    | none => .returned (-1)
    | some opt => if env.start opt then .returned 0 else .returned (-1)

def main : Exit :=
  if env.argv.length = 2 ∧ env.argv.getD 1 [] = str "--version" then .returned 0
  else if env.sigactionFails then .returned 1
  else
    match initialise env with
    | .error _ => .returned 1 -- the `InitException` is caught
    | .ok (.inl code) => .returned code
    | .ok (.inr pt) => process env pt

/-! ## What comes of a configuration -/

/-- The run comes to a configuration: there is one argument, the name of a file, the parser for it
delivers `pt`, and the startup check is absent or successful. -/
structure Delivers (pt : PTree) : Prop where
  argv : env.argv.length = 2
  notVersion : env.argv.getD 1 [] ≠ str "--version"
  signals : env.sigactionFails = false
  notHelp : confFile env ≠ str "-h"
  notEmpty : confFile env ≠ []
  parsed : parse env = .ok pt
  startupcheck : getStringOrEmpty pt "general" "startupcheck" = [] ∨
    env.system (getStringOrEmpty pt "general" "startupcheck") = .exited 0

/-- What is wrong with a configuration is reported: `main` returns, and not with zero unless the
configuration is a valid one. -/
def Reported (pt : PTree) : Prop :=
  ∃ code, main env = .returned code ∧ (¬ Valid env.translator pt → code ≠ 0)

variable {env} {pt : PTree}

theorem startup_of_delivers (h : Delivers env pt) : startup env pt = .inr pt := by
  rw [startup]
  split_ifs with habsent
  · rfl
  · rw [h.startupcheck.resolve_left habsent]
    rfl

theorem initialise_of_delivers (h : Delivers env pt) : initialise env = .ok (.inr pt) := by
  rw [initialise, if_neg h.notHelp, if_neg h.notEmpty, h.parsed]
  exact congrArg Except.ok (startup_of_delivers h)

/-- **Everything but the reading of the configuration ends in a return.** -/
theorem main_of_delivers (h : Delivers env pt) : main env = process env pt := by
  have hversion : ¬ (env.argv.length = 2 ∧ env.argv.getD 1 [] = str "--version") :=
    fun hv => h.notVersion hv.2
  rw [main, if_neg hversion, h.signals, initialise_of_delivers h]
  rfl

/-- An output there is not never comes to TSDuck. -/
theorem valid_of_tspOptions {ts : TSDuck} {tr : Translator} {cfg : Config} {opt : TSProcessorArgs}
    (hread : readConfig tr pt = .ok cfg) (hopt : tspOptions ts cfg = some opt) : Valid tr pt := by
  obtain ⟨section_, kind, hsection, hkind, hdata⟩ := output_of_readConfig hread
  refine ⟨returns_readConfig.mp ⟨cfg, hread⟩, section_, kind, hsection, hkind, ?_⟩
  rw [hdata]
  exact kind_of_tspOptions hopt

/-- **What is read comes to a return**, with zero only if the chain was started. -/
theorem process_of_readConfig {cfg : Config} (hread : readConfig env.translator pt = .ok cfg) :
    ∃ code, process env pt = .returned code ∧ (¬ Valid env.translator pt → code ≠ 0) := by
  have hfailed : ¬ Valid env.translator pt → (-1 : ℤ) ≠ 0 := fun _ => by decide
  rw [process, hread]
  dsimp only
  cases hopt : tspOptions env.tsduck cfg with
  | none => exact ⟨-1, rfl, hfailed⟩
  | some opt =>
    have hvalid : Valid env.translator pt := valid_of_tspOptions hread hopt
    dsimp only
    split_ifs
    · exact ⟨0, rfl, fun hinvalid => absurd hvalid hinvalid⟩
    · exact ⟨-1, rfl, hfailed⟩

/-- What is thrown while it is read is thrown out of `main`. -/
theorem process_of_thrown {e : Thrown} (hread : readConfig env.translator pt = .error e) :
    process env pt = .thrown e := by
  rw [process, hread]

/-- **Errors of the configuration are reported** exactly if there are none that a lookup can find: every
mandatory section and key is there, every number is one, and no two inputs have one uid. -/
theorem reported_iff (env : Environment) (pt : PTree) (h : Delivers env pt) :
    Reported env pt ↔ Complete env.translator pt := by
  rw [Reported, main_of_delivers h, ← returns_readConfig]
  constructor
  · rintro ⟨code, hcode, -⟩
    cases hread : readConfig env.translator pt with
    | error e =>
      rw [process_of_thrown hread] at hcode
      nomatch hcode
    | ok cfg => exact Except.returns_ok cfg
  · rintro ⟨cfg, hread⟩
    exact process_of_readConfig hread

/-- `odr-muxmpe example.mux`, where every part does as it should. -/
def exampleEnvironment (pt : PTree) : Environment where
  argv := [str "odr-muxmpe", str "example.mux"]
  sigactionFails := false
  readJson _ := .error (str "expected value")
  readInfo _ := .ok pt
  system _ := .exited 0
  translator := decimalTranslator
  tsduck := asciiDuck
  start _ := true

theorem delivers_example (pt : PTree) : Delivers (exampleEnvironment pt) pt where
  argv := rfl
  notVersion := show str "example.mux" ≠ str "--version" by decide
  signals := rfl
  notHelp := show str "example.mux" ≠ str "-h" by decide
  notEmpty := show str "example.mux" ≠ [] by decide
  parsed := rfl
  startupcheck := .inr rfl

theorem reported_iff_shipped : Complete decimalTranslator (exampleMux "1" "1" "256" "DabMux") ∧
    Reported (exampleEnvironment (exampleMux "1" "1" "256" "DabMux"))
      (exampleMux "1" "1" "256" "DabMux") := by
  obtain ⟨opt, haccepts⟩ := accepts_shipped
  have hcomplete := returns_readConfig.mp ⟨_, haccepts.read⟩
  exact ⟨hcomplete, (reported_iff _ _ (delivers_example _)).mpr hcomplete⟩

/-- A `ts_id` that is no number is not reported: `ptree_bad_data` leaves `main`. -/
theorem not_reported_tsId_one :
    Delivers (exampleEnvironment (exampleMux "one" "1" "256" "DabMux"))
      (exampleMux "one" "1" "256" "DabMux") ∧
    main (exampleEnvironment (exampleMux "one" "1" "256" "DabMux"))
      = .thrown (.badData (str "ts_id")) ∧
    ¬ Reported (exampleEnvironment (exampleMux "one" "1" "256" "DabMux"))
      (exampleMux "one" "1" "256" "DabMux") := by
  have hthrown : main (exampleEnvironment (exampleMux "one" "1" "256" "DabMux"))
      = .thrown (.badData (str "ts_id")) := by
    rw [main_of_delivers (delivers_example _)]
    rfl
  refine ⟨delivers_example _, hthrown, ?_⟩
  rintro ⟨code, hcode, -⟩
  rw [hthrown] at hcode
  nomatch hcode

end Main
