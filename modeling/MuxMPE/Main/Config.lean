import Mathlib.Data.List.Basic

/-!
# Main/Config — the configuration `main` reads

    ptree ──inputs──▸ every input, its uid unique
          ──output──▸ ts_destination_t
          ──general.tsduck_debug──▸ the debug level

A `std::string` is its bytes.  The property tree is the one the parser delivers; `get<unsigned int>`
goes through a stream, whose reading of numbers is a parameter (`Translator`).  What a lookup throws
leaves `main`: nothing on this path catches it.
-/

namespace Main

abbrev StdString := List (BitVec 8)

/-- The bytes of a text in UTF-8. -/
def utf8 (text : List Char) : StdString :=
  text.flatMap fun c => (String.utf8EncodeChar c).map UInt8.toBitVec

/-- A literal of the source. -/
def str (literal : String) : StdString := utf8 literal.toList

/-! ## The property tree -/

/-- `boost::property_tree::ptree`. -/
inductive PTree
  | node (data : StdString) (children : List (StdString × PTree))

namespace PTree

def data : PTree → StdString
  | node data _ => data

def children : PTree → List (StdString × PTree)
  | node _ children => children

end PTree

/-- What a lookup or `main` itself throws. -/
inductive Thrown
  /-- `ptree_bad_path` -/
  | badPath (key : StdString)
  /-- `ptree_bad_data` -/
  | badData (key : StdString)
  | runtimeError (what : StdString)
  deriving DecidableEq

/-- How a stream reads a value of the tree. -/
structure Translator where
  unsignedInt : StdString → Option (BitVec 32)

/-- `get_child`: the first child under the key. -/
def getChild (pt : PTree) (key : String) : Except Thrown PTree :=
  match pt.children.find? (·.1 = str key) with
  | none => .error (.badPath (str key))
  | some child => .ok child.2

/-- `get<std::string>`. -/
def getString (pt : PTree) (key : String) : Except Thrown StdString := do
  let child ← getChild pt key
  pure child.data

/-- `get<unsigned int>`. -/
def getUnsigned (tr : Translator) (pt : PTree) (key : String) : Except Thrown (BitVec 32) := do
  let child ← getChild pt key
  match tr.unsignedInt child.data with
  | none => .error (.badData (str key))
  | some value => pure value

/-! ## What is read -/

/-- `udp_source_t`. -/
structure UdpSource where
  name : StdString
  protocol : StdString
  source : StdString
  sourceip : StdString
  sourceport : BitVec 32

/-- `ts_destination_t`. -/
structure TsDestination where
  payloadPid : BitVec 32
  pmtPid : BitVec 32
  tsId : BitVec 32
  serviceType : BitVec 32
  serviceId : BitVec 32
  serviceName : StdString
  serviceProviderName : StdString
  output : StdString
  outputHost : StdString
  outputPort : BitVec 32
  outputSourceAddress : StdString
  outputTtl : BitVec 32
  outputSrtPassphrase : StdString

/-- `ts::Severity`, as far as it is used. -/
inductive Severity
  | debug
  | info
  deriving DecidableEq

structure Config where
  inputs : List UdpSource
  dest : TsDestination
  debuglevel : Severity

/-! ## Reading it -/

def readInput (tr : Translator) (pt : PTree) : Except Thrown UdpSource := do
  let name ← getString pt "name"
  let protocol ← getString pt "protocol"
  let source ← getString pt "source"
  let sourceip ← getString pt "sourceip"
  let sourceport ← getUnsigned tr pt "sourceport"
  pure { name, protocol, source, sourceip, sourceport }

/-- The loop over the inputs, with the uids seen so far. -/
def readInputs (tr : Translator) (allInputNames : List StdString) :
    List (StdString × PTree) → Except Thrown (List UdpSource)
  | [] => pure []
  | (uid, pt) :: rest => do
    if uid ∈ allInputNames then
      throw (.runtimeError (str "input with uid " ++ uid ++ str " not unique!"))
    let input ← readInput tr pt
    let inputs ← readInputs tr (uid :: allInputNames) rest
    pure (input :: inputs)

def readDestination (tr : Translator) (ptOutput : PTree) : Except Thrown TsDestination := do
  -- read here and once more below
  let _ ← getString ptOutput "output"
  let payloadPid ← getUnsigned tr ptOutput "payload_pid"
  let pmtPid ← getUnsigned tr ptOutput "pmt_pid"
  let tsId ← getUnsigned tr ptOutput "ts_id"
  let serviceType ← getUnsigned tr ptOutput "service_type"
  let serviceId ← getUnsigned tr ptOutput "service_id"
  let serviceName ← getString ptOutput "service_name"
  let serviceProviderName ← getString ptOutput "service_provider_name"
  let output ← getString ptOutput "output"
  let outputHost ← getString ptOutput "output_host"
  let outputPort ← getUnsigned tr ptOutput "output_port"
  let outputSourceAddress ← getString ptOutput "output_source_address"
  let outputTtl ← getUnsigned tr ptOutput "output_ttl"
  let outputSrtPassphrase ←
    if output = str "srt" then getString ptOutput "output_srt_passphrase" else pure []
  pure { payloadPid, pmtPid, tsId, serviceType, serviceId, serviceName, serviceProviderName, output,
         outputHost, outputPort, outputSourceAddress, outputTtl, outputSrtPassphrase }

def readConfig (tr : Translator) (pt : PTree) : Except Thrown Config := do
  let inputs ← readInputs tr [] (← getChild pt "inputs").children
  let dest ← readDestination tr (← getChild pt "output")
  let tsduckDebug ← getString (← getChild pt "general") "tsduck_debug"
  pure { inputs, dest, debuglevel := if tsduckDebug = str "true" then .debug else .info }

end Main
