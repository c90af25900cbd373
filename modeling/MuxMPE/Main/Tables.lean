import MuxMPE.Machinery.Xml.Values
import MuxMPE.Main.Options

/-!
# Main/Tables — what the injected tables say

The documents of PAT and PMT are read from end to end; of the SDT the part before the service
descriptor, which no name can reach, and the place where the service name begins.
-/

open Xml

namespace Main

variable {ts : TSDuck}

/-! ## Decimals between quotes -/

section Decimal

/-- Nothing in a decimal needs quoting. -/
theorem plain_toDigits (n : ℕ) : Plain (Nat.toDigits 10 n) :=
  plain_of_isDigit fun _ => isDigit_of_mem_toDigits

/-- A decimal may stand between quotes. -/
theorem isValueText_toDigits (n : ℕ) : isValueText (Nat.toDigits 10 n) :=
  (plain_toDigits n).isValueText fun _ hc => isChar_of_isDigit (isDigit_of_mem_toDigits hc)

theorem return_not_mem_toDigits (n : ℕ) : '\r' ∉ Nat.toDigits 10 n :=
  fun h => (plain_toDigits n _ h).2.2.2.2.2 rfl

variable {tag : Tag} {name : List Char} {stack : List (List Char)} {events : List Event}

/-- The reader takes a decimal between quotes as the value of the attribute. -/
theorem run_toDigits (n : ℕ) (hname : name ∉ tag.attrs.map Prod.fst) (rest : List Char) :
    run { mode := .attrValue tag name '"' [], stack := stack, events := events }
        (Nat.toDigits 10 n ++ '"' :: rest)
      = run { mode := .inTag (tag.extend [(name, Nat.toDigits 10 n)]) false
              stack := stack, events := events } rest :=
  run_value (isValueText_toDigits n) (plain_toDigits n).attributeValue_eq hname rest

end Decimal

/-! ## The declaration -/

/-- What all three documents begin with. -/
def declaration : List Char := u "<?xml version=\"1.0\" encoding=\"UTF-8\"?>"

/-- The reader skips the declaration. -/
theorem dropDeclaration_append (rest : List Char) :
    dropDeclaration (declaration ++ rest) = rest := rfl

theorem return_not_mem_declaration : '\r' ∉ declaration := by decide

/-- Reading a document that is all there. -/
theorem read_declaration_append {body : List Char} {t : State} {events : List Event}
    (hreturn : '\r' ∉ body) (hrun : run {} body = some t) (hclose : t.close = some events) :
    Xml.read (declaration ++ body) = some events := by
  have hnorm : normalizeLineEnds (declaration ++ body) = declaration ++ body :=
    normalizeLineEnds_of_not_mem (by simp [return_not_mem_declaration, hreturn])
  rw [Xml.read, hnorm, dropDeclaration_append, hrun, Option.bind_some, hclose]

/-! ## The PAT -/

/-- The start tag of a table's document. -/
def tsduckTag : Tag := { name := u "tsduck" }

/-- `<PAT>`, with its attributes in the order of the source. -/
def patTag (dest : TsDestination) : Tag where
  name := u "PAT"
  attrs := [(u "version", u "0"),
    (u "transport_stream_id", Nat.toDigits 10 dest.tsId.toNat),
    (u "network_PID", u "0x0010")]

/-- The one service the PAT lists, and where its PMT is. -/
def patServiceTag (dest : TsDestination) : Tag where
  name := u "service"
  attrs := [(u "service_id", Nat.toDigits 10 dest.serviceId.toNat),
    (u "program_map_PID", Nat.toDigits 10 dest.pmtPid.toNat)]

/-- What a reader of the PAT sees. -/
def patEvents (dest : TsDestination) : List Event :=
  [.start tsduckTag, .start (patTag dest), .start (patServiceTag dest), .finish (u "service"),
    .finish (u "PAT"), .finish (u "tsduck")]

/-- The PAT behind its declaration. -/
def patBody (dest : TsDestination) : List Char :=
  u "<tsduck><PAT version=\"0\" transport_stream_id=\"" ++
    (Nat.toDigits 10 dest.tsId.toNat ++ u "\" network_PID=\"0x0010\"><service service_id=\"" ++
    (Nat.toDigits 10 dest.serviceId.toNat ++ u "\" program_map_PID=\"" ++
    (Nat.toDigits 10 dest.pmtPid.toNat ++ u "\"/></PAT></tsduck>")))

/-- The string the source builds, cut behind the declaration. -/
theorem pat_eq (hdec : PlainDecimal ts) (dest : TsDestination) :
    pat ts dest = declaration ++ patBody dest := by
  have hfirst : u "<?xml version=\"1.0\" encoding=\"UTF-8\"?><tsduck><PAT version=\"0\" transport_stream_id=\""
      = declaration ++ u "<tsduck><PAT version=\"0\" transport_stream_id=\"" := by decide +kernel
  simp only [pat, hfirst, patBody, decimal, hdec _, List.append_assoc]

theorem return_not_mem_patBody (dest : TsDestination) : '\r' ∉ patBody dest := by
  simp only [patBody, List.mem_append, not_or, return_not_mem_toDigits, not_false_eq_true, true_and]
  exact ⟨by decide, by decide, by decide, by decide⟩

/-- The reader goes from one number to the next. -/
theorem run_patBody (dest : TsDestination) :
    run {} (patBody dest) = some { events := patEvents dest } := by
  have h₁ : run {} (u "<tsduck><PAT version=\"0\" transport_stream_id=\"")
      = some { mode := .attrValue { name := u "PAT", attrs := [(u "version", u "0")] }
                (u "transport_stream_id") '"' []
               stack := [u "tsduck"], events := [.start tsduckTag] } := rfl
  have h₂ : run
      { mode := .attrValue { name := u "PAT", attrs := [(u "version", u "0")] }
          (u "transport_stream_id") '"' []
        stack := [u "tsduck"], events := [.start tsduckTag] }
      (Nat.toDigits 10 dest.tsId.toNat ++ u "\" network_PID=\"0x0010\"><service service_id=\"")
      = some { mode := .attrValue { name := u "service" } (u "service_id") '"' []
               stack := [u "PAT", u "tsduck"]
               events := [.start tsduckTag, .start (patTag dest)] } :=
    (run_toDigits _ (by decide) _).trans rfl
  have h₃ : run
      { mode := .attrValue { name := u "service" } (u "service_id") '"' []
        stack := [u "PAT", u "tsduck"], events := [.start tsduckTag, .start (patTag dest)] }
      (Nat.toDigits 10 dest.serviceId.toNat ++ u "\" program_map_PID=\"")
      = some { mode := .attrValue { name := u "service"
                                    attrs := [(u "service_id",
                                      Nat.toDigits 10 dest.serviceId.toNat)] }
                (u "program_map_PID") '"' []
               stack := [u "PAT", u "tsduck"]
               events := [.start tsduckTag, .start (patTag dest)] } :=
    (run_toDigits _ (by decide) _).trans rfl
  have h₄ : run
      { mode := .attrValue { name := u "service"
                             attrs := [(u "service_id", Nat.toDigits 10 dest.serviceId.toNat)] }
          (u "program_map_PID") '"' []
        stack := [u "PAT", u "tsduck"], events := [.start tsduckTag, .start (patTag dest)] }
      (Nat.toDigits 10 dest.pmtPid.toNat ++ u "\"/></PAT></tsduck>")
      = some { mode := .content [], stack := [], events := patEvents dest } := by
    refine (run_toDigits _ ?_ _).trans rfl
    simp [u]
  rw [patBody, run_append_of_eq h₁, run_append_of_eq h₂, run_append_of_eq h₃, h₄]

/-- **The PAT is well formed**, and these are its events. -/
theorem read_pat (hdec : PlainDecimal ts) (dest : TsDestination) :
    Xml.read (pat ts dest) = some (patEvents dest) := by
  rw [pat_eq hdec]
  exact read_declaration_append (return_not_mem_patBody dest) (run_patBody dest) rfl

/-! ## The PMT -/

/-- `<PMT>`, for the service of the destination. -/
def pmtTag (dest : TsDestination) : Tag where
  name := u "PMT"
  attrs := [(u "version", u "0"), (u "service_id", Nat.toDigits 10 dest.serviceId.toNat)]

/-- The one component of the service: the payload. -/
def componentTag (dest : TsDestination) : Tag where
  name := u "component"
  attrs := [(u "elementary_PID", Nat.toDigits 10 dest.payloadPid.toNat),
    (u "stream_type", Nat.toDigits 10 dest.serviceType.toNat)]

/-- What a reader of the PMT sees. -/
def pmtEvents (dest : TsDestination) : List Event :=
  [.start tsduckTag, .start (pmtTag dest), .start (componentTag dest), .finish (u "component"),
    .finish (u "PMT"), .finish (u "tsduck")]

/-- The PMT behind its declaration. -/
def pmtBody (dest : TsDestination) : List Char :=
  u "<tsduck><PMT version=\"0\" service_id=\"" ++
    (Nat.toDigits 10 dest.serviceId.toNat ++ u "\"><component elementary_PID=\"" ++
    (Nat.toDigits 10 dest.payloadPid.toNat ++ u "\" stream_type=\"" ++
    (Nat.toDigits 10 dest.serviceType.toNat ++ u "\"/></PMT></tsduck>")))

/-- The string the source builds, cut behind the declaration. -/
theorem pmt_eq (hdec : PlainDecimal ts) (dest : TsDestination) :
    pmt ts dest = declaration ++ pmtBody dest := by
  have hfirst : u "<?xml version=\"1.0\" encoding=\"UTF-8\"?><tsduck><PMT version=\"0\" service_id=\""
      = declaration ++ u "<tsduck><PMT version=\"0\" service_id=\"" := by decide +kernel
  simp only [pmt, hfirst, pmtBody, decimal, hdec _, List.append_assoc]

theorem return_not_mem_pmtBody (dest : TsDestination) : '\r' ∉ pmtBody dest := by
  simp only [pmtBody, List.mem_append, not_or, return_not_mem_toDigits, not_false_eq_true, true_and]
  exact ⟨by decide, by decide, by decide, by decide⟩

/-- As for the PAT, from number to number. -/
theorem run_pmtBody (dest : TsDestination) :
    run {} (pmtBody dest) = some { events := pmtEvents dest } := by
  have h₁ : run {} (u "<tsduck><PMT version=\"0\" service_id=\"")
      = some { mode := .attrValue { name := u "PMT", attrs := [(u "version", u "0")] }
                (u "service_id") '"' []
               stack := [u "tsduck"], events := [.start tsduckTag] } := rfl
  have h₂ : run
      { mode := .attrValue { name := u "PMT", attrs := [(u "version", u "0")] } (u "service_id") '"'
          []
        stack := [u "tsduck"], events := [.start tsduckTag] }
      (Nat.toDigits 10 dest.serviceId.toNat ++ u "\"><component elementary_PID=\"")
      = some { mode := .attrValue { name := u "component" } (u "elementary_PID") '"' []
               stack := [u "PMT", u "tsduck"]
               events := [.start tsduckTag, .start (pmtTag dest)] } :=
    (run_toDigits _ (by decide) _).trans rfl
  have h₃ : run
      { mode := .attrValue { name := u "component" } (u "elementary_PID") '"' []
        stack := [u "PMT", u "tsduck"], events := [.start tsduckTag, .start (pmtTag dest)] }
      (Nat.toDigits 10 dest.payloadPid.toNat ++ u "\" stream_type=\"")
      = some { mode := .attrValue { name := u "component"
                                    attrs := [(u "elementary_PID",
                                      Nat.toDigits 10 dest.payloadPid.toNat)] }
                (u "stream_type") '"' []
               stack := [u "PMT", u "tsduck"]
               events := [.start tsduckTag, .start (pmtTag dest)] } :=
    (run_toDigits _ (by decide) _).trans rfl
  have h₄ : run
      { mode := .attrValue { name := u "component"
                             attrs := [(u "elementary_PID",
                               Nat.toDigits 10 dest.payloadPid.toNat)] }
          (u "stream_type") '"' []
        stack := [u "PMT", u "tsduck"], events := [.start tsduckTag, .start (pmtTag dest)] }
      (Nat.toDigits 10 dest.serviceType.toNat ++ u "\"/></PMT></tsduck>")
      = some { mode := .content [], stack := [], events := pmtEvents dest } := by
    refine (run_toDigits _ ?_ _).trans rfl
    simp [u]
  rw [pmtBody, run_append_of_eq h₁, run_append_of_eq h₂, run_append_of_eq h₃, h₄]

/-- **The PMT is well formed**, and these are its events. -/
theorem read_pmt (hdec : PlainDecimal ts) (dest : TsDestination) :
    Xml.read (pmt ts dest) = some (pmtEvents dest) := by
  rw [pmt_eq hdec]
  exact read_declaration_append (return_not_mem_pmtBody dest) (run_pmtBody dest) rfl

/-! ## The SDT -/

/-- `<SDT>`; its `transport_stream_id` is the `service_id` of the destination. -/
def sdtTag (dest : TsDestination) : Tag where
  name := u "SDT"
  attrs := [(u "version", u "0"), (u "current", u "true"),
    (u "transport_stream_id", Nat.toDigits 10 dest.serviceId.toNat),
    (u "original_network_id", u "2"), (u "actual", u "true")]

/-- The one service the SDT describes. -/
def sdtServiceTag (dest : TsDestination) : Tag where
  name := u "service"
  attrs := [(u "service_id", Nat.toDigits 10 dest.serviceId.toNat), (u "EIT_schedule", u "false"),
    (u "EIT_present_following", u "false"), (u "running_status", u "running"),
    (u "CA_mode", u "false")]

/-- What the SDT says before its service descriptor. -/
def sdtHead (dest : TsDestination) : List Event :=
  [.start tsduckTag, .start (sdtTag dest), .text (u " "), .start (sdtServiceTag dest)]

/-- The service descriptor up to the service name. -/
def descriptorHead : Tag where
  name := u "service_descriptor"
  attrs := [(u "service_type", u "0x0C")]

/-- The reader where it expects the service name. -/
def atServiceName (dest : TsDestination) : State where
  mode := .attrValue descriptorHead (u "service_name") '"' []
  stack := [u "service", u "SDT", u "tsduck"]
  events := sdtHead dest

/-- The SDT between its declaration and the service name. -/
def sdtFront (dest : TsDestination) : List Char :=
  u "<tsduck><SDT version=\"0\" current=\"true\" transport_stream_id=\"" ++
    (Nat.toDigits 10 dest.serviceId.toNat ++
      u "\" original_network_id=\"2\" actual=\"true\"> <service service_id=\"" ++
    (Nat.toDigits 10 dest.serviceId.toNat ++
      u "\" EIT_schedule=\"false\" EIT_present_following=\"false\" running_status=\"running\" CA_mode=\"false\"><service_descriptor service_type=\"0x0C\" service_name=\""))

/-- The string the source builds, cut at the two names. -/
theorem sdt_eq (hdec : PlainDecimal ts) (dest : TsDestination) : sdt ts dest
    = declaration ++ (sdtFront dest ++ (ts.fromUTF8 dest.serviceName ++
        (u "\" service_provider_name=\"" ++ (ts.fromUTF8 dest.serviceProviderName ++
        u "\"/> </service></SDT></tsduck>")))) := by
  have hfirst : u "<?xml version=\"1.0\" encoding=\"UTF-8\"?><tsduck><SDT version=\"0\" current=\"true\" transport_stream_id=\""
      = declaration ++ u "<tsduck><SDT version=\"0\" current=\"true\" transport_stream_id=\"" := by decide +kernel
  simp only [sdt, hfirst, sdtFront, decimal, hdec _, List.append_assoc]

theorem return_not_mem_sdtFront (dest : TsDestination) : '\r' ∉ sdtFront dest := by
  simp only [sdtFront, List.mem_append, not_or, return_not_mem_toDigits, not_false_eq_true,
    true_and]
  exact ⟨by decide, by decide, by decide +kernel⟩

set_option maxRecDepth 2048 in
/-- The reader comes to the service name. -/
theorem run_sdtFront (dest : TsDestination) :
    run {} (sdtFront dest) = some (atServiceName dest) := by
  have h₁ : run {} (u "<tsduck><SDT version=\"0\" current=\"true\" transport_stream_id=\"")
      = some { mode := .attrValue { name := u "SDT"
                                    attrs := [(u "version", u "0"), (u "current", u "true")] }
                (u "transport_stream_id") '"' []
               stack := [u "tsduck"], events := [.start tsduckTag] } := rfl
  have h₂ : run
      { mode := .attrValue { name := u "SDT"
                             attrs := [(u "version", u "0"), (u "current", u "true")] }
          (u "transport_stream_id") '"' []
        stack := [u "tsduck"], events := [.start tsduckTag] }
      (Nat.toDigits 10 dest.serviceId.toNat ++
        u "\" original_network_id=\"2\" actual=\"true\"> <service service_id=\"")
      = some { mode := .attrValue { name := u "service" } (u "service_id") '"' []
               stack := [u "SDT", u "tsduck"]
               events := [.start tsduckTag, .start (sdtTag dest), .text (u " ")] } :=
    (run_toDigits _ (by decide) _).trans rfl
  have h₃ : run
      { mode := .attrValue { name := u "service" } (u "service_id") '"' []
        stack := [u "SDT", u "tsduck"]
        events := [.start tsduckTag, .start (sdtTag dest), .text (u " ")] }
      (Nat.toDigits 10 dest.serviceId.toNat ++
        u "\" EIT_schedule=\"false\" EIT_present_following=\"false\" running_status=\"running\" CA_mode=\"false\"><service_descriptor service_type=\"0x0C\" service_name=\"")
      = some (atServiceName dest) :=
    (run_toDigits _ (by decide) _).trans rfl
  rw [sdtFront, run_append_of_eq h₁, run_append_of_eq h₂, h₃]

end Main
