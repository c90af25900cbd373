import Mathlib.Data.List.Basic

/-!
# Machinery/Xml/Reader — a reader of XML documents, one character at a time

    content ──<──▸ markup ──▸ tagName ──▸ inTag ──▸ attrName ──=──▸ attrOpen ──"──▸ attrValue
       ▴                                    ▴ │                                        │
       └──────────────────> ────────────────┴─┼──────────────────────"─────────────────┘

The well-formedness rules of XML 1.0 as a state machine: `step` reads one character, `none` is a
document that is not well-formed.  What a document says is the list of its `Event`s.  Entities are
the five predefined ones and character references (there is no DTD); what stands inside the XML
declaration is not checked.
-/

namespace Xml

/-! ## Characters and names -/

/-- `Char` of the grammar. -/
def isChar (c : Char) : Bool :=
  let n := c.toNat
  n == 0x9 || n == 0xA || n == 0xD || (0x20 ≤ n && n ≤ 0xD7FF) || (0xE000 ≤ n && n ≤ 0xFFFD) ||
    (0x10000 ≤ n && n ≤ 0x10FFFF)

/-- `S`: white space. -/
def isSpace (c : Char) : Bool := c == ' ' || c == '\t' || c == '\n' || c == '\r'

/-- `NameStartChar`. -/
def isNameStart (c : Char) : Bool :=
  let n := c.toNat
  c == ':' || c == '_' || (0x41 ≤ n && n ≤ 0x5A) || (0x61 ≤ n && n ≤ 0x7A) ||
    (0xC0 ≤ n && n ≤ 0xD6) || (0xD8 ≤ n && n ≤ 0xF6) || (0xF8 ≤ n && n ≤ 0x2FF) ||
    (0x370 ≤ n && n ≤ 0x37D) || (0x37F ≤ n && n ≤ 0x1FFF) || (0x200C ≤ n && n ≤ 0x200D) ||
    (0x2070 ≤ n && n ≤ 0x218F) || (0x2C00 ≤ n && n ≤ 0x2FEF) || (0x3001 ≤ n && n ≤ 0xD7FF) ||
    (0xF900 ≤ n && n ≤ 0xFDCF) || (0xFDF0 ≤ n && n ≤ 0xFFFD) || (0x10000 ≤ n && n ≤ 0xEFFFF)

/-- `NameChar`. -/
def isNameChar (c : Char) : Bool :=
  let n := c.toNat
  isNameStart c || c == '-' || c == '.' || (0x30 ≤ n && n ≤ 0x39) || n == 0xB7 ||
    (0x300 ≤ n && n ≤ 0x36F) || (0x203F ≤ n && n ≤ 0x2040)

/-- Whether a name can go on with a character. -/
def goesOn (name : List Char) (c : Char) : Bool :=
  if name = [] then isNameStart c else isNameChar c

/-! ## References -/

/-- The value of a digit in base 10 or 16. -/
def digit (base : ℕ) (c : Char) : Option ℕ :=
  if c.isDigit then some (c.toNat - '0'.toNat)
  else if base = 16 ∧ 'a' ≤ c ∧ c ≤ 'f' then some (c.toNat - 'a'.toNat + 10)
  else if base = 16 ∧ 'A' ≤ c ∧ c ≤ 'F' then some (c.toNat - 'A'.toNat + 10)
  else none

/-- The number that digits write. -/
def number (base : ℕ) (digits : List Char) : Option ℕ :=
  if digits = [] then none
  else digits.foldlM (fun n c => (digit base c).map (base * n + ·)) 0

/-- The character a character reference names, if it is one of the grammar's. -/
def charOfNumber (n : ℕ) : Option Char :=
  if n.isValidChar ∧ isChar (Char.ofNat n) then some (Char.ofNat n) else none

/-- What stands between `&` and `;`. -/
def reference (ref : List Char) : Option Char :=
  if ref = "lt".toList then some '<'
  else if ref = "gt".toList then some '>'
  else if ref = "amp".toList then some '&'
  else if ref = "apos".toList then some '\''
  else if ref = "quot".toList then some '"'
  else
    match ref with
    | '#' :: 'x' :: digits => (number 16 digits).bind charOfNumber
    | '#' :: digits => (number 10 digits).bind charOfNumber
    | _ => none

/-- Raw text with its references expanded and every other character put through `norm`; the first
argument is the reference begun. -/
def expandFrom (norm : Char → Char) : Option (List Char) → List Char → Option (List Char)
  | none, [] => some []
  | some _, [] => none
  | none, c :: raw =>
    if c = '&' then expandFrom norm (some []) raw
    else (expandFrom norm none raw).map (norm c :: ·)
  | some ref, c :: raw =>
    if c = ';' then (reference ref).bind fun d => (expandFrom norm none raw).map (d :: ·)
    else expandFrom norm (some (ref ++ [c])) raw

/-- Attribute-value normalization of a character that stands for itself. -/
def spaceOut (c : Char) : Char := if isSpace c then ' ' else c

/-- The value of an attribute, from the text between its quotes. -/
def attributeValue (raw : List Char) : Option (List Char) := expandFrom spaceOut none raw

/-- Character data, from its text. -/
def characterData (raw : List Char) : Option (List Char) := expandFrom id none raw

/-! ## The reader -/

/-- A start tag. -/
structure Tag where
  name : List Char
  attrs : List (List Char × List Char) := []
  deriving DecidableEq

/-- What a document says, in document order; an empty-element tag is a start and a finish. -/
inductive Event
  | start (tag : Tag)
  | text (content : List Char)
  | finish (name : List Char)
  deriving DecidableEq

/-- Where in the grammar the reader is; the text being read is kept as it stands. -/
inductive Mode
  /-- in content, since the last markup -/
  | content (raw : List Char)
  /-- after `<` -/
  | markup
  /-- after `<!` -/
  | declaration (seen : List Char)
  /-- in a comment, after so many `-` in a row -/
  | comment (dashes : ℕ)
  | cdata (text : List Char)
  /-- after `<?` -/
  | instruction (text : List Char)
  | tagName (name : List Char)
  /-- between the attributes of a tag; `spaced` is whether white space was read -/
  | inTag (tag : Tag) (spaced : Bool)
  | attrName (tag : Tag) (name : List Char)
  /-- after the name of an attribute, before `=` -/
  | attrEq (tag : Tag) (name : List Char)
  /-- after `=`, before the quote -/
  | attrOpen (tag : Tag) (name : List Char)
  | attrValue (tag : Tag) (name : List Char) (quote : Char) (raw : List Char)
  /-- after the `/` of an empty-element tag -/
  | emptyTag (tag : Tag)
  | endName (name : List Char)
  /-- after the name of an end tag, before `>` -/
  | endSpace (name : List Char)

structure State where
  mode : Mode := .content []
  /-- the open elements, the innermost first -/
  stack : List (List Char) := []
  events : List Event := []

/-- Whether `]]>` stands somewhere in a text. -/
def hasCdataEnd : List Char → Bool
  | [] => false
  | c :: rest => "]]>".toList.isPrefixOf (c :: rest) || hasCdataEnd rest

/-- The end of a run of character data: outside the root only white space may stand. -/
def State.flush (s : State) (raw : List Char) : Option State :=
  if raw = [] then some s
  else if s.stack = [] then if raw.all isSpace then some s else none
  else if hasCdataEnd raw then none
  else (characterData raw).map fun content => { s with events := s.events ++ [.text content] }

/-- The end of a start tag: there is one root. -/
def State.start (s : State) (tag : Tag) : Option State :=
  if s.stack = [] ∧ s.events ≠ [] then none
  else some { s with
    mode := .content [], stack := tag.name :: s.stack, events := s.events ++ [.start tag] }

/-- The end of an element. -/
def State.finish (s : State) (name : List Char) : Option State :=
  match s.stack with
  | [] => none
  | top :: stack =>
    if top = name then
      some { mode := .content [], stack := stack, events := s.events ++ [.finish name] }
    else none

/-- The end of an attribute: no tag has one name twice. -/
def Tag.add (tag : Tag) (name raw : List Char) : Option Tag :=
  if name ∈ tag.attrs.map Prod.fst then none
  else (attributeValue raw).map fun value => { tag with attrs := tag.attrs ++ [(name, value)] }

/-- The end of a processing instruction; `xml` is no target. -/
def isInstruction (text : List Char) : Bool :=
  let target := text.takeWhile fun c => !isSpace c
  match target with
  | [] => false
  | c :: rest => isNameStart c && rest.all isNameChar && target.map Char.toLower != "xml".toList

def stepMarkup (s : State) (c : Char) : Option State :=
  if c = '/' then some { s with mode := .endName [] }
  else if c = '?' then some { s with mode := .instruction [] }
  else if c = '!' then some { s with mode := .declaration [] }
  else if isNameStart c then some { s with mode := .tagName [c] }
  else none

def stepDeclaration (s : State) (seen : List Char) : Option State :=
  if seen = "--".toList then some { s with mode := .comment 0 }
  else if seen = "[CDATA[".toList then
    if s.stack = [] then none else some { s with mode := .cdata [] }
  else if seen.isPrefixOf "--".toList || seen.isPrefixOf "[CDATA[".toList then
    some { s with mode := .declaration seen }
  else none

def stepComment (s : State) (dashes : ℕ) (c : Char) : Option State :=
  if dashes = 2 then if c = '>' then some { s with mode := .content [] } else none
  else some { s with mode := .comment (if c = '-' then dashes + 1 else 0) }

def stepCdata (s : State) (text : List Char) : Option State :=
  if "]]>".toList.isSuffixOf text then
    some { s with mode := .content [], events := s.events ++ [.text (text.take (text.length - 3))] }
  else some { s with mode := .cdata text }

def stepInstruction (s : State) (text : List Char) : Option State :=
  if "?>".toList.isSuffixOf text then
    if isInstruction (text.take (text.length - 2)) then some { s with mode := .content [] }
    else none
  else some { s with mode := .instruction text }

def stepInTag (s : State) (tag : Tag) (spaced : Bool) (c : Char) : Option State :=
  if isSpace c then some { s with mode := .inTag tag true }
  else if c = '>' then s.start tag
  else if c = '/' then some { s with mode := .emptyTag tag }
  else if spaced ∧ isNameStart c then some { s with mode := .attrName tag [c] }
  else none

def stepAttrEq (s : State) (tag : Tag) (name : List Char) (c : Char) : Option State :=
  if isSpace c then some { s with mode := .attrEq tag name }
  else if c = '=' then some { s with mode := .attrOpen tag name }
  else none

def stepEndSpace (s : State) (name : List Char) (c : Char) : Option State :=
  if isSpace c then some { s with mode := .endSpace name }
  else if c = '>' then s.finish name
  else none

def stepEndName (s : State) (name : List Char) (c : Char) : Option State :=
  if goesOn name c then some { s with mode := .endName (name ++ [c]) }
  else if name = [] then none
  else stepEndSpace s name c

/-- A legal character, read in the given mode. -/
def stepIn (s : State) (c : Char) : Mode → Option State
  | .content raw =>
    if c = '<' then (s.flush raw).map fun t => { t with mode := .markup }
    else some { s with mode := .content (raw ++ [c]) }
  | .markup => stepMarkup s c
  | .declaration seen => stepDeclaration s (seen ++ [c])
  | .comment dashes => stepComment s dashes c
  | .cdata text => stepCdata s (text ++ [c])
  | .instruction text => stepInstruction s (text ++ [c])
  | .tagName name =>
    if isNameChar c then some { s with mode := .tagName (name ++ [c]) }
    else stepInTag s { name := name } false c
  | .inTag tag spaced => stepInTag s tag spaced c
  | .attrName tag name =>
    if isNameChar c then some { s with mode := .attrName tag (name ++ [c]) }
    else stepAttrEq s tag name c
  | .attrEq tag name => stepAttrEq s tag name c
  | .attrOpen tag name =>
    if isSpace c then some { s with mode := .attrOpen tag name }
    else if c = '"' ∨ c = '\'' then some { s with mode := .attrValue tag name c [] }
    else none
  | .attrValue tag name quote raw =>
    if c = quote then (tag.add name raw).map fun tag => { s with mode := .inTag tag false }
    else if c = '<' then none
    else some { s with mode := .attrValue tag name quote (raw ++ [c]) }
  | .emptyTag tag => if c = '>' then (s.start tag).bind fun t => t.finish tag.name else none
  | .endName name => stepEndName s name c
  | .endSpace name => stepEndSpace s name c

/-- One character. -/
def step (s : State) (c : Char) : Option State := if isChar c then stepIn s c s.mode else none

def run (s : State) (doc : List Char) : Option State := doc.foldlM step s

/-- Every line end is one line feed. -/
def normalizeLineEnds : List Char → List Char
  | [] => []
  | c :: rest =>
    if c = '\r' then
      if rest.head? = some '\n' then normalizeLineEnds rest else '\n' :: normalizeLineEnds rest
    else c :: normalizeLineEnds rest

/-- The document behind its XML declaration, if it has one. -/
def dropDeclaration (doc : List Char) : List Char :=
  if "<?xml ".toList.isPrefixOf doc then (doc.dropWhile (· ≠ '>')).tail else doc

/-- The end of a document: one root, and it is closed. -/
def State.close (s : State) : Option (List Event) :=
  match s.mode with
  | .content raw => if s.stack = [] ∧ s.events ≠ [] ∧ raw.all isSpace then some s.events else none
  | _ => none

/-- **What a document says**; `none` where it is not well-formed. -/
def read (doc : List Char) : Option (List Event) :=
  (run {} (dropDeclaration (normalizeLineEnds doc))).bind State.close

/-- The events read before a document ends or goes wrong. -/
def scan (s : State) : List Char → List Event
  | [] => s.events
  | c :: doc =>
    match step s c with
    | none => s.events
    | some t => scan t doc

/-- What a document says as far as it is well-formed. -/
def skim (doc : List Char) : List Event := scan {} (dropDeclaration (normalizeLineEnds doc))

/-! ## Looking things up -/

def tags (events : List Event) : List Tag :=
  events.filterMap fun | .start tag => some tag | _ => none

/-- An attribute of the first element with a name. -/
def attributeOf (events : List Event) (element name : List Char) : Option (List Char) :=
  ((tags events).find? (·.name = element)).bind fun tag => tag.attrs.lookup name

end Xml
