import ProcessEngine.Engine.Basic
import ProcessEngine.Yaml.Node

/-!
# Settings

The settings of an engine, read from a YAML mapping.  Each has a value of its
own where it is left out; settings of other names are passed over.
-/

namespace ProcessEngine

/-- How much effort goes into packing the sources in a snapshot. -/
inductive Compression where
  | fast
  | normal
  | best
deriving Repr, DecidableEq

namespace Compression

/-- The written name of a compression. -/
def name : Compression → String
  | fast => "fast"
  | normal => "default"
  | best => "best"

/-- The compression with a written name. -/
def ofName? (name : String) : Option Compression :=
  [fast, normal, best].find? fun c => c.name == name

theorem ofName?_name (c : Compression) : ofName? c.name = some c := by
  cases c <;> decide

/-- The level of a compression, from one to nine. -/
def level : Compression → Nat
  | fast => 1
  | normal => 6
  | best => 9

end Compression

/-- The settings of an engine. -/
structure Settings where
  name : String := defaultEngineName
  machineId : Option Nat := none
  compression : Compression := .normal
deriving Repr, DecidableEq

/-- Why there are no settings. -/
inductive SettingsError where
  | malformed
  | unreadableFile (name : String)
  | malformedFile (name : String)
deriving Repr, DecidableEq

/-- The text of a settings error. -/
def SettingsError.message : SettingsError → String
  | malformed => "Parsing engine configuration"
  | unreadableFile name => "Reading " ++ name
  | malformedFile name => "Parsing " ++ name

namespace Settings

open Yaml (Document Node Scalar)

/-- A digit in a base of at most sixteen. -/
def digit? (base : Nat) (c : Char) : Option Nat :=
  match Json.hexValue? c with
  | some v => if v < base then some v else none
  | none => none

/-- The number that digits in a base give. -/
def digits? (base : Nat) (cs : List Char) : Option Nat :=
  if cs.isEmpty then none
  else (cs.mapM (digit? base)).map fun values => values.foldl (fun n v => n * base + v) 0

/-- A number in decimal without leading zeros, or after `0x`, `0o` or `0b` in
base sixteen, eight or two; a plus may stand in front. -/
def unsigned? (text : String) : Option Nat :=
  let cs := if text.toList.head? = some '+' then text.toList.drop 1 else text.toList
  match cs with
  | '0' :: 'x' :: rest => digits? 16 rest
  | '0' :: 'o' :: rest => digits? 8 rest
  | '0' :: 'b' :: rest => digits? 2 rest
  | '0' :: _ :: _ => none
  | cs => digits? 10 cs

/-- The tag of the YAML core schema with a name. -/
def coreTag (name : String) : Yaml.Octets := Yaml.octets ("tag:yaml.org,2002:" ++ name)

/-- The name of a local tag. -/
def localTag? (s : Scalar) : Option String :=
  match s.tag with
  | some (mark :: name) =>
    if mark = '!'.toUInt8 then String.fromUTF8? ⟨name.toArray⟩ else none
  | _ => none

/-- A text for null. -/
def isNull (text : String) : Bool := ["~", "null", "Null", "NULL"].contains text

/-- A number of sixteen bits: a plain scalar, or a literal one with the tag of
whole numbers. -/
def number? (s : Scalar) : Option Nat :=
  if s.style = .plain ∨ (s.style = .literal ∧ s.tag = some (coreTag "int")) then
    (unsigned? s.text).filter (· < 2 ^ 16)
  else none

/-- A number of sixteen bits, or none of them for a plain null.  A plain scalar
with the tag of null has to be one, and one with another tag is none. -/
def machineId? (s : Scalar) : Option (Option Nat) :=
  if s.style = .plain ∧ s.tag = some (coreTag "null") then
    if isNull s.text then some none else none
  else if s.style = .plain ∧ s.tag = none ∧ (s.text.isEmpty ∨ isNull s.text) then some none
  else (number? s).map some

/-- A compression by its name, or by a local tag before a plain null. -/
def compression? (s : Scalar) : Option Compression :=
  match localTag? s with
  | some name =>
    if s.style = .plain ∧ (s.text.isEmpty ∨ isNull s.text) then Compression.ofName? name else none
  | none => Compression.ofName? s.text

/-- The scalar that a node is or refers to. -/
def scalar? (document : Document) : Node → Option Scalar
  | .scalar s => some s
  | .reference n => (document.numbered.lookup n).join
  | _ => none

/-- The values written under a name; `none` where a name is no scalar. -/
def valuesOf? (document : Document) (entries : List (Node × Node)) (name : String) :
    Option (List Node) :=
  entries.foldrM (fun entry found =>
    (scalar? document entry.1).map fun key =>
      if key.text = name then entry.2 :: found else found) []

/-- A setting that may be left out but not repeated. -/
def setting? {α : Type} (document : Document) (entries : List (Node × Node)) (name : String)
    (default : α) (decode : Scalar → Option α) : Option α :=
  match valuesOf? document entries name with
  | some [] => some default
  | some [value] => (scalar? document value).bind decode
  | _ => none

/-- The settings that a document gives; a plain scalar without text gives none
of them. -/
def ofDocument? (document : Document) : Option Settings :=
  match document.root with
  | .mapping entries => do
    some
      { name := ← setting? document entries "name" defaultEngineName fun s => some s.text
        machineId := ← setting? document entries "machine_id" none machineId?
        compression := ← setting? document entries "snapshot_compression" .normal compression? }
  | .scalar s => if s.style = .plain ∧ s.text.isEmpty then some {} else none
  | _ => none

/-- The settings that a text gives. -/
def ofText (text : String) : Except SettingsError Settings :=
  match (Document.ofText? text).bind ofDocument? with
  | some settings => .ok settings
  | none => .error .malformed

/-- The settings that a file gives; its content is `none` if there is no such
file. -/
def ofFile (name : String) (content : Option ByteArray) : Except SettingsError Settings :=
  match content.bind String.fromUTF8? with
  | none => .error (.unreadableFile name)
  | some text =>
    match ofText text with
    | .ok settings => .ok settings
    | .error _ => .error (.malformedFile name)

/-- A blank engine with these settings. -/
def engine (s : Settings) (keys : KeySequence) (now : Instant) : Engine := .fresh s.name keys now

end Settings

end ProcessEngine
