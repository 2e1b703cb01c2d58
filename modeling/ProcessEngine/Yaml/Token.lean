import ProcessEngine.Yaml.Scalar

/-!
# YAML tokens

The tokens of a text, and the readers of those that lie on one line and are no
scalars: names of nodes, tags and directives.

A tag is kept in octets, because it may be written with escapes for them.  A
zero octet and what follows it do not count.
-/

namespace ProcessEngine.Yaml

/-- How a scalar is written. -/
inductive Style where
  | plain
  | quoted
  | literal
  | folded
deriving Repr, DecidableEq

/-- The UTF-8 form of a part of a tag. -/
abbrev Octets := List UInt8

/-- The octets of a text. -/
def octets (text : String) : Octets := text.toUTF8.data.toList

/-- The octets before the first zero. -/
def beforeZero (text : Octets) : Octets := text.takeWhile (· != 0)

/-- The octets of ASCII characters. -/
def asciiOctets (cs : List Char) : Octets := cs.map fun c => UInt8.ofNat c.toNat

/-- A token of a text. -/
inductive Token where
  /-- The directive that gives the version. -/
  | version (major minor : Nat)
  /-- The directive that gives the start of all tags with a handle. -/
  | tagStart (handle start : Octets)
  | documentStart
  | documentEnd
  /-- The place from which on items stand in one column. -/
  | blockSequence
  /-- The place from which on keys stand in one column. -/
  | blockMapping
  | blockEnd
  | flowSequence
  | flowSequenceEnd
  | flowMapping
  | flowMappingEnd
  /-- The dash before an item of a block. -/
  | item
  /-- The comma between the parts of a flow collection. -/
  | comma
  | key
  | value
  /-- The name of a node that stands elsewhere. -/
  | reference (name : String)
  /-- The name of the node that follows. -/
  | anchor (name : String)
  | tag (handle suffix : Octets)
  | scalar (style : Style) (text : String)
deriving Repr, DecidableEq

/-! ## Names -/

/-- A character of a name. -/
def isNameChar (c : Char) : Bool := Text.isLetter c || Text.isDigit c || c == '_' || c == '-'

/-- A name that ends before a blank or an indicator. -/
def name? : Reader String := fun cs =>
  let name := cs.takeWhile isNameChar
  let rest := cs.drop name.length
  if !name.isEmpty &&
      (startsBlank rest || startsWith ['?', ':', ',', ']', '\x7d', '%', '@', '\u0060'] rest) then
    some (String.ofList name, rest)
  else none

/-! ## Tags -/

/-- An octet in hexadecimal after a percent sign. -/
def octet? : Reader UInt8
  | '%' :: a :: b :: rest => do
    some (UInt8.ofNat ((← Json.hexValue? a) * 16 + (← Json.hexValue? b)), rest)
  | _ => none

/-- Some octets that continue a character. -/
def continuation? : Nat → Reader Octets
  | 0, cs => some ([], cs)
  | n + 1, cs => do
    let (b, rest) ← octet? cs
    let (more, rest) ← if b &&& 0xC0 = 0x80 then continuation? n rest else none
    some (b :: more, rest)

/-- The escaped octets of one character, the first of which tells how many
continue it. -/
def escapedOctets? : Reader Octets := fun cs => do
  let (b, rest) ← octet? cs
  let more ←
    if b &&& 0x80 = 0 then some 0
    else if b &&& 0xE0 = 0xC0 then some 1
    else if b &&& 0xF0 = 0xE0 then some 2
    else if b &&& 0xF8 = 0xF0 then some 3
    else none
  let (continued, rest) ← continuation? more rest
  some (b :: continued, rest)

/-- A character of a tag, with `marks` also one of some marks of flow
collections. -/
def isTagChar (marks : Bool) (c : Char) : Bool :=
  isNameChar c ||
    c ∈ [';', '/', '?', ':', '@', '&', '=', '+', '$', '.', '!', '~', '*', '\'', '(', ')'] ||
    (marks && c ∈ [',', '[', ']'])

/-- The longest part of a tag at the front of a text, which has fewer than
`fuel` characters. -/
def tagPart? (marks : Bool) : Nat → Reader Octets
  | 0, _ => none
  | _ + 1, [] => some ([], [])
  | fuel + 1, c :: rest =>
    if c = '%' then do
      let (part, rest) ← escapedOctets? (c :: rest)
      let (more, rest) ← tagPart? marks fuel rest
      some (part ++ more, rest)
    else if isTagChar marks c then
      (tagPart? marks fuel rest).map fun (more, rest) => (UInt8.ofNat c.toNat :: more, rest)
    else some ([], c :: rest)

/-- A part of a tag with at least one octet. -/
def tagText? (marks : Bool) : Reader Octets := fun cs => do
  let (part, rest) ← tagPart? marks (cs.length + 1) cs
  if part.isEmpty then none else some (part, rest)

/-- The characters of a handle: an exclamation mark, a name that may be empty,
and perhaps a second mark. -/
def handle? : Reader (List Char)
  | '!' :: cs =>
    let name := cs.takeWhile isNameChar
    let rest := cs.drop name.length
    if rest.head? = some '!' then some ('!' :: name ++ ['!'], rest.drop 1)
    else some ('!' :: name, rest)
  | _ => none

/-- Whether a handle has its second mark. -/
def isFullHandle (handle : List Char) : Bool :=
  decide (1 < handle.length) && handle.getLast? == some '!'

/-- A tag: verbatim between angle brackets, with a full handle, or local.  The
mark alone is a tag of its own. -/
def tag? (flow : Bool) : Reader Token := fun cs => do
  let (token, rest) ←
    match cs with
    | '!' :: '<' :: cs => do
      let (text, rest) ← tagText? true cs
      if rest.head? = some '>' then some (Token.tag [] (beforeZero text), rest.drop 1) else none
    | cs => do
      let (handle, rest) ← handle? cs
      if isFullHandle handle then do
        let (text, rest) ← tagText? false rest
        some (Token.tag (asciiOctets handle) (beforeZero text), rest)
      else do
        let (more, rest) ← tagPart? false (rest.length + 1) rest
        let text := beforeZero (asciiOctets (handle.drop 1) ++ more)
        let mark := asciiOctets ['!']
        some (if text.isEmpty then Token.tag [] mark else Token.tag mark text, rest)
  if startsBlank rest || (flow && rest.head? == some ',') then some (token, rest) else none

/-! ## Directives -/

/-- A number of a version, of at most nine digits. -/
def versionNumber? : Reader Nat := fun cs =>
  let digits := cs.takeWhile Text.isDigit
  if digits.isEmpty || decide (9 < digits.length) then none
  else some (Text.natOfDigits digits, cs.drop digits.length)

/-- The version behind the name of its directive. -/
def version? : Reader Token := fun cs => do
  let (major, rest) ← versionNumber? (cs.dropWhile isGap)
  let (minor, rest) ←
    match rest with
    | '.' :: rest => versionNumber? rest
    | _ => none
  some (.version major minor, rest)

/-- The handle and the start of tags behind the name of their directive. -/
def tagStart? : Reader Token := fun cs => do
  let (handle, rest) ← handle? (cs.dropWhile isGap)
  let (start, rest) ←
    if (isFullHandle handle || handle == ['!']) && startsWith [' ', '\t'] rest then
      tagText? true (rest.dropWhile isGap)
    else none
  if startsBlank rest then some (.tagStart (asciiOctets handle) (beforeZero start), rest)
  else none

/-- A directive after its percent sign, with its line end. -/
def directive? : Reader Token := fun cs => do
  let name := cs.takeWhile isNameChar
  let rest := cs.drop name.length
  let (token, rest) ←
    if !startsBlank rest then none
    else if name = "YAML".toList then version? rest
    else if name = "TAG".toList then tagStart? rest
    else none
  let line := rest.takeWhile (!isBreak ·)
  if idle line then some (token, rest.drop (line.length + 1)) else none

end ProcessEngine.Yaml
