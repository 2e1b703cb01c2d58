import ProcessEngine.Json.Written
import ProcessEngine.Text.Blank

/-!
# Reading JSON

`Json.Written.ofText?` reads a text that holds exactly one value and keeps the
fields of objects as they are written, repeated ones too.  `Json.parse?` asks
for all of the value, nested less than 128 deep, and puts the fields into key
order.

A number with a point or an exponent, or outside the 64-bit range, is a float:
its leading digits that fit 64 bits are taken as a whole number, and this is
scaled by the power of ten that is left.
-/

namespace ProcessEngine

/-- A reader takes a value off the front of a text and leaves the rest. -/
abbrev Reader (α : Type) := List Char → Option (α × List Char)

/-- The text after its leading layout characters. -/
def skipLayout (cs : List Char) : List Char := cs.dropWhile Text.isLayout

/-- The text after a given word, if it starts with it. -/
def dropWord? : List Char → List Char → Option (List Char)
  | [], cs => some cs
  | w :: ws, c :: cs => if w = c then dropWord? ws cs else none
  | _ :: _, [] => none

namespace Json

/-- A number's leading digits that stay below `2 ^ 64`, added behind `sig`,
and the digits left over. -/
def absorbDigits (sig : Nat) : List Char → Nat × List Char
  | [] => (sig, [])
  | d :: ds =>
    if 10 * sig + Text.digitValue d < 2 ^ 64 then
      absorbDigits (10 * sig + Text.digitValue d) ds
    else (sig, d :: ds)

/-- The power of ten as a float. -/
def powerOfTen (n : Nat) : Float := Float.ofScientific 1 false n

/-- A whole number scaled by a power of ten, refused where it is out of the
range of floats.  Exponents below the table of powers are reached by repeated
division; after three of them nothing is left. -/
def scaled? (x : Float) (exponent : Int) : Nat → Option Float
  | 0 => some x
  | fuel + 1 =>
    if exponent.natAbs ≤ 308 then
      if 0 ≤ exponent then
        let y := x * powerOfTen exponent.natAbs
        if y.isInf then none else some y
      else some (x / powerOfTen exponent.natAbs)
    else if x == 0.0 then some x
    else if 0 ≤ exponent then none
    else scaled? (x / powerOfTen 308) (exponent + 308) fuel

/-- The digits at the front of a text, and the rest. -/
def readDigits (cs : List Char) : List Char × List Char :=
  (cs.takeWhile Text.isDigit, cs.dropWhile Text.isDigit)

/-- The exponent part of a number, zero where there is none. -/
def readExponent (cs : List Char) : Option (Int × List Char) :=
  match cs with
  | c :: rest =>
    if c = 'e' || c = 'E' then
      let (negative, rest) :=
        match rest with
        | '+' :: more => (false, more)
        | '-' :: more => (true, more)
        | _ => (false, rest)
      let (ds, rest) := readDigits rest
      if ds.isEmpty then none
      else
        let n : Int := Text.natOfDigits ds
        some (if negative then -n else n, rest)
    else some (0, cs)
  | [] => some (0, [])

/-- The value of a number without its sign: the whole number if it is one,
else the float; `none` outside the range of floats. -/
abbrev Magnitude := Option (Nat ⊕ Float)

/-- The float of some digits, scaled by a power of ten. -/
def floating (sig : Nat) (exponent : Int) : Magnitude :=
  (scaled? (Float.ofNat sig) exponent 4).map .inr

/-- A number without its sign. -/
def readMagnitude (cs : List Char) : Option (Magnitude × List Char) := do
  let (ds, rest) := readDigits cs
  if ds.isEmpty || (1 < ds.length && ds.head? == some '0') then none
  else
    let (sig, long) := absorbDigits 0 ds
    match rest with
    | '.' :: rest =>
      let (fs, rest) := readDigits rest
      if fs.isEmpty then none
      else
        let (sig, dropped) := absorbDigits sig fs
        let (e, rest) ← readExponent rest
        let shift : Int := long.length - (fs.length - dropped.length : Nat)
        some (floating sig (shift + e), rest)
    | c :: _ =>
      if c = 'e' || c = 'E' then
        let (e, rest) ← readExponent rest
        some (floating sig (long.length + e), rest)
      else if long.isEmpty then some (some (.inl sig), rest)
      else some (floating sig long.length, rest)
    | [] =>
      if long.isEmpty then some (some (.inl sig), rest)
      else some (floating sig long.length, rest)

/-- The negative of a number; a whole one stays whole from -1 down to the least
signed 64-bit number. -/
def negated : Nat ⊕ Float → Number
  | .inl n => if 0 < n ∧ n ≤ 2 ^ 63 then .whole (-n) else .float (-(Float.ofNat n))
  | .inr x => .float (-x)

/-- A number as it stands. -/
def unsigned : Nat ⊕ Float → Number
  | .inl n => .whole n
  | .inr x => .float x

/-- A number. -/
def readNumber (cs : List Char) : Option (Option Number × List Char) :=
  match cs with
  | '-' :: cs => (readMagnitude cs).map fun (value, rest) => (value.map negated, rest)
  | cs => (readMagnitude cs).map fun (value, rest) => (value.map unsigned, rest)

/-- The value of a hexadecimal digit. -/
def hexValue? (c : Char) : Option Nat :=
  if Text.isDigit c then some (Text.digitValue c)
  else if 'a' ≤ c ∧ c ≤ 'f' then some (c.toNat - 'a'.toNat + 10)
  else if 'A' ≤ c ∧ c ≤ 'F' then some (c.toNat - 'A'.toNat + 10)
  else none

/-- Four hexadecimal digits. -/
def readHex4 : Reader Nat
  | a :: b :: c :: d :: rest => do
    let a ← hexValue? a
    let b ← hexValue? b
    let c ← hexValue? c
    let d ← hexValue? d
    some (((a * 16 + b) * 16 + c) * 16 + d, rest)
  | _ => none

/-- The character that an escape of four digits starts, from its number.  One
beyond the basic plane is written as a high and a low surrogate; one of them
alone is no character. -/
def readSurrogates (high : Nat) (cs : List Char) : Option Char × List Char :=
  if 0xDC00 ≤ high ∧ high ≤ 0xDFFF then (none, cs)
  else if 0xD800 ≤ high ∧ high ≤ 0xDBFF then
    match cs with
    | '\\' :: 'u' :: rest =>
      match readHex4 rest with
      | some (low, rest) =>
        if 0xDC00 ≤ low ∧ low ≤ 0xDFFF then
          (some (Char.ofNat (0x10000 + (high - 0xD800) * 1024 + (low - 0xDC00))), rest)
        else (none, cs)
      | none => (none, cs)
    | _ => (none, cs)
  else (some (Char.ofNat high), cs)

/-- The character of an escape, after its backslash. -/
def readEscape : Reader (Option Char)
  | '"' :: rest => some (some '"', rest)
  | '\\' :: rest => some (some '\\', rest)
  | '/' :: rest => some (some '/', rest)
  | 'b' :: rest => some (some '\x08', rest)
  | 'f' :: rest => some (some '\x0c', rest)
  | 'n' :: rest => some (some '\n', rest)
  | 'r' :: rest => some (some '\r', rest)
  | 't' :: rest => some (some '\t', rest)
  | 'u' :: rest => (readHex4 rest).map fun (high, rest) => readSurrogates high rest
  | _ => none

/-- The characters of a string after its opening quote, onto `done`, which is
in reverse and `none` once an escape was no character. -/
def readStringTail (done : Option (List Char)) : Nat → Reader (Option String)
  | 0, _ => none
  | _ + 1, [] => none
  | fuel + 1, c :: rest =>
    if c = '"' then some (done.map fun done => String.ofList done.reverse, rest)
    else if c = '\\' then
      match readEscape rest with
      | some (some e, rest) => readStringTail (done.map (e :: ·)) fuel rest
      | some (none, rest) => readStringTail none fuel rest
      | none => none
    else if c < ' ' then none
    else readStringTail (done.map (c :: ·)) fuel rest

/-- A string of fewer than `fuel` characters, from its opening quote. -/
def readString (fuel : Nat) : Reader (Option String)
  | '"' :: rest => readStringTail (some []) fuel rest
  | _ => none

/-- One or more items between commas, up to a closing character; no more than
`fuel` of them. -/
def readItems {α : Type} (item : Reader α) (close : Char) : Nat → Reader (List α)
  | 0, _ => none
  | fuel + 1, cs =>
    match item (skipLayout cs) with
    | none => none
    | some (x, rest) =>
      match skipLayout rest with
      | [] => none
      | c :: rest =>
        if c = ',' then
          match readItems item close fuel rest with
          | some (xs, rest) => some (x :: xs, rest)
          | none => none
        else if c = close then some ([x], rest)
        else none

/-- Items between commas up to a closing character, or none at all. -/
def readSequence {α : Type} (fuel : Nat) (item : Reader α) (close : Char) :
    Reader (List α) := fun cs =>
  match skipLayout cs with
  | [] => none
  | c :: rest => if c = close then some ([], rest) else readItems item close fuel cs

/-- A field of an object: its key, a colon and its value. -/
def readField (fuel : Nat) (value : Reader Written) : Reader (Option String × Written) :=
  fun cs => do
    let (key, rest) ← readString fuel cs
    match skipLayout rest with
    | ':' :: rest =>
      let (x, rest) ← value (skipLayout rest)
      some ((key, x), rest)
    | _ => none

/-- A value with fewer than `depth` containers inside one another, from a text
shorter than `fuel`. -/
def readValue (fuel : Nat) : Nat → Reader Written
  | 0, _ => none
  | depth + 1, cs =>
    match cs with
    | [] => none
    | 'n' :: _ => (dropWord? ['n', 'u', 'l', 'l'] cs).map fun rest => (.null, rest)
    | 't' :: _ => (dropWord? ['t', 'r', 'u', 'e'] cs).map fun rest => (.bool true, rest)
    | 'f' :: _ => (dropWord? ['f', 'a', 'l', 's', 'e'] cs).map fun rest => (.bool false, rest)
    | '"' :: _ => (readString fuel cs).map fun (s, rest) => (.string s, rest)
    | '[' :: rest =>
      (readSequence fuel (readValue fuel depth) ']' rest).map fun (xs, rest) => (.array xs, rest)
    | '\x7b' :: rest =>
      (readSequence fuel (readField fuel (readValue fuel depth)) '\x7d' rest).map
        fun (fields, rest) => (.object fields, rest)
    | _ => (readNumber cs).map fun (n, rest) => (.number n, rest)

/-- The one value of a text as it is written.  No text has as many containers
as characters inside one another, so that the depth does not bound it. -/
def Written.ofText? (text : String) : Option Written :=
  let cs := text.toList
  match readValue (cs.length + 1) (cs.length + 1) (skipLayout cs) with
  | some (value, rest) => if (skipLayout rest).isEmpty then some value else none
  | none => none

/-- How many containers of a text may lie inside one another. -/
def nestingLimit : Nat := 127

/-- The one value of a text. -/
def parse? (text : String) : Option Json :=
  ((Written.ofText? text).bind (·.settle? .whole nestingLimit)).map normal

end Json

end ProcessEngine
