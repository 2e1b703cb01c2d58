import ProcessEngine.Json.Reader

/-!
# Entities

Markup text writes a character as `&name;`, `&#10;` or `&#xA;`.  `unescape`
puts the characters in place; a reference that is not closed, a name that is
not in the table and a number that is no character make the text unreadable.
-/

namespace ProcessEngine.Markup

/-- The named characters with their code points.  The three Greek names are kept
without the last hexadecimal digit of their code points. -/
def entityTable : List (String × Nat) :=
  [("quot", 0x22), ("QUOT", 0x22), ("apos", 0x27), ("lt", 0x3C), ("LT", 0x3C),
   ("gt", 0x3E), ("GT", 0x3E), ("amp", 0x26), ("AMP", 0x26), ("nbsp", 0xA0),
   ("copy", 0xA9), ("reg", 0xAE), ("deg", 0xB0), ("plusmn", 0xB1), ("sup2", 0xB2),
   ("micro", 0xB5), ("para", 0xB6), ("frac12", 0xBD), ("times", 0xD7), ("divide", 0xF7),
   ("Auml", 0xC4), ("auml", 0xE4), ("uuml", 0xFC), ("Ouml", 0xD6), ("szlig", 0xDF),
   ("eacute", 0xE9), ("Eacute", 0xC9), ("ccedil", 0xE7), ("ntilde", 0xF1), ("alpha", 0x3B),
   ("Omega", 0x3A), ("pi", 0x3C), ("bull", 0x2022), ("hellip", 0x2026), ("euro", 0x20AC),
   ("trade", 0x2122), ("larr", 0x2190), ("rarr", 0x2192), ("sum", 0x2211), ("le", 0x2264),
   ("ge", 0x2265), ("ne", 0x2260), ("infin", 0x221E), ("ndash", 0x2013), ("mdash", 0x2014),
   ("lsquo", 0x2018), ("rsquo", 0x2019), ("ldquo", 0x201C), ("rdquo", 0x201D),
   ("Tab", 0x9), ("NewLine", 0xA), ("excl", 0x21), ("lpar", 0x28)]

/-- The character of an entity name. -/
def namedEntity? (name : String) : Option Char :=
  ((entityTable.find? fun entry => entry.1 == name)).map fun entry => Char.ofNat entry.2

/-- The number that digits write in a base up to sixteen, below `2 ^ 32`. -/
def numberInBase? (base : Nat) (cs : List Char) : Option Nat :=
  if cs.isEmpty then none
  else
    cs.foldl (fun sum c =>
      match sum, Json.hexValue? c with
      | some n, some d =>
        if d < base ∧ base * n + d < 2 ^ 32 then some (base * n + d) else none
      | _, _ => none) (some 0)

/-- The character with a code point, but for zero. -/
def characterOf? (n : Nat) : Option Char :=
  if n ≠ 0 ∧ n.isValidChar then some (Char.ofNat n) else none

/-- The character that stands for the text between `&` and `;`. -/
def reference? : List Char → Option Char
  | '#' :: 'x' :: ds => (numberInBase? 16 ds).bind characterOf?
  | '#' :: ds => (numberInBase? 10 ds).bind characterOf?
  | name => namedEntity? (String.ofList name)

/-- The characters of a text with its references resolved; `pending` holds, in
reverse, what has been read of a reference. -/
def unescapeFrom (pending : Option (List Char)) : List Char → Option (List Char)
  | [] => if pending.isNone then some [] else none
  | c :: cs =>
    match pending with
    | none =>
      if c = '&' then unescapeFrom (some []) cs
      else (unescapeFrom none cs).map fun rest => c :: rest
    | some name =>
      if c = '&' then none
      else if c = ';' then
        match reference? name.reverse with
        | some d => (unescapeFrom none cs).map fun rest => d :: rest
        | none => none
      else unescapeFrom (some (c :: name)) cs

/-- A text with its references resolved. -/
def unescape (text : String) : Option String :=
  (unescapeFrom none text.toList).map String.ofList

end ProcessEngine.Markup
