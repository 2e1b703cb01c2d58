import ProcessEngine.Markup.Token

/-!
# Attributes

`Tag.attribute?` looks an attribute up by its local name.  It reads the
attributes one by one and stops at the first match, so a fault behind the
match does no harm; only the value of the match is unescaped.
-/

namespace ProcessEngine.Markup

/-- An attribute's full name and its value as written. -/
structure Attribute where
  name : List Char
  value : List Char
deriving Repr, DecidableEq

/-- A value between quotes and the text after it. -/
def readQuotedValue (cs : List Char) : Option (List Char × List Char) :=
  match skipLayout cs with
  | mark :: rest =>
    if mark = '"' ∨ mark = '\'' then
      match rest.dropWhile (· != mark) with
      | _ :: after => some (rest.takeWhile (· != mark), after)
      | [] => none
    else none
  | [] => none

/-- An attribute from its first character; `taken` are the names that came
before, none of which may occur again. -/
def readAttribute (taken : List (List Char)) (first : Char) (cs : List Char) :
    Option (Attribute × List Char) :=
  let ends (c : Char) : Bool := c == '=' || Text.isLayout c
  let name := first :: cs.takeWhile (!ends ·)
  match skipLayout (cs.dropWhile (!ends ·)) with
  | '=' :: rest =>
    if name ∈ taken then none
    else (readQuotedValue rest).map fun (value, rest) => (⟨name, value⟩, rest)
  | _ => none

/-- The value of the first attribute with a local name: `none` at a fault, and
`some none` where there is no such attribute. -/
def findAttribute (key : List Char) :
    Nat → List (List Char) → List Char → Option (Option String)
  | 0, _, _ => none
  | fuel + 1, taken, cs =>
    match skipLayout cs with
    | [] => some none
    | first :: rest =>
      match readAttribute taken first rest with
      | none => none
      | some (a, rest) =>
        if localName a.name = key then (unescape (String.ofList a.value)).map some
        else findAttribute key fuel (a.name :: taken) rest

/-- The value of an attribute by its local name. -/
def Tag.attribute? (tag : Tag) (key : String) : Option (Option String) :=
  findAttribute key.toList (tag.attributes.length + 1) [] tag.attributes

end ProcessEngine.Markup
