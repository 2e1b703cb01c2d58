import ProcessEngine.Json.Basic

/-!
# Decoding records

A record is read from the fields of an object as they are written: each of its
fields may stand there once, and fields of other names are passed over.  It may
also be written as the list of its values in the order of its fields.  A record
of several shapes has a tag that tells which one it is.
-/

namespace ProcessEngine.Json

/-- The fields of a record.  In a list the last `spare` values may be left
out. -/
def record? (names : List String) (spare : Nat) : Json → Option (List (String × Json))
  | object fields => some fields
  | array values =>
    if values.length ≤ names.length ∧ names.length ≤ values.length + spare then
      some (names.zip values)
    else none
  | _ => none

/-- The values written under a key. -/
def valuesOf (fields : List (String × Json)) (key : String) : List Json :=
  (fields.filter fun entry => entry.1 == key).map Prod.snd

/-- A field that has to be there. -/
def required {α : Type} (fields : List (String × Json)) (key : String)
    (decode : Json → Option α) : Option α :=
  match valuesOf fields key with
  | [value] => decode value
  | _ => none

/-- A field with a value of its own where it is absent. -/
def withDefault {α : Type} (fields : List (String × Json)) (key : String) (default : α)
    (decode : Json → Option α) : Option α :=
  match valuesOf fields key with
  | [] => some default
  | [value] => decode value
  | _ => none

/-- A field that may be absent or `null`. -/
def nullable {α : Type} (fields : List (String × Json)) (key : String)
    (decode : Json → Option α) : Option (Option α) :=
  withDefault fields key none fun value =>
    match value with
    | null => some none
    | value => (decode value).map some

/-- A text. -/
def text? : Json → Option String
  | string s => some s
  | _ => none

/-- A truth value. -/
def bool? : Json → Option Bool
  | bool b => some b
  | _ => none

/-- A whole number between two bounds. -/
def intBetween? (low high : Int) : Json → Option Int
  | number (.whole n) => if low ≤ n ∧ n ≤ high then some n else none
  | _ => none

/-- A signed 64-bit number. -/
def int64? (value : Json) : Option Int := intBetween? (-2 ^ 63) (2 ^ 63 - 1) value

/-- A signed 32-bit number. -/
def int32? (value : Json) : Option Int := intBetween? (-2 ^ 31) (2 ^ 31 - 1) value

/-- A list of items that can all be decoded. -/
def list? {α : Type} (decode : Json → Option α) : Json → Option (List α)
  | array xs => xs.mapM decode
  | _ => none

/-- The name in an enumeration: a text, or the one key of an object whose value
is `null`. -/
def name? : Json → Option String
  | string s => some s
  | object [(s, null)] => some s
  | _ => none

/-- The name in an enumeration inside a record with a tag, where an empty
object will do for `null`. -/
def nameInTagged? : Json → Option String
  | object [(s, object [])] => some s
  | value => value.name?

/-- The tag of a record and its fields.  In a list the tag stands first and
the values follow in the order of the fields that `shape` gives for it. -/
def tagged? (tag : String) (shape : String → List String) :
    Json → Option (String × List (String × Json))
  | object fields => (required fields tag text?).map fun name => (name, fields)
  | array (string name :: values) =>
    (record? (shape name) 0 (array values)).map fun fields => (name, fields)
  | _ => none

end ProcessEngine.Json
