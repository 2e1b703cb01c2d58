import ProcessEngine.Json.Basic
import ProcessEngine.Number.Notation

/-!
# JSON text

`Json.compress` writes a value without spaces.  Strings escape the quote, the
backslash and the characters below the space, and nothing else.
-/

namespace ProcessEngine

/-- A digit below sixteen in lower-case hexadecimal. -/
def hexDigit (n : Nat) : Char := Nat.digitChar n

/-- One character inside a JSON string. -/
def jsonChar (c : Char) : String :=
  if c = '"' then "\\\""
  else if c = '\\' then "\\\\"
  else if c = '\n' then "\\n"
  else if c = '\r' then "\\r"
  else if c = '\t' then "\\t"
  else if c = '\x08' then "\\b"
  else if c = '\x0c' then "\\f"
  else if c < ' ' then
    "\\u00" ++ String.ofList [hexDigit (c.toNat / 16), hexDigit (c.toNat % 16)]
  else c.toString

/-- A text as a JSON string. -/
def jsonString (s : String) : String :=
  "\"" ++ s.toList.foldl (fun out c => out ++ jsonChar c) "" ++ "\""

/-- A number as JSON text. -/
def Number.text : Number → String
  | whole n => toString n
  | float x => FloatFormat.value.write x

namespace Json

mutual

/-- A value as JSON text without spaces. -/
def compress : Json → String
  | null => "null"
  | bool true => "true"
  | bool false => "false"
  | number n => n.text
  | string s => jsonString s
  | array xs => "[" ++ compressList xs ++ "]"
  | object fields => "\x7b" ++ compressFields fields ++ "\x7d"

/-- Items between commas. -/
def compressList : List Json → String
  | [] => ""
  | [x] => x.compress
  | x :: xs => x.compress ++ "," ++ compressList xs

/-- Fields between commas. -/
def compressFields : List (String × Json) → String
  | [] => ""
  | [(k, x)] => jsonString k ++ ":" ++ x.compress
  | (k, x) :: xs => jsonString k ++ ":" ++ x.compress ++ "," ++ compressFields xs

end

end Json

end ProcessEngine
