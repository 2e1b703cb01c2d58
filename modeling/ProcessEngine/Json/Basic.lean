import ProcessEngine.Keyed

/-!
# JSON values

The values of process variables, and the document form of snapshots and audit
events.  A whole number between the least signed and the greatest unsigned
64-bit number keeps its exact value; any other number is a float.
-/

namespace ProcessEngine

/-- A JSON number: whole in the 64-bit range, or a float. -/
inductive Number where
  | whole (n : Int)
  | float (x : Float)

/-- A JSON value.  The fields of an object are in key order once `normal` has
been applied. -/
inductive Json where
  | null
  | bool (b : Bool)
  | number (n : Number)
  | string (s : String)
  | array (xs : List Json)
  | object (fields : List (String × Json))

instance : Inhabited Json := ⟨.null⟩

/-- Process variables by name. -/
abbrev Variables := Keyed Json

/-- A signed 64-bit number. -/
def fitsSigned (n : Int) : Bool := decide (-2 ^ 63 ≤ n ∧ n < 2 ^ 63)

namespace Number

/-- Equality as stored: a whole number and a float are never the same. -/
def same : Number → Number → Bool
  | whole m, whole n => m == n
  | float x, float y => x == y
  | _, _ => false

/-- The number as a signed 64-bit number, where it is one. -/
def signed? : Number → Option Int
  | whole n => if fitsSigned n then some n else none
  | float _ => none

/-- The nearest float. -/
def toFloat : Number → Float
  | whole n => Float.ofInt n
  | float x => x

end Number

namespace Json

/-- A whole number as a value. -/
def ofInt (n : Int) : Json := number (.whole n)

/-- A count as a value. -/
def ofNat (n : Nat) : Json := number (.whole n)

/-- A list of texts as a value. -/
def ofStrings (ss : List String) : Json := array (ss.map string)

/-- `null` for an absent value. -/
def ofOption {α : Type} (f : α → Json) : Option α → Json
  | none => null
  | some a => f a

mutual

/-- Equality as stored. -/
def same : Json → Json → Bool
  | null, null => true
  | bool a, bool b => a == b
  | number a, number b => a.same b
  | string a, string b => a == b
  | array xs, array ys => sameList xs ys
  | object xs, object ys => sameFields xs ys
  | _, _ => false

/-- Equality of lists as stored, position by position. -/
def sameList : List Json → List Json → Bool
  | [], [] => true
  | x :: xs, y :: ys => x.same y && sameList xs ys
  | _, _ => false

/-- Equality of fields as stored, position by position. -/
def sameFields : List (String × Json) → List (String × Json) → Bool
  | [], [] => true
  | (k, x) :: xs, (l, y) :: ys => k == l && x.same y && sameFields xs ys
  | _, _ => false

end

mutual

/-- The value with the fields of each object in key order; of two fields with
one key the later counts. -/
def normal : Json → Json
  | array xs => array (normalList xs)
  | object fields => object (Keyed.ofList (normalFields fields))
  | value => value

/-- `normal` on each item. -/
def normalList : List Json → List Json
  | [] => []
  | x :: xs => x.normal :: normalList xs

/-- `normal` on the value of each field. -/
def normalFields : List (String × Json) → List (String × Json)
  | [] => []
  | (k, x) :: xs => (k, x.normal) :: normalFields xs

end

/-- The value of a field, `none` also where the value is no object. -/
def field? (value : Json) (key : String) : Option Json :=
  match value with
  | object fields => Keyed.get? fields key
  | _ => none

end Json

end ProcessEngine
