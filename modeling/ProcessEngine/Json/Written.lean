import ProcessEngine.Json.Basic

/-!
# JSON as it is written

A text of JSON gives a tree before it is known what its parts stand for: a
number may be too great for a float, and a string may hold one half of a
surrogate pair.  Such a part does no harm where nobody asks for it.

`Written.settle?` asks for the parts that a `Shape` names and gives the value
they make.  What stands in other fields is dropped unseen, so that only its
grammar has to be right.
-/

namespace ProcessEngine.Json

/-- A value as it is written; `none` for a number or a string that stands for
nothing. -/
inductive Written where
  | null
  | bool (b : Bool)
  | number (n : Option Number)
  | string (s : Option String)
  | array (xs : List Written)
  | object (fields : List (Option String × Written))

/-- Which parts of a value are asked for. -/
inductive Shape where
  /-- All of them. -/
  | whole
  /-- A part of each item. -/
  | list (item : Shape)
  /-- A part of each field with a name; an array gives the fields in order. -/
  | record (fields : List (String × Shape))

namespace Shape

/-- The fields with a name in a record, all of which are asked for whole. -/
def ofNames (names : List String) : Shape := record (names.map fun name => (name, whole))

/-- The names of a record's fields. -/
def names : Shape → List String
  | record fields => fields.map Prod.fst
  | _ => []

/-- What is asked for of the item at a position. -/
def item (shape : Shape) (n : Nat) : Shape :=
  match shape with
  | whole => whole
  | list item => item
  | record fields => ((fields[n]?).map Prod.snd).getD whole

/-- What is asked for of the field with a name; `none` if nothing is. -/
def field? (shape : Shape) (name : String) : Option Shape :=
  match shape with
  | record fields => fields.lookup name
  | _ => some whole

end Shape

namespace Written

mutual

/-- The value that the parts asked for make; in them at most `room` containers
lie inside one another. -/
def settle? (shape : Shape) : Nat → Written → Option Json
  | _, null => some .null
  | _, bool b => some (.bool b)
  | _, number n => n.map .number
  | _, string s => s.map .string
  | 0, array _ => none
  | 0, object _ => none
  | room + 1, array xs => (settleItems? shape 0 room xs).map .array
  | room + 1, object fields => (settleFields? shape room fields).map .object

/-- `settle?` on each item from a position on. -/
def settleItems? (shape : Shape) (n room : Nat) : List Written → Option (List Json)
  | [] => some []
  | x :: xs =>
    match x.settle? (shape.item n) room, settleItems? shape (n + 1) room xs with
    | some value, some values => some (value :: values)
    | _, _ => none

/-- `settle?` on each field that is asked for.  The name of a field has to be a
text in any case. -/
def settleFields? (shape : Shape) (room : Nat) :
    List (Option String × Written) → Option (List (String × Json))
  | [] => some []
  | (none, _) :: _ => none
  | (some name, x) :: rest =>
    match shape.field? name with
    | none => settleFields? shape room rest
    | some part =>
      match x.settle? part room, settleFields? shape room rest with
      | some value, some fields => some ((name, value) :: fields)
      | _, _ => none

end

end Written

end ProcessEngine.Json
