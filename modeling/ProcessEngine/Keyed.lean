import ProcessEngine.Arithmetic

/-!
# Keyed lists

An association list with texts as keys, in increasing key order and with each
key once.  Two keyed lists with the same look-ups are then the same list, so
states that hold them can be compared by plain equality.  The order on texts
is by code point, which is also the order of their UTF-8 bytes.
-/

namespace ProcessEngine

/-- An association list, in increasing order of its keys. -/
abbrev Keyed (α : Type) := List (String × α)

namespace Keyed

variable {α : Type}

/-- The value of a key. -/
def get? (xs : Keyed α) (key : String) : Option α :=
  match xs with
  | [] => none
  | (k, v) :: rest => if k = key then some v else get? rest key

/-- Whether a key has a value. -/
def has (xs : Keyed α) (key : String) : Bool := (get? xs key).isSome

/-- Set the value of a key, at its place in the order. -/
def put (xs : Keyed α) (key : String) (value : α) : Keyed α :=
  match xs with
  | [] => [(key, value)]
  | (k, v) :: rest =>
    if key = k then (key, value) :: rest
    else if key < k then (key, value) :: (k, v) :: rest
    else (k, v) :: put rest key value

/-- Set several values, later ones over earlier ones. -/
def putAll (xs : Keyed α) (entries : List (String × α)) : Keyed α :=
  entries.foldl (fun out entry => put out entry.1 entry.2) xs

/-- The keyed list of some entries, later ones over earlier ones. -/
def ofList (entries : List (String × α)) : Keyed α := putAll [] entries

theorem get?_put_self (xs : Keyed α) (key : String) (value : α) :
    get? (put xs key value) key = some value := by
  induction xs with
  | nil => simp [put, get?]
  | cons entry rest ih =>
    by_cases h : key = entry.1
    · simp [put, get?, h]
    · by_cases hlt : key < entry.1
      · simp [put, get?, h, hlt]
      · simp [put, get?, h, hlt, Ne.symm h, ih]

theorem get?_put_of_ne (xs : Keyed α) {key other : String} (value : α)
    (hne : key ≠ other) : get? (put xs key value) other = get? xs other := by
  induction xs with
  | nil => simp [put, get?, hne]
  | cons entry rest ih =>
    by_cases h : key = entry.1
    · simp [put, get?, ← h, hne]
    · by_cases hlt : key < entry.1
      · simp [put, get?, h, hlt, hne]
      · simp [put, get?, h, hlt, ih]

end Keyed

end ProcessEngine
