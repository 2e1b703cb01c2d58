import ProcessEngine.Number.Shortest

/-!
# Written floats

How a shortest decimal is written: with a point in the middle range of
magnitudes, and with an exponent outside it.  The choices are the fields of
`FloatFormat`.
-/

namespace ProcessEngine

/-- Where the point notation ends, and how the exponent notation looks. -/
structure FloatFormat where
  /-- The least exponent of the first digit that is written with a point. -/
  leastPointed : Int
  /-- The first exponent above the range that is written with a point. -/
  endPointed : Int
  /-- What follows a whole number in point notation. -/
  wholeTail : String
  /-- The sign of a positive exponent. -/
  plus : String

namespace FloatFormat

/-- The notation of variable values. -/
def value : FloatFormat := ⟨-5, 16, ".0", "+"⟩

/-- The decimal digits of a number. -/
def digitChars (n : Nat) : List Char := Nat.toDigits 10 n

/-- A decimal in point notation; `k` is the exponent of its first digit. -/
def pointed (format : FloatFormat) (ds : List Char) (k : Int) : String :=
  if k < 0 then
    "0." ++ String.ofList (List.replicate (-k - 1).toNat '0' ++ ds)
  else
    let whole := k.toNat + 1
    if ds.length ≤ whole then
      String.ofList (ds ++ List.replicate (whole - ds.length) '0') ++ format.wholeTail
    else
      String.ofList (ds.take whole) ++ "." ++ String.ofList (ds.drop whole)

/-- A decimal in exponent notation. -/
def scientific (format : FloatFormat) (ds : List Char) (k : Int) : String :=
  let mantissa :=
    match ds with
    | [] => "0"
    | [d] => d.toString
    | d :: rest => d.toString ++ "." ++ String.ofList rest
  mantissa ++ "e" ++ (if k < 0 then "-" else format.plus) ++ toString k.natAbs

/-- The text of a decimal without sign. -/
def decimal (format : FloatFormat) (d : Decimal) : String :=
  let all := digitChars d.digits
  let k := d.exponent + (all.length : Int) - 1
  let ds := (all.reverse.dropWhile (· == '0')).reverse
  if format.leastPointed ≤ k ∧ k < format.endPointed then format.pointed ds k
  else format.scientific ds k

/-- The text of a finite float. -/
def write (format : FloatFormat) (x : Float) : String :=
  let magnitude := Dyadic.ofFloat x
  let text :=
    if magnitude.mantissa = 0 then "0" ++ format.wholeTail
    else format.decimal magnitude.shortest
  if floatNegative x then "-" ++ text else text

end FloatFormat

end ProcessEngine
