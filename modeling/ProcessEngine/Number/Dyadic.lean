import ProcessEngine.Arithmetic

/-!
# Floats as exact binary fractions

A finite float is a sign with a magnitude `m * 2 ^ q`.  `ofBits` reads the
magnitude from the float's bit pattern, and `rem` is the exact remainder of
the truncated division of two magnitudes, from which `floatRem` is built.
-/

namespace ProcessEngine

/-- The magnitude `mantissa * 2 ^ exponent`. -/
structure Dyadic where
  mantissa : Nat
  exponent : Int
deriving Repr, DecidableEq

namespace Dyadic

/-- The magnitude of the float with the given 64-bit pattern: eleven bits of
biased exponent over fifty-two bits of fraction; the least exponent has no
implicit leading bit.  The sign bit is not looked at. -/
def ofBits (bits : Nat) : Dyadic :=
  let biased := bits / 2 ^ 52 % 2 ^ 11
  let fraction := bits % 2 ^ 52
  if biased = 0 then ⟨fraction, -1074⟩ else ⟨2 ^ 52 + fraction, Int.ofNat biased - 1075⟩

/-- The magnitude of a finite float. -/
def ofFloat (x : Float) : Dyadic := ofBits x.toBits.toNat

/-- The mantissa of `d` at the lower exponent `q`. -/
def scaledTo (d : Dyadic) (q : Int) : Nat := d.mantissa * 2 ^ (d.exponent - q).toNat

/-- The exact remainder of `a` by `b`, a magnitude below `b`; it is a float
again, since it is a multiple of the lower unit and below both operands or
equal to `a`. -/
def rem (a b : Dyadic) : Dyadic :=
  let q := min a.exponent b.exponent
  ⟨a.scaledTo q % b.scaledTo q, q⟩

/-- The float of a magnitude that is one. -/
def toFloat (d : Dyadic) : Float :=
  match d.exponent with
  | .ofNat n => Float.ofNat (d.mantissa * 2 ^ n)
  | .negSucc n =>
    -- The power itself can be too large for a float; its two parts are not, and both
    -- quotients are exact.
    let half := (n + 1) / 2
    Float.ofNat d.mantissa / Float.ofNat (2 ^ half) / Float.ofNat (2 ^ (n + 1 - half))

end Dyadic

/-- The sign bit of a float, set for negative zero too. -/
def floatNegative (x : Float) : Bool := decide (2 ^ 63 ≤ x.toBits.toNat)

/-- The remainder of truncated division on floats, with the sign of the
dividend; an infinite divisor leaves a finite dividend as it is. -/
def floatRem (x y : Float) : Float :=
  if x.isNaN || x.isInf || y.isNaN || y == 0.0 then 0.0 / 0.0
  else if y.isInf then x
  else
    let r := ((Dyadic.ofFloat x).rem (Dyadic.ofFloat y)).toFloat
    if floatNegative x then -r else r

end ProcessEngine
