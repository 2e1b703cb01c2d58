import ProcessEngine.Arithmetic

/-!
# Bits

A byte sequence as a sequence of bits, each byte from its lowest bit up.  A
field of some bits is a number whose lowest bit comes first.
-/

namespace ProcessEngine

/-- A sequence of bits. -/
abbrev Bits := List Bool

namespace Bits

/-- The bits of a number from the lowest up, as many as asked for. -/
def ofNat : Nat → Nat → Bits
  | 0, _ => []
  | width + 1, n => (n % 2 == 1) :: ofNat width (n / 2)

/-- The bits of a byte sequence. -/
def ofBytes (bytes : List UInt8) : Bits := bytes.flatMap fun b => ofNat 8 b.toNat

/-- The number in a field of some bits, and the bits after it. -/
def take? : Nat → Bits → Option (Nat × Bits)
  | 0, bits => some (0, bits)
  | _ + 1, [] => none
  | width + 1, bit :: bits =>
    match take? width bits with
    | none => none
    | some (n, rest) => some (bit.toNat + 2 * n, rest)

/-- The bits from the next full byte on, in a sequence that ends with one. -/
def skipToByte (bits : Bits) : Bits := bits.drop (bits.length % 8)

@[simp] theorem length_ofNat (width n : Nat) : (ofNat width n).length = width := by
  induction width generalizing n with
  | zero => rfl
  | succ width ih => simp [ofNat, ih]

theorem take?_ofNat_append {width n : Nat} (h : n < 2 ^ width) (rest : Bits) :
    take? width (ofNat width n ++ rest) = some (n, rest) := by
  induction width generalizing n with
  | zero =>
    have : n = 0 := by simpa using h
    subst this
    rfl
  | succ width ih =>
    have half : n / 2 < 2 ^ width := by
      rw [Nat.pow_succ] at h
      omega
    simp only [ofNat, List.cons_append, take?, ih half]
    congr 2
    rcases Nat.mod_two_eq_zero_or_one n with h0 | h1
    · simp [h0]
      omega
    · simp [h1]
      omega

theorem ofBytes_cons (b : UInt8) (bytes : List UInt8) :
    ofBytes (b :: bytes) = ofNat 8 b.toNat ++ ofBytes bytes := rfl

theorem ofBytes_append (xs ys : List UInt8) : ofBytes (xs ++ ys) = ofBytes xs ++ ofBytes ys := by
  simp [ofBytes]

theorem length_ofBytes (bytes : List UInt8) : (ofBytes bytes).length = 8 * bytes.length := by
  induction bytes with
  | nil => rfl
  | cons b bytes ih =>
    rw [ofBytes_cons, List.length_append, length_ofNat, ih, List.length_cons]
    omega

/-- A field of a byte can be cut into a lower and an upper one. -/
theorem ofNat_add (low high n : Nat) :
    ofNat (low + high) n = ofNat low n ++ ofNat high (n / 2 ^ low) := by
  induction low generalizing n with
  | zero => simp [ofNat]
  | succ low ih =>
    rw [Nat.succ_add, ofNat, ofNat, ih, List.cons_append, Nat.div_div_eq_div_mul, Nat.pow_succ,
      Nat.mul_comm 2]

theorem ofNat_mod (width n : Nat) : ofNat width (n % 2 ^ width) = ofNat width n := by
  induction width generalizing n with
  | zero => rfl
  | succ width ih =>
    rw [ofNat, ofNat]
    have hlow : n % 2 ^ (width + 1) % 2 = n % 2 := by
      rw [Nat.pow_succ, Nat.mul_comm]
      exact Nat.mod_mul_right_mod n 2 _
    have hhigh : n % 2 ^ (width + 1) / 2 = n / 2 % 2 ^ width := by
      rw [Nat.pow_succ, Nat.mul_comm]
      exact Nat.mod_mul_right_div_self n 2 _
    rw [hlow, hhigh, ih]

end Bits

end ProcessEngine
