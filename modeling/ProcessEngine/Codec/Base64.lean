/-!
# Base64

Bytes in the standard alphabet with padding.  `decode?` accepts exactly what
`encode` writes: the length is a multiple of four, and the bits that the
padding leaves over are zero.
-/

namespace ProcessEngine.Base64

/-- The sixty-four digits in order. -/
def alphabet : List Char :=
  "ABCDEFGHIJKLMNOPQRSTUVWXYZabcdefghijklmnopqrstuvwxyz0123456789+/".toList

/-- The digit of a value below sixty-four. -/
def digit (n : Nat) : Char := (alphabet[n]?).getD '='

/-- The value of a digit. -/
def value? (c : Char) : Option Nat :=
  if 'A' ≤ c ∧ c ≤ 'Z' then some (c.toNat - 'A'.toNat)
  else if 'a' ≤ c ∧ c ≤ 'z' then some (c.toNat - 'a'.toNat + 26)
  else if '0' ≤ c ∧ c ≤ '9' then some (c.toNat - '0'.toNat + 52)
  else if c = '+' then some 62
  else if c = '/' then some 63
  else none

/-- Bytes as digits, three bytes as four digits. -/
def encode : List UInt8 → List Char
  | [] => []
  | [a] =>
    let n := a.toNat * 16
    [digit (n / 64), digit (n % 64), '=', '=']
  | [a, b] =>
    let n := (a.toNat * 256 + b.toNat) * 4
    [digit (n / 4096), digit (n / 64 % 64), digit (n % 64), '=']
  | a :: b :: c :: rest =>
    let n := (a.toNat * 256 + b.toNat) * 256 + c.toNat
    digit (n / 262144) :: digit (n / 4096 % 64) :: digit (n / 64 % 64) :: digit (n % 64) ::
      encode rest

/-- The byte of the first two of four digit values. -/
def firstByte (x y : Nat) : UInt8 := UInt8.ofNat (x * 4 + y / 16)

/-- The byte of the middle two of four digit values. -/
def secondByte (y z : Nat) : UInt8 := UInt8.ofNat (y % 16 * 16 + z / 4)

/-- The byte of the last two of four digit values. -/
def thirdByte (z w : Nat) : UInt8 := UInt8.ofNat (z % 4 * 64 + w)

/-- The bytes of the last four digits, of which one or two may be padding. -/
def decodeLast? (a b c d : Char) : Option (List UInt8) := do
  let x ← value? a
  let y ← value? b
  if c = '=' ∧ d = '=' then
    if y % 16 = 0 then some [firstByte x y] else none
  else
    let z ← value? c
    if d = '=' then
      if z % 4 = 0 then some [firstByte x y, secondByte y z] else none
    else
      let w ← value? d
      some [firstByte x y, secondByte y z, thirdByte z w]

/-- The bytes of digits, of which only the last four may hold padding, onto the
bytes read so far, which are in reverse. -/
def decodeOnto (done : List UInt8) : List Char → Option (List UInt8)
  | [] => some done.reverse
  | [a, b, c, d] => (decodeLast? a b c d).map fun bytes => done.reverse ++ bytes
  | a :: b :: c :: d :: rest =>
    match value? a, value? b, value? c, value? d with
    | some x, some y, some z, some w =>
      decodeOnto (thirdByte z w :: secondByte y z :: firstByte x y :: done) rest
    | _, _, _, _ => none
  | _ => none

/-- The bytes that digits stand for. -/
def decode? (cs : List Char) : Option (List UInt8) := decodeOnto [] cs

/-! ## Reading what was written -/

theorem value?_digit {n : Nat} (h : n < 64) : value? (digit n) = some n := by
  have all : ∀ k : Fin 64, value? (digit k) = some k.val := by decide +kernel
  exact all ⟨n, h⟩

theorem digit_ne_pad {n : Nat} (h : n < 64) : digit n ≠ '=' := by
  have all : ∀ k : Fin 64, digit k ≠ '=' := by decide +kernel
  exact all ⟨n, h⟩

theorem ofNat_eq {b : UInt8} {n : Nat} (h : n = b.toNat) : UInt8.ofNat n = b := by
  subst h
  exact UInt8.ofNat_toNat

theorem firstByte_eq {a : UInt8} {x y : Nat} (h : x * 4 + y / 16 = a.toNat) :
    firstByte x y = a := ofNat_eq h

theorem secondByte_eq {b : UInt8} {y z : Nat} (h : y % 16 * 16 + z / 4 = b.toNat) :
    secondByte y z = b := ofNat_eq h

theorem thirdByte_eq {c : UInt8} {z w : Nat} (h : z % 4 * 64 + w = c.toNat) :
    thirdByte z w = c := ofNat_eq h

theorem decodeLast?_one (a : UInt8) :
    decodeLast? (digit (a.toNat * 16 / 64)) (digit (a.toNat * 16 % 64)) '=' '=' = some [a] := by
  have ha := a.toNat_lt
  rw [decodeLast?, value?_digit (by omega), value?_digit (by omega)]
  have hpad : a.toNat * 16 % 64 % 16 = 0 := by omega
  have hbyte : firstByte (a.toNat * 16 / 64) (a.toNat * 16 % 64) = a := firstByte_eq (by omega)
  simp [hpad, hbyte]

theorem decodeLast?_two (a b : UInt8) {n : Nat} (hn : n = (a.toNat * 256 + b.toNat) * 4) :
    decodeLast? (digit (n / 4096)) (digit (n / 64 % 64)) (digit (n % 64)) '=' =
      some [a, b] := by
  have ha := a.toNat_lt
  have hb := b.toNat_lt
  rw [decodeLast?, value?_digit (by omega), value?_digit (by omega), value?_digit (by omega)]
  have hz : digit (n % 64) ≠ '=' := digit_ne_pad (by omega)
  have hpad : n % 64 % 4 = 0 := by omega
  have h1 : firstByte (n / 4096) (n / 64 % 64) = a := firstByte_eq (by omega)
  have h2 : secondByte (n / 64 % 64) (n % 64) = b := secondByte_eq (by omega)
  simp [hz, hpad, h1, h2]

theorem decodeLast?_three (a b c : UInt8) {n : Nat}
    (hn : n = (a.toNat * 256 + b.toNat) * 256 + c.toNat) :
    decodeLast? (digit (n / 262144)) (digit (n / 4096 % 64)) (digit (n / 64 % 64))
      (digit (n % 64)) = some [a, b, c] := by
  have ha := a.toNat_lt
  have hb := b.toNat_lt
  have hc := c.toNat_lt
  rw [decodeLast?, value?_digit (by omega), value?_digit (by omega), value?_digit (by omega),
    value?_digit (by omega)]
  have hz : digit (n / 64 % 64) ≠ '=' := digit_ne_pad (by omega)
  have hw : digit (n % 64) ≠ '=' := digit_ne_pad (by omega)
  have h1 : firstByte (n / 262144) (n / 4096 % 64) = a := firstByte_eq (by omega)
  have h2 : secondByte (n / 4096 % 64) (n / 64 % 64) = b := secondByte_eq (by omega)
  have h3 : thirdByte (n / 64 % 64) (n % 64) = c := thirdByte_eq (by omega)
  simp [hz, hw, h1, h2, h3]

theorem decodeOnto_three (done : List UInt8) (a b c : UInt8) {n : Nat}
    (hn : n = (a.toNat * 256 + b.toNat) * 256 + c.toNat) (next : Char) (rest : List Char) :
    decodeOnto done (digit (n / 262144) :: digit (n / 4096 % 64) :: digit (n / 64 % 64) ::
      digit (n % 64) :: next :: rest) = decodeOnto (c :: b :: a :: done) (next :: rest) := by
  have ha := a.toNat_lt
  have hb := b.toNat_lt
  have hc := c.toNat_lt
  rw [decodeOnto, value?_digit (by omega), value?_digit (by omega), value?_digit (by omega),
    value?_digit (by omega)]
  · have h1 : firstByte (n / 262144) (n / 4096 % 64) = a := firstByte_eq (by omega)
    have h2 : secondByte (n / 4096 % 64) (n / 64 % 64) = b := secondByte_eq (by omega)
    have h3 : thirdByte (n / 64 % 64) (n % 64) = c := thirdByte_eq (by omega)
    simp only [h1, h2, h3]
  · simp

theorem encode_eq_nil {bytes : List UInt8} (h : encode bytes = []) : bytes = [] := by
  fun_cases encode bytes with
  | case1 => rfl
  | case2 => simp [encode] at h
  | case3 => simp [encode] at h
  | case4 => simp [encode] at h

theorem decodeOnto_encode (done bytes : List UInt8) :
    decodeOnto done (encode bytes) = some (done.reverse ++ bytes) := by
  fun_induction encode bytes generalizing done with
  | case1 => simp [decodeOnto]
  | case2 a n => simp [decodeOnto, n, decodeLast?_one]
  | case3 a b n => simp [decodeOnto, decodeLast?_two a b rfl, n]
  | case4 a b c rest n ih =>
    cases henc : encode rest with
    | nil =>
      have hrest := encode_eq_nil henc
      subst hrest
      simp [decodeOnto, decodeLast?_three a b c (n := n) rfl]
    | cons next more =>
      rw [decodeOnto_three done a b c rfl, ← henc, ih]
      simp

theorem decode?_encode (bytes : List UInt8) : decode? (encode bytes) = some bytes := by
  rw [decode?, decodeOnto_encode]
  rfl

end ProcessEngine.Base64
