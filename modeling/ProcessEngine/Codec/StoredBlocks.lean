import ProcessEngine.Codec.Deflate

/-!
# Stored blocks

What `store` writes is read back by `inflate?`.  The reader meets each block at
the start of a byte: the head of a stored block fills its first byte, and the
bytes it holds end with a full one.
-/

namespace ProcessEngine.Deflate

open Bits

theorem ofBytes_twoBytes {n : Nat} (h : n < 65536) : ofBytes (twoBytes n) = ofNat 16 n := by
  have hlow : (UInt8.ofNat (n % 256)).toNat = n % 2 ^ 8 := by
    rw [UInt8.toNat_ofNat']
    omega
  have hhigh : (UInt8.ofNat (n / 256)).toNat = n / 2 ^ 8 := by
    rw [UInt8.toNat_ofNat']
    omega
  rw [twoBytes, ofBytes_cons, ofBytes_cons, hlow, hhigh, ofNat_mod]
  exact (ofNat_add 8 8 n).symm ▸ by simp [ofBytes]

theorem bytes?_ofBytes (out : Array UInt8) (bytes : List UInt8) (rest : Bits) :
    bytes? bytes.length out (ofBytes bytes ++ rest) = some (out ++ bytes.toArray, rest) := by
  induction bytes generalizing out with
  | nil => simp [bytes?, ofBytes]
  | cons b bytes ih =>
    rw [List.length_cons, bytes?, ofBytes_cons, List.append_assoc,
      take?_ofNat_append (by exact b.toNat_lt)]
    simp only [UInt8.ofNat_toNat, ih]
    simp

theorem skipToByte_append {gap : Bits} (h : gap.length < 8) (bytes : List UInt8) :
    (gap ++ ofBytes bytes).skipToByte = ofBytes bytes := by
  have hgap : (gap ++ ofBytes bytes).length % 8 = gap.length := by
    rw [List.length_append, length_ofBytes]
    omega
  rw [skipToByte, hgap, List.drop_left]

theorem stored?_bytes {gap : Bits} (hgap : gap.length < 8) (out : Array UInt8)
    {bytes : List UInt8} (h : bytes.length ≤ 65535) (rest : List UInt8) :
    stored? out (gap ++ ofBytes (twoBytes bytes.length ++ twoBytes (65535 - bytes.length) ++
      bytes ++ rest)) = some (out ++ bytes.toArray, ofBytes rest) := by
  have hsum : bytes.length + (65535 - bytes.length) = 65535 := by omega
  rw [stored?, skipToByte_append hgap]
  simp only [ofBytes_append,
    ofBytes_twoBytes (show bytes.length < 65536 by omega),
    ofBytes_twoBytes (show 65535 - bytes.length < 65536 by omega), List.append_assoc,
    take?_ofNat_append (show bytes.length < 2 ^ 16 by omega),
    take?_ofNat_append (show 65535 - bytes.length < 2 ^ 16 by omega),
    Option.bind_eq_bind, Option.bind_some, hsum, if_true, bytes?_ofBytes]

/-- The first byte of a stored block: the mark of the last block, the kind in
two bits, and a gap. -/
theorem ofBytes_blockStart (last : Bool) (rest : List UInt8) :
    ofBytes ((if last then 1 else 0) :: rest) =
      ofNat 1 last.toNat ++ (ofNat 2 0 ++ (ofNat 5 0 ++ ofBytes rest)) := by
  cases last <;> simp [ofBytes_cons, ofNat]

theorem blocks?_storedBlock (fuel : Nat) (last : Bool) (out : Array UInt8) {bytes : List UInt8}
    (h : bytes.length ≤ 65535) (rest : List UInt8) :
    blocks? (fuel + 1) out (ofBytes (storedBlock last bytes ++ rest)) =
      if last then some (out ++ bytes.toArray)
      else blocks? fuel (out ++ bytes.toArray) (ofBytes rest) := by
  have hlast : last.toNat < 2 ^ 1 := by cases last <;> decide
  simp only [storedBlock, List.cons_append]
  rw [ofBytes_blockStart, blocks?]
  simp only [take?_ofNat_append hlast, take?_ofNat_append (show 0 < 2 ^ 2 by decide), block?,
    Option.bind_eq_bind, Option.bind_some,
    stored?_bytes (show (ofNat 5 0).length < 8 by decide) out h rest]
  cases last <;> simp

theorem blocks?_store {fuel : Nat} (out : Array UInt8) {bytes : List UInt8}
    (h : bytes.length < fuel) :
    blocks? fuel out (ofBytes (store bytes)) = some (out ++ bytes.toArray) := by
  induction fuel generalizing out bytes with
  | zero => omega
  | succ fuel ih =>
    rw [store]
    split
    · rename_i hsmall
      have := blocks?_storedBlock fuel true out hsmall []
      simpa using this
    · rename_i hlarge
      have hpart : (bytes.take 65535).length ≤ 65535 := by
        rw [List.length_take]
        omega
      have hrest : (bytes.drop 65535).length < fuel := by
        rw [List.length_drop]
        omega
      have hjoin : (bytes.take 65535).toArray ++ (bytes.drop 65535).toArray = bytes.toArray := by
        simp
      rw [blocks?_storedBlock fuel false out hpart, if_neg (by decide), ih _ hrest,
        Array.append_assoc, hjoin]

theorem length_le_length_store (bytes : List UInt8) : bytes.length ≤ (store bytes).length := by
  induction h : bytes.length using Nat.strongRecOn generalizing bytes with
  | ind n ih =>
    rw [store]
    split
    · simp [storedBlock, twoBytes]
      omega
    · have hrest := ih (bytes.drop 65535).length (by rw [List.length_drop]; omega) _ rfl
      simp only [List.length_append, storedBlock, List.length_cons, List.length_take,
        List.length_drop] at *
      omega

theorem inflate?_store (bytes : List UInt8) :
    inflate? (store bytes) = some ⟨bytes.toArray⟩ := by
  have hlen := length_le_length_store bytes
  have hfuel : bytes.length < (ofBytes (store bytes)).length + 1 := by
    rw [length_ofBytes]
    omega
  rw [inflate?, blocks?_store #[] hfuel]
  simp

end ProcessEngine.Deflate
