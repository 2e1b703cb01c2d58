import ProcessEngine.Codec.PrefixCode

/-!
# Raw DEFLATE

A compressed text is a sequence of blocks, of which the last one is marked.  A
block holds bytes as they are, or symbols of two prefix codes: bytes and
repetitions of what stands some distance back.  Before the first byte lie
zeros, so every distance leads somewhere.

`inflate?` reads all kinds of blocks and passes over what follows the last
one.  `store` writes blocks that hold bytes as they are.
-/

namespace ProcessEngine.Deflate

/-! ## Tables -/

/-- The least length of a repetition by its symbol, with the number of bits
that add to it. -/
def lengthTable : List (Nat × Nat) :=
  [(3, 0), (4, 0), (5, 0), (6, 0), (7, 0), (8, 0), (9, 0), (10, 0), (11, 1), (13, 1), (15, 1),
    (17, 1), (19, 2), (23, 2), (27, 2), (31, 2), (35, 3), (43, 3), (51, 3), (59, 3), (67, 4),
    (83, 4), (99, 4), (115, 4), (131, 5), (163, 5), (195, 5), (227, 5), (258, 0)]

/-- The least distance by its symbol, with the number of bits that add to
it. -/
def distanceTable : List (Nat × Nat) :=
  [(1, 0), (2, 0), (3, 0), (4, 0), (5, 1), (7, 1), (9, 2), (13, 2), (17, 3), (25, 3), (33, 4),
    (49, 4), (65, 5), (97, 5), (129, 6), (193, 6), (257, 7), (385, 7), (513, 8), (769, 8),
    (1025, 9), (1537, 9), (2049, 10), (3073, 10), (4097, 11), (6145, 11), (8193, 12),
    (12289, 12), (16385, 13), (24577, 13)]

/-- The order in which a block gives the word lengths of its length code. -/
def lengthCodeOrder : List Nat :=
  [16, 17, 18, 0, 8, 7, 9, 6, 10, 5, 11, 4, 12, 3, 13, 2, 14, 1, 15]

/-- The word lengths of the fixed code of bytes and repetitions. -/
def fixedLengths : List Nat :=
  List.replicate 144 8 ++ List.replicate 112 9 ++ List.replicate 24 7 ++ List.replicate 8 8

/-- The word lengths of the fixed code of distances. -/
def fixedDistances : List Nat := List.replicate 32 5

/-! ## Symbols -/

/-- An amount by its symbol: the least one of the table and the bits that add
to it. -/
def amount? (table : List (Nat × Nat)) (symbol : Nat) (bits : Bits) : Option (Nat × Bits) :=
  match table[symbol]? with
  | none => none
  | some (least, width) =>
    match bits.take? width with
    | none => none
    | some (more, bits) => some (least + more, bits)

/-- The byte at a distance back from the end. -/
def byteBack (out : Array UInt8) (distance : Nat) : UInt8 :=
  if distance ≤ out.size then (out[out.size - distance]?).getD 0 else 0

/-- The bytes with a repetition of some length from some distance back. -/
def repeated (out : Array UInt8) (distance : Nat) : Nat → Array UInt8
  | 0 => out
  | n + 1 => repeated (out.push (byteBack out distance)) distance n

/-- The length and the distance of a repetition, by the symbol of its length. -/
def repetition? (distances : PrefixCode) (symbol : Nat) (bits : Bits) :
    Option ((Nat × Nat) × Bits) :=
  match amount? lengthTable symbol bits with
  | none => none
  | some (length, bits) =>
    match distances.decode? bits with
    | none => none
    | some (symbol, bits) =>
      match amount? distanceTable symbol bits with
      | none => none
      | some (distance, bits) => some ((length, distance), bits)

/-- The bytes with those of a block of symbols, and the bits after the block.
A block has no more symbols than bits, which bounds `fuel`. -/
def symbols? (literals distances : PrefixCode) :
    Nat → Array UInt8 → Bits → Option (Array UInt8 × Bits)
  | 0, _, _ => none
  | fuel + 1, out, bits =>
    match literals.decode? bits with
    | none => none
    | some (s, bits) =>
      if s < 256 then symbols? literals distances fuel (out.push (UInt8.ofNat s)) bits
      else if s = 256 then some (out, bits)
      else
        match repetition? distances (s - 257) bits with
        | none => none
        | some ((length, distance), bits) =>
          symbols? literals distances fuel (repeated out distance length) bits

/-! ## Codes given in a block -/

/-- The next word length, and how many more times it stands there: a symbol
below 16 is a word length, 16 repeats the one before, 17 and 18 stand for
zeros. -/
def lengthRun? (code : PrefixCode) (previous : Option Nat) (bits : Bits) :
    Option (Nat × Nat × Bits) :=
  match code.decode? bits with
  | none => none
  | some (s, bits) =>
    if s < 16 then some (s, 0, bits)
    else
      let (length, width, least) :=
        if s = 16 then (previous, 2, 2) else if s = 17 then (some 0, 3, 2) else (some 0, 7, 10)
      match length, bits.take? width with
      | some length, some (more, bits) => some (length, least + more, bits)
      | _, _ => none

/-- The word lengths that are still missing after those in `done`, which are
in reverse. -/
def lengths? (code : PrefixCode) (missing : Nat) (done : List Nat) (bits : Bits) :
    Option (List Nat × Bits) :=
  match missing with
  | 0 => some (done.reverse, bits)
  | missing + 1 =>
    match lengthRun? code done.head? bits with
    | none => none
    | some (length, more, bits) =>
      if more ≤ missing then
        lengths? code (missing - more) (List.replicate (more + 1) length ++ done) bits
      else none
termination_by missing
decreasing_by omega

/-- Fields of three bits. -/
def triples? : Nat → Bits → Option (List Nat × Bits)
  | 0, bits => some ([], bits)
  | n + 1, bits =>
    match bits.take? 3 with
    | none => none
    | some (v, bits) =>
      match triples? n bits with
      | none => none
      | some (vs, bits) => some (v :: vs, bits)

/-- The word lengths of the length code from those that a block gives, in the
order it gives them. -/
def lengthCodeLengths (given : List Nat) : List Nat :=
  (List.range 19).map fun s =>
    (((lengthCodeOrder.zip given).find? fun entry => entry.1 == s).map Prod.snd).getD 0

/-- The two codes that a block gives before its symbols.  The length code has to
be complete, since both zero and another length have to be told apart. -/
def codes? (bits : Bits) : Option ((PrefixCode × PrefixCode) × Bits) := do
  let (literals, bits) ← bits.take? 5
  let (distances, bits) ← bits.take? 5
  let (given, bits) ← bits.take? 4
  if literals + 257 ≤ 286 ∧ distances + 1 ≤ 30 then
    let (given, bits) ← triples? (given + 4) bits
    let code ← PrefixCode.completeOfLengths? (lengthCodeLengths given)
    let (all, bits) ← lengths? code (literals + 257 + (distances + 1)) [] bits
    let literalCode ← PrefixCode.ofLengths? (all.take (literals + 257))
    let distanceCode ← PrefixCode.ofLengths? (all.drop (literals + 257))
    some ((literalCode, distanceCode), bits)
  else none

/-! ## Blocks -/

/-- The bytes with some more that stand in the bits as they are. -/
def bytes? : Nat → Array UInt8 → Bits → Option (Array UInt8 × Bits)
  | 0, out, bits => some (out, bits)
  | n + 1, out, bits =>
    match bits.take? 8 with
    | none => none
    | some (b, bits) => bytes? n (out.push (UInt8.ofNat b)) bits

/-- The bytes with those of a block that holds them as they are: from the next
full byte on, their number, its complement, and they themselves. -/
def stored? (out : Array UInt8) (bits : Bits) : Option (Array UInt8 × Bits) := do
  let (size, bits) ← bits.skipToByte.take? 16
  let (complement, bits) ← bits.take? 16
  if size + complement = 65535 then bytes? size out bits else none

/-- The bytes with those of a block of some kind. -/
def block? (kind : Nat) (out : Array UInt8) (bits : Bits) : Option (Array UInt8 × Bits) :=
  match kind with
  | 0 => stored? out bits
  | 1 => do
    let literals ← PrefixCode.ofLengths? fixedLengths
    let distances ← PrefixCode.ofLengths? fixedDistances
    symbols? literals distances (bits.length + 1) out bits
  | 2 => do
    let ((literals, distances), bits) ← codes? bits
    symbols? literals distances (bits.length + 1) out bits
  | _ => none

/-- The bytes with those of all blocks.  There are no more blocks than bits,
which bounds `fuel`. -/
def blocks? : Nat → Array UInt8 → Bits → Option (Array UInt8)
  | 0, _, _ => none
  | fuel + 1, out, bits => do
    let (last, bits) ← bits.take? 1
    let (kind, bits) ← bits.take? 2
    let (out, bits) ← block? kind out bits
    if last = 1 then some out else blocks? fuel out bits

/-- The bytes that a compressed sequence stands for. -/
def inflate? (bytes : List UInt8) : Option ByteArray :=
  let bits := Bits.ofBytes bytes
  (blocks? (bits.length + 1) #[] bits).map ByteArray.mk

/-! ## Writing -/

/-- A number in two bytes, the lower one first. -/
def twoBytes (n : Nat) : List UInt8 := [UInt8.ofNat (n % 256), UInt8.ofNat (n / 256)]

/-- A block that holds at most 65535 bytes as they are. -/
def storedBlock (last : Bool) (bytes : List UInt8) : List UInt8 :=
  (if last then 1 else 0) :: twoBytes bytes.length ++ twoBytes (65535 - bytes.length) ++ bytes

/-- Bytes in blocks that hold them as they are. -/
def store (bytes : List UInt8) : List UInt8 :=
  if bytes.length ≤ 65535 then storedBlock true bytes
  else storedBlock false (bytes.take 65535) ++ store (bytes.drop 65535)
termination_by bytes.length

end ProcessEngine.Deflate
