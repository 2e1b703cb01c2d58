import ProcessEngine.Codec.Bits

/-!
# Prefix codes

A prefix code as a binary tree: the bits of a code word lead from the root to
its symbol.  A code is given by the length of each symbol's word; the words are
then fixed by two rules: at each depth the symbols stand before the inner
nodes, and symbols of one length stand in their own order.
-/

namespace ProcessEngine

/-- The tree of a prefix code. -/
inductive PrefixCode where
  /-- No word leads here. -/
  | unused
  | symbol (s : Nat)
  | branch (zero one : PrefixCode)
deriving Repr, DecidableEq

namespace PrefixCode

/-- The longest word. -/
def longest : Nat := 15

/-- The symbols whose word has a length, in order. -/
def symbolsOf (lengths : List Nat) (length : Nat) : List Nat :=
  lengths.zipIdx.filterMap fun (l, s) => if l = length then some s else none

/-- The inner nodes over a row of nodes. -/
def pairs : List PrefixCode → List PrefixCode
  | [] => []
  | [a] => [branch a unused]
  | a :: b :: rest => branch a b :: pairs rest

/-- The nodes at a depth, with some number of depths below it. -/
def nodesAt (lengths : List Nat) : (below depth : Nat) → List PrefixCode
  | 0, depth => (symbolsOf lengths depth).map symbol
  | below + 1, depth =>
    (symbolsOf lengths depth).map symbol ++ pairs (nodesAt lengths below (depth + 1))

/-- The share of all words that the symbols take up, in words of the greatest
length. -/
def share (lengths : List Nat) : Nat :=
  ((lengths.filter (· != 0)).map fun length => 2 ^ (longest - length)).sum

/-- Whether every sequence of bits leads to a symbol. -/
def complete (lengths : List Nat) : Bool := share lengths == 2 ^ longest

/-- Whether word lengths make a code: they take up all words, or there is one
symbol, whose word is a single bit, or there is no symbol. -/
def admissible (lengths : List Nat) : Bool :=
  complete lengths || decide (lengths.filter (· != 0) ∈ [[], [1]])

/-- The tree with given word lengths, zero for a symbol without a word. -/
def tree (lengths : List Nat) : PrefixCode :=
  (pairs (nodesAt lengths (longest - 1) 1)).head?.getD unused

/-- The code with given word lengths. -/
def ofLengths? (lengths : List Nat) : Option PrefixCode :=
  if admissible lengths then some (tree lengths) else none

/-- The code with given word lengths that leaves no word unused. -/
def completeOfLengths? (lengths : List Nat) : Option PrefixCode :=
  if complete lengths then some (tree lengths) else none

/-- The symbol whose word starts a bit sequence, and the bits after it. -/
def decode? : PrefixCode → Bits → Option (Nat × Bits)
  | unused, _ => none
  | symbol s, bits => some (s, bits)
  | branch _ _, [] => none
  | branch zero _, false :: bits => zero.decode? bits
  | branch _ one, true :: bits => one.decode? bits

end PrefixCode

end ProcessEngine
