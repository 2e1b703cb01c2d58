import ProcessEngine.Json.Basic

/-!
# Keys

Definitions, instances and activities are numbered by keys from one source.
`KeySequence` counts from a first key and never issues the greatest signed
64-bit number, so that its next key always is one.  `TimedKeys` takes the
readings of a clock-driven source and steps past them where they fall behind;
it has no such limit, so that the step past the greatest number is an overflow.
-/

namespace ProcessEngine

/-- The greatest signed 64-bit number. -/
def greatestKey : Int := 2 ^ 63 - 1

/-- A counter; `next` is the key it issues next. -/
structure KeySequence where
  next : Int
deriving Repr, DecidableEq

namespace KeySequence

/-- The counter that starts at one. -/
def default : KeySequence := ⟨1⟩

/-- The next key and the counter after it; `none` once the keys are used up. -/
def issue (keys : KeySequence) : Option (Int × KeySequence) :=
  if keys.next < greatestKey then some (keys.next, ⟨keys.next + 1⟩) else none

/-- The counter moved on so that it issues only keys above a given one. -/
def advancePast (keys : KeySequence) (key : Int) : KeySequence :=
  if keys.next ≤ key then ⟨min (key + 1) greatestKey⟩ else keys

/-- A counter issues its next key and moves on by one. -/
theorem issue_eq_some {keys after : KeySequence} {key : Int}
    (h : keys.issue = some (key, after)) :
    keys.next < greatestKey ∧ key = keys.next ∧ after = ⟨keys.next + 1⟩ := by
  unfold issue at h
  split at h
  · rename_i hlt
    cases h
    exact ⟨hlt, rfl, rfl⟩
  · cases h

end KeySequence

/-- What comes of asking for a key: a key, an error, or the end of the program. -/
inductive KeyAnswer where
  | issued (key : Int)
  | refused (reason : String)
  | stopped
deriving Repr, DecidableEq

/-- The counter asked for a key. -/
def KeySequence.ask (keys : KeySequence) : KeyAnswer × KeySequence :=
  match keys.issue with
  | some (key, after) => (.issued key, after)
  | none => (.refused "key space exhausted", keys)

/-- A signed 64-bit number counted on past the greatest one. -/
def wrapSigned (n : Int) : Int := n.bmod (2 ^ 64)

/-- What a sum does that is no signed 64-bit number: it stops the program where
sums are checked, and comes out at the other end of the range where they are
not. -/
inductive Overflow where
  | stops
  | wraps
deriving Repr, DecidableEq

/-- The successor of a key; `none` where the program stops. -/
def Overflow.successor? (overflow : Overflow) (key : Int) : Option Int :=
  if key < greatestKey then some (key + 1)
  else
    match overflow with
    | stops => none
    | wraps => some (wrapSigned (key + 1))

/-- The last key of a clock-driven source. -/
structure TimedKeys where
  last : Int
deriving Repr, DecidableEq

namespace TimedKeys

/-- The source that has issued no key yet. -/
def default : TimedKeys := ⟨0⟩

/-- The source asked for a key, with what its clock says: the reading, or the
successor of the last key where that is greater.  A reading that is no key is
refused. -/
def ask (overflow : Overflow) (keys : TimedKeys) (reading : Except String Nat) :
    KeyAnswer × TimedKeys :=
  match reading with
  | .error reason => (.refused reason, keys)
  | .ok reading =>
    if greatestKey < reading then
      (.refused "out of range integral type conversion attempted", keys)
    else
      match overflow.successor? keys.last with
      | none => (.stopped, keys)
      | some next =>
        let key := max (reading : Int) next
        (.issued key, ⟨key⟩)

/-- The source moved on past a key. -/
def advancePast (keys : TimedKeys) (key : Int) : TimedKeys := ⟨max keys.last key⟩

end TimedKeys

end ProcessEngine
