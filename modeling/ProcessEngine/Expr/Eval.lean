import ProcessEngine.Expr.Reader
import ProcessEngine.Json.Printer

/-!
# Evaluating expressions

`Expr.eval` gives the value of an expression over variables.  Both operands
of an operator are evaluated, the left one first, except that `and` and `or`
stop at a left operand that decides.

Whole-number arithmetic is exact in the signed 64-bit range and goes over to
floats only where the result, or for a remainder the quotient, leaves it.
-/

namespace ProcessEngine

/-- The order of two numbers: exact where both are signed 64-bit numbers, else
by their floats; there is none beside NaN. -/
def Number.order? (a b : Number) : Option Ordering :=
  match a.signed?, b.signed? with
  | some m, some n => some (compare m n)
  | _, _ =>
    let x := a.toFloat
    let y := b.toFloat
    if x < y then some .lt
    else if x == y then some .eq
    else if y < x then some .gt
    else none

namespace Json

/-- Equality of values: numbers by their order, anything else as stored. -/
def equal : Json → Json → Bool
  | number a, number b => a.order? b == some .eq
  | a, b => a.same b

/-- A value inside a text: a string as it is, any other value as JSON. -/
def display : Json → String
  | string s => s
  | value => value.compress

/-- Whether the value is a string. -/
def isString : Json → Bool
  | string _ => true
  | _ => false

/-- The truth value that an operator asks for. -/
def asBool (op : Operator) : Json → Except ExprError Bool
  | bool b => .ok b
  | value => .error (.typeMismatch (.booleanExpected op value.kind))

/-- The number that an operator asks for. -/
def asNumber (op : Operator) : Json → Except ExprError Number
  | number n => .ok n
  | value => .error (.typeMismatch (.numberExpected op value.kind))

/-- A float as a value, unless it is infinite or no number. -/
def ofFloat (x : Float) : Except ExprError Json :=
  if x.isNaN || x.isInf then .error (.typeMismatch (.nonFinite x))
  else .ok (number (.float x))

/-- The order of two numbers or two texts. -/
def order (l r : Json) : Except ExprError Ordering :=
  match l, r with
  | number a, number b =>
    match a.order? b with
    | some o => .ok o
    | none => .error (.typeMismatch .unordered)
  | string a, string b => .ok (if a < b then .lt else if a = b then .eq else .gt)
  | _, _ => .error (.typeMismatch (.incomparable l.kind r.kind))

end Json

namespace Arith

/-- The exact result on signed 64-bit numbers with a divisor other than zero,
where there is one in that range. -/
def wholeResult? (op : Arith) (a b : Int) : Option Int :=
  let result :=
    match op with
    | add => some (a + b)
    | sub => some (a - b)
    | mul => some (a * b)
    | div => if a.tmod b = 0 then some (a.tdiv b) else none
    | rem => if fitsSigned (a.tdiv b) then some (a.tmod b) else none
  result.filter fitsSigned

/-- Whether the operator divides. -/
def divides : Arith → Bool
  | div | rem => true
  | _ => false

/-- The result on floats. -/
def onFloats (op : Arith) (x y : Float) : Float :=
  match op with
  | add => x + y
  | sub => x - y
  | mul => x * y
  | div => x / y
  | rem => floatRem x y

/-- The result on floats as a value. -/
def evalFloats (op : Arith) (x y : Float) : Except ExprError Json :=
  if op.divides && y == 0.0 then .error .divisionByZero
  else Json.ofFloat (op.onFloats x y)

/-- The result on two numbers. -/
def evalNumbers (op : Arith) (a b : Number) : Except ExprError Json :=
  match a.signed?, b.signed? with
  | some m, some n =>
    if op.divides && n == 0 then .error .divisionByZero
    else
      match op.wholeResult? m n with
      | some r => .ok (.ofInt r)
      | none => op.evalFloats a.toFloat b.toFloat
  | _, _ => op.evalFloats a.toFloat b.toFloat

/-- The result on two values: `add` joins as texts if either one is a text. -/
def eval (op : Arith) (l r : Json) : Except ExprError Json :=
  if op = add ∧ (l.isString || r.isString) then .ok (.string (l.display ++ r.display))
  else do
    let a ← l.asNumber (.arith op)
    let b ← r.asNumber (.arith op)
    op.evalNumbers a b

end Arith

/-- Whether an order satisfies a comparison. -/
def Relation.holds : Relation → Ordering → Bool
  | eq, o => o == .eq
  | ne, o => o != .eq
  | lt, o => o == .lt
  | le, o => o != .gt
  | gt, o => o == .gt
  | ge, o => o != .lt

/-- The result of a comparison; equality never fails. -/
def Relation.eval (op : Relation) (l r : Json) : Except ExprError Bool :=
  match op with
  | eq => .ok (l.equal r)
  | ne => .ok (!l.equal r)
  | op => do
    let o ← l.order r
    .ok (op.holds o)

/-- One step of a path; a step from `null` stays `null`, and so does a field or
a position that is not there. -/
def Segment.follow (value : Json) : Segment → Except ExprError Json
  | field name =>
    match value with
    | .object fields => .ok ((Keyed.get? fields name).getD .null)
    | .null => .ok .null
    | value => .error (.typeMismatch (.fieldOf name value.kind))
  | index i =>
    match value with
    | .array xs => .ok (xs[i]?.getD .null)
    | .null => .ok .null
    | value => .error (.typeMismatch (.indexInto i value.kind))

/-- The value at the end of a path. -/
def followPath (value : Json) : List Segment → Except ExprError Json
  | [] => .ok value
  | s :: ss => do
    let next ← s.follow value
    followPath next ss

/-- The negation of a number. -/
def Number.negate (n : Number) : Except ExprError Json :=
  match n.signed? with
  | some m => if fitsSigned (-m) then .ok (.ofInt (-m)) else Json.ofFloat (-n.toFloat)
  | none => Json.ofFloat (-n.toFloat)

namespace Expr

/-- The value of an expression. -/
def eval (vars : Variables) : Expr → Except ExprError Json
  | literal value => .ok value
  | path root steps =>
    match Keyed.get? vars root with
    | none => .error (.unknownIdentifier root)
    | some value => followPath value steps
  | not e => do
    let value ← e.eval vars
    let b ← value.asBool .not
    .ok (.bool !b)
  | neg e => do
    let value ← e.eval vars
    let n ← value.asNumber .neg
    n.negate
  | logic op l r => do
    let value ← l.eval vars
    let b ← value.asBool (.logic op)
    if b = decides op then .ok (.bool b)
    else
      let value ← r.eval vars
      let b ← value.asBool (.logic op)
      .ok (.bool b)
  | relation op l r => do
    let a ← l.eval vars
    let b ← r.eval vars
    let answer ← op.eval a b
    .ok (.bool answer)
  | arith op l r => do
    let a ← l.eval vars
    let b ← r.eval vars
    op.eval a b
where
  /-- The left operand that decides a connective. -/
  decides : Connective → Bool
    | .or => true
    | .and => false

end Expr

/-- The value of an expression text.  It depends on a parser's run, which
definitional unfolding is kept from entering. -/
@[irreducible] def evaluate (text : String) (vars : Variables) : Except ExprError Json := do
  let e ← Expr.parse text
  e.eval vars

/-- The truth value of a condition text. -/
def evaluateCondition (text : String) (vars : Variables) : Except ExprError Bool := do
  let value ← evaluate text vars
  match value with
  | .bool b => .ok b
  | value => .error (.typeMismatch (.conditionExpected value.kind))

end ProcessEngine
