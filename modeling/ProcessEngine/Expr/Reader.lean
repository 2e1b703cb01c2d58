import ProcessEngine.Expr.Basic
import ProcessEngine.Json.Reader

/-!
# Reading expressions

`Expr.parse` reads a text by precedence: `or`, `and`, one comparison, `+ -`,
`* / %`, the unary `not` and `-`, and the primaries.  Every level of binary
operators but the comparisons groups to the left; comparisons do not chain.
An operator whose right side cannot be read is given back, so the reader takes
the longest expression that stands at the front of the text and leaves the
rest.

The levels above the unary operators are built from the reader of the level
below, so only the unary level recurses; each of its calls has read at least
one character more, which bounds the depth by the length of the text.
-/

namespace ProcessEngine

/-- The text of an expression between blanks and after one leading `=`. -/
def normalizeExpr (text : String) : String :=
  match Text.stripEnds Text.isBlank text.toList with
  | '=' :: rest => String.ofList (Text.stripEnds Text.isBlank rest)
  | cs => String.ofList cs

namespace Expr

/-- A reader with layout allowed on both sides. -/
def spaced {α : Type} (reader : Reader α) : Reader α := fun cs =>
  match reader (skipLayout cs) with
  | some (a, rest) => some (a, skipLayout rest)
  | none => none

/-- The first of two readers that succeeds. -/
def orElse {α : Type} (first second : Reader α) : Reader α := fun cs =>
  match first cs with
  | some answer => some answer
  | none => second cs

/-- A fixed sign with its meaning. -/
def sign {α : Type} (text : List Char) (meaning : α) : Reader α := fun cs =>
  (dropWord? text cs).map fun rest => (meaning, rest)

/-- A character that may stand inside an identifier. -/
def isNameChar (c : Char) : Bool := Text.isLetter c || Text.isDigit c || c == '_'

/-- A character that may start an identifier. -/
def isNameStart (c : Char) : Bool := Text.isLetter c || c == '_'

/-- A fixed word with its meaning, unless it is the start of a longer name.
Letters outside ASCII need no look: no reader takes one, so what stands before
it is the same rest either way. -/
def word {α : Type} (text : List Char) (meaning : α) : Reader α := fun cs =>
  match dropWord? text cs with
  | some [] => some (meaning, [])
  | some (c :: rest) => if isNameChar c then none else some (meaning, c :: rest)
  | none => none

/-- The signs and words of `or`. -/
def orSign : Reader Connective :=
  orElse (sign ['|', '|'] .or) (word ['o', 'r'] .or)

/-- The signs and words of `and`. -/
def andSign : Reader Connective :=
  orElse (sign ['&', '&'] .and) (word ['a', 'n', 'd'] .and)

/-- The comparison signs; the longer ones are tried before their beginnings. -/
def relationSign : Reader Relation :=
  orElse (sign ['=', '='] .eq) <| orElse (sign ['!', '='] .ne) <|
  orElse (sign ['<', '='] .le) <| orElse (sign ['>', '='] .ge) <|
  orElse (sign ['<'] .lt) <| orElse (sign ['>'] .gt) (sign ['='] .eq)

/-- The signs of sums. -/
def sumSign : Reader Arith := orElse (sign ['+'] .add) (sign ['-'] .sub)

/-- The signs of products. -/
def productSign : Reader Arith :=
  orElse (sign ['*'] .mul) <| orElse (sign ['/'] .div) (sign ['%'] .rem)

/-- An identifier. -/
def readName : Reader String
  | c :: cs =>
    if isNameStart c then
      some (String.ofList (c :: cs.takeWhile isNameChar), cs.dropWhile isNameChar)
    else none
  | [] => none

/-- A number: a whole one below `2 ^ 63`, or one with a decimal point that is
in the range of floats. -/
def readLiteralNumber : Reader Expr := fun cs =>
  let (whole, rest) := Json.readDigits cs
  if whole.isEmpty then none
  else
    let plain : Option (Expr × List Char) :=
      let n := Text.natOfDigits whole
      if n < 2 ^ 63 then some (.literal (.ofNat n), rest) else none
    match rest with
    | '.' :: after =>
      let (fraction, after) := Json.readDigits after
      if fraction.isEmpty then plain
      else
        let x := Float.ofScientific (Text.natOfDigits (whole ++ fraction)) true fraction.length
        if x.isInf then none else some (.literal (.number (.float x)), after)
    | _ => plain

/-- A text up to its closing quote; there are no escapes. -/
def readQuoted (mark : Char) : Reader Expr
  | c :: cs =>
    if c = mark then
      match cs.dropWhile (· != mark) with
      | _ :: rest => some (.literal (.string (String.ofList (cs.takeWhile (· != mark)))), rest)
      | [] => none
    else none
  | [] => none

/-- A step of a path: a field after a dot, or a list position between
brackets. -/
def readSegment : Reader Segment
  | '.' :: cs => (readName cs).map fun (name, rest) => (.field name, rest)
  | '[' :: cs =>
    let (ds, rest) := Json.readDigits (skipLayout cs)
    match skipLayout rest with
    | ']' :: rest =>
      if ds.isEmpty || decide (2 ^ 64 ≤ Text.natOfDigits ds) then none
      else some (.index (Text.natOfDigits ds), rest)
    | _ => none
  | _ => none

/-- As many steps of a path as there are, but no more than `fuel`. -/
def readSegments : Nat → List Char → List Segment × List Char
  | 0, cs => ([], cs)
  | fuel + 1, cs =>
    match readSegment cs with
    | none => ([], cs)
    | some (s, rest) =>
      let (ss, rest) := readSegments fuel rest
      (s :: ss, rest)

/-- A variable path. -/
def readPath : Reader Expr := fun cs =>
  match readName cs with
  | none => none
  | some (root, rest) =>
    let (steps, rest) := readSegments rest.length rest
    some (.path root steps, rest)

/-- An expression between parentheses. -/
def readGroup (inner : Reader Expr) : Reader Expr
  | '(' :: cs =>
    match spaced inner cs with
    | some (e, ')' :: rest) => some (e, rest)
    | _ => none
  | _ => none

/-- A primary, with layout around it. -/
def readPrimary (inner : Reader Expr) : Reader Expr :=
  spaced <|
    orElse (readGroup inner) <| orElse readLiteralNumber <|
    orElse (readQuoted '"') <| orElse (readQuoted '\'') <|
    orElse (word ['t', 'r', 'u', 'e'] (.literal (.bool true))) <|
    orElse (word ['f', 'a', 'l', 's', 'e'] (.literal (.bool false))) <|
    orElse (word ['n', 'u', 'l', 'l'] (.literal .null)) readPath

/-- Further operands of a left-grouping level, each after its operator, onto
the expression read so far. -/
def readChain {ω : Type} (combine : ω → Expr → Expr → Expr) (op : Reader ω)
    (operand : Reader Expr) : Nat → Expr → List Char → Expr × List Char
  | 0, e, cs => (e, cs)
  | fuel + 1, e, cs =>
    match spaced op cs with
    | none => (e, cs)
    | some (o, after) =>
      match operand after with
      | none => (e, cs)
      | some (r, rest) => readChain combine op operand fuel (combine o e r) rest

/-- A level of left-grouping operators. -/
def readLevel {ω : Type} (combine : ω → Expr → Expr → Expr) (op : Reader ω)
    (operand : Reader Expr) : Reader Expr := fun cs =>
  match operand cs with
  | none => none
  | some (e, rest) => some (readChain combine op operand rest.length e rest)

/-- A level on which at most one operator stands. -/
def readOnce {ω : Type} (combine : ω → Expr → Expr → Expr) (op : Reader ω)
    (operand : Reader Expr) : Reader Expr := fun cs =>
  match operand cs with
  | none => none
  | some (l, rest) =>
    match spaced op rest with
    | none => some (l, rest)
    | some (o, after) =>
      match operand after with
      | none => some (l, rest)
      | some (r, rest) => some (combine o l r, rest)

/-- Products of unary expressions. -/
def readProduct (unary : Reader Expr) : Reader Expr := readLevel .arith productSign unary

/-- Sums of products. -/
def readSum (unary : Reader Expr) : Reader Expr :=
  readLevel .arith sumSign (readProduct unary)

/-- At most one comparison of two sums. -/
def readComparison (unary : Reader Expr) : Reader Expr :=
  readOnce .relation relationSign (readSum unary)

/-- Conjunctions of comparisons. -/
def readAnd (unary : Reader Expr) : Reader Expr :=
  readLevel .logic andSign (readComparison unary)

/-- Disjunctions of conjunctions. -/
def readOr (unary : Reader Expr) : Reader Expr := readLevel .logic orSign (readAnd unary)

/-- A unary operator before its operand. -/
def readOperator (op : Reader Unit) (build : Expr → Expr) (operand : Reader Expr) :
    Reader Expr := fun cs =>
  match spaced op cs with
  | none => none
  | some (_, rest) => (operand rest).map fun (e, rest) => (build e, rest)

/-- Unary expressions, with fewer than `depth` operators and parentheses
inside one another. -/
def readUnary : Nat → Reader Expr
  | 0, _ => none
  | depth + 1, cs =>
    orElse (readOperator (orElse (word ['n', 'o', 't'] ()) (sign ['!'] ())) .not
        (readUnary depth)) (orElse
      (readOperator (sign ['-'] ()) .neg (readUnary depth))
      (readPrimary (readOr (readUnary depth)))) cs

/-- The longest expression at the front of a text. -/
def readExpr : Reader Expr := fun cs => spaced (readOr (readUnary (cs.length + 1))) cs

/-- The expression that a text holds. -/
def parse (text : String) : Except ExprError Expr :=
  let body := (normalizeExpr text).toList
  match readExpr body with
  | some (e, []) => .ok e
  | some (_, rest) => .error (.malformed text (.trailing (String.ofList rest)))
  | none => .error (.malformed text (.noOperand (String.ofList (skipLayout body))))

end Expr

end ProcessEngine
