import ProcessEngine.Json.Basic

/-!
# Expressions

The syntax trees of conditions and mappings, and the causes for which an
expression cannot be read or evaluated.  Each cause has one wording, given by
`ExprError.message` in the module that prints errors.
-/

namespace ProcessEngine

/-- The short-circuit operators. -/
inductive Connective where
  | or
  | and
deriving Repr, DecidableEq

/-- The comparison operators. -/
inductive Relation where
  | eq
  | ne
  | lt
  | le
  | gt
  | ge
deriving Repr, DecidableEq

/-- The arithmetic operators; `add` also joins texts. -/
inductive Arith where
  | add
  | sub
  | mul
  | div
  | rem
deriving Repr, DecidableEq

/-- One step of a variable path after its root. -/
inductive Segment where
  | field (name : String)
  | index (i : Nat)
deriving Repr, DecidableEq

/-- A condition or the source of a mapping. -/
inductive Expr where
  | literal (value : Json)
  | path (root : String) (steps : List Segment)
  | not (e : Expr)
  | neg (e : Expr)
  | logic (op : Connective) (l r : Expr)
  | relation (op : Relation) (l r : Expr)
  | arith (op : Arith) (l r : Expr)

instance : Inhabited Expr := ⟨.literal .null⟩

/-- The kinds of values that expressions tell apart. -/
inductive Kind where
  | null
  | boolean
  | number
  | string
  | list
  | context
deriving Repr, DecidableEq

/-- The kind of a value. -/
def Json.kind : Json → Kind
  | null => .null
  | bool _ => .boolean
  | number _ => .number
  | string _ => .string
  | array _ => .list
  | object _ => .context

/-- The operators that ask for operands of one kind. -/
inductive Operator where
  | not
  | neg
  | logic (op : Connective)
  | relation (op : Relation)
  | arith (op : Arith)
deriving Repr, DecidableEq

/-- Why a value does not suit the place where it stands. -/
inductive Mismatch where
  | fieldOf (name : String) (found : Kind)
  | indexInto (i : Nat) (found : Kind)
  | booleanExpected (op : Operator) (found : Kind)
  | numberExpected (op : Operator) (found : Kind)
  | incomparable (l r : Kind)
  | unordered
  | nonFinite (x : Float)
  | conditionExpected (found : Kind)

/-- Why a text is no expression: something follows a whole expression, or no
expression stands at its start. -/
inductive SyntaxFault where
  | trailing (rest : String)
  | noOperand (rest : String)
deriving Repr, DecidableEq

/-- Why an expression has no value. -/
inductive ExprError where
  | malformed (text : String) (fault : SyntaxFault)
  | unknownIdentifier (name : String)
  | typeMismatch (cause : Mismatch)
  | divisionByZero

end ProcessEngine
