import ProcessEngine.Expr.Basic
import ProcessEngine.Number.Notation
import ProcessEngine.Text.Quoted

/-!
# Wording of expression errors

One function per cause, each with the exact text that is shown.
-/

namespace ProcessEngine

/-- The name of a kind of value. -/
def Kind.name : Kind → String
  | null => "null"
  | boolean => "boolean"
  | number => "number"
  | string => "string"
  | list => "list"
  | context => "context"

/-- The word of a connective. -/
def Connective.symbol : Connective → String
  | or => "or"
  | and => "and"

/-- The sign of a comparison. -/
def Relation.symbol : Relation → String
  | eq => "="
  | ne => "!="
  | lt => "<"
  | le => "<="
  | gt => ">"
  | ge => ">="

/-- The sign of an arithmetic operator. -/
def Arith.symbol : Arith → String
  | add => "+"
  | sub => "-"
  | mul => "*"
  | div => "/"
  | rem => "%"

/-- How an operator is named in a message. -/
def Operator.symbol : Operator → String
  | not => "not"
  | neg => "unary -"
  | logic op => op.symbol
  | relation op => op.symbol
  | arith op => op.symbol

/-- A float that is no number or is infinite. -/
def nonFiniteText (x : Float) : String :=
  if x.isNaN then "NaN" else if floatNegative x then "-inf" else "inf"

/-- The text of a mismatch. -/
def Mismatch.message : Mismatch → String
  | fieldOf name found => "cannot read field '" ++ name ++ "' of " ++ found.name
  | indexInto i found => "cannot index [" ++ toString i ++ "] into " ++ found.name
  | booleanExpected op found => "'" ++ op.symbol ++ "' expects boolean, got " ++ found.name
  | numberExpected op found => "'" ++ op.symbol ++ "' expects number, got " ++ found.name
  | incomparable l r => "cannot compare " ++ l.name ++ " with " ++ r.name
  | unordered => "cannot order NaN"
  | nonFinite x => "non-finite result " ++ nonFiniteText x
  | conditionExpected found => "condition evaluated to " ++ found.name ++ ", expected boolean"

/-- The text of a syntax fault, with the part of the input it stands before. -/
def SyntaxFault.message : SyntaxFault → String
  | trailing rest => report rest "Eof"
  | noOperand rest => report rest "Tag"
where
  report (rest code : String) : String :=
    "Parsing Error: Error \x7b input: " ++ Text.quote rest ++ ", code: " ++ code ++ " \x7d"

/-- The text of an expression error. -/
def ExprError.message : ExprError → String
  | malformed text fault =>
    "syntax error in expression '" ++ text ++ "': " ++ fault.message
  | unknownIdentifier name => "unknown identifier '" ++ name ++ "'"
  | typeMismatch cause => "type mismatch: " ++ cause.message
  | divisionByZero => "division by zero"

end ProcessEngine
