import ProcessEngine.Expr.Eval

/-!
# Variable scopes and mappings

A scope holds variables of its own and, unless it is a root, the variables of
its parent.  A child starts with a copy of its parent's variables and writes
to the parent only by `propagate`.

Input mappings are applied one after another, so a mapping sees the targets of
the earlier ones and a failure keeps what was written before it.  Output
mappings are all evaluated before any target is written, so a failure writes
nothing.
-/

namespace ProcessEngine

/-- A source expression and the variable that takes its value. -/
structure Mapping where
  source : String
  target : String
deriving Repr, DecidableEq

/-- Variables with the variables of the enclosing scope, if there is one. -/
structure Scope where
  vars : Variables
  parent : Option Variables

namespace Scope

/-- A scope without parent. -/
def root (vars : Variables) : Scope := ⟨vars, none⟩

/-- A scope that starts as a copy of its parent. -/
def childOf (parent : Variables) : Scope := ⟨parent, some parent⟩

/-- Set a variable of the scope itself. -/
def set (scope : Scope) (name : String) (value : Json) : Scope :=
  { scope with vars := Keyed.put scope.vars name value }

/-- Set a variable of the parent; without a parent nothing happens. -/
def propagate (scope : Scope) (name : String) (value : Json) : Scope :=
  { scope with parent := scope.parent.map fun vars => Keyed.put vars name value }

/-- Propagate several values, in order. -/
def propagateAll (scope : Scope) (values : List (String × Json)) : Scope :=
  values.foldl (fun scope entry => scope.propagate entry.1 entry.2) scope

@[simp] theorem vars_propagate (scope : Scope) (name : String) (value : Json) :
    (scope.propagate name value).vars = scope.vars := rfl

@[simp] theorem parent_set (scope : Scope) (name : String) (value : Json) :
    (scope.set name value).parent = scope.parent := rfl

theorem propagate_of_root {scope : Scope} (h : scope.parent = none) (name : String)
    (value : Json) : scope.propagate name value = scope := by
  cases scope
  simp_all [propagate]

end Scope

/-- The variables after some mappings, each seeing the targets of the ones
before it, and the error that ended them early. -/
def applyMappings (vars : Variables) : List Mapping → Variables × Option ExprError
  | [] => (vars, none)
  | m :: ms =>
    match evaluate m.source vars with
    | .ok value => applyMappings (Keyed.put vars m.target value) ms
    | .error e => (vars, some e)

/-- The targets of some mappings with their values, all over the same
variables. -/
def evaluateMappings (vars : Variables) :
    List Mapping → Except ExprError (List (String × Json))
  | [] => .ok []
  | m :: ms =>
    match evaluate m.source vars with
    | .error e => .error e
    | .ok value =>
      match evaluateMappings vars ms with
      | .error e => .error e
      | .ok values => .ok ((m.target, value) :: values)

/-- Write the results of a scope into its parent: the targets of the output
mappings, or every variable of the scope where there are no mappings. -/
def Scope.propagateOutputs (scope : Scope) (outputs : List Mapping) : Except ExprError Scope :=
  if outputs.isEmpty then .ok (scope.propagateAll scope.vars)
  else
    match evaluateMappings scope.vars outputs with
    | .ok values => .ok (scope.propagateAll values)
    | .error e => .error e

end ProcessEngine
