import ProcessEngine.Diagram.Basic

/-!
# Task matchers

A handler is registered under a matcher.  For a task, the matchers are tried
kind by kind in the order of `ElementKind.matchOrder`, and within a kind in
the order of registration.
-/

namespace ProcessEngine

/-- Which tasks a handler is for. -/
inductive TaskMatcher where
  | id (id : String)
  | taskType (taskType : String)
  | assignee (assignee : String)
  | candidateGroups (groups : List String)
deriving Repr, DecidableEq

/-- The kinds of matchers. -/
inductive MatchKind where
  | id
  | taskType
  | assignee
  | candidateGroups
deriving Repr, DecidableEq

namespace TaskMatcher

/-- The kind of a matcher. -/
def kind : TaskMatcher → MatchKind
  | .id _ => .id
  | .taskType _ => .taskType
  | .assignee _ => .assignee
  | .candidateGroups _ => .candidateGroups

/-- Whether an element is one the matcher asks for; for groups one shared
group is enough. -/
def accepts (m : TaskMatcher) (e : Element) : Bool :=
  match m with
  | .id wanted => e.id == wanted
  | .taskType t => e.taskType == some t
  | .assignee a => e.assignee == some a
  | .candidateGroups groups => groups.any fun g => decide (g ∈ e.candidateGroups)

end TaskMatcher

/-- The kinds of matchers that count for an element, the most specific
first. -/
def ElementKind.matchOrder : ElementKind → List MatchKind
  | .serviceTask => [.id, .taskType]
  | .userTask => [.id, .assignee, .candidateGroups]
  | _ => [.id]

/-- The position of the first matcher of a kind that accepts an element. -/
def findMatcher? (matchers : List TaskMatcher) (e : Element) (kind : MatchKind) : Option Nat :=
  matchers.findIdx? fun m => m.kind == kind && m.accepts e

/-- The position of the matcher that decides for an element. -/
def resolveMatcher? (matchers : List TaskMatcher) (e : Element) : Option Nat :=
  e.kind.matchOrder.findSome? (findMatcher? matchers e)

end ProcessEngine
