import ProcessEngine.Activity
import ProcessEngine.Task.Matcher

/-!
# Job handlers

A handler is given an open job with a scope of its own and answers with what
it does to it: it sets variables of that scope, and it completes or fails the
job.  Only the first completion or failure counts.  A handler may also look at
the job; what it sees is noted in the record of the call.
-/

namespace ProcessEngine

/-- How a handler has ended a job. -/
inductive JobOutcome where
  | completed
  | failed (reason : String)
deriving Repr, DecidableEq

/-- What a job tells about itself. -/
structure JobInfo where
  key : Int
  instanceKey : Int
  definitionKey : Int
  definitionId : String
  version : Int
  elementId : String
  elementName : String
  taskType : Option String
  createdAt : Instant
deriving Repr, DecidableEq

/-- A job in the hands of a handler. -/
structure ActiveJob where
  info : JobInfo
  scope : Scope
  outcome : Option JobOutcome

/-- What a handler can look at. -/
inductive JobQuery where
  | variable (name : String)
  | variables
  | info
  | outcome
deriving Repr, DecidableEq

/-- What a handler has seen. -/
inductive JobNote where
  | variable (value : Option Json)
  | variables (vars : Variables)
  | info (info : JobInfo)
  | outcome (outcome : Option JobOutcome)

/-- One thing that a handler does to a job. -/
inductive JobAction where
  | set (name : String) (value : Json)
  | increment (name : String)
  | complete
  | fail (reason : String)
  | look (query : JobQuery)

/-- The value of a variable counted up by one; anything but a signed 64-bit
number counts from zero. -/
def incremented (value : Option Json) : Json :=
  match value with
  | some (.number n) => .ofInt (n.signed?.getD 0 + 1)
  | _ => .ofInt 1

namespace ActiveJob

/-- The job with an outcome, unless it has one already. -/
def conclude (job : ActiveJob) (outcome : JobOutcome) : ActiveJob :=
  { job with outcome := some (job.outcome.getD outcome) }

/-- The answer to a query. -/
def answer (job : ActiveJob) : JobQuery → JobNote
  | .variable name => .variable (Keyed.get? job.scope.vars name)
  | .variables => .variables job.scope.vars
  | .info => .info job.info
  | .outcome => .outcome job.outcome

/-- The job after an action. -/
def act (job : ActiveJob) : JobAction → ActiveJob
  | .set name value => { job with scope := job.scope.set name value }
  | .increment name =>
    { job with scope := job.scope.set name (incremented (Keyed.get? job.scope.vars name)) }
  | .complete => job.conclude .completed
  | .fail reason => job.conclude (.failed reason)
  | .look _ => job

/-- The note that an action leaves. -/
def note? (job : ActiveJob) : JobAction → Option JobNote
  | .look query => some (job.answer query)
  | _ => none

/-- The job after several actions. -/
def play (job : ActiveJob) (actions : List JobAction) : ActiveJob := actions.foldl act job

/-- The notes that several actions leave, in order. -/
def notes (job : ActiveJob) : List JobAction → List JobNote
  | [] => []
  | a :: actions => (job.note? a).toList ++ (job.act a).notes actions

/-- The instance's variables stay as they were while a handler acts. -/
theorem parent_act (job : ActiveJob) (a : JobAction) :
    (job.act a).scope.parent = job.scope.parent := by
  cases a <;> rfl

theorem parent_play (job : ActiveJob) (actions : List JobAction) :
    (job.play actions).scope.parent = job.scope.parent := by
  unfold play
  induction actions generalizing job with
  | nil => rfl
  | cons a actions ih => simp only [List.foldl_cons, ih, parent_act]

end ActiveJob

/-- What a handler does on its `n`-th call, counted from zero, for a job. -/
abbrev Handler := Nat → ActiveJob → List JobAction

/-- A handler under its matcher, with the number of its calls so far. -/
structure Registration where
  accepts : TaskMatcher
  handler : Handler
  calls : Nat

/-- The record of a call: which registration was called, for which job of
which element, and what the handler noted. -/
structure HandlerCall where
  registration : Nat
  jobKey : Int
  elementId : String
  notes : List JobNote

/-- The position of the registration that handles an element. -/
def resolveHandler? (registrations : List Registration) (e : Element) : Option Nat :=
  resolveMatcher? (registrations.map Registration.accepts) e

end ProcessEngine
