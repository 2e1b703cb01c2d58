import ProcessEngine.Error
import ProcessEngine.Task.Handler
import ProcessEngine.Audit.Basic
import ProcessEngine.Key

/-!
# Runs

A run drives one instance forward.  `Run` is the instance with what the engine
lends it: the key source, the handlers, the clock's reading, and the reports
that the run adds to.  The work still to do is a queue of commands.

Handling an element gives a `Step`: the activity that now stands for the
element, whether flow goes on from it, and commands to be queued before that.
An error leaves the run as far as it had come.
-/

namespace ProcessEngine

/-- A piece of work in the queue of a run. -/
inductive Command where
  /-- Follow flows from a completed activity. -/
  | takeFlows (source : Nat) (flows : List String)
  /-- Reach an element, by a flow if one led there. -/
  | enter (element : Nat) (origin : Option Nat) (via : Option String)
  /-- Look again at an open activity. -/
  | resume (activity : Nat) (origin : Option Nat)
  /-- Close the losing branches of an event-based gateway. -/
  | settleRace (gateway : Nat)
  /-- Fail the instance. -/
  | fail (error : EngineError)

/-- Whether a command fails the instance; such commands go first. -/
def Command.isFailure : Command → Bool
  | fail _ => true
  | _ => false

/-- An instance in the course of a run. -/
structure Run where
  inst : Instance
  keys : KeySequence
  registrations : List Registration
  now : Instant
  audit : List AuditEvent
  calls : List HandlerCall

/-- The result of handling an element. -/
structure Step where
  activity : Nat
  continues : Bool
  extra : List Command

/-- A run after handling an element. -/
abbrev Handled := Run × Except EngineError Step

namespace Run

/-- The diagram that is executed. -/
def diagram (r : Run) : Diagram := r.inst.diagram

/-- The activity at a position. -/
def activity? (r : Run) (n : Nat) : Option Activity := r.inst.activities[n]?

/-- The origin of the activity at a position. -/
def originOf (r : Run) (n : Nat) : Option Nat := (r.activity? n).bind Activity.origin

/-- The run with one more report. -/
def report (r : Run) (event : AuditEvent) : Run := { r with audit := r.audit ++ [event] }

/-- The run with a report on an element. -/
def reportElement (r : Run) (e : Element) (intent : ElementIntent) : Run :=
  r.report (r.inst.elementEvent e intent)

/-- The run with its instance changed. -/
def modify (r : Run) (f : Instance → Instance) : Run := { r with inst := f r.inst }

/-- The run with the activity at a position changed. -/
def modifyActivity (r : Run) (n : Nat) (f : Activity → Activity) : Run :=
  r.modify fun i => i.modifyActivity n f

/-- The run with a new activity under a fresh key, and the position of that
activity. -/
def open? (r : Run) (element : Nat) (origin : Option Nat) (body : ActivityBody) :
    Option (Run × Nat) :=
  match r.keys.issue with
  | none => none
  | some (key, keys) =>
    some ({ r with keys, inst := r.inst.push ⟨key, element, origin, body⟩ },
      r.inst.activities.length)

/-- The step of an element whose activity needs nothing but a state. -/
def openElement (r : Run) (element : Nat) (origin : Option Nat) (state : ActivityState)
    (continues : Bool) : Handled :=
  match r.open? element origin (.element state) with
  | none => (r, .error .keysExhausted)
  | some (r, n) => (r, .ok ⟨n, continues, []⟩)

end Run

end ProcessEngine
