import ProcessEngine.Activity
import ProcessEngine.Diagram.Basic

/-!
# Definitions and instances

A definition is a diagram under a key and a version.  An instance executes a
definition: it has variables, the events that were published to it, and its
activities in the order of their creation.  Activities are never removed, so a
position in the list names an activity for good.
-/

namespace ProcessEngine

/-- A loaded diagram with the source it was read from. -/
structure Definition where
  key : Int
  id : String
  version : Int
  checksum : String
  source : String
  resourceName : String
  loadedAt : Instant
  diagram : Diagram
deriving Repr, DecidableEq

/-- The life of an instance. -/
inductive InstanceState where
  | ready
  | active
  | completed
  | failed
deriving Repr, DecidableEq

/-- A state in which nothing more is executed. -/
def InstanceState.terminal : InstanceState → Bool
  | completed | failed => true
  | ready | active => false

/-- The written name of a state. -/
def InstanceState.name : InstanceState → String
  | ready => "READY"
  | active => "ACTIVE"
  | completed => "COMPLETED"
  | failed => "FAILED"

/-- The state with a written name. -/
def InstanceState.ofName? (name : String) : Option InstanceState :=
  [ready, active, completed, failed].find? fun s => s.name == name

theorem InstanceState.ofName?_name (s : InstanceState) : ofName? s.name = some s := by
  cases s <;> decide

/-- An event that was published to an instance. -/
structure CaughtEvent where
  name : String
  caughtAt : Instant
  vars : Variables
  consumed : Bool

/-- An execution of a definition. -/
structure Instance where
  key : Int
  definition : Definition
  vars : Variables
  createdAt : Instant
  state : InstanceState
  caught : List CaughtEvent
  activities : List Activity

namespace Instance

/-- An instance before its first run. -/
def fresh (key : Int) (definition : Definition) (vars : Variables) (createdAt : Instant) :
    Instance :=
  { key, definition, vars, createdAt, state := .ready, caught := [], activities := [] }

/-- The diagram that is executed. -/
def diagram (i : Instance) : Diagram := i.definition.diagram

/-! ## Looking up -/

/-- The position of the activity with a key. -/
def findActivity? (i : Instance) (key : Int) : Option Nat :=
  i.activities.findIdx? fun a => a.key == key

/-- The first event of a name that is not yet consumed. -/
def findUnconsumed? (i : Instance) (name : String) : Option Nat :=
  i.caught.findIdx? fun c => !c.consumed && c.name == name

/-- The job of an element that is still open. -/
def findOpenJob? (i : Instance) (elementId : String) : Option Nat :=
  i.activities.findIdx? fun a => a.isOpenJob && a.job?.any fun j => j.elementId == elementId

/-- The subscription of an element that is still open. -/
def findOpenSubscription? (i : Instance) (elementId : String) : Option Nat :=
  i.activities.findIdx? fun a =>
    a.isOpenSubscription && a.subscription?.any fun s => s.elementId == elementId

/-- The timer of an element that has not fired. -/
def findCreatedTimer? (i : Instance) (elementId : String) : Option Nat :=
  i.activities.findIdx? fun a =>
    a.isCreatedTimer && a.timer?.any fun t => t.elementId == elementId

/-- The gateway activity of an element that still waits for flows. -/
def findActiveGateway? (i : Instance) (element : Nat) : Option Nat :=
  i.activities.findIdx? fun a =>
    a.element == element && a.gateway?.any fun g => g.state == .active

/-- The positions of the activities that a test holds for. -/
def positions (i : Instance) (test : Activity → Bool) : List Nat :=
  (List.range i.activities.length).filter fun n => i.activities[n]?.any test

/-- What a resumed run looks at again: active jobs, active subscriptions, and
timers that have not fired. -/
def continuations (i : Instance) : List Nat :=
  (i.positions fun a => a.job?.any fun j => j.state == .active) ++
  (i.positions fun a => a.subscription?.any fun s => s.state == .active) ++
  i.positions Activity.isCreatedTimer

/-- Whether a subscription or a timer is still waiting. -/
def hasPendingEvents (i : Instance) : Bool :=
  i.activities.any fun a => a.isOpenSubscription || a.isCreatedTimer

/-- The event-based gateway that an origin is. -/
def raceAt? (i : Instance) (origin : Option Nat) : Option Race :=
  origin.bind fun n => i.activities[n]?.bind Activity.race?

/-- Whether another branch has won the race at an origin. -/
def raceLost (i : Instance) (origin : Option Nat) (branch : String) : Bool :=
  ((i.raceAt? origin).bind Race.winner).any fun winner => winner != branch

/-! ## Changing -/

/-- The instance with one more activity. -/
def push (i : Instance) (a : Activity) : Instance :=
  { i with activities := i.activities ++ [a] }

/-- The instance with the activity at a position changed. -/
def modifyActivity (i : Instance) (n : Nat) (f : Activity → Activity) : Instance :=
  { i with activities := i.activities.modify n f }

/-- The instance with a branch as the winner of the race at its origin, unless
that is decided. -/
def winRace (i : Instance) (origin : Option Nat) (branch : String) : Instance :=
  match origin with
  | some n => i.modifyActivity n fun a => a.winRace branch
  | none => i

/-- The instance with one more published event. -/
def recordEvent (i : Instance) (c : CaughtEvent) : Instance :=
  { i with caught := i.caught ++ [c] }

/-- The instance with the event at a position consumed. -/
def consume (i : Instance) (n : Nat) : Instance :=
  { i with caught := i.caught.modify n fun c => { c with consumed := true } }

/-- The instance after a race is decided: no branch of it waits any longer. -/
def settleRace (i : Instance) (gateway : Nat) : Instance :=
  match (i.raceAt? (some gateway)).bind Race.winner with
  | none => i
  | some _ =>
    { i with activities :=
        i.activities.map fun a => if a.origin = some gateway then a.settle else a }

end Instance

end ProcessEngine
