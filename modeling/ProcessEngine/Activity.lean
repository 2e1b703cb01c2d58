import ProcessEngine.Time.Instant

/-!
# Activities

An activity is one occurrence of an element in a running instance.  It has a
key, the position of its element in the diagram's table, and an origin: the
activity from which flow reached it.  What else it holds depends on its kind.

States only move forward: `ready`, `active`, and then one of the three final
states.  A timer has states of its own and leaves `created` at most once.
-/

namespace ProcessEngine

/-- The life of an activity. -/
inductive ActivityState where
  | ready
  | active
  | completed
  | failed
  | withdrawn
deriving Repr, DecidableEq

namespace ActivityState

/-- The stage that a state belongs to; the last stage has three states. -/
def rank : ActivityState → Nat
  | ready => 0
  | active => 1
  | completed | failed | withdrawn => 2

/-- A state that is never left. -/
def terminal (s : ActivityState) : Bool := s.rank == 2

/-- Whether a state may follow another one: only a later stage may. -/
def mayBecome (s next : ActivityState) : Bool := decide (s.rank < next.rank)

theorem mayBecome_eq_false_of_terminal {s : ActivityState} (h : s.terminal = true)
    (next : ActivityState) : s.mayBecome next = false := by
  cases s <;> cases next <;> first | rfl | cases h

end ActivityState

/-- The written name of a state. -/
def ActivityState.name : ActivityState → String
  | ready => "READY"
  | active => "ACTIVE"
  | completed => "COMPLETED"
  | failed => "FAILED"
  | withdrawn => "WITHDRAWN"

/-- The state with a written name. -/
def ActivityState.ofName? (name : String) : Option ActivityState :=
  [ready, active, completed, failed, withdrawn].find? fun s => s.name == name

theorem ActivityState.ofName?_name (s : ActivityState) : ofName? s.name = some s := by
  cases s <;> decide

/-- The life of a timer. -/
inductive TimerState where
  | created
  | triggered
  | cancelled
deriving Repr, DecidableEq

/-- The state of a timer among the states of all activities. -/
def TimerState.asActivity : TimerState → ActivityState
  | created => .active
  | triggered => .completed
  | cancelled => .withdrawn

/-- The written name of a timer's state. -/
def TimerState.name : TimerState → String
  | created => "CREATED"
  | triggered => "TRIGGERED"
  | cancelled => "CANCELLED"

/-- The timer's state with a written name. -/
def TimerState.ofName? (name : String) : Option TimerState :=
  [created, triggered, cancelled].find? fun s => s.name == name

theorem TimerState.ofName?_name (s : TimerState) : ofName? s.name = some s := by
  cases s <;> decide

/-- A gateway that waits for its inbound flows; `inbound` are those that have
arrived, each once, in the order of first arrival. -/
structure Gateway where
  state : ActivityState
  parallel : Bool
  inbound : List String
deriving Repr, DecidableEq

/-- An event-based gateway; `winner` is the element id of the branch that came
first. -/
structure Race where
  state : ActivityState
  winner : Option String
deriving Repr, DecidableEq

/-- The work that a task waits for; `failure` is the reason why it failed. -/
structure Job where
  instanceKey : Int
  elementId : String
  state : ActivityState
  createdAt : Instant
  failure : Option String
deriving Repr, DecidableEq

/-- A timer that is due some milliseconds after its creation. -/
structure Timer where
  instanceKey : Int
  definitionKey : Int
  elementId : String
  state : TimerState
  createdAt : Instant
  dueAt : Instant
  duration : Int
deriving Repr, DecidableEq

/-- The wait for a message by its name. -/
structure Subscription where
  instanceKey : Int
  definitionKey : Int
  elementId : String
  name : String
  state : ActivityState
  createdAt : Instant
deriving Repr, DecidableEq

/-- What an activity holds by its kind. -/
inductive ActivityBody where
  | element (state : ActivityState)
  | gateway (gateway : Gateway)
  | race (race : Race)
  | job (job : Job)
  | timer (timer : Timer)
  | subscription (subscription : Subscription)
deriving Repr, DecidableEq

/-- An occurrence of an element. -/
structure Activity where
  key : Int
  element : Nat
  origin : Option Nat
  body : ActivityBody
deriving Repr, DecidableEq

namespace Gateway

/-- The gateway after the arrival of a flow; `none` if the flow has arrived
before. -/
def record? (g : Gateway) (flow : String) : Option Gateway :=
  if flow ∈ g.inbound then none else some { g with inbound := g.inbound ++ [flow] }

/-- The gateway after the arrival of a flow. -/
def record (g : Gateway) (flow : String) : Gateway := (g.record? flow).getD g

/-- Whether every declared flow has arrived. -/
def allArrived (g : Gateway) (declared : List String) : Bool :=
  declared.all fun flow => decide (flow ∈ g.inbound)

theorem nodup_inbound_record {g : Gateway} (h : g.inbound.Nodup) (flow : String) :
    (g.record flow).inbound.Nodup := by
  unfold record record?
  split
  · simpa using h
  · rename_i hnew
    simp only [Option.getD_some]
    exact List.nodup_append.2 ⟨h, by simp, by
      intro a ha b hb
      simp only [List.mem_singleton] at hb
      intro hab
      exact hnew (hb ▸ hab ▸ ha)⟩

end Gateway

namespace ActivityBody

/-- The state among the states of all activities. -/
def state : ActivityBody → ActivityState
  | element state => state
  | gateway g => g.state
  | race r => r.state
  | job j => j.state
  | timer t => t.state.asActivity
  | subscription s => s.state

/-- The body in another state; a timer keeps its own. -/
def withState (next : ActivityState) : ActivityBody → ActivityBody
  | element _ => element next
  | gateway g => gateway { g with state := next }
  | race r => race { r with state := next }
  | job j => job { j with state := next }
  | timer t => timer t
  | subscription s => subscription { s with state := next }

/-- Whether the body is that of a timer. -/
def isTimer : ActivityBody → Bool
  | timer _ => true
  | _ => false

end ActivityBody

namespace Activity

/-- The state among the states of all activities. -/
def state (a : Activity) : ActivityState := a.body.state

/-- The activity moved forward to a state; `none` where that is no step
forward, and for every timer. -/
def advance? (a : Activity) (next : ActivityState) : Option Activity :=
  if !a.body.isTimer && a.state.mayBecome next then
    some { a with body := a.body.withState next }
  else none

/-- The activity moved forward to a state, or as it was. -/
def advance (a : Activity) (next : ActivityState) : Activity := (a.advance? next).getD a

/-- The timer moved out of `created`; `none` for anything else. -/
def setTimer? (a : Activity) (next : TimerState) : Option Activity :=
  match a.body with
  | .timer t =>
    if t.state = .created ∧ next ≠ .created then
      some { a with body := .timer { t with state := next } }
    else none
  | _ => none

/-- The timer moved out of `created`, or the activity as it was. -/
def setTimer (a : Activity) (next : TimerState) : Activity := (a.setTimer? next).getD a

/-- The gateway of the activity. -/
def gateway? (a : Activity) : Option Gateway :=
  match a.body with
  | .gateway g => some g
  | _ => none

/-- The event-based gateway of the activity. -/
def race? (a : Activity) : Option Race :=
  match a.body with
  | .race r => some r
  | _ => none

/-- The job of the activity. -/
def job? (a : Activity) : Option Job :=
  match a.body with
  | .job j => some j
  | _ => none

/-- The timer of the activity. -/
def timer? (a : Activity) : Option Timer :=
  match a.body with
  | .timer t => some t
  | _ => none

/-- The subscription of the activity. -/
def subscription? (a : Activity) : Option Subscription :=
  match a.body with
  | .subscription s => some s
  | _ => none

/-- The activity with a flow arrived at its gateway. -/
def recordInbound (a : Activity) (flow : String) : Activity :=
  match a.body with
  | .gateway g => { a with body := .gateway (g.record flow) }
  | _ => a

/-- The event-based gateway with its winner, unless it has one already. -/
def winRace (a : Activity) (branch : String) : Activity :=
  match a.body with
  | .race r => { a with body := .race { r with winner := some (r.winner.getD branch) } }
  | _ => a

/-- The job with the reason of its failure. -/
def setFailure (a : Activity) (reason : String) : Activity :=
  match a.body with
  | .job j => { a with body := .job { j with failure := some reason } }
  | _ => a

/-- A branch of a race that has been decided: a waiting subscription is
withdrawn and a waiting timer cancelled. -/
def settle (a : Activity) : Activity :=
  match a.body with
  | .subscription _ => a.advance .withdrawn
  | .timer _ => a.setTimer .cancelled
  | _ => a

/-- A job that is not in a final state. -/
def isOpenJob (a : Activity) : Bool := a.job?.any fun j => !j.state.terminal

/-- A subscription that is not in a final state. -/
def isOpenSubscription (a : Activity) : Bool :=
  a.subscription?.any fun s => !s.state.terminal

/-- A timer that has neither fired nor been cancelled. -/
def isCreatedTimer (a : Activity) : Bool := a.timer?.any fun t => t.state == .created

@[simp] theorem key_advance (a : Activity) (s : ActivityState) : (a.advance s).key = a.key := by
  unfold advance advance?; split <;> rfl

@[simp] theorem element_advance (a : Activity) (s : ActivityState) :
    (a.advance s).element = a.element := by
  unfold advance advance?; split <;> rfl

@[simp] theorem origin_advance (a : Activity) (s : ActivityState) :
    (a.advance s).origin = a.origin := by
  unfold advance advance?; split <;> rfl

end Activity

end ProcessEngine
