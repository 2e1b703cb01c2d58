import ProcessEngine.Engine.Basic

/-!
# Snapshots

A snapshot holds all that an engine has to remember: its name, definitions and
instances.  It does not hold positions: an activity names its element by id
and its origin by key, and what the definition or the instance tells anyway is
left out.
-/

namespace ProcessEngine

/-- What a stored activity holds by its kind. -/
inductive StoredBody where
  | element (state : ActivityState)
  | gateway (gateway : Gateway)
  | race (race : Race)
  | job (state : ActivityState) (createdAt : Instant) (failure : Option String)
  | timer (state : TimerState) (createdAt dueAt : Instant) (duration : Int)
  | subscription (state : ActivityState) (name : String) (createdAt : Instant)
deriving Repr, DecidableEq

/-- A stored activity. -/
structure StoredActivity where
  key : Int
  elementId : String
  originKey : Option Int
  body : StoredBody
deriving Repr, DecidableEq

/-- A stored instance. -/
structure StoredInstance where
  key : Int
  definitionKey : Int
  createdAt : Instant
  state : InstanceState
  vars : Variables
  caught : List CaughtEvent
  activities : List StoredActivity

/-- A stored definition with its source in packed form. -/
structure StoredDefinition where
  key : Int
  id : String
  version : Int
  resourceName : String
  checksum : String
  loadedAt : Instant
  packedSource : String
deriving Repr, DecidableEq

/-- A stored engine; `version` is that of the form it is stored in. -/
structure Snapshot where
  version : Int
  name : String
  definitions : List StoredDefinition
  instances : List StoredInstance

/-- The version of the form in which snapshots are written. -/
def snapshotVersion : Int := 1

/-- The body of an activity without what its instance tells. -/
def ActivityBody.stored : ActivityBody → StoredBody
  | element state => .element state
  | gateway g => .gateway g
  | race r => .race r
  | job j => .job j.state j.createdAt j.failure
  | timer t => .timer t.state t.createdAt t.dueAt t.duration
  | subscription s => .subscription s.state s.name s.createdAt

/-- The element id that an activity carries itself. -/
def ActivityBody.elementId? : ActivityBody → Option String
  | job j => some j.elementId
  | timer t => some t.elementId
  | subscription s => some s.elementId
  | element _ | gateway _ | race _ => none

namespace Instance

/-- The id of the element at a position. -/
def elementIdAt (i : Instance) (element : Nat) : String :=
  (i.diagram.elements[element]?.map Element.id).getD ""

/-- The key of the activity at a position. -/
def activityKeyAt? (i : Instance) (n : Nat) : Option Int := i.activities[n]?.map Activity.key

/-- An activity of the instance with its element and its origin by name. -/
def storedActivity (i : Instance) (a : Activity) : StoredActivity :=
  { key := a.key
    elementId := a.body.elementId?.getD (i.elementIdAt a.element)
    originKey := a.origin.bind i.activityKeyAt?
    body := a.body.stored }

/-- The instance as it is stored. -/
def stored (i : Instance) : StoredInstance :=
  { key := i.key, definitionKey := i.definition.key, createdAt := i.createdAt, state := i.state,
    vars := i.vars, caught := i.caught, activities := i.activities.map i.storedActivity }

end Instance

end ProcessEngine
