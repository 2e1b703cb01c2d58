import ProcessEngine.Snapshot.Basic
import ProcessEngine.Json.Decode
import ProcessEngine.Json.Printer
import ProcessEngine.Json.Reader

/-!
# Snapshots as JSON

A snapshot is written as one JSON object.  The reader takes every field that
the writer writes; it passes over other fields, and a few fields may be absent.
The `shape` of a record names its fields in order.  A field of another name is
dropped before anything is decoded; only an activity, whose fields depend on
its kind, is asked for as a whole.
-/

namespace ProcessEngine

/-- An instant as JSON. -/
def Instant.toJson (t : Instant) : Json := .string t.text

/-- The instant that a JSON value gives. -/
def Instant.ofJson? (value : Json) : Option Instant := value.text?.bind Instant.parse?

/-- Variables as JSON. -/
def Variables.toJson (vars : Variables) : Json := .object vars

/-- The variables that a JSON value gives. -/
def Variables.ofJson? (value : Json) : Option Variables :=
  match value.normal with
  | .object fields => some fields
  | _ => none

namespace StoredBody

/-- The kind by which a body is told. -/
def kindName : StoredBody → String
  | element .. => "element"
  | gateway .. => "gateway"
  | race .. => "event_based_gateway"
  | job .. => "job"
  | timer .. => "timer"
  | subscription .. => "subscription"

/-- The fields of a body. -/
def toFields : StoredBody → List (String × Json)
  | element state => [("state", .string state.name)]
  | gateway g =>
    [("state", .string g.state.name), ("parallel", .bool g.parallel),
      ("inbound_completed", .ofStrings g.inbound)]
  | race r =>
    [("state", .string r.state.name), ("outbound_completed", Json.ofOption .string r.winner)]
  | job state createdAt failure =>
    [("state", .string state.name), ("created_at", createdAt.toJson),
      ("failure", Json.ofOption .string failure)]
  | timer state createdAt dueAt duration =>
    [("state", .string state.name), ("created_at", createdAt.toJson), ("due_at", dueAt.toJson),
      ("duration_ms", .ofInt duration)]
  | subscription state name createdAt =>
    [("state", .string state.name), ("name", .string name), ("created_at", createdAt.toJson)]

/-- The state of an activity. -/
def activityState? (value : Json) : Option ActivityState :=
  value.nameInTagged?.bind ActivityState.ofName?

/-- The state of a timer. -/
def timerState? (value : Json) : Option TimerState :=
  value.nameInTagged?.bind TimerState.ofName?

/-- The body of a kind that some fields give. -/
def ofFields? (kind : String) (fields : List (String × Json)) : Option StoredBody := do
  match kind with
  | "element" => some (element (← Json.required fields "state" activityState?))
  | "gateway" =>
    some (gateway ⟨← Json.required fields "state" activityState?,
      ← Json.required fields "parallel" Json.bool?,
      ← Json.required fields "inbound_completed" (Json.list? Json.text?)⟩)
  | "event_based_gateway" =>
    some (race ⟨← Json.required fields "state" activityState?,
      ← Json.nullable fields "outbound_completed" Json.text?⟩)
  | "job" =>
    some (job (← Json.required fields "state" activityState?)
      (← Json.required fields "created_at" Instant.ofJson?)
      (← Json.nullable fields "failure" Json.text?))
  | "timer" =>
    some (timer (← Json.required fields "state" timerState?)
      (← Json.required fields "created_at" Instant.ofJson?)
      (← Json.required fields "due_at" Instant.ofJson?)
      (← Json.required fields "duration_ms" Json.int64?))
  | "subscription" =>
    some (subscription (← Json.required fields "state" activityState?)
      (← Json.required fields "name" Json.text?)
      (← Json.required fields "created_at" Instant.ofJson?))
  | _ => none

end StoredBody

namespace StoredActivity

/-- The fields of an activity by its kind, in order. -/
def shape (kind : String) : List String :=
  ["key", "state", "element_id", "origin_key"] ++
    match kind with
    | "gateway" => ["parallel", "inbound_completed"]
    | "event_based_gateway" => ["outbound_completed"]
    | "job" => ["created_at", "failure"]
    | "timer" => ["created_at", "due_at", "duration_ms"]
    | "subscription" => ["name", "created_at"]
    | _ => []

/-- An activity as JSON. -/
def toJson (a : StoredActivity) : Json :=
  .object ([("kind", .string a.body.kindName), ("key", .ofInt a.key),
    ("element_id", .string a.elementId), ("origin_key", Json.ofOption .ofInt a.originKey)] ++
    a.body.toFields)

/-- The activity that a JSON value gives. -/
def ofJson? (value : Json) : Option StoredActivity := do
  let (kind, fields) ← value.tagged? "kind" shape
  some
    { key := ← Json.required fields "key" Json.int64?
      elementId := ← Json.required fields "element_id" Json.text?
      originKey := ← Json.nullable fields "origin_key" Json.int64?
      body := ← StoredBody.ofFields? kind fields }

end StoredActivity

namespace CaughtEvent

/-- A published event as JSON. -/
def toJson (c : CaughtEvent) : Json :=
  .object [("name", .string c.name), ("caught_at", c.caughtAt.toJson),
    ("variables", Variables.toJson c.vars), ("consumed", .bool c.consumed)]

/-- The fields of a published event. -/
def shape : Json.Shape := .ofNames ["name", "caught_at", "variables", "consumed"]

/-- The published event that a JSON value gives. -/
def ofJson? (value : Json) : Option CaughtEvent := do
  let fields ← value.record? shape.names 0
  some
    { name := ← Json.required fields "name" Json.text?
      caughtAt := ← Json.required fields "caught_at" Instant.ofJson?
      vars := ← Json.required fields "variables" Variables.ofJson?
      consumed := ← Json.required fields "consumed" Json.bool? }

end CaughtEvent

namespace StoredInstance

/-- An instance as JSON. -/
def toJson (i : StoredInstance) : Json :=
  .object [("instance_key", .ofInt i.key), ("process_key", .ofInt i.definitionKey),
    ("created_at", i.createdAt.toJson), ("state", .string i.state.name),
    ("variables", Variables.toJson i.vars),
    ("caught_events", .array (i.caught.map CaughtEvent.toJson)),
    ("activities", .array (i.activities.map StoredActivity.toJson))]

/-- The fields of an instance. -/
def shape : Json.Shape :=
  .record [("instance_key", .whole), ("process_key", .whole), ("created_at", .whole),
    ("state", .whole), ("variables", .whole), ("caught_events", .list CaughtEvent.shape),
    ("activities", .whole)]

/-- The instance that a JSON value gives. -/
def ofJson? (value : Json) : Option StoredInstance := do
  let fields ← value.record? shape.names 2
  some
    { key := ← Json.required fields "instance_key" Json.int64?
      definitionKey := ← Json.required fields "process_key" Json.int64?
      createdAt := ← Json.required fields "created_at" Instant.ofJson?
      state := ← Json.required fields "state" fun v => v.name?.bind InstanceState.ofName?
      vars := ← Json.required fields "variables" Variables.ofJson?
      caught := ← Json.withDefault fields "caught_events" [] (Json.list? CaughtEvent.ofJson?)
      activities := ←
        Json.withDefault fields "activities" [] (Json.list? StoredActivity.ofJson?) }

end StoredInstance

namespace StoredDefinition

/-- A definition as JSON; an empty resource name is left out. -/
def toJson (d : StoredDefinition) : Json :=
  .object ([("process_key", .ofInt d.key), ("bpmn_process_id", .string d.id),
    ("version", .ofInt d.version)] ++
    (if d.resourceName.isEmpty then [] else [("resource_name", .string d.resourceName)]) ++
    [("checksum", .string d.checksum), ("loaded_at", d.loadedAt.toJson),
      ("source", .string d.packedSource)])

/-- The fields of a definition. -/
def shape : Json.Shape :=
  .ofNames ["process_key", "bpmn_process_id", "version", "resource_name", "checksum",
    "loaded_at", "source"]

/-- The definition that a JSON value gives. -/
def ofJson? (value : Json) : Option StoredDefinition := do
  let fields ← value.record? shape.names 0
  some
    { key := ← Json.required fields "process_key" Json.int64?
      id := ← Json.required fields "bpmn_process_id" Json.text?
      version := ← Json.required fields "version" Json.int32?
      resourceName := ← Json.withDefault fields "resource_name" "" Json.text?
      checksum := ← Json.required fields "checksum" Json.text?
      loadedAt := ← Json.required fields "loaded_at" Instant.ofJson?
      packedSource := ← Json.required fields "source" Json.text? }

end StoredDefinition

namespace Snapshot

/-- A snapshot as JSON. -/
def toJson (s : Snapshot) : Json :=
  .object [("version", .ofInt s.version), ("name", .string s.name),
    ("definitions", .array (s.definitions.map StoredDefinition.toJson)),
    ("instances", .array (s.instances.map StoredInstance.toJson))]

/-- The fields of a snapshot. -/
def shape : Json.Shape :=
  .record [("version", .whole), ("name", .whole), ("definitions", .list StoredDefinition.shape),
    ("instances", .list StoredInstance.shape)]

/-- The snapshot that a JSON value gives. -/
def ofJson? (value : Json) : Option Snapshot := do
  let fields ← value.record? shape.names 0
  some
    { version := ← Json.required fields "version" (Json.intBetween? 0 (2 ^ 32 - 1))
      name := ← Json.required fields "name" Json.text?
      definitions := ←
        Json.required fields "definitions" (Json.list? StoredDefinition.ofJson?)
      instances := ← Json.required fields "instances" (Json.list? StoredInstance.ofJson?) }

/-- A snapshot as text. -/
def text (s : Snapshot) : String := s.toJson.compress

/-- The snapshot that a text gives. -/
def parse? (text : String) : Option Snapshot :=
  ((Json.Written.ofText? text).bind (·.settle? shape Json.nestingLimit)).bind ofJson?

end Snapshot

end ProcessEngine
