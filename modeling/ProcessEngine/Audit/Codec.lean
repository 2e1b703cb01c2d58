import ProcessEngine.Audit.Basic
import ProcessEngine.Json.Decode

/-!
# Audit events as JSON

An event is an object whose `event` field tells its kind.
-/

namespace ProcessEngine

/-- The written name of an intent. -/
def ElementIntent.name : ElementIntent → String
  | activated => "ACTIVATED"
  | completed => "COMPLETED"
  | sequenceFlowTaken => "SEQUENCE_FLOW_TAKEN"

/-- The intent with a written name. -/
def ElementIntent.ofName? (name : String) : Option ElementIntent :=
  [activated, completed, sequenceFlowTaken].find? fun i => i.name == name

namespace AuditEvent

/-- An event as JSON. -/
def toJson : AuditEvent → Json
  | definitionLoaded definitionKey id version resourceName checksum =>
    .object [("event", .string "process_loaded"), ("process_key", .ofInt definitionKey),
      ("bpmn_process_id", .string id), ("version", .ofInt version),
      ("resource_name", .string resourceName), ("checksum", .string checksum)]
  | instanceCreated definitionKey instanceKey id version =>
    .object [("event", .string "instance_created"), ("process_key", .ofInt definitionKey),
      ("instance_key", .ofInt instanceKey), ("bpmn_process_id", .string id),
      ("version", .ofInt version)]
  | instanceEnded definitionKey instanceKey id version state =>
    .object [("event", .string "instance_ended"), ("process_key", .ofInt definitionKey),
      ("instance_key", .ofInt instanceKey), ("bpmn_process_id", .string id),
      ("version", .ofInt version), ("state", .string state.name)]
  | element definitionKey instanceKey id name kind intent =>
    .object [("event", .string "element"), ("process_key", .ofInt definitionKey),
      ("instance_key", .ofInt instanceKey), ("element_id", .string id),
      ("element_name", .string name),
      ("element_type", Json.ofOption (fun kind : ElementKind => .string kind.name) kind),
      ("intent", .string intent.name)]

/-- The fields of an event by its tag, in order. -/
def shape : String → List String
  | "process_loaded" => ["process_key", "bpmn_process_id", "version", "resource_name", "checksum"]
  | "instance_created" => ["process_key", "instance_key", "bpmn_process_id", "version"]
  | "instance_ended" => ["process_key", "instance_key", "bpmn_process_id", "version", "state"]
  | "element" =>
    ["process_key", "instance_key", "element_id", "element_name", "element_type", "intent"]
  | _ => []

/-- The event that a JSON value stands for. -/
def ofJson? (value : Json) : Option AuditEvent := do
  let (event, fields) ← value.tagged? "event" shape
  let definitionKey ← Json.required fields "process_key" Json.int64?
  match event with
  | "process_loaded" =>
    some (definitionLoaded definitionKey (← Json.required fields "bpmn_process_id" Json.text?)
      (← Json.required fields "version" Json.int32?)
      (← Json.required fields "resource_name" Json.text?)
      (← Json.required fields "checksum" Json.text?))
  | "instance_created" =>
    some (instanceCreated definitionKey (← Json.required fields "instance_key" Json.int64?)
      (← Json.required fields "bpmn_process_id" Json.text?)
      (← Json.required fields "version" Json.int32?))
  | "instance_ended" =>
    some (instanceEnded definitionKey (← Json.required fields "instance_key" Json.int64?)
      (← Json.required fields "bpmn_process_id" Json.text?)
      (← Json.required fields "version" Json.int32?)
      (← Json.required fields "state" fun v => v.nameInTagged?.bind InstanceState.ofName?))
  | "element" =>
    some (element definitionKey (← Json.required fields "instance_key" Json.int64?)
      (← Json.required fields "element_id" Json.text?)
      (← Json.required fields "element_name" Json.text?)
      (← Json.nullable fields "element_type" fun v => v.nameInTagged?.bind ElementKind.ofName?)
      (← Json.required fields "intent" fun v => v.nameInTagged?.bind ElementIntent.ofName?))
  | _ => none

end AuditEvent

end ProcessEngine
