import ProcessEngine.Scope

/-!
# Processes

A process is a table of elements and a list of sequence flows between them.
Elements refer to flows by id and flows to elements by id; the look-ups take
the first entry with an id, so a repeated id is never ambiguous.
-/

namespace ProcessEngine

/-- The kinds of elements that are executed. -/
inductive ElementKind where
  | startEvent
  | endEvent
  | serviceTask
  | userTask
  | parallelGateway
  | exclusiveGateway
  | eventBasedGateway
  | catchEvent
  | throwEvent
deriving Repr, DecidableEq

namespace ElementKind

/-- The tag that a kind of element has in markup. -/
def tag : ElementKind → String
  | startEvent => "startEvent"
  | endEvent => "endEvent"
  | serviceTask => "serviceTask"
  | userTask => "userTask"
  | parallelGateway => "parallelGateway"
  | exclusiveGateway => "exclusiveGateway"
  | eventBasedGateway => "eventBasedGateway"
  | catchEvent => "intermediateCatchEvent"
  | throwEvent => "intermediateThrowEvent"

/-- All kinds of elements. -/
def all : List ElementKind :=
  [startEvent, endEvent, serviceTask, userTask, parallelGateway, exclusiveGateway,
   eventBasedGateway, catchEvent, throwEvent]

/-- The kind of element that a tag stands for. -/
def ofTag? (tag : String) : Option ElementKind := all.find? fun kind => kind.tag == tag

/-- The written name of a kind of element. -/
def name : ElementKind → String
  | startEvent => "StartEvent"
  | endEvent => "EndEvent"
  | serviceTask => "ServiceTask"
  | userTask => "UserTask"
  | parallelGateway => "ParallelGateway"
  | exclusiveGateway => "ExclusiveGateway"
  | eventBasedGateway => "EventBasedGateway"
  | catchEvent => "IntermediateCatchEvent"
  | throwEvent => "IntermediateThrowEvent"

/-- The label of a kind of element. -/
def label : ElementKind → String
  | startEvent => "START_EVENT"
  | endEvent => "END_EVENT"
  | serviceTask => "SERVICE_TASK"
  | userTask => "USER_TASK"
  | parallelGateway => "PARALLEL_GATEWAY"
  | exclusiveGateway => "EXCLUSIVE_GATEWAY"
  | eventBasedGateway => "EVENT_BASED_GATEWAY"
  | catchEvent => "INTERMEDIATE_CATCH_EVENT"
  | throwEvent => "INTERMEDIATE_THROW_EVENT"

/-- The kind of element with a written name. -/
def ofName? (name : String) : Option ElementKind := all.find? fun kind => kind.name == name

theorem mem_all (kind : ElementKind) : kind ∈ all := by cases kind <;> decide

theorem ofTag?_tag (kind : ElementKind) : ofTag? kind.tag = some kind := by
  cases kind <;> decide

theorem ofName?_name (kind : ElementKind) : ofName? kind.name = some kind := by
  cases kind <;> decide

end ElementKind

/-- What a catch or throw event waits for or refers to. -/
inductive EventDefinition where
  | message (ref : Option String)
  | timer (duration : Option String)
  | link (name : String)
deriving Repr, DecidableEq

/-- An element of a process.  The task type, assignee and candidate groups are
those of tasks; the mappings also hold for events. -/
structure Element where
  id : String
  name : String
  kind : ElementKind
  incoming : List String
  outgoing : List String
  taskType : Option String
  inputs : List Mapping
  outputs : List Mapping
  assignee : Option String
  candidateGroups : List String
  event : Option EventDefinition
deriving Repr, DecidableEq

/-- An element without flows, task data, mappings and event. -/
def Element.bare (id name : String) (kind : ElementKind) : Element :=
  { id, name, kind, incoming := [], outgoing := [], taskType := none, inputs := [],
    outputs := [], assignee := none, candidateGroups := [], event := none }

/-- The link name of a link event. -/
def Element.linkName? (e : Element) : Option String :=
  match e.event with
  | some (.link name) => some name
  | _ => none

/-- A directed edge between two elements, with its condition texts. -/
structure SequenceFlow where
  id : String
  name : String
  source : String
  target : String
  conditions : List String
deriving Repr, DecidableEq

/-- The condition of a flow: it has one if exactly one condition text is there
and it is not blank. -/
def SequenceFlow.condition? (f : SequenceFlow) : Option String :=
  match f.conditions with
  | [text] =>
    let text := Text.trim text
    if text.isEmpty then none else some text
  | _ => none

/-- The elements and flows of a process in document order, and its messages'
names by id. -/
structure Diagram where
  id : String
  name : String
  elements : List Element
  flows : List SequenceFlow
  messages : Keyed String
deriving Repr, DecidableEq

namespace Diagram

/-- The positions of the elements of a kind. -/
def indicesOf (p : Diagram) (kind : ElementKind) : List Nat :=
  (List.range p.elements.length).filter fun i =>
    p.elements[i]?.any fun e => e.kind == kind

/-- The positions of the start events. -/
def startEvents (p : Diagram) : List Nat := p.indicesOf .startEvent

/-- The positions of all elements with an id. -/
def indicesOfId (p : Diagram) (id : String) : List Nat :=
  (List.range p.elements.length).filter fun i =>
    p.elements[i]?.any fun e => e.id == id

/-- The position of the first element with an id. -/
def findElement? (p : Diagram) (id : String) : Option Nat :=
  p.elements.findIdx? fun e => e.id == id

/-- The first flow with an id. -/
def findFlow? (p : Diagram) (id : String) : Option SequenceFlow :=
  p.flows.find? fun f => f.id == id

/-- The flows with the given ids, in their order; unknown ids are skipped. -/
def findFlows (p : Diagram) (ids : List String) : List SequenceFlow :=
  ids.filterMap p.findFlow?

/-- The first flow from one element to another. -/
def flowBetween? (p : Diagram) (source target : String) : Option SequenceFlow :=
  p.flows.find? fun f => f.source == source && f.target == target

/-- The position of the first catch event with a link name. -/
def findLinkCatch? (p : Diagram) (link : String) : Option Nat :=
  p.elements.findIdx? fun e => e.kind == .catchEvent && e.linkName? == some link

/-- The name by which a message reaches an element: that of the message it
refers to, or else its own. -/
def messageName (p : Diagram) (e : Element) : String :=
  match e.event with
  | some (.message (some ref)) => (Keyed.get? p.messages ref).getD e.name
  | _ => e.name

end Diagram

end ProcessEngine
