import ProcessEngine.Instance.Basic

/-!
# Audit events

What an engine reports while it works, in order: definitions loaded, instances
created and ended, elements activated and completed, and flows taken.
-/

namespace ProcessEngine

/-- What happened to an element or a flow. -/
inductive ElementIntent where
  | activated
  | completed
  | sequenceFlowTaken
deriving Repr, DecidableEq

/-- One report; `kind` is absent for a flow. -/
inductive AuditEvent where
  | definitionLoaded (definitionKey : Int) (id : String) (version : Int)
      (resourceName checksum : String)
  | instanceCreated (definitionKey instanceKey : Int) (id : String) (version : Int)
  | instanceEnded (definitionKey instanceKey : Int) (id : String) (version : Int)
      (state : InstanceState)
  | element (definitionKey instanceKey : Int) (id name : String)
      (kind : Option ElementKind) (intent : ElementIntent)
deriving Repr, DecidableEq

/-- The reports on elements and flows of one instance: which one, and what
happened to it. -/
def elementTrail (events : List AuditEvent) (instanceKey : Int) :
    List (String × ElementIntent) :=
  events.filterMap fun event =>
    match event with
    | .element _ key id _ _ intent => if key = instanceKey then some (id, intent) else none
    | _ => none

namespace Instance

/-- The report on an element of the instance. -/
def elementEvent (i : Instance) (e : Element) (intent : ElementIntent) : AuditEvent :=
  .element i.definition.key i.key e.id e.name (some e.kind) intent

/-- The report on a flow taken in the instance. -/
def flowEvent (i : Instance) (f : SequenceFlow) : AuditEvent :=
  .element i.definition.key i.key f.id f.name none .sequenceFlowTaken

/-- The report on the end of the instance. -/
def endedEvent (i : Instance) : AuditEvent :=
  .instanceEnded i.definition.key i.key i.definition.id i.definition.version i.state

/-- The report on the creation of the instance. -/
def createdEvent (i : Instance) : AuditEvent :=
  .instanceCreated i.definition.key i.key i.definition.id i.definition.version

end Instance

end ProcessEngine
