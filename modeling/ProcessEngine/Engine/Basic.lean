import ProcessEngine.Interpreter.Drain
import ProcessEngine.Codec.Sha256

/-!
# The engine

An engine holds definitions and instances, one key source, a clock, and the
handlers for tasks.  Instances only move inside a run: messages are published
and time passes beforehand, and the next run finds them.

Every operation gives the engine after it together with its result.
-/

namespace ProcessEngine

/-- Definitions and instances with what their execution needs.  `audit` and
`calls` are the reports and handler calls so far. -/
structure Engine where
  name : String
  definitions : List Definition
  instances : List Instance
  keys : KeySequence
  now : Instant
  registrations : List Registration
  audit : List AuditEvent
  calls : List HandlerCall

/-- The name of an engine that is given none. -/
def defaultEngineName : String := "bpmn-engine"

namespace Engine

/-- An engine without definitions and instances. -/
def fresh (name : String) (keys : KeySequence) (now : Instant) : Engine :=
  { name, definitions := [], instances := [], keys, now, registrations := [], audit := [],
    calls := [] }

/-- The engine with one more report. -/
def report (e : Engine) (event : AuditEvent) : Engine := { e with audit := e.audit ++ [event] }

/-! ## Definitions -/

/-- The first definition with a key. -/
def findDefinition? (e : Engine) (key : Int) : Option Definition :=
  e.definitions.find? fun d => d.key == key

/-- The definitions with an id. -/
def versionsOf (e : Engine) (id : String) : List Definition :=
  e.definitions.filter fun d => d.id == id

/-- The definitions with an id, in the order of their versions. -/
def findDefinitions (e : Engine) (id : String) : List Definition :=
  (e.versionsOf id).mergeSort fun a b => decide (a.version ≤ b.version)

/-- The definition with the highest version, the last of several. -/
def latestOf : List Definition → Option Definition
  | [] => none
  | d :: ds =>
    match latestOf ds with
    | none => some d
    | some later => some (if d.version ≤ later.version then later else d)

/-- The definition of an id with the highest version. -/
def latest? (e : Engine) (id : String) : Option Definition := latestOf (e.versionsOf id)

/-- The version that follows those of some definitions; versions are signed
32-bit numbers, counted on past the greatest one. -/
def nextVersion (versions : List Definition) : Int :=
  ((latestOf versions).map Definition.version |>.getD 0) + 1 |>.bmod (2 ^ 32)

/-- The report on a new definition. -/
def loadedEvent (d : Definition) : AuditEvent :=
  .definitionLoaded d.key d.id d.version d.resourceName d.checksum

/-- Load a source under a resource name.  The same source for the same id
gives the definition that is there; any other becomes its next version. -/
def load (e : Engine) (source resourceName : String) :
    Engine × Except EngineError Definition :=
  match Diagram.ofMarkup source with
  | .error error => (e, .error (.parse error))
  | .ok diagram =>
    let checksum := Sha256.ofText source
    match e.definitions.find? fun d => d.id == diagram.id && d.checksum == checksum with
    | some known => (e, .ok known)
    | none =>
      match e.keys.issue with
      | none => (e, .error .keysExhausted)
      | some (key, keys) =>
        let d : Definition :=
          { key, id := diagram.id, version := nextVersion (e.versionsOf diagram.id), checksum,
            source, resourceName, loadedAt := e.now, diagram }
        ({ e with keys, definitions := e.definitions ++ [d] }.report (loadedEvent d), .ok d)

/-- Load the bytes of a source. -/
def loadBytes (e : Engine) (source : ByteArray) : Engine × Except EngineError Definition :=
  match String.fromUTF8? source with
  | some source => e.load source ""
  | none => (e, .error (.parse .notUtf8))

/-- Load the content of a file, `none` for one that cannot be read, under the
file's name. -/
def loadFile (e : Engine) (name : String) (content : Option String) :
    Engine × Except EngineError Definition :=
  match content with
  | some source => e.load source name
  | none => (e, .error .unreadableFile)

/-! ## Instances -/

/-- The position of the first instance with a key. -/
def findIndex? (e : Engine) (key : Int) : Option Nat :=
  e.instances.findIdx? fun i => i.key == key

/-- The first instance with a key. -/
def findInstance? (e : Engine) (key : Int) : Option Instance :=
  e.instances.find? fun i => i.key == key

/-- Create an instance of a definition. -/
def create (e : Engine) (definitionKey : Int) (vars : Variables) :
    Engine × Except EngineError Instance :=
  match e.findDefinition? definitionKey with
  | none => (e, .error (.unknownDefinition definitionKey))
  | some d =>
    match e.keys.issue with
    | none => (e, .error .keysExhausted)
    | some (key, keys) =>
      let i := Instance.fresh key d vars e.now
      ({ e with keys, instances := e.instances ++ [i] }.report i.createdEvent, .ok i)

/-- Create an instance of the highest version of an id. -/
def createById (e : Engine) (id : String) (vars : Variables) :
    Engine × Except EngineError Instance :=
  match e.latest? id with
  | none => (e, .error (.unknownDefinitionId id))
  | some d => e.create d.key vars

/-- Publish an event to an instance; it has no effect before the next run. -/
def publish (e : Engine) (instanceKey : Int) (name : String) (vars : Variables) :
    Engine × Except EngineError Unit :=
  match e.findIndex? instanceKey with
  | none => (e, .error (.unknownInstance instanceKey))
  | some n =>
    ({ e with instances := e.instances.modify n fun i =>
        i.recordEvent ⟨name, e.now, vars, false⟩ }, .ok ())

/-- What the engine lends to a run of an instance. -/
def lend (e : Engine) (i : Instance) : Run :=
  { inst := i, keys := e.keys, registrations := e.registrations, now := e.now,
    audit := e.audit, calls := e.calls }

/-- The engine after a run of the instance at a position. -/
def settle (e : Engine) (n : Nat) (r : Run) : Engine :=
  { e with
    instances := e.instances.set n r.inst, keys := r.keys, registrations := r.registrations,
    audit := r.audit, calls := r.calls }

/-- Run an instance within a number of commands; `none` if they did not
suffice. -/
def run? (fuel : Nat) (e : Engine) (instanceKey : Int) :
    Option (Engine × Except EngineError Instance) :=
  match e.findIndex? instanceKey with
  | none => some (e, .error (.unknownInstance instanceKey))
  | some n =>
    match e.instances[n]? with
    | none => some (e, .error (.unknownInstance instanceKey))
    | some i =>
      match (e.lend i).start? fuel with
      | none => none
      | some (r, none) => some (e.settle n r, .ok r.inst)
      | some (r, some error) => some (e.settle n r, .error error)

/-- Run what has just been created. -/
def thenRun? (fuel : Nat) (created : Engine × Except EngineError Instance) :
    Option (Engine × Except EngineError Instance) :=
  match created with
  | (e, .ok i) => e.run? fuel i.key
  | (e, .error error) => some (e, .error error)

/-- Create an instance and run it. -/
def createAndRun? (fuel : Nat) (e : Engine) (definitionKey : Int) (vars : Variables) :
    Option (Engine × Except EngineError Instance) :=
  thenRun? fuel (e.create definitionKey vars)

/-- Create an instance of the highest version of an id and run it. -/
def createAndRunById? (fuel : Nat) (e : Engine) (id : String) (vars : Variables) :
    Option (Engine × Except EngineError Instance) :=
  thenRun? fuel (e.createById id vars)

/-! ## Clock and handlers -/

/-- Set the clock. -/
def setClock (e : Engine) (now : Instant) : Engine := { e with now }

/-- Let time pass; a negative amount goes back. -/
def advanceClock (e : Engine) (ms : Int) : Engine := e.setClock (e.now.addMillis ms)

/-- Register a handler behind the ones that are there. -/
def register (e : Engine) (accepts : TaskMatcher) (handler : Handler) : Engine :=
  { e with registrations := e.registrations ++ [⟨accepts, handler, 0⟩] }

/-! ## Views -/

/-- The activities of all instances. -/
def activities (e : Engine) : List Activity := e.instances.flatMap Instance.activities

/-- The reports on the elements and flows of an instance. -/
def trail (e : Engine) (instanceKey : Int) : List (String × ElementIntent) :=
  elementTrail e.audit instanceKey

end Engine

end ProcessEngine
