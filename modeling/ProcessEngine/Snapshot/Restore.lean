import ProcessEngine.Snapshot.Codec
import ProcessEngine.Snapshot.Source

/-!
# Taking and restoring snapshots

`Engine.snapshot` stores an engine.  `Engine.restore` brings the definitions
and instances of a stored one into a blank engine, which lends its clock, its
key source and its audit trail.

Restoring reads each source again and finds each element and each origin anew,
so that the positions in the result lie inside its tables.  The key source is
moved past every key met on the way.
-/

namespace ProcessEngine

/-- A definition as it is stored. -/
def Definition.stored (d : Definition) : StoredDefinition :=
  { key := d.key, id := d.id, version := d.version, resourceName := d.resourceName,
    checksum := d.checksum, loadedAt := d.loadedAt, packedSource := PackedSource.pack d.source }

/-- An engine as it is stored. -/
def Engine.snapshot (e : Engine) : Snapshot :=
  { version := snapshotVersion, name := e.name,
    definitions := e.definitions.map Definition.stored,
    instances := e.instances.map Instance.stored }

namespace StoredDefinition

/-- The definition with its source read again. -/
def restore (d : StoredDefinition) : Except EngineError Definition :=
  match PackedSource.unpack d.packedSource with
  | .error .notBase64 => .error (.restore .notBase64)
  | .error .notInflatable => .error (.restore .notInflatable)
  | .ok source =>
    let checksum := Sha256.ofText source
    if checksum = d.checksum then
      match Diagram.ofMarkup source with
      | .error error => .error (.parse error)
      | .ok diagram =>
        .ok { key := d.key, id := d.id, version := d.version, checksum, source,
              resourceName := d.resourceName, loadedAt := d.loadedAt, diagram }
    else .error (.restore (.checksumMismatch d.key d.checksum checksum))

end StoredDefinition

/-- The position of the activity with a key, the last of several. -/
def lastPosition? (key : Int) : List StoredActivity → Option Nat
  | [] => none
  | a :: rest =>
    match lastPosition? key rest with
    | some n => some (n + 1)
    | none => if a.key = key then some 0 else none

theorem lastPosition?_lt {key : Int} {activities : List StoredActivity} {n : Nat}
    (h : lastPosition? key activities = some n) : n < activities.length := by
  induction activities generalizing n with
  | nil => cases h
  | cons a rest ih =>
    rw [lastPosition?] at h
    rw [List.length_cons]
    split at h
    · rename_i m hm
      cases h
      exact Nat.succ_lt_succ (ih hm)
    · split at h
      · cases h
        exact Nat.succ_pos _
      · cases h

namespace StoredInstance

/-- The position of an element in a diagram. -/
def findElement (i : StoredInstance) (diagram : Diagram) (id : String) :
    Except RestoreError Nat :=
  match diagram.findElement? id with
  | some element => .ok element
  | none => .error (.unknownElement i.key id)

/-- The position of an origin. -/
def findOrigin (i : StoredInstance) : Option Int → Except RestoreError (Option Nat)
  | none => .ok none
  | some key =>
    match lastPosition? key i.activities with
    | some n => .ok (some n)
    | none => .error (.unknownOrigin i.key key)

/-- The body of an activity of the instance. -/
def body (i : StoredInstance) (elementId : String) : StoredBody → ActivityBody
  | .element state => .element state
  | .gateway g => .gateway g
  | .race r => .race r
  | .job state createdAt failure => .job ⟨i.key, elementId, state, createdAt, failure⟩
  | .timer state createdAt dueAt duration =>
    .timer ⟨i.key, i.definitionKey, elementId, state, createdAt, dueAt, duration⟩
  | .subscription state name createdAt =>
    .subscription ⟨i.key, i.definitionKey, elementId, name, state, createdAt⟩

/-- An activity with its element and its origin found again. -/
def relink (i : StoredInstance) (diagram : Diagram) (a : StoredActivity) :
    Except RestoreError Activity :=
  match i.findElement diagram a.elementId with
  | .error error => .error error
  | .ok element =>
    match i.findOrigin a.originKey with
    | .error error => .error error
    | .ok origin => .ok ⟨a.key, element, origin, i.body a.elementId a.body⟩

/-- Activities with their elements and origins found again. -/
def relinkAll (i : StoredInstance) (diagram : Diagram) :
    List StoredActivity → Except RestoreError (List Activity)
  | [] => .ok []
  | a :: rest =>
    match i.relink diagram a with
    | .error error => .error error
    | .ok activity =>
      match i.relinkAll diagram rest with
      | .error error => .error error
      | .ok activities => .ok (activity :: activities)

/-- The instance of one of some definitions. -/
def restore (i : StoredInstance) (definitions : List Definition) :
    Except RestoreError Instance :=
  match definitions.find? fun d => d.key == i.definitionKey with
  | none => .error (.unknownDefinition i.key i.definitionKey)
  | some definition =>
    match i.relinkAll definition.diagram i.activities with
    | .error error => .error error
    | .ok activities =>
      .ok { key := i.key, definition, vars := i.vars, createdAt := i.createdAt,
            state := i.state, caught := i.caught, activities }

/-- The keys of the instance and of its activities. -/
def keys (i : StoredInstance) : List Int := i.key :: i.activities.map StoredActivity.key

end StoredInstance

namespace Engine

/-- The engine with its key source moved past some keys. -/
def skipKeys (e : Engine) (keys : List Int) : Engine :=
  { e with keys := keys.foldl KeySequence.advancePast e.keys }

/-- The engine with one more stored definition. -/
def addDefinition (e : Engine) (d : StoredDefinition) : Except EngineError Engine :=
  match d.restore with
  | .error error => .error error
  | .ok definition =>
    let e := e.skipKeys [d.key]
    .ok { e with definitions := e.definitions ++ [definition] }

/-- The engine with one more stored instance. -/
def addInstance (e : Engine) (i : StoredInstance) : Except EngineError Engine :=
  match i.restore e.definitions with
  | .error error => .error (.restore error)
  | .ok inst =>
    let e := e.skipKeys i.keys
    .ok { e with instances := e.instances ++ [inst] }

/-- The blank engine with the name, the definitions and the instances of a
snapshot. -/
def rebuild (blank : Engine) (s : Snapshot) : Except EngineError Engine :=
  if s.version = snapshotVersion then do
    let e ← s.definitions.foldlM addDefinition { blank with name := s.name }
    s.instances.foldlM addInstance e
  else .error (.restore (.unsupportedVersion s.version))

/-- The blank engine with what a stored text holds. -/
def restore (blank : Engine) (text : String) : Except EngineError Engine :=
  match Snapshot.parse? text with
  | none => .error (.restore .malformed)
  | some s => blank.rebuild s

end Engine

end ProcessEngine
