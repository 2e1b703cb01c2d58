import ProcessEngine.Interpreter.Run

/-!
# Tasks

A task opens a job, or takes up the one that is still open, and hands it to
its handler.  Flow goes on only when the handler has completed the job and the
output mappings have values.  The instance's variables change at that moment
and not before.
-/

namespace ProcessEngine

/-- How an attempt to do a job has ended. -/
inductive Attempt where
  /-- The handler left the job open. -/
  | open
  /-- The job is complete; these are the instance's variables now. -/
  | completed (vars : Variables)
  /-- The handler failed the job. -/
  | failed (reason : String)
  /-- A mapping has no value. -/
  | broken (error : ExprError)

/-- The outcome of a job after its handler has acted. -/
def ActiveJob.settle (job : ActiveJob) (outputs : List Mapping) : Attempt :=
  match job.outcome with
  | none => .open
  | some (.failed reason) => .failed reason
  | some .completed =>
    match job.scope.propagateOutputs outputs with
    | .error e => .broken e
    | .ok scope => .completed (scope.parent.getD [])

namespace Run

/-- What a job tells its handler. -/
def jobInfo (r : Run) (e : Element) (key : Int) (job : Job) : JobInfo :=
  { key, instanceKey := r.inst.key, definitionKey := r.inst.definition.key,
    definitionId := r.inst.definition.id, version := r.inst.definition.version,
    elementId := e.id, elementName := e.name, taskType := e.taskType,
    createdAt := job.createdAt }

/-- The run with a call of a registration counted and recorded. -/
def recordCall (r : Run) (call : HandlerCall) : Run :=
  { r with
    registrations := r.registrations.modify call.registration fun g =>
      { g with calls := g.calls + 1 },
    calls := r.calls ++ [call] }

/-- Give a job to a handler: its scope is a copy of the instance's variables
with the input mappings applied. -/
def attempt (r : Run) (e : Element) (position : Nat) (registration : Registration)
    (info : JobInfo) : Run × Attempt :=
  match applyMappings r.inst.vars e.inputs with
  | (_, some error) => (r, .broken error)
  | (vars, none) =>
    let job : ActiveJob := ⟨info, ⟨vars, some r.inst.vars⟩, none⟩
    let actions := registration.handler registration.calls job
    (r.recordCall ⟨position, info.key, e.id, job.notes actions⟩,
      (job.play actions).settle e.outputs)

/-- The run with the job at a position failed for a reason. -/
def failJob (r : Run) (n : Nat) (reason : String) : Run :=
  r.modifyActivity n fun a => (a.advance .failed).setFailure reason

/-- The step that an attempt comes to. -/
def finishJob (r : Run) (e : Element) (n : Nat) : Attempt → Handled
  | .open => (r, .ok ⟨n, false, []⟩)
  | .completed vars =>
    ((r.modify fun i => { i with vars }).modifyActivity n fun a => a.advance .completed,
      .ok ⟨n, true, []⟩)
  | .failed reason => (r.failJob n reason, .ok ⟨n, false, []⟩)
  | .broken error =>
    ((r.failJob n error.message).modify fun i => { i with state := .failed },
      .error (.expression e.id e.name error))

/-- The open job of a task, or a new one. -/
def openJob? (r : Run) (element : Nat) (e : Element) (origin : Option Nat) :
    Option (Run × Nat) :=
  match r.inst.findOpenJob? e.id with
  | some n => some (r, n)
  | none =>
    r.open? element origin (.job
      { instanceKey := r.inst.key, elementId := e.id, state := .active,
        createdAt := r.now, failure := none })

/-- Handle a task. -/
def handleJob (r : Run) (element : Nat) (e : Element) (origin : Option Nat) : Handled :=
  match r.openJob? element e origin with
  | none => (r, .error .keysExhausted)
  | some (r, n) =>
    match resolveHandler? r.registrations e with
    | none => (r, .ok ⟨n, false, []⟩)
    | some position =>
      match r.registrations[position]?, r.activity? n with
      | some registration, some a =>
        match a.job? with
        | none => (r, .ok ⟨n, false, []⟩)
        | some job =>
          let (r, attempt) := r.attempt e position registration (r.jobInfo e a.key job)
          r.finishJob e n attempt
      | _, _ => (r, .ok ⟨n, false, []⟩)

end Run

end ProcessEngine
