import ProcessEngine.Interpreter.Flow
import ProcessEngine.Interpreter.Job
import ProcessEngine.Interpreter.Event
import ProcessEngine.Interpreter.Gateway

/-!
# Draining the queue

`Run.dispatch` does one command and gives the commands that follow from it;
`Run.drain?` works off a queue.  Commands are queued at the end, failures at
the front.  A failure ends the run at once; otherwise it ends when nothing is
left, also after the instance has completed.

A diagram with a loop that never waits keeps the queue filled for ever, so the
number of commands is bounded by `fuel`; `none` says that it did not suffice.
-/

namespace ProcessEngine

namespace Run

/-- Handle an element by its kind. -/
def handle (r : Run) (element : Nat) (e : Element) (origin : Option Nat)
    (via : Option String) : Handled :=
  match e.kind with
  | .startEvent | .exclusiveGateway => r.openElement element origin .completed true
  | .endEvent => r.endEvent element e origin
  | .serviceTask | .userTask => r.handleJob element e origin
  | .parallelGateway => r.parallelGateway element e origin via
  | .eventBasedGateway => r.eventBasedGateway element origin
  | .catchEvent => r.catchEvent element e origin
  | .throwEvent => r.throwEvent element e origin

/-- The run and the commands after an element is handled: where flow goes on,
the element is reported complete and its outgoing flows are to be taken. -/
def proceed (r : Run) (e : Element) (step : Step) : Run × List Command :=
  if step.continues then
    (r.reportElement e .completed,
      if e.outgoing.isEmpty then step.extra
      else step.extra ++ [.takeFlows step.activity e.outgoing])
  else (r, step.extra)

/-- Handle an element and give the commands that follow. -/
def visit (r : Run) (element : Nat) (e : Element) (origin : Option Nat)
    (via : Option String) : Run × List Command :=
  match r.handle element e origin via with
  | (r, .error error) => (r, [.fail error])
  | (r, .ok step) => r.proceed e step

/-- Do a command other than a failure. -/
def dispatch (r : Run) : Command → Run × List Command
  | .takeFlows source flows => r.takeFlows source flows
  | .enter element origin via =>
    match r.diagram.elements[element]? with
    | none => (r, [])
    | some e => (r.reportElement e .activated).visit element e origin via
  | .resume activity origin =>
    match r.activity? activity with
    | none => (r, [])
    | some a =>
      match r.diagram.elements[a.element]? with
      | none => (r, [])
      | some e => r.visit a.element e origin none
  | .settleRace gateway => (r.modify fun i => i.settleRace gateway, [])
  | .fail _ => (r, [])

/-- The queue with new commands: failures go to the front, the last of them
first, and all others to the end. -/
def enqueue (queue commands : List Command) : List Command :=
  (commands.filter Command.isFailure).reverse ++ queue ++
    commands.filter fun c => !c.isFailure

/-- The run at its end, with the end of the instance reported. -/
def finish (r : Run) : Run :=
  if r.inst.state.terminal then r.report r.inst.endedEvent else r

/-- The run failed. -/
def abort (r : Run) : Run :=
  let r := r.modify fun i => { i with state := .failed }
  r.report r.inst.endedEvent

/-- Work off a queue within a number of commands. -/
def drain? : Nat → Run → List Command → Option (Run × Option EngineError)
  | _, r, [] => some (r.finish, none)
  | 0, _, _ :: _ => none
  | _ + 1, r, .fail error :: _ => some (r.abort, some error)
  | fuel + 1, r, command :: queue =>
    let (r, commands) := r.dispatch command
    drain? fuel r (enqueue queue commands)

/-- The commands with which a run starts. -/
def seeds (i : Instance) : List Command :=
  match i.state with
  | .ready => i.diagram.startEvents.map fun element => .enter element none none
  | .active =>
    i.continuations.map fun n => .resume n (i.activities[n]?.bind Activity.origin)
  | .completed | .failed => []

/-- Drive an instance forward until nothing is left to do; an instance in a
final state is left alone. -/
def start? (fuel : Nat) (r : Run) : Option (Run × Option EngineError) :=
  if r.inst.state.terminal then some (r, none)
  else drain? fuel (r.modify fun i => { i with state := .active }) (seeds r.inst)

end Run

end ProcessEngine
