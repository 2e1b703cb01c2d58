import ProcessEngine.Interpreter.Run

/-!
# Events

Start and end events, and the catch and throw events between them.  A message
catch waits for an event of its name, a timer catch for the clock, and a link
leads from its throw to its catch within the diagram.

Behind an event-based gateway a branch that comes late finds the race lost and
closes itself; the others are closed by the `settleRace` command that every
such catch queues.
-/

namespace ProcessEngine

namespace Run

/-! ## End events -/

/-- Handle an end event: the instance completes unless something still
waits. -/
def endEvent (r : Run) (element : Nat) (e : Element) (origin : Option Nat) : Handled :=
  match r.openElement element origin .completed false with
  | (r, .error error) => (r, .error error)
  | (r, .ok step) =>
    let r := r.reportElement e .completed
    if r.inst.state = .completed ∨ r.inst.hasPendingEvents then (r, .ok step)
    else (r.modify fun i => { i with state := .completed }, .ok step)

/-! ## Messages -/

/-- The open subscription of a message catch, or a new one. -/
def openSubscription? (r : Run) (element : Nat) (e : Element) (origin : Option Nat) :
    Option (Run × Nat) :=
  match r.inst.findOpenSubscription? e.id with
  | some n => some (r, n)
  | none =>
    r.open? element origin (.subscription
      { instanceKey := r.inst.key, definitionKey := r.inst.definition.key,
        elementId := e.id, name := r.diagram.messageName e, state := .active,
        createdAt := r.now })

/-- The run after a caught event: it is consumed, its variables are set, and
the output mappings are applied one after another; with the error that ended
these early. -/
def receive (r : Run) (e : Element) (position : Nat) (caught : CaughtEvent) :
    Run × Option ExprError :=
  let (vars, error?) := applyMappings (Keyed.putAll r.inst.vars caught.vars) e.outputs
  (r.modify fun i => { i.consume position with vars }, error?)

/-- Handle a message catch. -/
def messageCatch (r : Run) (element : Nat) (e : Element) (origin : Option Nat) : Handled :=
  match r.openSubscription? element e origin with
  | none => (r, .error .keysExhausted)
  | some (r, n) =>
    let race := r.originOf n
    if r.inst.raceLost race e.id then
      (r.modifyActivity n fun a => a.advance .withdrawn, .ok ⟨n, false, []⟩)
    else
      match (r.activity? n).bind Activity.subscription? with
      | none => (r, .ok ⟨n, false, []⟩)
      | some subscription =>
        match r.inst.findUnconsumed? subscription.name with
        | none => (r, .ok ⟨n, false, []⟩)
        | some position =>
          match r.inst.caught[position]? with
          | none => (r, .ok ⟨n, false, []⟩)
          | some caught =>
            match r.receive e position caught with
            | (r, some error) =>
              (r.modifyActivity n fun a => a.advance .failed,
                .error (.expression e.id e.name error))
            | (r, none) =>
              ((r.modifyActivity n fun a => a.advance .completed).modify fun i =>
                i.winRace race e.id, .ok ⟨n, true, []⟩)

/-! ## Timers -/

/-- The milliseconds of a timer's duration text. -/
def timerMillis (e : Element) (duration : Option String) : Except EngineError Int :=
  let text := Text.trim (duration.getD "")
  if text.isEmpty then .error (.invalidTimer e.id "" .missing)
  else
    match Duration.millis text with
    | .ok ms => .ok ms
    | .error error => .error (.invalidTimer e.id text (.unreadable error))

/-- The timer of a timer catch that has not fired, or a new one. -/
def openTimer (r : Run) (element : Nat) (e : Element) (duration : Option String)
    (origin : Option Nat) : Except EngineError (Run × Nat) :=
  match r.inst.findCreatedTimer? e.id with
  | some n => .ok (r, n)
  | none =>
    match timerMillis e duration with
    | .error error => .error error
    | .ok ms =>
      match r.open? element origin (.timer
          { instanceKey := r.inst.key, definitionKey := r.inst.definition.key,
            elementId := e.id, state := .created, createdAt := r.now,
            dueAt := r.now.addMillis ms, duration := ms }) with
      | none => .error .keysExhausted
      | some opened => .ok opened

/-- Handle a timer catch. -/
def timerCatch (r : Run) (element : Nat) (e : Element) (duration : Option String)
    (origin : Option Nat) : Handled :=
  match r.openTimer element e duration origin with
  | .error error => (r, .error error)
  | .ok (r, n) =>
    let race := r.originOf n
    if r.inst.raceLost race e.id then
      (r.modifyActivity n fun a => a.setTimer .cancelled, .ok ⟨n, false, []⟩)
    else
      match (r.activity? n).bind Activity.timer? with
      | none => (r, .ok ⟨n, false, []⟩)
      | some timer =>
        if isDue r.now timer.dueAt then
          ((r.modifyActivity n fun a => a.setTimer .triggered).modify fun i =>
            i.winRace race e.id, .ok ⟨n, true, []⟩)
        else (r, .ok ⟨n, false, []⟩)

/-! ## Links -/

/-- The run after the outputs of a link event, written all at once. -/
def writeOutputs (r : Run) (e : Element) : Except EngineError Run :=
  match (Scope.childOf r.inst.vars).propagateOutputs e.outputs with
  | .error error => .error (.expression e.id e.name error)
  | .ok scope => .ok (r.modify fun i => { i with vars := scope.parent.getD i.vars })

/-- Handle a link catch. -/
def linkCatch (r : Run) (element : Nat) (e : Element) (origin : Option Nat) : Handled :=
  match r.openElement element origin .completed true with
  | (r, .error error) => (r, .error error)
  | (r, .ok step) =>
    match r.writeOutputs e with
    | .error error => (r, .error error)
    | .ok r => (r, .ok step)

/-- The catch event that a link leads to; a blank name leads nowhere. -/
def linkTarget? (d : Diagram) (link : String) : Option Nat :=
  if Text.allBlank link then none else d.findLinkCatch? link

/-- Handle a link throw: flow goes on at the catch of the same name. -/
def linkThrow (r : Run) (element : Nat) (e : Element) (link : String) (origin : Option Nat) :
    Handled :=
  match linkTarget? r.diagram link with
  | none => (r, .error (.missingLink e.id link))
  | some target =>
    match r.openElement element origin .completed false with
    | (r, .error error) => (r, .error error)
    | (r, .ok step) =>
      match r.writeOutputs e with
      | .error error => (r, .error error)
      | .ok r =>
        (r.reportElement e .completed,
          .ok { step with extra := [.enter target (some step.activity) none] })

/-! ## Catch and throw events -/

/-- Handle what a catch event waits for; without a definition it waits for
good. -/
def catchBody (r : Run) (element : Nat) (e : Element) (origin : Option Nat) : Handled :=
  match e.event with
  | some (.message _) => r.messageCatch element e origin
  | some (.timer duration) => r.timerCatch element e duration origin
  | some (.link _) => r.linkCatch element e origin
  | none => r.openElement element origin .active false

/-- The command to settle the race that an activity takes part in. -/
def raceCommands (r : Run) (n : Nat) : List Command :=
  match r.originOf n with
  | some gateway => if (r.inst.raceAt? (some gateway)).isSome then [.settleRace gateway] else []
  | none => []

/-- Handle a catch event. -/
def catchEvent (r : Run) (element : Nat) (e : Element) (origin : Option Nat) : Handled :=
  match r.catchBody element e origin with
  | (r, .error error) => (r, .error error)
  | (r, .ok step) =>
    (r, .ok { step with extra := step.extra ++ r.raceCommands step.activity })

/-- Handle a throw event; without a link it stays where it is. -/
def throwEvent (r : Run) (element : Nat) (e : Element) (origin : Option Nat) : Handled :=
  match e.linkName? with
  | some link => r.linkThrow element e link origin
  | none => r.openElement element origin .active false

end Run

end ProcessEngine
