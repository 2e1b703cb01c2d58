import ProcessEngine.Interpreter.Run

/-!
# Taking flows

A completed activity takes all its outgoing flows, and an exclusive gateway at
most one of them: the first whose condition holds, or else the first without a
condition.
-/

namespace ProcessEngine

/-- The first flow whose condition holds; a condition without a truth value
ends the search. -/
def firstHolding (vars : Variables) :
    List SequenceFlow → Except EngineError (Option SequenceFlow)
  | [] => .ok none
  | f :: fs =>
    match f.condition? with
    | none => firstHolding vars fs
    | some condition =>
      match evaluateCondition condition vars with
      | .error e => .error (.expression f.id f.name e)
      | .ok true => .ok (some f)
      | .ok false => firstHolding vars fs

/-- The flow that an exclusive gateway takes. -/
def selectExclusive (vars : Variables) (flows : List SequenceFlow) :
    Except EngineError (Option SequenceFlow) :=
  match firstHolding vars flows with
  | .error e => .error e
  | .ok (some f) => .ok (some f)
  | .ok none => .ok (flows.find? fun f => f.condition?.isNone)

/-- The flows that are taken from an element. -/
def selectFlows (vars : Variables) (source : Element) (flows : List SequenceFlow) :
    Except EngineError (List SequenceFlow) :=
  if source.kind = .exclusiveGateway then
    match selectExclusive vars flows with
    | .error e => .error e
    | .ok f => .ok f.toList
  else .ok flows

namespace Run

/-- The command that a taken flow leads to. -/
def targetCommand (d : Diagram) (source : Nat) (f : SequenceFlow) : Command :=
  match d.findElement? f.target with
  | some element => .enter element (some source) (some f.id)
  | none => .fail (.elementNotFound f.target)

/-- Take flows from an activity: each one is reported and leads to its
target. -/
def takeFlows (r : Run) (source : Nat) (flowIds : List String) : Run × List Command :=
  match (r.activity? source).bind fun a => r.diagram.elements[a.element]? with
  | none => (r, [])
  | some element =>
    match selectFlows r.inst.vars element (r.diagram.findFlows flowIds) with
    | .error e => (r, [.fail e])
    | .ok flows =>
      ({ r with audit := r.audit ++ flows.map r.inst.flowEvent },
        flows.map (targetCommand r.diagram source))

end Run

end ProcessEngine
