import ProcessEngine.Interpreter.Run

/-!
# Gateways

A parallel gateway gathers its incoming flows in one activity and goes on when
all of them have arrived; the next arrival starts a new activity.  An
event-based gateway goes on at once and lets its branches race.
-/

namespace ProcessEngine

namespace Run

/-- The flow by which an element was reached: the one that led there, or the
first one from the element of the origin. -/
def arrivedFlow? (r : Run) (e : Element) (origin : Option Nat) (via : Option String) :
    Option String :=
  match via with
  | some flow => some flow
  | none => do
    let n ← origin
    let a ← r.activity? n
    let source ← r.diagram.elements[a.element]?
    let flow ← r.diagram.flowBetween? source.id e.id
    some flow.id

/-- The gateway activity that gathers flows for an element, or a new one. -/
def openGateway? (r : Run) (element : Nat) (origin : Option Nat) : Option (Run × Nat) :=
  match r.inst.findActiveGateway? element with
  | some n => some (r, n)
  | none => r.open? element origin (.gateway ⟨.active, true, []⟩)

/-- Whether the gateway activity at a position has all its flows. -/
def gatewayFires (r : Run) (e : Element) (n : Nat) : Bool :=
  ((r.activity? n).bind Activity.gateway?).any fun g => g.parallel && g.allArrived e.incoming

/-- Handle a parallel gateway. -/
def parallelGateway (r : Run) (element : Nat) (e : Element) (origin : Option Nat)
    (via : Option String) : Handled :=
  match r.openGateway? element origin with
  | none => (r, .error .keysExhausted)
  | some (r, n) =>
    let r :=
      match r.arrivedFlow? e origin via with
      | some flow => r.modifyActivity n fun a => a.recordInbound flow
      | none => r
    if r.gatewayFires e n then
      (r.modifyActivity n fun a => a.advance .completed, .ok ⟨n, true, []⟩)
    else (r, .ok ⟨n, false, []⟩)

/-- Handle an event-based gateway. -/
def eventBasedGateway (r : Run) (element : Nat) (origin : Option Nat) : Handled :=
  match r.open? element origin (.race ⟨.completed, none⟩) with
  | none => (r, .error .keysExhausted)
  | some (r, n) => (r, .ok ⟨n, true, []⟩)

end Run

end ProcessEngine
