import ProcessEngine.Snapshot.Basic

/-!
# What never changes about an activity

The life of an activity is told by few fields: its state, the flows that have
arrived at a gateway, the winner of a race, the reason of a failure.
`Activity.frame` erases these.  What is left is fixed at the activity's
creation, and every function by which a run changes an activity keeps it.

Subscriptions and timers are the *waits* of an instance.  A wait is *waiting*
until it is *served* (completed, triggered), *withdrawn* (withdrawn,
cancelled), or, for a subscription, failed.
-/

namespace ProcessEngine

namespace ActivityBody

/-- A body that is only a state. -/
def isElement : ActivityBody → Bool
  | element _ => true
  | _ => false

/-- A subscription or a timer. -/
def isWait : ActivityBody → Bool
  | subscription _ | timer _ => true
  | _ => false

/-- A subscription that is not in a final state, or a created timer. -/
def isWaiting : ActivityBody → Bool
  | subscription s => !s.state.terminal
  | timer t => t.state == .created
  | _ => false

/-- A completed subscription or a triggered timer. -/
def isServed : ActivityBody → Bool
  | subscription s => s.state == .completed
  | timer t => t.state == .triggered
  | _ => false

/-- A withdrawn subscription or a cancelled timer. -/
def isWithdrawn : ActivityBody → Bool
  | subscription s => s.state == .withdrawn
  | timer t => t.state == .cancelled
  | _ => false

/-- The body with everything erased that can change. -/
def frame : ActivityBody → ActivityBody
  | element _ => element .ready
  | gateway g => gateway { g with state := .ready, inbound := [] }
  | race _ => race ⟨.ready, none⟩
  | job j => job { j with state := .ready, failure := none }
  | timer t => timer { t with state := .created }
  | subscription s => subscription { s with state := .ready }

@[simp] theorem frame_withState (next : ActivityState) (b : ActivityBody) :
    (b.withState next).frame = b.frame := by
  cases b <;> rfl

theorem isElement_eq_of_frame {b c : ActivityBody} (h : c.frame = b.frame) :
    c.isElement = b.isElement := by
  cases b <;> cases c <;> simp_all [frame, isElement]

end ActivityBody

namespace Activity

/-- A subscription or a timer. -/
def isWait (a : Activity) : Bool := a.body.isWait

/-- A wait that is neither served nor withdrawn nor failed. -/
def isWaiting (a : Activity) : Bool := a.body.isWaiting

/-- A wait that got what it waited for. -/
def isServed (a : Activity) : Bool := a.body.isServed

/-- A wait that was given up. -/
def isWithdrawn (a : Activity) : Bool := a.body.isWithdrawn

/-- The id of the element that an activity carries itself. -/
def elementId? (a : Activity) : Option String := a.body.elementId?

/-- The activity with everything erased that can change. -/
def frame (a : Activity) : Activity := { a with body := a.body.frame }

/-- A wait that gets what it waits for. -/
def serve (a : Activity) : Activity :=
  match a.body with
  | .subscription _ => a.advance .completed
  | .timer _ => a.setTimer .triggered
  | _ => a

@[simp] theorem key_frame (a : Activity) : a.frame.key = a.key := rfl

@[simp] theorem element_frame (a : Activity) : a.frame.element = a.element := rfl

@[simp] theorem origin_frame (a : Activity) : a.frame.origin = a.origin := rfl

@[simp] theorem frame_frame (a : Activity) : a.frame.frame = a.frame := by
  obtain ⟨key, element, origin, body⟩ := a
  cases body <;> rfl

theorem element_eq_of_frame {a b : Activity} (h : b.frame = a.frame) :
    b.element = a.element := by
  simpa using congrArg element h

theorem origin_eq_of_frame {a b : Activity} (h : b.frame = a.frame) :
    b.origin = a.origin := by
  simpa using congrArg origin h

theorem elementId?_frame (a : Activity) : a.frame.elementId? = a.elementId? := by
  unfold elementId? frame
  cases a.body <;> rfl

theorem isWait_frame (a : Activity) : a.frame.isWait = a.isWait := by
  unfold isWait frame
  cases a.body <;> rfl

/-- The id that an activity carries is fixed at its creation. -/
theorem elementId?_eq_of_frame {a b : Activity} (h : b.frame = a.frame) :
    b.elementId? = a.elementId? := by
  rw [← elementId?_frame b, h, elementId?_frame]

theorem isWait_eq_of_frame {a b : Activity} (h : b.frame = a.frame) :
    b.isWait = a.isWait := by
  rw [← isWait_frame b, h, isWait_frame]

@[simp] theorem frame_advance (a : Activity) (s : ActivityState) :
    (a.advance s).frame = a.frame := by
  unfold advance advance?
  split <;> simp [frame]

@[simp] theorem frame_setTimer (a : Activity) (s : TimerState) :
    (a.setTimer s).frame = a.frame := by
  obtain ⟨key, element, origin, body⟩ := a
  cases body with
  | timer t =>
      simp only [setTimer, setTimer?]
      split <;> rfl
  | _ => rfl

@[simp] theorem frame_recordInbound (a : Activity) (flow : String) :
    (a.recordInbound flow).frame = a.frame := by
  obtain ⟨key, element, origin, body⟩ := a
  cases body with
  | gateway g =>
      simp only [recordInbound, frame, ActivityBody.frame, Gateway.record, Gateway.record?]
      split <;> rfl
  | _ => rfl

@[simp] theorem frame_winRace (a : Activity) (branch : String) :
    (a.winRace branch).frame = a.frame := by
  obtain ⟨key, element, origin, body⟩ := a
  cases body <;> rfl

@[simp] theorem frame_setFailure (a : Activity) (reason : String) :
    (a.setFailure reason).frame = a.frame := by
  obtain ⟨key, element, origin, body⟩ := a
  cases body <;> rfl

@[simp] theorem frame_settle (a : Activity) : a.settle.frame = a.frame := by
  unfold settle
  split <;> simp

@[simp] theorem frame_serve (a : Activity) : a.serve.frame = a.frame := by
  unfold serve
  split <;> simp

/-! ## The course of a wait -/

theorem isWait_of_isWaiting {a : Activity} (h : a.isWaiting = true) : a.isWait = true := by
  unfold isWaiting at h
  unfold isWait
  cases hb : a.body <;> simp_all [ActivityBody.isWaiting, ActivityBody.isWait]

theorem isWait_of_isServed {a : Activity} (h : a.isServed = true) : a.isWait = true := by
  unfold isServed at h
  unfold isWait
  cases hb : a.body <;> simp_all [ActivityBody.isServed, ActivityBody.isWait]

theorem isWait_of_isWithdrawn {a : Activity} (h : a.isWithdrawn = true) :
    a.isWait = true := by
  unfold isWithdrawn at h
  unfold isWait
  cases hb : a.body <;> simp_all [ActivityBody.isWithdrawn, ActivityBody.isWait]

theorem isServed_of_isWaiting {a : Activity} (h : a.isWaiting = true) : a.isServed = false := by
  unfold isWaiting at h
  unfold isServed
  cases hb : a.body <;> simp_all [ActivityBody.isWaiting, ActivityBody.isServed]
  intro hs
  simp_all [ActivityState.terminal, ActivityState.rank]

theorem isWithdrawn_of_isWaiting {a : Activity} (h : a.isWaiting = true) :
    a.isWithdrawn = false := by
  unfold isWaiting at h
  unfold isWithdrawn
  cases hb : a.body <;> simp_all [ActivityBody.isWaiting, ActivityBody.isWithdrawn]
  intro hs
  simp_all [ActivityState.terminal, ActivityState.rank]

theorem isWithdrawn_of_isServed {a : Activity} (h : a.isServed = true) :
    a.isWithdrawn = false := by
  unfold isServed at h
  unfold isWithdrawn
  cases hb : a.body <;> simp_all [ActivityBody.isServed, ActivityBody.isWithdrawn]

/-- A wait carries the id of its element. -/
theorem isSome_elementId? {a : Activity} (h : a.isWait = true) : a.elementId?.isSome = true := by
  unfold isWait at h
  unfold elementId?
  cases hb : a.body <;> simp_all [ActivityBody.isWait, ActivityBody.elementId?]

/-- What counts as a pending event is a wait that waits. -/
theorem isWaiting_eq (a : Activity) :
    a.isWaiting = (a.isOpenSubscription || a.isCreatedTimer) := by
  unfold isWaiting isOpenSubscription isCreatedTimer subscription? timer?
  cases a.body <;> simp [ActivityBody.isWaiting]

/-- An activity other than a timer reaches a final state unless it is in one. -/
theorem advance_final (a : Activity) (hb : a.body.isTimer = false) {next : ActivityState}
    (hn : next.terminal = true) :
    a.advance next =
      if a.state.terminal then a else { a with body := a.body.withState next } := by
  have hmay : a.state.mayBecome next = !a.state.terminal := by
    cases ha : a.state <;> cases next <;> simp_all [ActivityState.terminal,
      ActivityState.mayBecome, ActivityState.rank]
  unfold advance advance?
  rw [hb, hmay]
  cases a.state.terminal <;> rfl

/-- A timer leaves `created` once. -/
theorem setTimer_timer (a : Activity) {t : Timer} (hb : a.body = .timer t)
    {next : TimerState} (hn : next ≠ .created) :
    a.setTimer next =
      if t.state = .created then { a with body := .timer { t with state := next } }
      else a := by
  unfold setTimer setTimer?
  simp only [hb, hn, ne_eq, not_false_eq_true, and_true]
  split <;> rfl

/-- Serving a wait that waits leaves it served. -/
theorem isServed_serve {a : Activity} (h : a.isWaiting = true) : a.serve.isServed = true := by
  unfold serve
  split
  · rename_i s hb
    rw [advance_final a (by rw [hb]; rfl) rfl]
    simp_all [isWaiting, ActivityBody.isWaiting, state, ActivityBody.state, isServed,
      ActivityBody.isServed, ActivityBody.withState]
  · rename_i t hb
    rw [setTimer_timer a hb (by decide)]
    simp_all [isWaiting, ActivityBody.isWaiting, isServed, ActivityBody.isServed]
  · rename_i hs ht
    cases hb : a.body <;> simp_all [isWaiting, ActivityBody.isWaiting]

/-- Settling a wait that waits leaves it withdrawn. -/
theorem isWithdrawn_settle {a : Activity} (h : a.isWaiting = true) :
    a.settle.isWithdrawn = true := by
  unfold settle
  split
  · rename_i s hb
    rw [advance_final a (by rw [hb]; rfl) rfl]
    simp_all [isWaiting, ActivityBody.isWaiting, state, ActivityBody.state, isWithdrawn,
      ActivityBody.isWithdrawn, ActivityBody.withState]
  · rename_i t hb
    rw [setTimer_timer a hb (by decide)]
    simp_all [isWaiting, ActivityBody.isWaiting, isWithdrawn, ActivityBody.isWithdrawn]
  · rename_i hs ht
    cases hb : a.body <;> simp_all [isWaiting, ActivityBody.isWaiting]

/-- Settling leaves alone what does not wait. -/
theorem settle_of_not_isWaiting {a : Activity} (h : a.isWaiting = false) : a.settle = a := by
  unfold settle
  split
  · rename_i s hb
    rw [advance_final a (by rw [hb]; rfl) rfl]
    simp_all [isWaiting, ActivityBody.isWaiting, state, ActivityBody.state]
  · rename_i t hb
    rw [setTimer_timer a hb (by decide)]
    simp_all [isWaiting, ActivityBody.isWaiting]
  · rfl

end Activity

end ProcessEngine
