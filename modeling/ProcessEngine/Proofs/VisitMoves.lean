import Mathlib.Logic.Relation
import ProcessEngine.Interpreter.Drain
import ProcessEngine.Proofs.OpenSlots

/-!
# The moves of a visit

Visiting an element takes one activity, a new one or one that was left open,
and works on it.  `Run.Move` lists everything that this work can consist of,
each move with the test that comes before it in the interpreter; a visit is a
chain of moves on one and the same activity, and `Run.Breaks` is what an error
leaves at its end.  What every visit keeps is proved from these lists and not
from the interpreter's text.

Main statements: the look-ups of the interpreter take an open activity of the
right kind or open a new one (`Takes`), and each move changes the arena at its
own activity, apart from the winner of a race.
-/

namespace ProcessEngine

namespace Run

/-! ## Taking an activity -/

/-- The body with which a visit opens an activity.  An element with a slot gets
a new activity only where the slot is free. -/
inductive Opens (r : Run) (element : Nat) (e : Element) : ActivityBody → Prop
  | element (state : ActivityState) (hplain : e.slot? element = none)
      (hkind : e.kind ≠ .eventBasedGateway) : Opens r element e (.element state)
  | race (hkind : e.kind = .eventBasedGateway) : Opens r element e (.race ⟨.completed, none⟩)
  | gateway (hkind : e.kind = .parallelGateway)
      (hfree : r.inst.findSlot? (.gateway element) = none) :
      Opens r element e (.gateway ⟨.active, true, []⟩)
  | job (hkind : e.kind = .serviceTask ∨ e.kind = .userTask)
      (hfree : r.inst.findSlot? (.job e.id) = none) :
      Opens r element e (.job ⟨r.inst.key, e.id, .active, r.now, none⟩)
  | timer {duration : Option String} {ms : Int} (hkind : e.kind = .catchEvent)
      (hevent : e.event = some (.timer duration)) (hms : timerMillis e duration = .ok ms)
      (hfree : r.inst.findSlot? (.timer e.id) = none) :
      Opens r element e (.timer
        ⟨r.inst.key, r.inst.definition.key, e.id, .created, r.now, r.now.addMillis ms, ms⟩)
  | subscription {ref : Option String} (hkind : e.kind = .catchEvent)
      (hevent : e.event = some (.message ref))
      (hfree : r.inst.findSlot? (.subscription e.id) = none) :
      Opens r element e (.subscription
        ⟨r.inst.key, r.inst.definition.key, e.id, r.diagram.messageName e, .active, r.now⟩)

/-- An open activity in the slot of an element, which a visit takes up again. -/
def Reuses (element : Nat) (e : Element) (a : Activity) : Prop :=
  ∃ slot, e.slot? element = some slot ∧ a.slot? = some slot

/-- Taking an activity for an element: an open one that was found, or a new
one. -/
inductive Takes (element : Nat) (e : Element) (origin : Option Nat) (r : Run) :
    Run → Nat → Activity → Prop
  | found {n : Nat} {a : Activity} (ha : r.activity? n = some a)
      (hreuse : Reuses element e a) : Takes element e origin r r n a
  | opened {r' : Run} {n : Nat} {body : ActivityBody} (hbody : Opens r element e body)
      (hopen : r.open? element origin body = some (r', n)) :
      Takes element e origin r r' n ⟨r.keys.next, element, origin, body⟩

/-! ## Moves -/

/-- A wait served: it is done, and the race at its origin is won for an
element id. -/
def serveWait (r : Run) (n : Nat) (origin : Option Nat) (id : String) : Run :=
  (r.modifyActivity n Activity.serve).modify fun i => i.winRace origin id

/-- One change that visiting an element makes while it works on an activity. -/
inductive Move (element : Nat) (e : Element) (origin : Option Nat) (n : Nat) :
    Run → Run → Prop
  | report (r : Run) (intent : ElementIntent) :
      Move element e origin n r (r.reportElement e intent)
  | call (r : Run) (call : HandlerCall) : Move element e origin n r (r.recordCall call)
  | outputs {r r' : Run} (h : r.writeOutputs e = .ok r') : Move element e origin n r r'
  | opened {r r' : Run} {body : ActivityBody} (hbody : Opens r element e body)
      (hopen : r.open? element origin body = some (r', n)) : Move element e origin n r r'
  | complete {r : Run} {a : Activity} (hkind : e.kind = .endEvent)
      (ha : r.activity? n = some a) (hat : a.element = element)
      (hlast : n + 1 = r.inst.activities.length) (hstate : r.inst.state ≠ .completed)
      (hquiet : r.inst.hasPendingEvents = false) :
      Move element e origin n r (r.modify fun i => { i with state := .completed })
  | finishJob {r : Run} {a : Activity} {j : Job} (vars : Variables)
      (ha : r.activity? n = some a) (hj : a.body = .job j) (hopen : j.state.terminal = false) :
      Move element e origin n r
        ((r.modify fun i => { i with vars }).modifyActivity n fun a => a.advance .completed)
  | failJob {r : Run} {a : Activity} {j : Job} (reason : String)
      (ha : r.activity? n = some a) (hj : a.body = .job j) (hopen : j.state.terminal = false) :
      Move element e origin n r (r.failJob n reason)
  | arrive {r : Run} {a : Activity} {g : Gateway} (flow : String)
      (ha : r.activity? n = some a) (hg : a.body = .gateway g) (hactive : g.state = .active)
      (hkind : e.kind = .parallelGateway) (hat : a.element = element) :
      Move element e origin n r (r.modifyActivity n fun a => a.recordInbound flow)
  | fire {r : Run} {a : Activity} {g : Gateway} (ha : r.activity? n = some a)
      (hg : a.body = .gateway g) (hactive : g.state = .active)
      (hall : g.allArrived e.incoming = true) (hkind : e.kind = .parallelGateway)
      (hat : a.element = element) :
      Move element e origin n r (r.modifyActivity n fun a => a.advance .completed)
  | withdraw {r : Run} {a : Activity} (hkind : e.kind = .catchEvent)
      (ha : r.activity? n = some a) (hwait : a.isWaiting = true) (hid : a.elementId? = some e.id)
      (hlost : r.inst.raceLost a.origin e.id = true) :
      Move element e origin n r (r.modifyActivity n Activity.settle)
  | message {r r₁ : Run} {a : Activity} {s : Subscription} {position : Nat}
      {caught : CaughtEvent} (hkind : e.kind = .catchEvent) (ha : r.activity? n = some a)
      (hs : a.body = .subscription s) (hwait : s.state.terminal = false) (hid : s.elementId = e.id)
      (hrace : r.inst.raceLost a.origin e.id = false)
      (hfind : r.inst.findUnconsumed? s.name = some position)
      (hcaught : r.inst.caught[position]? = some caught)
      (hreceive : r.receive e position caught = (r₁, none)) :
      Move element e origin n r (r₁.serveWait n a.origin e.id)
  | trigger {r : Run} {a : Activity} {t : Timer} (hkind : e.kind = .catchEvent)
      (ha : r.activity? n = some a) (ht : a.body = .timer t) (hwait : t.state = .created)
      (hid : t.elementId = e.id)
      (hrace : r.inst.raceLost a.origin e.id = false) (hdue : isDue r.now t.dueAt = true) :
      Move element e origin n r (r.serveWait n a.origin e.id)

/-- A chain of moves on one activity. -/
abbrev Moves (element : Nat) (e : Element) (origin : Option Nat) (n : Nat) : Run → Run → Prop :=
  Relation.ReflTransGen (Move element e origin n)

/-- What an error leaves behind after the moves of a visit: nothing, an
instance that has failed with its job, or a subscription that has failed with
its event consumed. -/
inductive Breaks (e : Element) (n : Nat) : Run → Run → Prop
  | idle (r : Run) : Breaks e n r r
  | fail (r : Run) : Breaks e n r (r.modify fun i => { i with state := .failed })
  | spoil {r r₁ : Run} {a : Activity} {s : Subscription} {position : Nat}
      {caught : CaughtEvent} {error : ExprError} (ha : r.activity? n = some a)
      (hs : a.body = .subscription s) (hwait : s.state.terminal = false)
      (hid : s.elementId = e.id) (hrace : r.inst.raceLost a.origin e.id = false)
      (hfind : r.inst.findUnconsumed? s.name = some position)
      (hcaught : r.inst.caught[position]? = some caught)
      (hreceive : r.receive e position caught = (r₁, some error)) :
      Breaks e n r (r₁.modifyActivity n fun a => a.advance .failed)

/-- The commands that a step adds in front of the outgoing flows. -/
inductive Adds (e : Element) (n : Nat) (r : Run) : List Command → Prop
  | nothing (hkind : e.kind ≠ .catchEvent) : Adds e n r []
  | race (hkind : e.kind = .catchEvent) : Adds e n r (r.raceCommands n)
  | jump {link : String} {target : Nat} (hkind : e.kind = .throwEvent)
      (htarget : linkTarget? r.diagram link = some target) :
      Adds e n r [.enter target (some n) none]

/-- To settle a race is all that a catch event adds. -/
theorem eq_settleRace_of_mem {r : Run} {n : Nat} {c : Command} (h : c ∈ r.raceCommands n) :
    ∃ gateway, c = .settleRace gateway := by
  unfold raceCommands at h
  split at h
  · split at h
    · exact ⟨_, List.mem_singleton.mp h⟩
    · cases h
  · cases h

/-- Nothing can be done about a wait for the time being: there is no event for
it, or its time has not come. -/
def Idle (r : Run) (a : Activity) : Prop :=
  (∀ s, a.body = .subscription s → r.inst.findUnconsumed? s.name = none) ∧
    ∀ t, a.body = .timer t → isDue r.now t.dueAt = false

/-- What does not wait is idle. -/
theorem idle_of_not_isWait {r : Run} {a : Activity} (h : a.isWait = false) : r.Idle a := by
  constructor <;> intro x hx <;> simp [Activity.isWait, hx, ActivityBody.isWait] at h

/-- What working on an activity for an element can come to.  The activity is
new, or it was open before; where flow goes on, it is completed, and where it
goes on waiting, nothing could be done about it. -/
inductive Works (element : Nat) (e : Element) (origin : Option Nat) (r : Run) :
    Handled → Prop
  | failed {r₁ r' : Run} {error : EngineError} (n : Nat) (h : Moves element e origin n r r₁)
      (hbreak : Breaks e n r₁ r') : Works element e origin r (r', .error error)
  | worked {r' : Run} {n : Nat} {a : Activity} {continues : Bool}
      (h : Moves element e origin n r r')
      (hfrom : n = r.inst.activities.length ∨ ∃ a, r.activity? n = some a ∧ Reuses element e a)
      (ha : r'.activity? n = some a) (hdone : continues = true → a.state = .completed)
      (hrest : a.isWaiting = true → r'.Idle a) :
      Works element e origin r (r', .ok ⟨n, continues, []⟩)

/-- What handling an element can come to: work on an activity, and the
commands that the step adds. -/
inductive Handles (element : Nat) (e : Element) (origin : Option Nat) (r : Run) :
    Handled → Prop
  | failed {r₁ r' : Run} {error : EngineError} (n : Nat) (h : Moves element e origin n r r₁)
      (hbreak : Breaks e n r₁ r') : Handles element e origin r (r', .error error)
  | handled {r' : Run} {step : Step} {a : Activity}
      (h : Moves element e origin step.activity r r')
      (hfrom : step.activity = r.inst.activities.length ∨
        ∃ a, r.activity? step.activity = some a ∧ Reuses element e a)
      (ha : r'.activity? step.activity = some a)
      (hdone : step.continues = true → a.state = .completed)
      (hadds : Adds e step.activity r' step.extra)
      (hrest : a.isWaiting = true → r'.Idle a) : Handles element e origin r (r', .ok step)

/-! ## Opening and finding -/

/-- Opening an activity puts it behind all others under the next key. -/
theorem open?_eq_some {r r' : Run} {element n : Nat} {origin : Option Nat}
    {body : ActivityBody} (h : r.open? element origin body = some (r', n)) :
    r.keys.next < greatestKey ∧ n = r.inst.activities.length ∧
      r' = { r with keys := ⟨r.keys.next + 1⟩,
                    inst := r.inst.push ⟨r.keys.next, element, origin, body⟩ } := by
  unfold open? at h
  split at h
  · cases h
  · rename_i key keys hissue
    obtain ⟨hlt, rfl, rfl⟩ := KeySequence.issue_eq_some hissue
    cases h
    exact ⟨hlt, rfl, rfl⟩

theorem activity?_open {r r' : Run} {element n : Nat} {origin : Option Nat}
    {body : ActivityBody} (h : r.open? element origin body = some (r', n)) :
    r'.activity? n = some ⟨r.keys.next, element, origin, body⟩ := by
  obtain ⟨_, rfl, rfl⟩ := open?_eq_some h
  simp [activity?, Instance.push]

/-- What fits a slot goes into it: a new activity holds the slot of its
element. -/
theorem Opens.slot? {r : Run} {element : Nat} {e : Element} {body : ActivityBody}
    (h : Opens r element e body) (key : Int) (origin : Option Nat) :
    (Activity.mk key element origin body).slot? = e.slot? element := by
  cases h with
  | element state hplain => exact hplain.symm
  | race hkind => simp [Activity.slot?, Element.slot?, hkind]
  | gateway hkind => simp [Activity.slot?, Element.slot?, hkind]
  | job hkind =>
      rcases hkind with hkind | hkind <;>
        simp [Activity.slot?, Element.slot?, hkind, ActivityState.terminal, ActivityState.rank]
  | timer hkind hevent => simp [Activity.slot?, Element.slot?, hkind, hevent]
  | subscription hkind hevent =>
      simp [Activity.slot?, Element.slot?, hkind, hevent, ActivityState.terminal,
        ActivityState.rank]

/-- The slot of a new activity was free. -/
theorem Opens.free {r : Run} {element : Nat} {e : Element} {body : ActivityBody}
    (h : Opens r element e body) {slot : Slot} (hslot : e.slot? element = some slot) :
    r.inst.findSlot? slot = none := by
  cases h with
  | element state hplain => rw [hplain] at hslot; cases hslot
  | race hkind => simp [Element.slot?, hkind] at hslot
  | gateway hkind hfree =>
      simp only [Element.slot?, hkind, Option.some.injEq] at hslot
      exact hslot ▸ hfree
  | job hkind hfree =>
      rcases hkind with hkind | hkind <;>
        simp only [Element.slot?, hkind, Option.some.injEq] at hslot <;> exact hslot ▸ hfree
  | timer hkind hevent hms hfree =>
      simp only [Element.slot?, hkind, hevent, Option.some.injEq] at hslot
      exact hslot ▸ hfree
  | subscription hkind hevent hfree =>
      simp only [Element.slot?, hkind, hevent, Option.some.injEq] at hslot
      exact hslot ▸ hfree

section Takes

variable {element : Nat} {e : Element} {origin : Option Nat} {r r' : Run} {n : Nat}
  {a : Activity}

theorem Takes.activity? (h : Takes element e origin r r' n a) : r'.activity? n = some a := by
  cases h with
  | found ha => exact ha
  | opened _ hopen => exact activity?_open hopen

theorem Takes.moves (h : Takes element e origin r r' n a) :
    Moves element e origin n r r' := by
  cases h with
  | found => exact .refl
  | opened hbody hopen => exact .single (.opened hbody hopen)

/-- What is taken is new, or was open before. -/
theorem Takes.new_or_open (h : Takes element e origin r r' n a) :
    n = r.inst.activities.length ∨ ∃ a, r.activity? n = some a ∧ Reuses element e a := by
  cases h with
  | found ha hreuse => exact .inr ⟨a, ha, hreuse⟩
  | opened _ hopen => exact .inl (open?_eq_some hopen).2.1

/-- A task takes an open job of its own. -/
theorem openJob?_takes (hkind : e.kind = .serviceTask ∨ e.kind = .userTask)
    (h : r.openJob? element e origin = some (r', n)) :
    ∃ a j, Takes element e origin r r' n a ∧ a.body = .job j ∧ j.state.terminal = false := by
  have hslot : e.slot? element = some (.job e.id) := by
    rcases hkind with hkind | hkind <;> simp [Element.slot?, hkind]
  unfold openJob? at h
  rw [Instance.findOpenJob?_eq] at h
  split at h
  · rename_i m hfind
    cases h
    obtain ⟨a, ha, hheld⟩ := Instance.slotAt_eq_some.mp (Instance.slotAt_of_findSlot? hfind)
    obtain ⟨j, hj, hopen, _⟩ := Activity.slot?_eq_job.mp hheld
    exact ⟨a, j, .found ha ⟨_, hslot, hheld⟩, hj, hopen⟩
  · rename_i hfree
    exact ⟨_, _, .opened (.job hkind hfree) h, rfl, rfl⟩

/-- A parallel gateway takes an activity of its own that still gathers. -/
theorem openGateway?_takes (hkind : e.kind = .parallelGateway)
    (h : r.openGateway? element origin = some (r', n)) :
    ∃ a g, Takes element e origin r r' n a ∧ a.body = .gateway g ∧ g.state = .active ∧
      a.element = element := by
  have hslot : e.slot? element = some (.gateway element) := by simp [Element.slot?, hkind]
  unfold openGateway? at h
  rw [Instance.findActiveGateway?_eq] at h
  split at h
  · rename_i m hfind
    cases h
    obtain ⟨a, ha, hheld⟩ := Instance.slotAt_eq_some.mp (Instance.slotAt_of_findSlot? hfind)
    obtain ⟨g, hg, hactive, hat⟩ := Activity.slot?_eq_gateway.mp hheld
    exact ⟨a, g, .found ha ⟨_, hslot, hheld⟩, hg, hactive, hat⟩
  · rename_i hfree
    exact ⟨_, _, .opened (.gateway hkind hfree) h, rfl, rfl, rfl⟩

/-- A message catch takes a subscription of its own that still waits. -/
theorem openSubscription?_takes {ref : Option String} (hkind : e.kind = .catchEvent)
    (hevent : e.event = some (.message ref))
    (h : r.openSubscription? element e origin = some (r', n)) :
    ∃ a s, Takes element e origin r r' n a ∧ a.body = .subscription s ∧
      s.state.terminal = false ∧ s.elementId = e.id := by
  have hslot : e.slot? element = some (.subscription e.id) := by
    simp [Element.slot?, hkind, hevent]
  unfold openSubscription? at h
  rw [Instance.findOpenSubscription?_eq] at h
  split at h
  · rename_i m hfind
    cases h
    obtain ⟨a, ha, hheld⟩ := Instance.slotAt_eq_some.mp (Instance.slotAt_of_findSlot? hfind)
    obtain ⟨s, hs, hopen, hid⟩ := Activity.slot?_eq_subscription.mp hheld
    exact ⟨a, s, .found ha ⟨_, hslot, hheld⟩, hs, hopen, hid⟩
  · rename_i hfree
    exact ⟨_, _, .opened (.subscription hkind hevent hfree) h, rfl, rfl, rfl⟩

/-- A timer catch takes a timer of its own that has not fired. -/
theorem openTimer_takes {duration : Option String} (hkind : e.kind = .catchEvent)
    (hevent : e.event = some (.timer duration))
    (h : r.openTimer element e duration origin = .ok (r', n)) :
    ∃ a t, Takes element e origin r r' n a ∧ a.body = .timer t ∧ t.state = .created ∧
      t.elementId = e.id := by
  have hslot : e.slot? element = some (.timer e.id) := by
    simp [Element.slot?, hkind, hevent]
  unfold openTimer at h
  rw [Instance.findCreatedTimer?_eq] at h
  split at h
  · rename_i m hfind
    cases h
    obtain ⟨a, ha, hheld⟩ := Instance.slotAt_eq_some.mp (Instance.slotAt_of_findSlot? hfind)
    obtain ⟨t, ht, hcreated, hid⟩ := Activity.slot?_eq_timer.mp hheld
    exact ⟨a, t, .found ha ⟨_, hslot, hheld⟩, ht, hcreated, hid⟩
  · rename_i hfree
    split at h
    · cases h
    · rename_i ms hms
      split at h
      · cases h
      · rename_i opened hopened
        cases h
        exact ⟨_, _, .opened (.timer hkind hevent hms hfree) hopened, rfl, rfl, rfl⟩

end Takes

/-! ## What the moves do to the arena -/

@[simp] theorem activity?_modify_self (r : Run) (n : Nat) (f : Activity → Activity) :
    (r.modifyActivity n f).activity? n = (r.activity? n).map f :=
  List.getElem?_modify_eq f n r.inst.activities

/-- Only the activity at the origin of a race can gain a winner. -/
theorem activity?_winRace (r : Run) (origin : Option Nat) (id : String) (m : Nat) :
    (r.modify fun i => i.winRace origin id).activity? m =
      if origin = some m then (r.activity? m).map fun a => a.winRace id else r.activity? m := by
  cases origin with
  | none => rfl
  | some o =>
      by_cases h : o = m
      · subst h
        simp [activity?, modify, Instance.winRace, Instance.modifyActivity]
      · simp [activity?, modify, Instance.winRace, Instance.modifyActivity, h]

/-- A wait takes no part in the race at its origin but as a branch. -/
theorem winRace_of_isWait {a : Activity} (h : a.isWait = true) (id : String) :
    a.winRace id = a := by
  unfold Activity.winRace
  split
  · rename_i hb
    simp [Activity.isWait, hb, ActivityBody.isWait] at h
  · rfl

theorem activity?_serveWait_self {r : Run} {n : Nat} {a : Activity}
    (ha : r.activity? n = some a) (hwait : a.isWaiting = true) (origin : Option Nat)
    (id : String) : (r.serveWait n origin id).activity? n = some a.serve := by
  have hserved := Activity.isWait_of_isServed (Activity.isServed_serve hwait)
  unfold serveWait
  rw [activity?_winRace, activity?_modify_self, ha]
  simp [winRace_of_isWait hserved]

/-- The state of an activity moved forward to a final state. -/
theorem state_advance {a : Activity} (hb : a.body.isTimer = false)
    (hopen : a.state.terminal = false) {next : ActivityState} (hn : next.terminal = true) :
    (a.advance next).state = next := by
  rw [Activity.advance_final a hb hn, if_neg (by simp [hopen])]
  cases h : a.body <;>
    simp_all [Activity.state, ActivityBody.state, ActivityBody.withState, ActivityBody.isTimer]

theorem state_of_isServed {a : Activity} (h : a.isServed = true) : a.state = .completed := by
  cases hb : a.body <;>
    simp_all [Activity.isServed, ActivityBody.isServed, Activity.state, ActivityBody.state,
      TimerState.asActivity]

end Run

end ProcessEngine
