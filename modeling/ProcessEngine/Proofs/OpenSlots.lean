import ProcessEngine.Interpreter.Event
import ProcessEngine.Interpreter.Gateway
import ProcessEngine.Interpreter.Job
import ProcessEngine.Proofs.ActivityFrame

/-!
# Slots for open activities

A visit of a task, a catch event or a parallel gateway first looks for an
activity that was left open there.  What it looks for is a *slot*: a job, a
subscription or a timer of an element id, or a gateway of an element.  An open
activity holds the slot that its kind and its element give it, and loses it
when it is closed.

Main statements: the four look-ups of an instance are `findSlot?` at a slot of
each kind, and where no two activities hold one slot (`Instance.Exclusive`) a
look-up finds the one that holds it.
-/

namespace ProcessEngine

/-- A place for at most one open activity. -/
inductive Slot where
  | job (elementId : String)
  | subscription (elementId : String)
  | timer (elementId : String)
  | gateway (element : Nat)
deriving Repr, DecidableEq

/-- A slot of a subscription or a timer. -/
def Slot.isWait : Slot → Bool
  | subscription _ | timer _ => true
  | job _ | gateway _ => false

/-- The slot that an open activity holds. -/
def Activity.slot? (a : Activity) : Option Slot :=
  match a.body with
  | .job j => if j.state.terminal then none else some (.job j.elementId)
  | .subscription s => if s.state.terminal then none else some (.subscription s.elementId)
  | .timer t => if t.state = .created then some (.timer t.elementId) else none
  | .gateway g => if g.state = .active then some (.gateway a.element) else none
  | .element _ | .race _ => none

/-- The slot that an element looks into when it is visited. -/
def Element.slot? (e : Element) (element : Nat) : Option Slot :=
  match e.kind with
  | .serviceTask | .userTask => some (.job e.id)
  | .parallelGateway => some (.gateway element)
  | .catchEvent =>
    match e.event with
    | some (.message _) => some (.subscription e.id)
    | some (.timer _) => some (.timer e.id)
    | _ => none
  | _ => none

/-- An element whose activities hold nothing but a state. -/
def Element.Plain (e : Element) : Prop :=
  (∀ n, e.slot? n = none) ∧ e.kind ≠ .eventBasedGateway

/-- The slot that is held at a position. -/
def Instance.slotAt (i : Instance) (n : Nat) : Option Slot :=
  i.activities[n]?.bind Activity.slot?

/-- The position of the activity that holds a slot. -/
def Instance.findSlot? (i : Instance) (slot : Slot) : Option Nat :=
  i.activities.findIdx? fun a => a.slot? == some slot

/-- No two activities hold one slot. -/
def Instance.Exclusive (i : Instance) : Prop :=
  ∀ ⦃m n : Nat⦄ ⦃slot : Slot⦄, i.slotAt m = some slot → i.slotAt n = some slot → m = n

namespace Activity

theorem slot?_eq_job {a : Activity} {id : String} :
    a.slot? = some (.job id) ↔
      ∃ j, a.body = .job j ∧ j.state.terminal = false ∧ j.elementId = id := by
  unfold slot?
  cases a.body <;> simp

theorem slot?_eq_subscription {a : Activity} {id : String} :
    a.slot? = some (.subscription id) ↔
      ∃ s, a.body = .subscription s ∧ s.state.terminal = false ∧ s.elementId = id := by
  unfold slot?
  cases a.body <;> simp

theorem slot?_eq_timer {a : Activity} {id : String} :
    a.slot? = some (.timer id) ↔
      ∃ t, a.body = .timer t ∧ t.state = .created ∧ t.elementId = id := by
  unfold slot?
  cases a.body <;> simp

theorem slot?_eq_gateway {a : Activity} {element : Nat} :
    a.slot? = some (.gateway element) ↔
      ∃ g, a.body = .gateway g ∧ g.state = .active ∧ a.element = element := by
  unfold slot?
  cases a.body <;> simp

/-- A wait holds its slot as long as it waits. -/
theorem isWaiting_eq_slot? (a : Activity) : a.isWaiting = a.slot?.any Slot.isWait := by
  unfold isWaiting slot?
  cases a.body with
  | job j => cases h : j.state.terminal <;> simp [ActivityBody.isWaiting, Slot.isWait, h]
  | subscription s => cases h : s.state.terminal <;> simp [ActivityBody.isWaiting, Slot.isWait, h]
  | timer t => by_cases h : t.state = .created <;> simp [ActivityBody.isWaiting, Slot.isWait, h]
  | gateway g => by_cases h : g.state = .active <;> simp [ActivityBody.isWaiting, Slot.isWait, h]
  | element _ => rfl
  | race _ => rfl

/-! ### What becomes of a slot -/

theorem slot?_winRace (a : Activity) (branch : String) : (a.winRace branch).slot? = a.slot? := by
  obtain ⟨key, element, origin, body⟩ := a
  cases body <;> rfl

theorem slot?_recordInbound (a : Activity) (flow : String) :
    (a.recordInbound flow).slot? = a.slot? := by
  obtain ⟨key, element, origin, body⟩ := a
  cases body with
  | gateway g =>
      simp only [recordInbound, slot?, Gateway.record, Gateway.record?]
      split <;> rfl
  | _ => rfl

theorem slot?_setFailure (a : Activity) (reason : String) :
    (a.setFailure reason).slot? = a.slot? := by
  obtain ⟨key, element, origin, body⟩ := a
  cases body <;> rfl

/-- An activity that reaches a final state keeps no slot. -/
theorem slot?_of_slot?_advance {a : Activity} {next : ActivityState} {slot : Slot}
    (hn : next.terminal = true) (h : (a.advance next).slot? = some slot) :
    a.slot? = some slot := by
  cases htimer : a.body.isTimer with
  | true =>
      have hsame : a.advance next = a := by simp [advance, advance?, htimer]
      rwa [hsame] at h
  | false =>
      rw [advance_final a htimer hn] at h
      split at h
      · exact h
      · cases hb : a.body <;>
          simp_all [slot?, ActivityBody.withState, ActivityState.terminal, ActivityState.rank]

/-- A timer that has left `created` keeps no slot. -/
theorem slot?_of_slot?_setTimer {a : Activity} {next : TimerState} {slot : Slot}
    (h : (a.setTimer next).slot? = some slot) : a.slot? = some slot := by
  cases hb : a.body with
  | timer t =>
      by_cases hn : next = .created
      · have hsame : a.setTimer next = a := by simp [setTimer, setTimer?, hb, hn]
        rwa [hsame] at h
      · rw [setTimer_timer a hb hn] at h
        split at h
        · simp_all [slot?]
        · exact h
  | _ =>
      have hsame : a.setTimer next = a := by simp [setTimer, setTimer?, hb]
      rwa [hsame] at h

theorem slot?_of_slot?_settle {a : Activity} {slot : Slot} (h : a.settle.slot? = some slot) :
    a.slot? = some slot := by
  unfold settle at h
  split at h
  · exact slot?_of_slot?_advance rfl h
  · exact slot?_of_slot?_setTimer h
  · exact h

theorem slot?_of_slot?_serve {a : Activity} {slot : Slot} (h : a.serve.slot? = some slot) :
    a.slot? = some slot := by
  unfold serve at h
  split at h
  · exact slot?_of_slot?_advance rfl h
  · exact slot?_of_slot?_setTimer h
  · exact h

end Activity

namespace Instance

theorem findOpenJob?_eq (i : Instance) (id : String) :
    i.findOpenJob? id = i.findSlot? (.job id) := by
  unfold findOpenJob? findSlot?
  congr 1
  funext a
  rw [Bool.eq_iff_iff, beq_iff_eq, Activity.slot?_eq_job]
  cases hb : a.body <;> simp [Activity.isOpenJob, Activity.job?, hb]

theorem findOpenSubscription?_eq (i : Instance) (id : String) :
    i.findOpenSubscription? id = i.findSlot? (.subscription id) := by
  unfold findOpenSubscription? findSlot?
  congr 1
  funext a
  rw [Bool.eq_iff_iff, beq_iff_eq, Activity.slot?_eq_subscription]
  cases hb : a.body <;> simp [Activity.isOpenSubscription, Activity.subscription?, hb]

theorem findCreatedTimer?_eq (i : Instance) (id : String) :
    i.findCreatedTimer? id = i.findSlot? (.timer id) := by
  unfold findCreatedTimer? findSlot?
  congr 1
  funext a
  rw [Bool.eq_iff_iff, beq_iff_eq, Activity.slot?_eq_timer]
  cases hb : a.body <;> simp [Activity.isCreatedTimer, Activity.timer?, hb]

theorem findActiveGateway?_eq (i : Instance) (element : Nat) :
    i.findActiveGateway? element = i.findSlot? (.gateway element) := by
  unfold findActiveGateway? findSlot?
  congr 1
  funext a
  rw [Bool.eq_iff_iff, beq_iff_eq, Activity.slot?_eq_gateway]
  cases hb : a.body <;> simp [Activity.gateway?, hb, and_comm]

/-- A slot is held at a position by the activity there. -/
theorem slotAt_eq_some {i : Instance} {n : Nat} {slot : Slot} :
    i.slotAt n = some slot ↔ ∃ a, i.activities[n]? = some a ∧ a.slot? = some slot := by
  simp [slotAt, Option.bind_eq_some_iff]

/-- What a look-up finds holds the slot. -/
theorem slotAt_of_findSlot? {i : Instance} {slot : Slot} {n : Nat}
    (h : i.findSlot? slot = some n) : i.slotAt n = some slot := by
  obtain ⟨hlt, htest, _⟩ := List.findIdx?_eq_some_iff_getElem.mp h
  exact slotAt_eq_some.mpr ⟨_, List.getElem?_eq_getElem hlt, by simpa using htest⟩

/-- A look-up finds nothing only if no activity holds the slot. -/
theorem slotAt_ne_of_findSlot? {i : Instance} {slot : Slot} (h : i.findSlot? slot = none)
    (n : Nat) : i.slotAt n ≠ some slot := by
  intro hheld
  obtain ⟨a, ha, hslot⟩ := slotAt_eq_some.mp hheld
  unfold findSlot? at h
  rw [List.findIdx?_eq_none_iff] at h
  simpa [hslot] using h a (List.mem_of_getElem? ha)

/-- Giving up slots keeps them exclusive. -/
theorem Exclusive.of_slotAt {i j : Instance} (h : i.Exclusive)
    (hheld : ∀ {n slot}, j.slotAt n = some slot → i.slotAt n = some slot) : j.Exclusive :=
  fun _ _ _ hm hn => h (hheld hm) (hheld hn)

theorem slotAt_modifyActivity_self (i : Instance) (n : Nat) (f : Activity → Activity) :
    (i.modifyActivity n f).slotAt n = i.activities[n]?.bind fun a => (f a).slot? := by
  unfold slotAt modifyActivity
  rw [List.getElem?_modify_eq]
  cases i.activities[n]? <;> rfl

theorem slotAt_modifyActivity_ne (i : Instance) {m n : Nat} (h : m ≠ n)
    (f : Activity → Activity) : (i.modifyActivity n f).slotAt m = i.slotAt m := by
  simp [slotAt, modifyActivity, Ne.symm h]

/-- A change that gives up slots only, at one position. -/
theorem slotAt_of_modifyActivity {i : Instance} {m n : Nat} {f : Activity → Activity}
    (hf : ∀ a slot, (f a).slot? = some slot → a.slot? = some slot) {slot : Slot}
    (h : (i.modifyActivity n f).slotAt m = some slot) : i.slotAt m = some slot := by
  by_cases hm : m = n
  · subst hm
    rw [slotAt_modifyActivity_self, Option.bind_eq_some_iff] at h
    obtain ⟨a, ha, hslot⟩ := h
    exact slotAt_eq_some.mpr ⟨a, ha, hf a slot hslot⟩
  · rwa [slotAt_modifyActivity_ne i hm] at h

/-- The winner of a race holds no slot on that account. -/
theorem slotAt_winRace (i : Instance) (origin : Option Nat) (id : String) (m : Nat) :
    (i.winRace origin id).slotAt m = i.slotAt m := by
  cases origin with
  | none => rfl
  | some n =>
      by_cases hm : m = n
      · subst hm
        simp only [winRace, slotAt_modifyActivity_self, Activity.slot?_winRace]
        rfl
      · exact slotAt_modifyActivity_ne i hm _

theorem slotAt_of_settleRace {i : Instance} {gateway m : Nat} {slot : Slot}
    (h : (i.settleRace gateway).slotAt m = some slot) : i.slotAt m = some slot := by
  unfold settleRace at h
  split at h
  · exact h
  · obtain ⟨b, hb, hslot⟩ := slotAt_eq_some.mp h
    simp only [List.getElem?_map, Option.map_eq_some_iff] at hb
    obtain ⟨a, ha, rfl⟩ := hb
    refine slotAt_eq_some.mpr ⟨a, ha, ?_⟩
    split at hslot
    · exact Activity.slot?_of_slot?_settle hslot
    · exact hslot

end Instance

end ProcessEngine
