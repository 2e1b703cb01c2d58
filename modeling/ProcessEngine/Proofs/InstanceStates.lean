import ProcessEngine.Proofs.KeyOrder
import ProcessEngine.Proofs.ResumedRuns

/-!
# The states of an instance

`Engine.Passes` lists the states that an instance passes through: those in which
an engine stores it, those between two commands of a run, and those between two
moves of the visit that a command comes to.  The engine may have come back from
snapshots of its own, and the run may be one that fails or never ends: nothing
is said about how it goes on.

A command that is still in the queue fits the arena as it is by then.  So a
visit begins in an arena that is in order, and each of its moves leaves it so.
In such an arena no two open activities have one place, and it does not matter
that a look-up takes the first one that it meets.

Main statements: `Passes.sound`, by which the arena is in order in all of these
states, and `Passes.oneOpen`, by which the four look-ups find the one open
activity that there is.
-/

namespace ProcessEngine

/-- A command comes to a visit of an element from an origin. -/
inductive Command.LeadsTo (r : Run) : Command → Nat → Element → Option Nat → Prop
  | enter {element : Nat} {e : Element} {origin : Option Nat} {via : Option String}
      (he : r.diagram.elements[element]? = some e) :
      LeadsTo r (.enter element origin via) element e origin
  | resume {n : Nat} {a : Activity} {e : Element} {origin : Option Nat}
      (ha : r.activity? n = some a) (he : r.diagram.elements[a.element]? = some e) :
      LeadsTo r (.resume n origin) a.element e origin

/-- A command that fits comes to a visit that keeps the arena sound. -/
theorem Command.LeadsTo.welcome {r : Run} {c : Command} {element : Nat} {e : Element}
    {origin : Option Nat} (h : c.LeadsTo r element e origin) (hr : r.inst.Sound)
    (hc : c.Fits r.inst) : Run.Welcome element e origin r := by
  cases h with
  | enter he => exact Run.welcome_enter hc he
  | resume ha he => exact Run.welcome_resume hr hc ha he

namespace Engine

/-- The states that an instance passes through. -/
inductive Passes (starts : KeySequence → Prop) : Instance → Prop
  | stored {engine : Engine} {i : Instance} (h : Descends starts engine)
      (hi : i ∈ engine.instances) : Passes starts i
  | underway {engine : Engine} {i : Instance} {log : List Dispatch} {r : Run}
      {queue : List Command} (h : Descends starts engine) (hi : i ∈ engine.instances)
      (hgo : i.state.terminal = false)
      (htrace : Run.Traced ((engine.lend i).activate, Run.seeds i) log (r, queue)) :
      Passes starts r.inst
  | visiting {engine : Engine} {i : Instance} {log : List Dispatch} {r r' : Run} {c : Command}
      {queue : List Command} {element n : Nat} {e : Element} {origin : Option Nat}
      (h : Descends starts engine) (hi : i ∈ engine.instances)
      (hgo : i.state.terminal = false)
      (htrace : Run.Traced ((engine.lend i).activate, Run.seeds i) log (r, c :: queue))
      (hc : c.LeadsTo r element e origin) (hmoves : Run.Moves element e origin n r r') :
      Passes starts r'.inst

section Passes

variable {starts : KeySequence → Prop} {engine : Engine} {i : Instance}

/-- A run of a stored instance is sound work at any time. -/
theorem Descends.traced_sound (h : Descends starts engine) (hi : i ∈ engine.instances)
    {log : List Dispatch} {work : Run.Work}
    (htrace : Run.Traced ((engine.lend i).activate, Run.seeds i) log work) :
    Run.Work.Sound work := by
  have hstored : (engine.lend i).inst.Sound := (h.sound.instances i hi).1
  exact htrace.sound (Run.seeds_sound hstored)

/-- **The arena is in order in every state** that an instance passes through. -/
theorem Passes.sound (h : Passes starts i) : i.Sound := by
  cases h with
  | stored h hi => exact (h.sound.instances i hi).1
  | underway h hi _ htrace => exact (h.traced_sound hi htrace).1
  | visiting h hi _ htrace hc hmoves =>
      obtain ⟨hr, hqueue⟩ := h.traced_sound hi htrace
      exact hmoves.sound hr (hc.welcome hr (hqueue _ List.mem_cons_self))

end Passes

end Engine

/-! ## Open activities -/

namespace Instance

/-- A look-up for activities with a property: no two positions have one, and the
look-up finds the position that has. -/
structure FindsOnly (i : Instance) (found : Option Nat) (P : Activity → Prop) : Prop where
  only : ∀ ⦃m n : Nat⦄ ⦃a b : Activity⦄, i.activities[m]? = some a → P a →
    i.activities[n]? = some b → P b → m = n
  finds : ∀ k : Nat, found = some k ↔ ∃ a, i.activities[k]? = some a ∧ P a

/-- Where slots are exclusive, looking for what holds a slot finds it. -/
theorem Exclusive.findsOnly {i : Instance} (hi : i.Exclusive) {slot : Slot}
    {P : Activity → Prop} (hP : ∀ a, a.slot? = some slot ↔ P a) :
    i.FindsOnly (i.findSlot? slot) P := by
  have hheld : ∀ k, i.slotAt k = some slot ↔ ∃ a, i.activities[k]? = some a ∧ P a := by
    intro k
    simp only [slotAt_eq_some, hP]
  constructor
  · intro m n a b ha hPa hb hPb
    exact hi ((hheld m).mpr ⟨a, ha, hPa⟩) ((hheld n).mpr ⟨b, hb, hPb⟩)
  · intro k
    rw [← hheld k]
    exact ⟨slotAt_of_findSlot?, hi.findSlot?⟩

end Instance

/-- At most one activity is open in one place: an element id has at most one job
and one subscription that have not ended and at most one timer that still waits,
an element at most one gateway that gathers.  The look-ups find it wherever it
is. -/
structure Instance.OneOpen (i : Instance) : Prop where
  job : ∀ id, i.FindsOnly (i.findOpenJob? id) fun a =>
    ∃ j, a.body = .job j ∧ j.state.terminal = false ∧ j.elementId = id
  subscription : ∀ id, i.FindsOnly (i.findOpenSubscription? id) fun a =>
    ∃ s, a.body = .subscription s ∧ s.state.terminal = false ∧ s.elementId = id
  timer : ∀ id, i.FindsOnly (i.findCreatedTimer? id) fun a =>
    ∃ t, a.body = .timer t ∧ t.state = .created ∧ t.elementId = id
  gateway : ∀ element, i.FindsOnly (i.findActiveGateway? element) fun a =>
    ∃ g, a.body = .gateway g ∧ g.state = .active ∧ a.element = element

namespace Engine

/-- **At most one activity is open in one place**, in every state that an
instance passes through. -/
theorem Passes.oneOpen {starts : KeySequence → Prop} {i : Instance} (h : Passes starts i) :
    i.OneOpen := by
  have hi : i.Exclusive := h.sound.exclusive
  refine ⟨fun id => ?job, fun id => ?subscription, fun id => ?timer, fun element => ?gateway⟩
  case job =>
    rw [Instance.findOpenJob?_eq]
    exact hi.findsOnly fun a => Activity.slot?_eq_job
  case subscription =>
    rw [Instance.findOpenSubscription?_eq]
    exact hi.findsOnly fun a => Activity.slot?_eq_subscription
  case timer =>
    rw [Instance.findCreatedTimer?_eq]
    exact hi.findsOnly fun a => Activity.slot?_eq_timer
  case gateway =>
    rw [Instance.findActiveGateway?_eq]
    exact hi.findsOnly fun a => Activity.slot?_eq_gateway

/-- From two start events of one id flows lead to a task, to a race between a
message and a timer, and to a parallel gateway, which also waits for the task
and the message. -/
def waitingSource : List String :=
  ["<process id='p'>", "<startEvent id='s'/>", "<startEvent id='s'/>", "<userTask id='t'/>",
   "<eventBasedGateway id='e'/>", "<intermediateCatchEvent id='m' name='go'>",
   "<messageEventDefinition/>", "</intermediateCatchEvent>",
   "<intermediateCatchEvent id='w'>", "<timerEventDefinition>",
   "<timeDuration>PT1S</timeDuration>", "</timerEventDefinition>", "</intermediateCatchEvent>",
   "<parallelGateway id='g'/>",
   "<sequenceFlow id='1' ", "sourceRef='s' targetRef='t'/>",
   "<sequenceFlow id='2' ", "sourceRef='s' targetRef='e'/>",
   "<sequenceFlow id='3' ", "sourceRef='s' targetRef='g'/>",
   "<sequenceFlow id='4' ", "sourceRef='t' targetRef='g'/>",
   "<sequenceFlow id='5' ", "sourceRef='e' targetRef='m'/>",
   "<sequenceFlow id='6' ", "sourceRef='e' targetRef='w'/>",
   "<sequenceFlow id='7' ", "sourceRef='m' targetRef='g'/>", "</process>"]

def waitingDiagram : Diagram :=
  { id := "p", name := ""
    elements :=
      [{ Element.bare "s" "" .startEvent with outgoing := ["1", "2", "3"] },
       { Element.bare "s" "" .startEvent with outgoing := ["1", "2", "3"] },
       { Element.bare "t" "" .userTask with incoming := ["1"], outgoing := ["4"] },
       { Element.bare "e" "" .eventBasedGateway with incoming := ["2"], outgoing := ["5", "6"] },
       { Element.bare "m" "go" .catchEvent with
         incoming := ["5"], outgoing := ["7"], event := some (.message none) },
       { Element.bare "w" "" .catchEvent with
         incoming := ["6"], event := some (.timer (some "PT1S")) },
       { Element.bare "g" "" .parallelGateway with incoming := ["3", "4", "7"] }]
    flows :=
      [⟨"1", "", "s", "t", []⟩, ⟨"2", "", "s", "e", []⟩, ⟨"3", "", "s", "g", []⟩,
       ⟨"4", "", "t", "g", []⟩, ⟨"5", "", "e", "m", []⟩, ⟨"6", "", "e", "w", []⟩,
       ⟨"7", "", "m", "g", []⟩]
    messages := [] }

theorem ofMarkup_waitingSource :
    Diagram.ofMarkup (String.join waitingSource) = .ok waitingDiagram :=
  ofMarkup_join (by decide +kernel)

/-- The handler completes the first job and leaves the second one open, and the
two races share their branches.  So each look-up passes over what has ended and
finds the one activity that is open. -/
theorem oneOpen_waiting :
    ∃ i, Passes (· = .default) i ∧
      i.activities.map Activity.element = [0, 1, 2, 3, 6, 2, 3, 4, 5] ∧
      i.findOpenJob? "t" = some 5 ∧ i.findOpenSubscription? "m" = some 7 ∧
      i.findCreatedTimer? "w" = some 8 ∧ i.findActiveGateway? 6 = some 4 ∧ i.OneOpen := by
  obtain ⟨e, hreachable, htest⟩ := exists_reachable ofMarkup_waitingSource 100
    [.register (.id "t") fun n _ => if n = 0 then [.complete] else [], .create 1 [], .run 2]
    (fun e => e.instances.any fun i =>
      i.activities.map Activity.element == [0, 1, 2, 3, 6, 2, 3, 4, 5] &&
        (i.findOpenJob? "t" == some 5 && i.findOpenSubscription? "m" == some 7 &&
          i.findCreatedTimer? "w" == some 8 && i.findActiveGateway? 6 == some 4))
    (by decide +kernel)
  obtain ⟨i, hi, htest⟩ := List.any_eq_true.mp htest
  simp only [Bool.and_eq_true, beq_iff_eq] at htest
  obtain ⟨helements, ⟨⟨hjob, hsubscription⟩, htimer⟩, hgateway⟩ := htest
  have hpasses : Passes (· = .default) i := .stored hreachable.descends hi
  exact ⟨i, hpasses, helements, hjob, hsubscription, htimer, hgateway, hpasses.oneOpen⟩

end Engine

end ProcessEngine
