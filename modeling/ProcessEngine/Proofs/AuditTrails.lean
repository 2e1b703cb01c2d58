import Mathlib.Algebra.BigOperators.Group.List.Basic
import ProcessEngine.Proofs.InstanceProgress
import ProcessEngine.Proofs.VisitReports

/-!
# The audit trail of an instance

What an engine reports on the elements and the flows of one instance is its
trail.  A run adds to the trail of its own instance and to no other one, and each
command adds a few reports, which are accounted for by the commands that follow
from it: where a flow is reported to be taken, its target is entered next, and
where an element is reported complete, its flows are to be taken or its link has
a catch entered.

Reports are counted by `tally`, over the elements or the flows of a diagram that
has no id twice.  `Diagram.inflow` counts those by which flow comes to an element,
and `Diagram.outflow` those after which a flow is to be taken.

Main statements: what a visit reports is accounted for (`visit_accounts`), and so
is what taking flows reports (`takeFlows_accounts`); runs leave the trails of other
instances alone (`start?_sameTrails`).
-/

namespace ProcessEngine

/-- Reports on elements and flows: which one, and what happened to it. -/
abbrev Trail := List (String × ElementIntent)

theorem elementTrail_append (events more : List AuditEvent) (key : Int) :
    elementTrail (events ++ more) key = elementTrail events key ++ elementTrail more key :=
  List.filterMap_append

theorem elementTrail_elementEvent (i : Instance) (e : Element) (intent : ElementIntent)
    (key : Int) :
    elementTrail [i.elementEvent e intent] key = if i.key = key then [(e.id, intent)] else [] := by
  unfold elementTrail Instance.elementEvent
  by_cases hkey : i.key = key <;> simp [hkey]

theorem elementTrail_flowEvents (i : Instance) (flows : List SequenceFlow) (key : Int) :
    elementTrail (flows.map i.flowEvent) key =
      if i.key = key then flows.map fun f => (f.id, .sequenceFlowTaken) else [] := by
  unfold elementTrail Instance.flowEvent
  by_cases hkey : i.key = key <;> simp [hkey, List.filterMap_map]

/-! ## Counting reports -/

/-- Reports of other kinds are not counted. -/
theorem count_eq_zero_of_intent {trail : Trail} {intent : ElementIntent}
    (h : ∀ report ∈ trail, report.2 ≠ intent) (id : String) : trail.count (id, intent) = 0 :=
  List.count_eq_zero_of_not_mem fun hin => h _ hin rfl

/-- The reports of one kind on some entries, each of them as often as it
weighs. -/
def tally {α : Type} (trail : Trail) (intent : ElementIntent) (entries : List α)
    (key : α → String) (weight : α → Nat) : Nat :=
  (entries.map fun a => weight a * trail.count (key a, intent)).sum

section Tally

variable {α : Type} {intent : ElementIntent} {entries : List α} {key : α → String}
  {weight : α → Nat}

theorem tally_append (trail more : Trail) :
    tally (trail ++ more) intent entries key weight =
      tally trail intent entries key weight + tally more intent entries key weight := by
  simp only [tally, List.count_append, Nat.mul_add, List.sum_map_add]

/-- Reports of other kinds do not count. -/
theorem tally_eq_zero {trail : Trail} (h : ∀ a ∈ entries, (key a, intent) ∉ trail) :
    tally trail intent entries key weight = 0 := by
  apply List.sum_eq_zero
  intro count hcount
  obtain ⟨a, ha, rfl⟩ := List.mem_map.mp hcount
  rw [List.count_eq_zero_of_not_mem (h a ha), Nat.mul_zero]

/-- Where no id is there twice, one report counts by the weight of its entry. -/
theorem tally_singleton (hnodup : (entries.map key).Nodup) {a : α} (ha : a ∈ entries) :
    tally [(key a, intent)] intent entries key weight = weight a := by
  induction entries with
  | nil => cases ha
  | cons b rest ih =>
      obtain ⟨hb, hrest⟩ := List.nodup_cons.mp hnodup
      have hhead : tally [(key a, intent)] intent (b :: rest) key weight =
          weight b * [(key a, intent)].count (key b, intent) +
            tally [(key a, intent)] intent rest key weight := by
        simp [tally]
      rw [hhead]
      rcases List.mem_cons.mp ha with rfl | ha
      · have hothers : tally [(key a, intent)] intent rest key weight = 0 := by
          refine tally_eq_zero fun c hc hmem => hb ?_
          have hsame : key c = key a := by simpa using hmem
          exact hsame ▸ List.mem_map_of_mem hc
        rw [hothers, List.count_singleton_self]
        omega
      · have hne : key a ≠ key b := fun heq => hb (heq ▸ List.mem_map_of_mem ha)
        rw [ih hrest ha, List.count_eq_zero_of_not_mem (by simpa using hne.symm)]
        omega

/-- Several reports count by the weights of their entries together. -/
theorem tally_map (hnodup : (entries.map key).Nodup) {chosen : List α}
    (h : ∀ a ∈ chosen, a ∈ entries) :
    tally (chosen.map fun a => (key a, intent)) intent entries key weight =
      (chosen.map weight).sum := by
  induction chosen with
  | nil =>
      have hnone : ∀ a ∈ entries, (key a, intent) ∉ ([] : Trail) := fun _ _ => List.not_mem_nil
      exact tally_eq_zero hnone
  | cons a rest ih =>
      have hrest := ih fun b hb => h b (List.mem_cons_of_mem _ hb)
      have hone : tally [(key a, intent)] intent entries key weight = weight a :=
        tally_singleton hnodup (h a List.mem_cons_self)
      calc tally ([(key a, intent)] ++ rest.map fun b => (key b, intent)) intent entries key weight
          = tally [(key a, intent)] intent entries key weight +
              tally (rest.map fun b => (key b, intent)) intent entries key weight :=
            tally_append _ _
        _ = ((a :: rest).map weight).sum := by
            rw [hone, hrest, List.map_cons, List.sum_cons]

end Tally

/-! ## Flow by reports -/

/-- An element after which all its flows are taken. -/
def Element.passesOn (e : Element) : Bool :=
  match e.kind with
  | .endEvent | .throwEvent | .exclusiveGateway => false
  | _ => true

namespace Diagram

/-- No two elements have one id, and no two flows. -/
structure Distinct (d : Diagram) : Prop where
  elements : (d.elements.map Element.id).Nodup
  flows : (d.flows.map SequenceFlow.id).Nodup

/-- A flow that no exclusive gateway lists. -/
def Unchosen (d : Diagram) (f : SequenceFlow) : Prop :=
  ∀ e ∈ d.elements, e.kind = .exclusiveGateway → f.id ∉ e.outgoing

/-- The reports by which flow comes to the element at a position: a flow that
leads there is taken, or the throw of a link that leads there is completed. -/
def inflow (d : Diagram) (trail : Trail) (n : Nat) (e : Element) : Nat :=
  tally trail .sequenceFlowTaken d.flows SequenceFlow.id
      (fun f => if f.target = e.id then 1 else 0) +
    tally trail .completed d.elements Element.id fun t =>
      if t.kind = .throwEvent ∧ t.linkName?.bind (Run.linkTarget? d) = some n then 1 else 0

/-- The reports after which a flow is to be taken: elements that list it are
completed, each as often as the flow is listed. -/
def outflow (d : Diagram) (trail : Trail) (f : SequenceFlow) : Nat :=
  tally trail .completed d.elements Element.id fun e =>
    if e.passesOn then e.outgoing.count f.id else 0

section Flow

variable {d : Diagram}

theorem Distinct.position (h : d.Distinct) {m n : Nat} {e e' : Element}
    (he : d.elements[m]? = some e) (he' : d.elements[n]? = some e') (hid : e.id = e'.id) :
    m = n := by
  have hlt : m < (d.elements.map Element.id).length := by
    simpa using (List.getElem?_eq_some_iff.mp he).1
  have hids : (d.elements.map Element.id)[m]? = (d.elements.map Element.id)[n]? := by
    simp [he, he', hid]
  exact (List.getElem?_inj hlt h.elements).mp hids

/-- A report on one element counts for this element only. -/
theorem Distinct.count_report (h : d.Distinct) {m n : Nat} {e s : Element}
    (he : d.elements[m]? = some e) (hs : d.elements[n]? = some s) (intent : ElementIntent) :
    [(e.id, intent)].count (s.id, intent) = if m = n then 1 else 0 := by
  by_cases hsame : m = n
  · subst hsame
    obtain rfl := Option.some.inj (he.symm.trans hs)
    rw [List.count_singleton_self, if_pos rfl]
  · have hid : s.id ≠ e.id := fun hid => hsame (h.position he hs hid.symm)
    rw [List.count_eq_zero_of_not_mem (by simpa using hid), if_neg hsame]

theorem inflow_append (trail more : Trail) (n : Nat) (e : Element) :
    d.inflow (trail ++ more) n e = d.inflow trail n e + d.inflow more n e := by
  unfold inflow
  rw [tally_append, tally_append]
  omega

theorem outflow_append (trail more : Trail) (f : SequenceFlow) :
    d.outflow (trail ++ more) f = d.outflow trail f + d.outflow more f :=
  tally_append trail more

theorem inflow_nil (n : Nat) (e : Element) : d.inflow [] n e = 0 := by
  have hnone := d.inflow_append [] [] n e
  rw [List.append_nil] at hnone
  omega

theorem outflow_nil (f : SequenceFlow) : d.outflow [] f = 0 := by
  have hnone := d.outflow_append [] [] f
  rw [List.append_nil] at hnone
  omega

/-- That an element is reached is no flow yet. -/
theorem inflow_activated (id : String) (n : Nat) (e : Element) :
    d.inflow [(id, .activated)] n e = 0 := by
  unfold inflow
  rw [tally_eq_zero (by simp), tally_eq_zero (by simp)]

theorem outflow_activated (id : String) (f : SequenceFlow) :
    d.outflow [(id, .activated)] f = 0 :=
  tally_eq_zero (by simp)

/-- An element that is completed lets flow come to the catch of its link. -/
theorem inflow_completed (h : d.Distinct) {t : Element} (ht : t ∈ d.elements) (n : Nat)
    (e : Element) : d.inflow [(t.id, .completed)] n e =
      if t.kind = .throwEvent ∧ t.linkName?.bind (Run.linkTarget? d) = some n then 1 else 0 := by
  unfold inflow
  rw [tally_eq_zero (by simp), tally_singleton h.elements ht, Nat.zero_add]

/-- An element that is completed has its flows taken. -/
theorem outflow_completed (h : d.Distinct) {t : Element} (ht : t ∈ d.elements)
    (f : SequenceFlow) : d.outflow [(t.id, .completed)] f =
      if t.passesOn then t.outgoing.count f.id else 0 :=
  tally_singleton h.elements ht

/-- Where a flow is not chosen, it is to be taken as often as it is listed. -/
theorem Unchosen.count_outgoing {f : SequenceFlow} (h : d.Unchosen f) {e : Element}
    (he : e ∈ d.elements) (hend : e.kind ≠ .endEvent) (hthrow : e.kind ≠ .throwEvent) :
    (if e.passesOn then e.outgoing.count f.id else 0) = e.outgoing.count f.id := by
  cases hpasses : e.passesOn with
  | true => exact if_pos rfl
  | false =>
      -- only an exclusive gateway is left, and it does not list the flow
      have hchoice : e.kind = .exclusiveGateway := by
        unfold Element.passesOn at hpasses
        cases hkind : e.kind <;> simp_all
      rw [List.count_eq_zero_of_not_mem (h e he hchoice)]
      rfl

/-- Flows that are taken come to their targets. -/
theorem inflow_taken (h : d.Distinct) {flows : List SequenceFlow}
    (hflows : ∀ f ∈ flows, f ∈ d.flows) (n : Nat) (e : Element) :
    d.inflow (flows.map fun f => (f.id, .sequenceFlowTaken)) n e =
      (flows.map fun f => if f.target = e.id then 1 else 0).sum := by
  unfold inflow
  rw [tally_map h.flows hflows, tally_eq_zero (by simp), Nat.add_zero]

theorem outflow_taken (flows : List SequenceFlow) (f : SequenceFlow) :
    d.outflow (flows.map fun g => (g.id, .sequenceFlowTaken)) f = 0 :=
  tally_eq_zero (by simp)

end Flow

end Diagram

/-! ## Flow in the queue -/

namespace Command

/-- How often a command enters the element at a position. -/
def entersAt (n : Nat) : Command → Nat
  | .enter element _ _ => if element = n then 1 else 0
  | _ => 0

/-- How often a command takes the flow with an id. -/
def takesBy (id : String) : Command → Nat
  | .takeFlows _ flowIds => flowIds.count id
  | _ => 0

/-- How often commands enter the element at a position. -/
def entering (n : Nat) (commands : List Command) : Nat := (commands.map (entersAt n)).sum

/-- How often commands take the flow with an id. -/
def taking (id : String) (commands : List Command) : Nat := (commands.map (takesBy id)).sum

theorem entering_append (n : Nat) (queue commands : List Command) :
    entering n (queue ++ commands) = entering n queue + entering n commands := by
  simp [entering]

theorem taking_append (id : String) (queue commands : List Command) :
    taking id (queue ++ commands) = taking id queue + taking id commands := by
  simp [taking]

theorem entering_eq_zero {n : Nat} {commands : List Command}
    (h : ∀ c ∈ commands, c.entersAt n = 0) : entering n commands = 0 := by
  apply List.sum_eq_zero
  intro count hcount
  obtain ⟨c, hc, rfl⟩ := List.mem_map.mp hcount
  exact h c hc

theorem taking_eq_zero {id : String} {commands : List Command}
    (h : ∀ c ∈ commands, c.takesBy id = 0) : taking id commands = 0 := by
  apply List.sum_eq_zero
  intro count hcount
  obtain ⟨c, hc, rfl⟩ := List.mem_map.mp hcount
  exact h c hc

/-- The flows that are taken from an activity are those that its element
lists. -/
def Leaves (i : Instance) : Command → Prop
  | .takeFlows source flowIds => ∃ a e, i.activities[source]? = some a ∧
      i.diagram.elements[a.element]? = some e ∧ flowIds = e.outgoing
  | _ => True

theorem Leaves.grows {opened : List Activity} {r r' : Run} {c : Command} (h : c.Leaves r.inst)
    (hgrows : Run.Grows opened r r') : c.Leaves r'.inst := by
  cases c with
  | takeFlows source flowIds =>
      obtain ⟨a, e, ha, he, hflows⟩ := h
      obtain ⟨b, hb, hframe⟩ := hgrows.activity? ha
      refine ⟨b, e, hb, ?_, hflows⟩
      rw [hgrows.diagram, Activity.element_eq_of_frame hframe, he]
  | _ => trivial

end Command

/-! ## Activities at an element -/

namespace Instance

/-- The activities of the element at a position. -/
def activitiesAt (i : Instance) (n : Nat) : Nat := i.activities.countP fun a => a.element == n

/-- Those of them that are completed. -/
def completedAt (i : Instance) (n : Nat) : Nat :=
  i.activities.countP fun a => a.element == n && a.state == .completed

theorem completedAt_le (i : Instance) (n : Nat) : i.completedAt n ≤ i.activitiesAt n :=
  List.countP_mono_left fun a _ h => by
    simp only [Bool.and_eq_true] at h
    exact h.1

end Instance

namespace Activity

/-- What holds a slot is not completed. -/
theorem state_of_slot? {a : Activity} {slot : Slot} (h : a.slot? = some slot) :
    a.state ≠ .completed := by
  intro hdone
  unfold state at hdone
  unfold slot? at h
  cases hb : a.body <;>
    simp_all [ActivityBody.state, ActivityState.terminal, ActivityState.rank,
      TimerState.asActivity]

end Activity

/-- Two elements that look into one slot have one id, or they are at one
position. -/
theorem Element.slot?_inj {e e' : Element} {m n : Nat} {slot : Slot}
    (h : e.slot? m = some slot) (h' : e'.slot? n = some slot) : e.id = e'.id ∨ m = n := by
  unfold slot? at h h'
  cases slot <;> (repeat' split at h) <;> (repeat' split at h') <;> simp_all

namespace Run

section Activities

variable {opened : List Activity} {element n : Nat} {e : Element} {origin : Option Nat} {r r' : Run}

/-- What is opened adds to the activities at its element. -/
theorem Grows.activitiesAt (h : Grows opened r r') (n : Nat) :
    r'.inst.activitiesAt n =
      r.inst.activitiesAt n + opened.countP fun a => a.element == n := by
  have hframes : ∀ i : Instance,
      i.activitiesAt n = i.frames.countP fun a => a.element == n := by
    intro i
    unfold Instance.activitiesAt Instance.frames
    rw [List.countP_map]
    rfl
  rw [hframes, hframes, h.frames, List.countP_append]

/-- What is completed stays completed. -/
theorem Grows.completed (h : Grows opened r r') (hprogress : Progresses r r') {k : Nat}
    {a : Activity} (ha : r.activity? k = some a) (hdone : a.state = .completed) :
    ∃ b, r'.activity? k = some b ∧ b.element = a.element ∧ b.state = .completed := by
  obtain ⟨b, hb, hframe⟩ := h.activity? ha
  obtain ⟨b', hb', hab⟩ := hprogress.stays ha
  obtain rfl := Option.some.inj (hb'.symm.trans hb)
  refine ⟨b', hb, Activity.element_eq_of_frame hframe, ?_⟩
  rcases hab.1.state with hsame | ⟨hopen, -⟩
  · exact hsame.trans hdone
  · rw [hdone] at hopen
    cases hopen

theorem Grows.completedAt_le (h : Grows opened r r') (hprogress : Progresses r r') (n : Nat) :
    r.inst.completedAt n ≤ r'.inst.completedAt n := by
  refine countP_le_of_getElem? fun k a ha hdone => ?_
  simp only [Bool.and_eq_true, beq_iff_eq] at hdone
  obtain ⟨b, hb, helement, hstate⟩ := h.completed hprogress ha hdone.2
  exact ⟨b, hb, by simp [helement, hdone.1, hstate]⟩

/-- The activity that a visit completes stands at its element, and it was not
completed before. -/
theorem Completes.activity (h : Completes element e origin n r r') (hr : r.inst.Sound)
    (hdistinct : r.diagram.Distinct) (he : r.diagram.elements[element]? = some e) :
    (∃ a, r'.activity? n = some a ∧ a.element = element ∧ a.state = .completed) ∧
      ∀ b, r.activity? n = some b → b.state ≠ .completed := by
  obtain ⟨hmoves, hfrom, a, ha, hdone⟩ := h
  rcases hfrom with hnew | ⟨b, hb, slot, hlooks, hslot⟩
  · have hnone : ∀ b, r.activity? n ≠ some b := by
      intro b hb
      have hlt := (List.getElem?_eq_some_iff.mp hb).1
      omega
    refine ⟨⟨a, ha, ?_, hdone⟩, fun b hb => absurd hb (hnone b)⟩
    rcases hmoves.grows with hstill | ⟨-, body, -, hgrows⟩
    · obtain ⟨b, hb, -⟩ := hstill.activity?_still ha
      exact absurd hb (hnone b)
    · rcases hgrows.cases_activity? ha with ⟨b, hb, -⟩ | ⟨-, hopened⟩
      · exact absurd hb (hnone b)
      · have hframe := List.mem_singleton.mp (List.mem_of_getElem? hopened)
        exact Activity.element_eq_of_frame hframe
  · obtain ⟨opened, hgrows⟩ := Moves.exists_grows hmoves
    obtain ⟨a', ha', hframe⟩ := hgrows.activity? hb
    obtain rfl := Option.some.inj (ha.symm.trans ha')
    obtain ⟨e', he', -⟩ := hr.fits hb
    have hplace : b.element = element := by
      rcases Element.slot?_inj ((hr.fits hb).slot? he' hslot) hlooks with hid | hsame
      · exact hdistinct.position he' he hid
      · exact hsame
    refine ⟨⟨a, ha, (Activity.element_eq_of_frame hframe).trans hplace, hdone⟩, fun b' hb' => ?_⟩
    obtain rfl := Option.some.inj (hb.symm.trans hb')
    exact Activity.state_of_slot? hslot

/-- A visit that completes an activity leaves one more of them completed. -/
theorem Completes.completedAt_lt (h : Completes element e origin n r r') (hr : r.inst.Sound)
    (hdistinct : r.diagram.Distinct) (he : r.diagram.elements[element]? = some e) :
    r.inst.completedAt element < r'.inst.completedAt element := by
  obtain ⟨opened, hgrows⟩ := Moves.exists_grows h.moves
  have hprogress := kept_progresses.moves he h.moves
  obtain ⟨⟨a, ha, helement, hdone⟩, hbefore⟩ := h.activity hr hdistinct he
  refine countP_lt_of_getElem? (fun k b hb hpass => ?_) ha (by simp [helement, hdone])
    (fun b hb => by simp [hbefore b hb])
  simp only [Bool.and_eq_true, beq_iff_eq] at hpass
  obtain ⟨c, hc, hsame, hstate⟩ := hgrows.completed hprogress hb hpass.2
  exact ⟨c, hc, by simp [hsame, hpass.1, hstate]⟩

end Activities

/-! ## What a command reports -/

/-- The reports on the elements and flows of the instance so far. -/
def trail (r : Run) : Trail := elementTrail r.audit r.inst.key

section Accounts

variable {element : Nat} {e : Element} {origin : Option Nat} {r r' : Run}

theorem trail_of_audit {more : List AuditEvent} (hkey : r'.inst.key = r.inst.key)
    (haudit : r'.audit = r.audit ++ more) :
    r'.trail = r.trail ++ elementTrail more r.inst.key := by
  unfold trail
  rw [hkey, haudit, elementTrail_append]

theorem trail_of_completed (hkey : r'.inst.key = r.inst.key)
    (haudit : r'.audit = r.audit ++ [r.inst.elementEvent e .completed]) :
    r'.trail = r.trail ++ [(e.id, .completed)] := by
  rw [trail_of_audit hkey haudit, elementTrail_elementEvent, if_pos rfl]

/-- What a visit reports is accounted for: as often as flow comes to an element by
its reports, the element is entered next, and as often as a flow is to be taken
after them, it is taken next; and what is reported complete is so. -/
structure Accounts (e : Element) (r : Run) (out : Run × List Command) (reports : Trail) :
    Prop where
  reports_eq : reports = [] ∨ reports = [(e.id, .completed)]
  trail : out.1.trail = r.trail ++ reports
  entered : ∀ n s, r.diagram.elements[n]? = some s →
    Command.entering n out.2 = r.diagram.inflow reports n s
  taken : ∀ f, r.diagram.Unchosen f → Command.taking f.id out.2 = r.diagram.outflow reports f
  leaves : ∀ c ∈ out.2, c.Leaves out.1.inst
  completed : ∀ n s, r.diagram.elements[n]? = some s →
    r.inst.completedAt n + reports.count (s.id, .completed) ≤ out.1.inst.completedAt n

theorem Settles.entering {commands : List Command} (h : Settles commands) (n : Nat) :
    Command.entering n commands = 0 := by
  rcases h with rfl | ⟨gateway, rfl⟩ <;> rfl

theorem Settles.taking {commands : List Command} (h : Settles commands) (id : String) :
    Command.taking id commands = 0 := by
  rcases h with rfl | ⟨gateway, rfl⟩ <;> rfl

theorem Settles.leaves {commands : List Command} (h : Settles commands) (i : Instance) :
    ∀ c ∈ commands, c.Leaves i := by
  intro c hc
  rcases h with rfl | ⟨gateway, rfl⟩
  · cases hc
  · obtain rfl := List.mem_singleton.mp hc
    trivial

/-- An element that is left has its flows taken, if it has any. -/
theorem taking_onward (n : Nat) (flowIds : List String) (id : String) :
    Command.taking id (if flowIds.isEmpty then [] else [.takeFlows n flowIds]) =
      flowIds.count id := by
  cases flowIds with
  | nil => rfl
  | cons first rest => simp [Command.taking, Command.takesBy]

theorem entering_onward (n : Nat) (flowIds : List String) (m : Nat) :
    Command.entering m (if flowIds.isEmpty then [] else [.takeFlows n flowIds]) = 0 := by
  split <;> rfl

/-- Where an element is reported complete, one more activity of it is. -/
theorem Completes.counts {n : Nat} (h : Completes element e origin n r r') (hr : r.inst.Sound)
    (hdistinct : r.diagram.Distinct) (he : r.diagram.elements[element]? = some e) (m : Nat)
    (s : Element) (hs : r.diagram.elements[m]? = some s) :
    r.inst.completedAt m + [(e.id, ElementIntent.completed)].count (s.id, .completed) ≤
      r'.inst.completedAt m := by
  obtain ⟨opened, hgrows⟩ := Moves.exists_grows h.moves
  have hprogress := kept_progresses.moves he h.moves
  rw [hdistinct.count_report he hs]
  split
  · rename_i hsame
    subst hsame
    exact h.completedAt_lt hr hdistinct he
  · exact hgrows.completedAt_le hprogress m

/-- **What a visit reports is accounted for.** -/
theorem visit_accounts {via : Option String} (hr : r.inst.Sound)
    (hdistinct : r.diagram.Distinct) (he : r.diagram.elements[element]? = some e)
    (hclean : ∀ c ∈ (r.visit element e origin via).2, c.isFailure = false) :
    ∃ reports, Accounts e r (r.visit element e origin via) reports := by
  have hmem := List.mem_of_getElem? he
  have hvisit := visit_spec r element e origin via
  have hprogress := kept_progresses.visits he hvisit
  obtain ⟨opened, hgrows⟩ := hvisit.exists_grows
  have houtcome := visit_outcome r element e origin via
  generalize r.visit element e origin via = out at hclean hprogress hgrows houtcome
  have hkey := hgrows.key
  cases houtcome with
  | fails error => cases hclean _ List.mem_cons_self
  | @rests r' commands haudit hsettles =>
      have htrail : r'.trail = r.trail ++ [] :=
        trail_of_audit hkey (haudit.trans (List.append_nil r.audit).symm)
      refine ⟨[], .inl rfl, htrail, fun n s _ => ?_, fun f _ => ?_, hsettles.leaves _, ?_⟩
      · exact (hsettles.entering n).trans (Diagram.inflow_nil n s).symm
      · exact (hsettles.taking f.id).trans (Diagram.outflow_nil f).symm
      · exact fun n s _ => hgrows.completedAt_le hprogress n
  | @passes r' n settles flows hend hthrow haudit hsettles hflows h =>
      obtain ⟨⟨a, ha, helement, -⟩, -⟩ := h.activity hr hdistinct he
      refine ⟨[(e.id, .completed)], .inr rfl, trail_of_completed hkey haudit, fun m s _ => ?_,
        fun f hf => ?_, fun c hc => ?_, h.counts hr hdistinct he⟩
      · rw [Command.entering_append, hsettles.entering, hflows, entering_onward,
          Diagram.inflow_completed hdistinct hmem, if_neg fun h => hthrow h.1]
      · rw [Command.taking_append, hsettles.taking, hflows, taking_onward,
          Diagram.outflow_completed hdistinct hmem, hf.count_outgoing hmem hend hthrow,
          Nat.zero_add]
      · rcases List.mem_append.mp hc with hc | hc
        · exact hsettles.leaves _ c hc
        · rw [hflows] at hc
          split at hc
          · cases hc
          · obtain rfl := List.mem_singleton.mp hc
            refine ⟨a, e, ha, ?_, rfl⟩
            rw [hgrows.diagram, helement]
            exact he
  | ends hkind haudit h =>
      refine ⟨[(e.id, .completed)], .inr rfl, trail_of_completed hkey haudit, fun m s _ => ?_,
        fun f _ => ?_, nofun, h.counts hr hdistinct he⟩
      · rw [Diagram.inflow_completed hdistinct hmem, if_neg fun h => by simp [hkind] at h]
        rfl
      · rw [Diagram.outflow_completed hdistinct hmem, if_neg (by simp [Element.passesOn, hkind])]
        rfl
  | @jumps r' n target link hkind hlink htarget haudit h =>
      refine ⟨[(e.id, .completed)], .inr rfl, trail_of_completed hkey haudit, fun m s _ => ?_,
        fun f _ => ?_, fun c hc => ?_, h.counts hr hdistinct he⟩
      · rw [Diagram.inflow_completed hdistinct hmem]
        simp [Command.entering, Command.entersAt, hkind, hlink, htarget]
      · rw [Diagram.outflow_completed hdistinct hmem, if_neg (by simp [Element.passesOn, hkind])]
        rfl
      · obtain rfl := List.mem_singleton.mp hc
        trivial

/-! ## Flows that are taken -/

/-- The flows with some ids, each as often as it is listed. -/
theorem count_findFlows {d : Diagram} {f : SequenceFlow} (hf : f ∈ d.flows)
    (flowIds : List String) :
    ((d.findFlows flowIds).map SequenceFlow.id).count f.id = flowIds.count f.id := by
  have hfound : (d.findFlow? f.id).isSome = true := by
    rw [Diagram.findFlow?, List.find?_isSome]
    exact ⟨f, hf, by simp⟩
  induction flowIds with
  | nil => rfl
  | cons id rest ih =>
      unfold Diagram.findFlows at ih ⊢
      cases hfind : d.findFlow? id with
      | none =>
          have hne : id ≠ f.id := by
            rintro rfl
            rw [hfind] at hfound
            cases hfound
          rw [List.filterMap_cons_none hfind, ih, List.count_cons_of_ne hne]
      | some g =>
          have hid : g.id = id := by simpa using List.find?_some hfind
          rw [List.filterMap_cons_some hfind, List.map_cons, hid, List.count_cons, ih,
            List.count_cons]

theorem mem_of_mem_findFlows {d : Diagram} {flowIds : List String} {f : SequenceFlow}
    (h : f ∈ d.findFlows flowIds) : f ∈ d.flows := by
  obtain ⟨id, -, hfind⟩ := List.mem_filterMap.mp h
  exact List.mem_of_find?_eq_some hfind

/-- The flows that are taken from an element are those that it lists, each as often
as it does, unless they are chosen. -/
theorem count_selectFlows {d : Diagram} {vars : Variables} {s : Element} (hs : s ∈ d.elements)
    {taken : List SequenceFlow} (h : selectFlows vars s (d.findFlows s.outgoing) = .ok taken)
    {f : SequenceFlow} (hf : f ∈ d.flows) (hfree : d.Unchosen f) :
    (taken.map SequenceFlow.id).count f.id = s.outgoing.count f.id := by
  by_cases hchoice : s.kind = .exclusiveGateway
  · have hunlisted := List.count_eq_zero_of_not_mem (hfree s hs hchoice)
    have hsublist := (selectFlows_sublist h).map SequenceFlow.id
    have hle := hsublist.count_le f.id
    rw [count_findFlows hf] at hle
    omega
  · rw [selectFlows, if_neg hchoice] at h
    obtain rfl := Except.ok.inj h
    exact count_findFlows hf s.outgoing

/-- A flow that can be taken has its target entered. -/
theorem entersAt_targetCommand {d : Diagram} (hdistinct : d.Distinct) {n : Nat} {t : Element}
    (ht : d.elements[n]? = some t) (source : Nat) {f : SequenceFlow}
    (hgoes : (targetCommand d source f).isFailure = false) :
    (targetCommand d source f).entersAt n = if f.target = t.id then 1 else 0 := by
  unfold targetCommand at hgoes ⊢
  cases htarget : d.findElement? f.target with
  | none =>
      rw [htarget] at hgoes
      cases hgoes
  | some m =>
      obtain ⟨hlt, htest, -⟩ := List.findIdx?_eq_some_iff_getElem.mp htarget
      have hid : d.elements[m].id = f.target := by simpa using htest
      have hm := List.getElem?_eq_getElem hlt
      by_cases hsame : f.target = t.id
      · have hposition := hdistinct.position hm ht (hid.trans hsame)
        simp [Command.entersAt, hposition, hsame]
      · have hother : m ≠ n := by
          rintro rfl
          obtain rfl := Option.some.inj (hm.symm.trans ht)
          exact hsame hid.symm
        simp [Command.entersAt, hother, hsame]

/-- What taking flows reports is accounted for: each target is entered as often as
flow comes to it, and where the element has no choice, all its flows are taken. -/
theorem takeFlows_accounts {source : Nat} {flowIds : List String} (hdistinct : r.diagram.Distinct)
    (hleaves : (Command.takeFlows source flowIds).Leaves r.inst)
    (hclean : ∀ c ∈ (r.takeFlows source flowIds).2, c.isFailure = false) :
    ∃ taken : List SequenceFlow, (∀ f ∈ taken, f ∈ r.diagram.flows) ∧
      r.takeFlows source flowIds = ({ r with audit := r.audit ++ taken.map r.inst.flowEvent },
        taken.map (targetCommand r.diagram source)) ∧
      (∀ n s, r.diagram.elements[n]? = some s →
        Command.entering n (r.takeFlows source flowIds).2 =
          (taken.map fun f => if f.target = s.id then 1 else 0).sum) ∧
      ∀ f ∈ r.diagram.flows, r.diagram.Unchosen f →
        (taken.map SequenceFlow.id).count f.id = flowIds.count f.id := by
  obtain ⟨a, s, ha, hs, rfl⟩ := hleaves
  have hfound : ((r.activity? source).bind fun a => r.diagram.elements[a.element]?) = some s := by
    have ha : r.activity? source = some a := ha
    rw [ha]
    exact hs
  unfold takeFlows at hclean ⊢
  rw [hfound] at hclean ⊢
  dsimp only at hclean ⊢
  cases hselect : selectFlows r.inst.vars s (r.diagram.findFlows s.outgoing) with
  | error error =>
      rw [hselect] at hclean
      cases hclean _ List.mem_cons_self
  | ok taken =>
      rw [hselect] at hclean
      have hmem : ∀ f ∈ taken, f ∈ r.diagram.flows := fun f hf =>
        mem_of_mem_findFlows ((selectFlows_sublist hselect).subset hf)
      refine ⟨taken, hmem, rfl, fun n t ht => ?_, fun f hf hfree => ?_⟩
      · -- every target is there, or taking the flow would fail
        have htargets : ∀ f ∈ taken, (targetCommand r.diagram source f).entersAt n =
            if f.target = t.id then 1 else 0 := fun f hf =>
          entersAt_targetCommand hdistinct ht source (hclean _ (List.mem_map_of_mem hf))
        unfold Command.entering
        rw [List.map_map]
        exact congrArg List.sum (List.map_congr_left htargets)
      · exact count_selectFlows (List.mem_of_getElem? hs) hselect hf hfree

end Accounts

/-! ## Other trails -/

/-- Nothing is reported on other instances. -/
def SameTrails (r r' : Run) : Prop :=
  r'.inst.key = r.inst.key ∧
    ∀ key, key ≠ r.inst.key → elementTrail r'.audit key = elementTrail r.audit key

section Others

variable {r r' : Run}

theorem SameTrails.trans {r₁ : Run} (h : SameTrails r r₁) (h' : SameTrails r₁ r') :
    SameTrails r r' :=
  ⟨h'.1.trans h.1, fun key hne => (h'.2 key (h.1 ▸ hne)).trans (h.2 key hne)⟩

theorem SameTrails.of_audit {more : List AuditEvent} (hkey : r'.inst.key = r.inst.key)
    (haudit : r'.audit = r.audit ++ more)
    (hmore : ∀ key, key ≠ r.inst.key → elementTrail more key = []) : SameTrails r r' := by
  refine ⟨hkey, fun key hne => ?_⟩
  rw [haudit, elementTrail_append, hmore key hne, List.append_nil]

/-- A report on an element of the instance. -/
theorem SameTrails.of_element {e : Element} {intent : ElementIntent}
    (hkey : r'.inst.key = r.inst.key)
    (haudit : r'.audit = r.audit ++ [r.inst.elementEvent e intent]) : SameTrails r r' := by
  refine .of_audit hkey haudit fun key hne => ?_
  rw [elementTrail_elementEvent, if_neg hne.symm]

theorem SameTrails.of_quiet (hkey : r'.inst.key = r.inst.key) (haudit : r'.audit = r.audit) :
    SameTrails r r' :=
  ⟨hkey, fun key _ => by rw [haudit]⟩

theorem visit_sameTrails (r : Run) (element : Nat) (e : Element) (origin : Option Nat)
    (via : Option String) : SameTrails r (r.visit element e origin via).1 := by
  obtain ⟨opened, hgrows⟩ := (visit_spec r element e origin via).exists_grows
  have houtcome := visit_outcome r element e origin via
  generalize r.visit element e origin via = out at hgrows houtcome
  cases houtcome with
  | fails error haudit => exact .of_quiet hgrows.key haudit
  | rests haudit => exact .of_quiet hgrows.key haudit
  | passes _ _ haudit => exact .of_element hgrows.key haudit
  | ends _ haudit => exact .of_element hgrows.key haudit
  | jumps _ _ _ haudit => exact .of_element hgrows.key haudit

theorem dispatch_sameTrails (r : Run) (c : Command) : SameTrails r (r.dispatch c).1 := by
  cases c with
  | takeFlows source flowIds =>
      show SameTrails r (r.takeFlows source flowIds).1
      unfold takeFlows
      split
      · exact .of_quiet rfl rfl
      · split
        · exact .of_quiet rfl rfl
        · refine .of_audit rfl rfl fun key hne => ?_
          rw [elementTrail_flowEvents, if_neg hne.symm]
  | enter element origin via =>
      simp only [dispatch]
      split
      · exact .of_quiet rfl rfl
      · rename_i e he
        have hreport : SameTrails r (r.reportElement e .activated) := .of_element rfl rfl
        exact hreport.trans (visit_sameTrails _ element e origin via)
  | resume n origin =>
      simp only [dispatch]
      split
      · exact .of_quiet rfl rfl
      · split
        · exact .of_quiet rfl rfl
        · exact visit_sameTrails r _ _ origin none
  | settleRace gateway => exact .of_quiet (r.settleRace_grows gateway).key rfl
  | fail error => exact .of_quiet rfl rfl

theorem Reaches.sameTrails {work next : Work} (h : Reaches work next) :
    SameTrails work.1 next.1 := by
  induction h with
  | refl => exact .of_quiet rfl rfl
  | tail _ hnext ih =>
      cases hnext with
      | step r c queue => exact ih.trans (dispatch_sameTrails r c)

/-- The end of an instance is no report on an element. -/
theorem elementTrail_endedEvent (i : Instance) (key : Int) :
    elementTrail [i.endedEvent] key = [] := rfl

theorem trail_finish (r : Run) : r.finish.trail = r.trail := by
  unfold finish
  split
  · show elementTrail (r.audit ++ [r.inst.endedEvent]) r.inst.key = _
    rw [elementTrail_append, elementTrail_endedEvent, List.append_nil]
    rfl
  · rfl

theorem finish_sameTrails (r : Run) : SameTrails r r.finish := by
  unfold finish
  split
  · exact .of_audit rfl rfl fun key _ => elementTrail_endedEvent r.inst key
  · exact .of_quiet rfl rfl

theorem abort_sameTrails (r : Run) : SameTrails r r.abort :=
  .of_audit rfl rfl fun key _ => elementTrail_endedEvent _ key

/-- **A run reports on its own instance only.** -/
theorem start?_sameTrails {fuel : Nat} {error? : Option EngineError}
    (h : r.start? fuel = some (r', error?)) : SameTrails r r' := by
  rcases start?_cases h with ⟨-, rfl, -⟩ | ⟨-, hends⟩
  · exact .of_quiet rfl rfl
  · have hactivate : SameTrails r r.activate := .of_quiet rfl rfl
    cases hends with
    | @empty last hreaches =>
        exact hactivate.trans (hreaches.sameTrails.trans last.finish_sameTrails)
    | @failed last c queue error hreaches =>
        have hlast := dispatch_sameTrails last c
        exact hactivate.trans (hreaches.sameTrails.trans (hlast.trans (abort_sameTrails _)))

end Others

end Run

end ProcessEngine
