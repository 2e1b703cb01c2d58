import Mathlib.Data.List.Count
import ProcessEngine.Proofs.AuditTrails
import ProcessEngine.Proofs.QuietRuns

/-!
# The balance of an audit trail

The trail of an instance is a double entry.  Flow comes to an element where a
flow that leads there is taken, where the throw of its link is completed, and
once from outside where it is a start event; and as often as flow has come, the
element is reported activated.  An element that is completed has all its flows
taken, as often as it lists them, unless it chooses among them.

While a run is under way the queue holds what is missing: the elements that are
still to be entered, and the flows that are still to be taken
(`Instance.Tallied`).  One command keeps the books in order (`dispatch_books`),
and a run without a failure ends with an empty queue.  That no element is
completed more often than it was activated is told by its activities: none is
opened but by an activation, and none is completed twice.

Main statement: `trail_balances`, for an instance whose whole life was in one
engine.
-/

namespace ProcessEngine

/-- The reports on an instance balance. -/
structure Diagram.Balanced (d : Diagram) (trail : Trail) : Prop where
  activated : ∀ n e, d.elements[n]? = some e → trail.count (e.id, .activated) =
    d.inflow trail n e + if e.kind = .startEvent then 1 else 0
  taken : ∀ f ∈ d.flows, d.Unchosen f →
    trail.count (f.id, .sequenceFlowTaken) = d.outflow trail f
  completed : ∀ e ∈ d.elements, ∀ early, early <+: trail →
    early.count (e.id, .completed) ≤ early.count (e.id, .activated)

/-- The reports on an instance balance with what is queued, and with its
activities. -/
structure Instance.Tallied (i : Instance) (trail : Trail) (queue : List Command) : Prop where
  entered : ∀ n e, i.diagram.elements[n]? = some e →
    trail.count (e.id, .activated) + Command.entering n queue =
      i.diagram.inflow trail n e + if e.kind = .startEvent then 1 else 0
  taken : ∀ f ∈ i.diagram.flows, i.diagram.Unchosen f →
    trail.count (f.id, .sequenceFlowTaken) + Command.taking f.id queue = i.diagram.outflow trail f
  leaves : ∀ c ∈ queue, c.Leaves i
  opened : ∀ n e, i.diagram.elements[n]? = some e →
    i.activitiesAt n ≤ trail.count (e.id, .activated)
  completed : ∀ n e, i.diagram.elements[n]? = some e →
    trail.count (e.id, .completed) ≤ i.completedAt n
  ordered : ∀ e ∈ i.diagram.elements, ∀ early, early <+: trail →
    early.count (e.id, .completed) ≤ early.count (e.id, .activated)

/-- With nothing queued, the reports balance among themselves. -/
theorem Instance.Tallied.balanced {i : Instance} {trail : Trail} (h : i.Tallied trail []) :
    i.diagram.Balanced trail where
  activated := h.entered
  taken := h.taken
  completed := h.ordered

namespace Run

/-! ## One command -/

/-- What a command reports is accounted for, by the command itself and by those
that follow from it. -/
structure Books (c : Command) (r : Run) (out : Run × List Command) (reports : Trail) : Prop where
  trail : out.1.trail = r.trail ++ reports
  entered : ∀ n s, r.diagram.elements[n]? = some s →
    reports.count (s.id, .activated) + Command.entering n out.2 =
      c.entersAt n + r.diagram.inflow reports n s
  taken : ∀ f ∈ r.diagram.flows, r.diagram.Unchosen f →
    reports.count (f.id, .sequenceFlowTaken) + Command.taking f.id out.2 =
      c.takesBy f.id + r.diagram.outflow reports f
  leaves : ∀ c ∈ out.2, c.Leaves out.1.inst
  opened : ∀ n s, r.diagram.elements[n]? = some s →
    out.1.inst.activitiesAt n ≤ r.inst.activitiesAt n + reports.count (s.id, .activated)
  completed : ∀ n s, r.diagram.elements[n]? = some s →
    r.inst.completedAt n + reports.count (s.id, .completed) ≤ out.1.inst.completedAt n
  last : ∀ early, early <+: reports → early = reports ∨ ∀ id, early.count (id, .completed) = 0

section Books

variable {r : Run} {queue : List Command}

theorem takeFlows_books {source : Nat} {flowIds : List String} (hdistinct : r.diagram.Distinct)
    (hleaves : (Command.takeFlows source flowIds).Leaves r.inst)
    (hclean : ∀ c ∈ (r.takeFlows source flowIds).2, c.isFailure = false) :
    ∃ reports, Books (.takeFlows source flowIds) r (r.takeFlows source flowIds) reports := by
  obtain ⟨taken, hmem, hout, hentering, hcount⟩ := takeFlows_accounts hdistinct hleaves hclean
  rw [hout] at hentering ⊢
  have hother : ∀ intent : ElementIntent, intent ≠ .sequenceFlowTaken → ∀ id,
      (taken.map fun f => (f.id, ElementIntent.sequenceFlowTaken)).count (id, intent) = 0 := by
    intro intent hne
    refine count_eq_zero_of_intent fun report hin => ?_
    obtain ⟨f, -, rfl⟩ := List.mem_map.mp hin
    exact hne.symm
  refine ⟨taken.map fun f => (f.id, .sequenceFlowTaken), ?_, fun n s hs => ?_, fun f hf hfree => ?_,
    fun c hc => ?_, fun n s _ => ?_, fun n s _ => ?_, fun early hearly => ?_⟩
  · show elementTrail (r.audit ++ taken.map r.inst.flowEvent) r.inst.key = _
    rw [elementTrail_append, elementTrail_flowEvents, if_pos rfl]
    rfl
  · rw [hother .activated nofun, hentering n s hs, Diagram.inflow_taken hdistinct hmem]
    rfl
  · have hids : (taken.map fun f => (f.id, ElementIntent.sequenceFlowTaken)).count
        (f.id, .sequenceFlowTaken) = (taken.map SequenceFlow.id).count f.id := by
      have hinj : Function.Injective fun id : String => (id, ElementIntent.sequenceFlowTaken) :=
        fun _ _ heq => (Prod.mk.inj heq).1
      rw [← List.count_map_of_injective (taken.map SequenceFlow.id) _ hinj f.id, List.map_map]
      rfl
    have hnone : Command.taking f.id (taken.map (targetCommand r.diagram source)) = 0 := by
      refine Command.taking_eq_zero fun c hc => ?_
      obtain ⟨g, -, rfl⟩ := List.mem_map.mp hc
      unfold targetCommand
      split <;> rfl
    rw [hids, hcount f hf hfree, hnone, Diagram.outflow_taken]
    rfl
  · obtain ⟨f, -, rfl⟩ := List.mem_map.mp hc
    unfold targetCommand
    split <;> trivial
  · exact Nat.le_add_right _ _
  · rw [hother .completed nofun]
    exact Nat.le_refl _
  · refine .inr fun id => ?_
    have hle := hearly.sublist.count_le (id, ElementIntent.completed)
    rw [hother .completed nofun] at hle
    exact Nat.le_zero.mp hle

/-- Neither flows nor activations are among what a visit reports. -/
theorem Accounts.count_eq_zero {e : Element} {out : Run × List Command} {reports : Trail}
    (h : Accounts e r out reports) (id : String) {intent : ElementIntent}
    (hne : intent ≠ .completed) : reports.count (id, intent) = 0 := by
  refine count_eq_zero_of_intent (fun report hin => ?_) id
  rcases h.reports_eq with rfl | rfl
  · cases hin
  · obtain rfl := List.mem_singleton.mp hin
    exact hne.symm

/-- The report on a completion is the last one of a visit. -/
theorem Accounts.last {e : Element} {out : Run × List Command} {reports early : Trail}
    (h : Accounts e r out reports) (hearly : early <+: reports) :
    early = reports ∨ ∀ id, early.count (id, .completed) = 0 := by
  rcases h.reports_eq with rfl | rfl
  · exact .inl (List.prefix_nil.mp hearly)
  · rcases List.prefix_cons_iff.mp hearly with rfl | ⟨rest, rfl, hrest⟩
    · exact .inr fun id => rfl
    · obtain rfl := List.prefix_nil.mp hrest
      exact .inl rfl

theorem enter_books {element : Nat} {e : Element} {origin : Option Nat} {via : Option String}
    (hr : r.inst.Sound) (hdistinct : r.diagram.Distinct)
    (he : r.diagram.elements[element]? = some e)
    (hclean : ∀ c ∈ ((r.reportElement e .activated).visit element e origin via).2,
      c.isFailure = false) :
    ∃ reports, Books (.enter element origin via) r
      ((r.reportElement e .activated).visit element e origin via) reports := by
  have hvisit := visit_spec (r.reportElement e .activated) element e origin via
  obtain ⟨reports, haccounts⟩ :=
    visit_accounts (r := r.reportElement e .activated) hr hdistinct he hclean
  generalize (r.reportElement e .activated).visit element e origin via = out at hvisit haccounts
  have hcons : ∀ reports : Trail, (e.id, ElementIntent.activated) :: reports =
      [(e.id, ElementIntent.activated)] ++ reports := fun _ => rfl
  have hone : ∀ n s, r.diagram.elements[n]? = some s →
      [(e.id, ElementIntent.activated)].count (s.id, .activated) =
        if element = n then 1 else 0 :=
    fun n s hs => hdistinct.count_report he hs .activated
  have hother : ∀ intent : ElementIntent, intent ≠ .activated → ∀ id,
      [(e.id, ElementIntent.activated)].count (id, intent) = 0 := by
    intro intent hne
    refine count_eq_zero_of_intent fun report hin => ?_
    obtain rfl := List.mem_singleton.mp hin
    exact hne.symm
  have hdone : ∀ id, [(e.id, ElementIntent.activated)].count (id, .completed) = 0 :=
    hother .completed nofun
  refine ⟨(e.id, .activated) :: reports, ?_, fun n s hs => ?_, fun f _ hfree => ?_,
    haccounts.leaves, fun n s hs => ?_, fun n s hs => ?_, fun early hearly => ?_⟩
  · have hreport : (r.reportElement e .activated).trail = r.trail ++ [(e.id, .activated)] := by
      show elementTrail (r.audit ++ [r.inst.elementEvent e .activated]) r.inst.key = _
      rw [elementTrail_append, elementTrail_elementEvent, if_pos rfl]
      rfl
    rw [haccounts.trail, hreport, List.append_assoc]
    rfl
  · have hentered : Command.entering n out.2 = r.diagram.inflow reports n s :=
      haccounts.entered n s hs
    have hnone : reports.count (s.id, .activated) = 0 := haccounts.count_eq_zero s.id nofun
    rw [hcons, List.count_append, hone n s hs, hnone, hentered, Diagram.inflow_append,
      Diagram.inflow_activated, Nat.zero_add]
    rfl
  · have htaken : Command.taking f.id out.2 = r.diagram.outflow reports f :=
      haccounts.taken f hfree
    have hfirst := hother .sequenceFlowTaken nofun f.id
    have hnone : reports.count (f.id, .sequenceFlowTaken) = 0 :=
      haccounts.count_eq_zero f.id nofun
    rw [hcons, List.count_append, hfirst, hnone, htaken, Diagram.outflow_append,
      Diagram.outflow_activated, Nat.zero_add]
    exact (Nat.zero_add _).symm
  · have hat : (r.reportElement e .activated).inst.activitiesAt n = r.inst.activitiesAt n := rfl
    have hnone : reports.count (s.id, .activated) = 0 := haccounts.count_eq_zero s.id nofun
    rw [hcons, List.count_append, hone n s hs, hnone]
    rcases hvisit.grows with hstill | ⟨body, -, hgrows⟩
    · rw [hstill.activitiesAt, hat]
      exact Nat.add_le_add_left (Nat.zero_le _) _
    · rw [hgrows.activitiesAt, hat, List.countP_singleton]
      simp [Activity.frame]
  · rw [hcons, List.count_append, hdone s.id, Nat.zero_add]
    exact haccounts.completed n s hs
  · rcases List.prefix_cons_iff.mp hearly with rfl | ⟨rest, rfl, hrest⟩
    · exact .inr fun id => rfl
    · rcases haccounts.last hrest with rfl | hzero
      · exact .inl rfl
      · refine .inr fun id => ?_
        rw [hcons, List.count_append, hdone id, hzero id]

theorem resume_books {n : Nat} {a : Activity} {e : Element} {origin : Option Nat} {slot : Slot}
    (hr : r.inst.Sound) (hdistinct : r.diagram.Distinct) (ha : r.activity? n = some a)
    (he : r.diagram.elements[a.element]? = some e) (hheld : r.inst.slotAt n = some slot)
    (hclean : ∀ c ∈ (r.visit a.element e origin none).2, c.isFailure = false) :
    ∃ reports, Books (.resume n origin) r (r.visit a.element e origin none) reports := by
  have hvisit := visit_spec r a.element e origin none
  obtain ⟨reports, haccounts⟩ := visit_accounts hr hdistinct he hclean
  generalize r.visit a.element e origin none = out at hvisit haccounts
  -- the activity is still open, so the visit opens none
  obtain ⟨b, hb, hslot⟩ := Instance.slotAt_eq_some.mp hheld
  obtain rfl : a = b := Option.some.inj (ha.symm.trans hb)
  have hstill := hvisit.still_of_held ((hr.fits ha).slot? he hslot) hheld
  refine ⟨reports, haccounts.trail, fun m s hs => ?_, fun f _ hfree => ?_, haccounts.leaves,
    fun m s _ => ?_, haccounts.completed, fun early hearly => haccounts.last hearly⟩
  · have hnone : reports.count (s.id, .activated) = 0 := haccounts.count_eq_zero s.id nofun
    rw [hnone, haccounts.entered m s hs]
    rfl
  · have hnone : reports.count (f.id, .sequenceFlowTaken) = 0 :=
      haccounts.count_eq_zero f.id nofun
    rw [hnone, haccounts.taken f hfree]
    rfl
  · rw [hstill.activitiesAt]
    exact Nat.add_le_add_left (Nat.zero_le _) _

theorem settleRace_books (r : Run) (gateway : Nat) :
    Books (.settleRace gateway) r (r.dispatch (.settleRace gateway)) [] := by
  have hgrows := r.settleRace_grows gateway
  have hprogress := settleRace_progresses r gateway
  refine ⟨?_, fun n s _ => ?_, fun f _ _ => ?_, nofun, fun n s _ => ?_, fun n s _ => ?_,
    fun early hearly => .inl (List.prefix_nil.mp hearly)⟩
  · exact trail_of_audit hgrows.key (List.append_nil _).symm
  · rw [Diagram.inflow_nil]
    rfl
  · rw [Diagram.outflow_nil]
    rfl
  · exact Nat.le_of_eq (hgrows.activitiesAt n)
  · exact hgrows.completedAt_le hprogress n

/-- **Every command keeps the books in order.** -/
theorem dispatch_books {c : Command} (hw : Work.Sound (r, c :: queue))
    (hqueued : r.inst.Queued (c :: queue)) (hdistinct : r.diagram.Distinct)
    (hleaves : c.Leaves r.inst) (hc : c.isFailure = false)
    (hclean : ∀ c' ∈ (r.dispatch c).2, c'.isFailure = false) :
    ∃ reports, Books c r (r.dispatch c) reports := by
  have hfits := hw.2 c List.mem_cons_self
  cases c with
  | takeFlows source flowIds => exact takeFlows_books hdistinct hleaves hclean
  | enter element origin via =>
      obtain ⟨⟨e, he, -⟩, -⟩ := hfits
      rw [dispatch_enter he] at hclean ⊢
      exact enter_books hw.1 hdistinct he hclean
  | resume n origin =>
      obtain ⟨a, ha, -, -⟩ := hfits
      obtain ⟨e, he, -⟩ := hw.1.fits ha
      rw [dispatch_resume ha he] at hclean ⊢
      cases hqueued with
      | rest h => cases h _ List.mem_cons_self
      | resume hheld => exact resume_books hw.1 hdistinct ha he hheld hclean
  | settleRace gateway => exact ⟨[], settleRace_books r gateway⟩
  | fail error => cases hc

/-- Books in order keep a queue in balance. -/
theorem Books.tallied {c : Command} {out : Run × List Command} {reports : Trail}
    {opened : List Activity} (h : Books c r out reports) (hgrows : Grows opened r out.1)
    (htallied : r.inst.Tallied r.trail (c :: queue)) :
    out.1.inst.Tallied out.1.trail (queue ++ out.2) := by
  have hdiagram : out.1.inst.diagram = r.diagram := hgrows.diagram
  have hordered : ∀ (n : Nat) (e : Element), r.diagram.elements[n]? = some e →
      (r.trail ++ reports).count (e.id, .completed) ≤
        (r.trail ++ reports).count (e.id, .activated) := by
    intro n e he
    have hopened := htallied.opened n e he
    have hcompleted := htallied.completed n e he
    have hmore := h.opened n e he
    have hdone := h.completed n e he
    have hle := out.1.inst.completedAt_le n
    rw [List.count_append, List.count_append]
    omega
  rw [h.trail]
  refine ⟨fun n e he => ?_, fun f hf hfree => ?_, fun c' hc' => ?_, fun n e he => ?_,
    fun n e he => ?_, fun e he early hearly => ?_⟩
  · rw [hdiagram] at he ⊢
    have hbefore := htallied.entered n e he
    have hnow := h.entered n e he
    have hfirst : Command.entering n (c :: queue) =
        c.entersAt n + Command.entering n queue := by simp [Command.entering]
    have hflow : r.inst.diagram.inflow r.trail n e = r.diagram.inflow r.trail n e := rfl
    rw [List.count_append, Command.entering_append, Diagram.inflow_append]
    omega
  · rw [hdiagram] at hf hfree ⊢
    have hbefore := htallied.taken f hf hfree
    have hnow := h.taken f hf hfree
    have hfirst : Command.taking f.id (c :: queue) =
        c.takesBy f.id + Command.taking f.id queue := by simp [Command.taking]
    have hflow : r.inst.diagram.outflow r.trail f = r.diagram.outflow r.trail f := rfl
    rw [List.count_append, Command.taking_append, Diagram.outflow_append]
    omega
  · rcases List.mem_append.mp hc' with hold | hnew
    · exact (htallied.leaves c' (List.mem_cons_of_mem _ hold)).grows hgrows
    · exact h.leaves c' hnew
  · rw [hdiagram] at he
    have hopened := htallied.opened n e he
    have hmore := h.opened n e he
    rw [List.count_append]
    omega
  · rw [hdiagram] at he
    have hcompleted := htallied.completed n e he
    have hdone := h.completed n e he
    rw [List.count_append]
    omega
  · -- an early part ends before these reports, among them, or with them
    rw [hdiagram] at he
    obtain ⟨n, hn⟩ := List.getElem?_of_mem he
    rcases List.prefix_or_prefix_of_prefix hearly (List.prefix_append _ _) with
      hold | ⟨rest, rfl⟩
    · exact htallied.ordered e he early hold
    · rcases h.last rest ((List.prefix_append_right_inj _).mp hearly) with rfl | hzero
      · exact hordered n e hn
      · have hbefore := htallied.ordered e he r.trail List.prefix_rfl
        rw [List.count_append, List.count_append, hzero e.id]
        omega

end Books

/-! ## Whole runs -/

/-- **A run without a failure keeps its queue in balance with its trail**, by
induction on the commands that were worked off. -/
theorem Reaches.tallied {work next : Work} (h : Reaches work next) (hw : Work.Sound work)
    (hqueued : work.1.inst.Queued work.2) (hdistinct : work.1.diagram.Distinct)
    (htallied : work.1.inst.Tallied work.1.trail work.2) :
    next.1.inst.Tallied next.1.trail next.2 := by
  induction h with
  | refl => exact htallied
  | tail hreaches hnext ih =>
      have hsound := Reaches.sound hreaches hw
      have hqueue := Reaches.queued hreaches hw hqueued
      obtain ⟨xs, hbefore⟩ := Reaches.grows hreaches
      cases hnext with
      | step r c queue hc hclean =>
          have hdiagram : r.diagram = work.1.diagram := hbefore.diagram
          obtain ⟨opened, hgrows⟩ := dispatch_grows r c
          obtain ⟨reports, hbooks⟩ := dispatch_books hsound hqueue (hdiagram ▸ hdistinct)
            (ih.leaves c List.mem_cons_self) hc hclean
          exact hbooks.tallied hgrows ih

end Run

/-- How an instance stands with its trail between runs. -/
structure Instance.Accounted (i : Instance) (trail : Trail) : Prop where
  unstarted : i.state = .ready → i.activities = [] ∧ trail = []
  tallied : i.state ≠ .ready → i.state ≠ .failed → i.Tallied trail []

namespace Run

/-- A run enters each start event, once. -/
theorem entering_startEvents (d : Diagram) {n : Nat} {e : Element}
    (he : d.elements[n]? = some e) :
    Command.entering n (d.startEvents.map fun m => .enter m none none) =
      if e.kind = .startEvent then 1 else 0 := by
  have hlt := (List.getElem?_eq_some_iff.mp he).1
  have hcount : Command.entering n (d.startEvents.map fun m => .enter m none none) =
      d.startEvents.count n := by
    unfold Command.entering
    induction d.startEvents with
    | nil => rfl
    | cons m rest ih =>
        simp only [List.map_cons, List.sum_cons, ih, List.count_cons, Command.entersAt, beq_iff_eq]
        omega
  have hnodup : d.startEvents.Nodup := List.nodup_range.filter _
  rw [hcount]
  by_cases hkind : e.kind = .startEvent
  · have hmem : n ∈ d.startEvents :=
      List.mem_filter.mpr ⟨List.mem_range.mpr hlt, by simp [he, hkind]⟩
    rw [List.count_eq_one_of_mem hnodup hmem, if_pos hkind]
  · have hmem : n ∉ d.startEvents := by
      intro hin
      have htest := (List.mem_filter.mp hin).2
      simp [he, hkind] at htest
    rw [List.count_eq_zero_of_not_mem hmem, if_neg hkind]

/-- The first run starts in balance: it is to enter the start events. -/
theorem tallied_unstarted {i : Instance} (hnone : i.activities = []) :
    i.Tallied [] (i.diagram.startEvents.map fun n => .enter n none none) := by
  refine ⟨fun n e he => ?_, fun f _ _ => ?_, fun c hc => ?_, fun n e _ => ?_, fun n e _ => ?_,
    fun e _ early hearly => ?_⟩
  · rw [entering_startEvents i.diagram he, Diagram.inflow_nil]
    rfl
  · have htaking : Command.taking f.id
        (i.diagram.startEvents.map fun n => .enter n none none) = 0 := by
      refine Command.taking_eq_zero fun c hc => ?_
      obtain ⟨n, -, rfl⟩ := List.mem_map.mp hc
      rfl
    rw [htaking, Diagram.outflow_nil]
    rfl
  · obtain ⟨n, -, rfl⟩ := List.mem_map.mp hc
    trivial
  · rw [Instance.activitiesAt, hnone]
    exact Nat.zero_le _
  · exact Nat.zero_le _
  · obtain rfl := List.prefix_nil.mp hearly
    exact Nat.le_refl _

/-- A later run starts in balance: to look at activities again neither enters an
element nor takes a flow. -/
theorem tallied_resumed {i : Instance} {trail : Trail} (h : i.Tallied trail [])
    (positions : List Nat) (origin : Nat → Option Nat) :
    i.Tallied trail (positions.map fun n => .resume n (origin n)) := by
  have hentering : ∀ m, Command.entering m (positions.map fun n => .resume n (origin n)) = 0 := by
    intro m
    refine Command.entering_eq_zero fun c hc => ?_
    obtain ⟨n, -, rfl⟩ := List.mem_map.mp hc
    rfl
  have htaking : ∀ id, Command.taking id (positions.map fun n => .resume n (origin n)) = 0 := by
    intro id
    refine Command.taking_eq_zero fun c hc => ?_
    obtain ⟨n, -, rfl⟩ := List.mem_map.mp hc
    rfl
  refine ⟨fun n e he => ?_, fun f hf hfree => ?_, fun c hc => ?_, h.opened, h.completed, h.ordered⟩
  · rw [hentering]
    exact h.entered n e he
  · rw [htaking]
    exact h.taken f hf hfree
  · obtain ⟨n, -, rfl⟩ := List.mem_map.mp hc
    trivial

/-- Every run starts in balance. -/
theorem seeds_tallied {i : Instance} {trail : Trail} (hgo : i.state.terminal = false)
    (h : i.Accounted trail) : i.Tallied trail (seeds i) := by
  unfold seeds
  cases hstate : i.state with
  | ready =>
      obtain ⟨hnone, rfl⟩ := h.unstarted hstate
      exact tallied_unstarted hnone
  | active =>
      have htallied := h.tallied (by simp [hstate]) (by simp [hstate])
      exact tallied_resumed htallied i.continuations _
  | completed =>
      rw [hstate] at hgo
      cases hgo
  | failed =>
      rw [hstate] at hgo
      cases hgo

/-- The state of an instance is no part of the balance. -/
theorem activate_tallied {r : Run} {queue : List Command} (h : r.inst.Tallied r.trail queue) :
    r.activate.inst.Tallied r.activate.trail queue := by
  refine ⟨h.entered, h.taken, fun c hc => ?_, h.opened, h.completed, h.ordered⟩
  exact (h.leaves c hc).grows r.activate_grows

/-- **A run leaves the instance in balance with its trail**, or failed. -/
theorem start?_accounted {fuel : Nat} {r r' : Run} {error? : Option EngineError}
    (h : r.start? fuel = some (r', error?)) (hr : r.inst.Sound)
    (hdistinct : r.diagram.Distinct) (haccounted : r.inst.Accounted r.trail) :
    r'.inst.Accounted r'.trail := by
  refine ⟨fun hready => absurd hready (start?_started hr h), fun _ hfine => ?_⟩
  rcases start?_cases h with ⟨hend, rfl, -⟩ | ⟨hgo, hends⟩
  · refine haccounted.tallied ?_ hfine
    intro hready
    rw [hready] at hend
    cases hend
  · cases hends with
    | @empty last hreaches =>
        have hqueued : r.activate.inst.Queued (seeds r.inst) :=
          (seeds_queued r.inst).of_slotAt fun n _ => rfl
        have hstart := activate_tallied (seeds_tallied hgo haccounted)
        have htallied := hreaches.tallied (seeds_sound hr) hqueued hdistinct hstart
        rw [inst_finish, trail_finish]
        exact htallied
    | failed => exact absurd rfl hfine

end Run

namespace Engine

/-! ## Engines -/

/-- An engine that has not heard of an instance. -/
structure Unaware (key : Int) (e : Engine) : Prop where
  absent : ∀ i ∈ e.instances, i.key ≠ key
  silent : e.trail key = []

/-- An engine after some operations. -/
abbrev Operates : Engine → Engine → Prop :=
  Relation.ReflTransGen fun e e' => ∃ fuel op answer, e.perform? fuel op = some (e', answer)

/-- What an engine has reported on an instance, as far as it knows it. -/
structure Audits (key : Int) (e : Engine) : Prop where
  absent : (∀ i ∈ e.instances, i.key ≠ key) → e.trail key = []
  present : ∀ i ∈ e.instances, i.key = key → i.diagram.Distinct → i.Accounted (e.trail key)

section Engines

variable {e e' : Engine} {key : Int}

theorem Unaware.audits (h : Unaware key e) : Audits key e where
  absent _ := h.silent
  present i hi hkey := absurd hkey (h.absent i hi)

/-- No two instances have one key. -/
theorem Sound.position (he : e.Sound) {m n : Nat} {i j : Instance}
    (hi : e.instances[m]? = some i) (hj : e.instances[n]? = some j) (hkey : i.key = j.key) :
    m = n := by
  have hsublist : (e.instances.map Instance.key).Sublist (e.instances.flatMap Instance.keys) := by
    induction e.instances with
    | nil => exact .slnil
    | cons first rest ih =>
        rw [List.map_cons, List.flatMap_cons]
        exact (List.singleton_sublist.mpr List.mem_cons_self).append ih
  have hnodup := (List.nodup_append.mp he.nodup).2.1.sublist hsublist
  have hlt : m < (e.instances.map Instance.key).length := by
    simpa using (List.getElem?_eq_some_iff.mp hi).1
  have hkeys : (e.instances.map Instance.key)[m]? = (e.instances.map Instance.key)[n]? := by
    simp [hi, hj, hkey]
  exact (List.getElem?_inj hlt hnodup).mp hkeys

/-- What concerns neither instances nor their trails. -/
theorem Audits.same (h : Audits key e) (hinstances : e'.instances = e.instances)
    (htrail : e'.trail key = e.trail key) : Audits key e' := by
  refine ⟨fun hnone => ?_, fun i hi hkey hdistinct => ?_⟩
  · rw [htrail]
    exact h.absent (hinstances ▸ hnone)
  · rw [htrail]
    exact h.present i (hinstances ▸ hi) hkey hdistinct

/-- A key that is still to be issued is not that of an instance. -/
theorem Sound.key_ne (he : e.Sound) {i : Instance} (hi : i ∈ e.instances) :
    i.key ≠ e.keys.next := by
  have hstored : i.key ∈ e.storedKeys :=
    List.mem_append_right _ (List.mem_flatMap.mpr ⟨i, hi, List.mem_cons_self⟩)
  have hlt := (he.behind i.key hstored).1
  omega

/-- An instance that is not there after a change was not there before. -/
theorem Change.absent (h : Change e e') (hnone : ∀ j ∈ e'.instances, j.key ≠ key) :
    ∀ i ∈ e.instances, i.key ≠ key := by
  intro i hi
  obtain ⟨n, hn⟩ := List.getElem?_of_mem hi
  obtain ⟨j, hj, hevolves⟩ := h.evolves hn
  have hne := hnone j (List.mem_of_getElem? hj)
  rwa [hevolves.key] at hne

/-- A new instance has a new key, under which nothing has been reported. -/
theorem Audits.create (h : Audits key e) (he : e.Sound) {d : Definition} (vars : Variables)
    {i : Instance} (hi : i ∈ e.instances ++ [Instance.fresh e.keys.next d vars e.now])
    (hkey : i.key = key) (hdistinct : i.diagram.Distinct) : i.Accounted (e.trail key) := by
  rcases List.mem_append.mp hi with hi | hi
  · exact h.present i hi hkey hdistinct
  · obtain rfl := List.mem_singleton.mp hi
    have hnew : ∀ j ∈ e.instances, j.key ≠ key := fun j hj heq =>
      he.key_ne hj (heq.trans hkey.symm)
    exact ⟨fun _ => ⟨rfl, h.absent hnew⟩, fun hstarted => absurd rfl hstarted⟩

/-- A run keeps the trail of its own instance in balance and leaves the trails of
others alone. -/
theorem Audits.run (h : Audits key e) (he : e.Sound) {n fuel : Nat} {i j : Instance} {r : Run}
    {error? : Option EngineError} (hi : e.instances[n]? = some i)
    (hrun : (e.lend i).start? fuel = some (r, error?)) (hj : j ∈ e.instances.set n r.inst)
    (hkey : j.key = key) (hdistinct : j.diagram.Distinct) :
    j.Accounted ((e.settle n r).trail key) := by
  have hmem := List.mem_of_getElem? hi
  obtain ⟨opened, hgrows⟩ := Run.start?_grows hrun
  have hsame : r.inst.key = i.key := hgrows.key
  have hdiagram : r.inst.diagram = i.diagram := hgrows.diagram
  obtain ⟨m, hm⟩ := List.getElem?_of_mem hj
  by_cases hn : n = m
  · subst hn
    rw [List.getElem?_set_self (List.getElem?_eq_some_iff.mp hi).1] at hm
    obtain rfl := Option.some.inj hm
    rw [hdiagram] at hdistinct
    have hkey' : i.key = key := hsame.symm.trans hkey
    have hbefore : (e.lend i).inst.Accounted (e.lend i).trail := by
      have haccounted := h.present i hmem hkey' hdistinct
      rwa [← hkey'] at haccounted
    have hafter := Run.start?_accounted hrun (he.instances i hmem).1 hdistinct hbefore
    rw [← hkey]
    exact hafter
  · rw [List.getElem?_set_ne hn] at hm
    have hne : key ≠ i.key := fun heq => hn (he.position hi hm (heq.symm.trans hkey.symm))
    have htrail : (e.settle n r).trail key = e.trail key :=
      (Run.start?_sameTrails hrun).2 key hne
    rw [htrail]
    exact h.present j (List.mem_of_getElem? hm) hkey hdistinct

/-- **Every change keeps the trail of an instance in balance**: only its own runs
add to it, and before it was created there is none. -/
theorem Change.audits (h : Change e e') (he : e.Sound) (haudits : Audits key e) :
    Audits key e' := by
  have hbefore := fun hnone => haudits.absent (h.absent hnone)
  cases h with
  | load resourceName =>
      refine haudits.same rfl ?_
      exact (elementTrail_append _ _ _).trans (List.append_nil _)
  | @create d vars hd hroom =>
      have htrail : elementTrail (e.audit ++
          [(Instance.fresh e.keys.next d vars e.now).createdEvent]) key = e.trail key :=
        (elementTrail_append _ _ _).trans (List.append_nil _)
      refine ⟨fun hnone => htrail.trans (hbefore hnone), fun i hi hkey hdistinct => ?_⟩
      show i.Accounted (elementTrail (e.audit ++ [_]) key)
      rw [htrail]
      exact haudits.create he vars hi hkey hdistinct
  | publish n name vars =>
      refine ⟨hbefore, fun j hj hkey hdistinct => ?_⟩
      obtain ⟨i, hi, rfl | rfl⟩ := exists_of_mem_modify hj
      · exact haudits.present _ hi hkey hdistinct
      · have haccounted := haudits.present i hi hkey hdistinct
        refine ⟨haccounted.unstarted, fun hstarted hfine => ?_⟩
        have htallied := haccounted.tallied hstarted hfine
        exact ⟨htallied.entered, htallied.taken, nofun, htallied.opened, htallied.completed,
          htallied.ordered⟩
  | @run n fuel i r error? hi hrun =>
      refine ⟨fun hnone => ?_, fun j hj => haudits.run he hi hrun hj⟩
      have hlt := (List.getElem?_eq_some_iff.mp hi).1
      have hne := hnone r.inst (List.mem_of_getElem? (List.getElem?_set_self hlt))
      obtain ⟨hsame, hothers⟩ := Run.start?_sameTrails hrun
      have htrail : (e.settle n r).trail key = e.trail key :=
        hothers key fun heq => hne (hsame.trans heq.symm)
      exact htrail.trans (hbefore hnone)
  | clock now => exact haudits.same rfl rfl
  | register accepts handler => exact haudits.same rfl rfl

theorem Changes.audits (h : Changes e e') (he : e.Sound) (haudits : Audits key e) :
    Audits key e' := by
  induction h with
  | refl => exact haudits
  | tail hbefore hchange ih => exact hchange.audits (Changes.sound hbefore he) ih

theorem Operates.changes (h : Operates e e') : Changes e e' := by
  induction h with
  | refl => exact .refl
  | tail _ hstep ih =>
      obtain ⟨fuel, op, answer, hop⟩ := hstep
      exact ih.trans (perform?_changes hop)

theorem Operates.performAll {fuel : Nat} {ops : List Operation} {out : Engine × List Answer}
    (hops : e.performAll? fuel ops = some out) : Operates e out.1 :=
  performAll?_induction (fun {_ op _} hop h => h.tail ⟨fuel, op, _, hop⟩) hops .refl

end Engines

/-- **No flow is lost or made up between the reports.**  Take an instance that a
reachable engine did not know at some time, with all that the engine has done since
then, so that all reports on the instance are in the trail of this engine.  If the
instance was run (a run leaves none `ready`) and has not failed, and if no id is
there twice in its diagram, then its trail balances: every element was reached as
often as flow came to it, every flow that is not chosen was taken as often as the
elements that list it were completed, and at no time was an element completed more
often than it was reached. -/
theorem trail_balances {starts : KeySequence → Prop} {e₀ e : Engine} (h : Reachable starts e₀)
    (hops : e₀.Operates e) {i : Instance} (hi : i ∈ e.instances) (hnew : e₀.Unaware i.key)
    (hran : i.state ≠ .ready) (hfine : i.state ≠ .failed) (hdistinct : i.diagram.Distinct) :
    i.diagram.Balanced (e.trail i.key) := by
  have haudits := hops.changes.audits h.sound hnew.audits
  have haccounted := haudits.present i hi rfl hdistinct
  exact (haccounted.tallied hran hfine).balanced

/-- The source of a process whose flow goes by a link. -/
private def relaySource : List String :=
  ["<process id='p'>", "<startEvent id='s'/>",
   "<intermediateThrowEvent id='t'>", "<linkEventDefinition name='l'/>",
   "</intermediateThrowEvent>",
   "<intermediateCatchEvent id='c'>", "<linkEventDefinition name='l'/>",
   "</intermediateCatchEvent>", "<endEvent id='z'/>",
   "<sequenceFlow id='1' ", "sourceRef='s' targetRef='t'/>",
   "<sequenceFlow id='2' ", "sourceRef='c' targetRef='z'/>", "</process>"]

private def relayDiagram : Diagram :=
  { id := "p", name := ""
    elements :=
      [{ Element.bare "s" "" .startEvent with outgoing := ["1"] },
       { Element.bare "t" "" .throwEvent with incoming := ["1"], event := some (.link "l") },
       { Element.bare "c" "" .catchEvent with outgoing := ["2"], event := some (.link "l") },
       { Element.bare "z" "" .endEvent with incoming := ["2"] }]
    flows := [⟨"1", "", "s", "t", []⟩, ⟨"2", "", "c", "z", []⟩]
    messages := [] }

private theorem ofMarkup_relaySource :
    Diagram.ofMarkup (String.join relaySource) = .ok relayDiagram :=
  ofMarkup_join (by decide +kernel)

/-- The catch of a link is reached once, by its throw. -/
theorem trail_of_relay_balances :
    ∃ e, (loaded (String.join relaySource) "" relayDiagram).Operates e ∧
      ∃ i ∈ e.instances, i.diagram = relayDiagram ∧ i.state = .completed ∧
        e.trail i.key =
          [("s", .activated), ("s", .completed), ("1", .sequenceFlowTaken), ("t", .activated),
           ("t", .completed), ("c", .activated), ("c", .completed), ("2", .sequenceFlowTaken),
           ("z", .activated), ("z", .completed)] ∧ i.diagram.Balanced (e.trail i.key) := by
  have hreachable : Reachable (· = .default) (loaded (String.join relaySource) "" relayDiagram) :=
    reachable_loaded ofMarkup_relaySource (by rfl) ""
  have htest : ((loaded (String.join relaySource) "" relayDiagram).performAll? 100
      [.createAndRun 1 []]).any (fun out => out.1.instances[0]?.any fun i =>
        i.diagram == relayDiagram && i.state == .completed && out.1.trail i.key ==
          [("s", .activated), ("s", .completed), ("1", .sequenceFlowTaken), ("t", .activated),
           ("t", .completed), ("c", .activated), ("c", .completed), ("2", .sequenceFlowTaken),
           ("z", .activated), ("z", .completed)]) = true := by decide +kernel
  obtain ⟨out, hops, htest⟩ := (Option.any_eq_true _ _).mp htest
  obtain ⟨i, hi, htest⟩ := (Option.any_eq_true _ _).mp htest
  simp only [Bool.and_eq_true, beq_iff_eq] at htest
  obtain ⟨⟨hdiagram, hstate⟩, htrail⟩ := htest
  have hmem := List.mem_of_getElem? hi
  have hoperates := Operates.performAll hops
  have hdistinct : i.diagram.Distinct := by
    rw [hdiagram]
    exact ⟨by decide, by decide⟩
  have hunaware : (loaded (String.join relaySource) "" relayDiagram).Unaware i.key := ⟨nofun, rfl⟩
  exact ⟨out.1, hoperates, i, hmem, hdiagram, hstate, htrail,
    trail_balances hreachable hoperates hmem hunaware (by simp [hstate]) (by simp [hstate])
      hdistinct⟩

end Engine

end ProcessEngine
