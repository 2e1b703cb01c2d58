import ProcessEngine.Proofs.InstanceHistory
import ProcessEngine.Proofs.MoreCommands
import ProcessEngine.Proofs.RunSupply

/-!
# Runs that come to an end

A run dispatches commands until none is left, and a command may add several
others.  Where all cycles of the diagram wait, this ends.  Each command has a
cost that bounds what can follow from it without anything being used up: flow
costs what its targets weigh, and an element weighs more than all that its visit
adds to the queue.  Only the visit of a catch event that waits can add more, and
then it has used up an event or a timer, which nothing gives back in the run.  So
the supply falls with each command, or it stays and the cost of the queue falls.

Main statement: `run_terminates`.
-/

namespace ProcessEngine

namespace Command

/-- A bound to the commands that follow from a command by the weights of the
elements. -/
def cost (w : Nat → Nat) (i : Instance) : Command → Nat
  | .takeFlows _ flowIds => 1 + ((i.diagram.targets flowIds).map w).sum
  | .enter element _ _ => w element
  | .resume n _ => (i.activities[n]?.map fun a => w a.element).getD 0
  | .settleRace _ => 1
  | .fail _ => 0

/-- The cost of a queue. -/
def costs (w : Nat → Nat) (i : Instance) (queue : List Command) : Nat :=
  (queue.map (cost w i)).sum

variable {w : Nat → Nat}

theorem costs_append (w : Nat → Nat) (i : Instance) (queue commands : List Command) :
    costs w i (queue ++ commands) = costs w i queue + costs w i commands := by
  simp [costs]

/-- A command that fits keeps its cost while activities are opened. -/
theorem Fits.cost_grows {opened : List Activity} {r r' : Run} {c : Command}
    (h : c.Fits r.inst) (hgrows : Run.Grows opened r r') :
    c.cost w r'.inst = c.cost w r.inst := by
  cases c with
  | takeFlows source flowIds => simp only [cost, hgrows.diagram]
  | resume n origin =>
      obtain ⟨a, ha, -, -⟩ := h
      obtain ⟨b, hb, hframe⟩ := hgrows.activity? ha
      have hb : r'.inst.activities[n]? = some b := hb
      simp [cost, ha, hb, Activity.element_eq_of_frame hframe]
  | _ => rfl

theorem costs_grows {opened : List Activity} {r r' : Run} {queue : List Command}
    (h : ∀ c ∈ queue, c.Fits r.inst) (hgrows : Run.Grows opened r r') :
    costs w r'.inst queue = costs w r.inst queue :=
  congrArg List.sum (List.map_congr_left fun c hc => (h c hc).cost_grows hgrows)

/-- Every command that fits costs something. -/
theorem Fits.cost_pos {i : Instance} {c : Command} (h : c.Fits i) (hw : i.diagram.Weighs w)
    (hc : c.isFailure = false) : 0 < c.cost w i := by
  cases c with
  | takeFlows source flowIds =>
      simp only [cost]
      omega
  | enter element origin via =>
      have hleast := hw.least element
      simp only [cost]
      omega
  | resume n origin =>
      obtain ⟨a, ha, -, -⟩ := h
      have hleast := hw.least a.element
      simp only [cost, ha, Option.map_some, Option.getD_some]
      omega
  | settleRace gateway => exact Nat.zero_lt_one
  | fail error => cases hc

/-- To enter the targets of flows costs what they weigh. -/
theorem costs_targetCommands (w : Nat → Nat) (i : Instance) (source : Nat)
    (flows : List SequenceFlow) :
    costs w i (flows.map (Run.targetCommand i.diagram source)) =
      ((flows.filterMap fun f => i.diagram.findElement? f.target).map w).sum := by
  induction flows with
  | nil => rfl
  | cons f rest ih =>
      have hhead : costs w i ((f :: rest).map (Run.targetCommand i.diagram source)) =
          cost w i (Run.targetCommand i.diagram source f) +
            costs w i (rest.map (Run.targetCommand i.diagram source)) := by
        simp [costs]
      rw [hhead, ih]
      unfold Run.targetCommand
      cases htarget : i.diagram.findElement? f.target <;> simp [htarget, cost]

/-- To settle a race costs one command. -/
theorem costs_settles (w : Nat → Nat) (i : Instance) {commands : List Command}
    (h : Run.Settles commands) : costs w i commands ≤ 1 := by
  rcases h with rfl | ⟨gateway, rfl⟩
  · exact Nat.zero_le 1
  · exact Nat.le_refl 1

end Command

namespace Run

section Costs

variable {element : Nat} {e : Element} {origin : Option Nat} {w : Nat → Nat} {r : Run}

/-- **A visit uses something up, or it adds less than its element weighs.** -/
theorem Outcome.supply_or_costs {out : Run × List Command} (h : Outcome element e origin r out)
    (hdiagram : out.1.inst.diagram = r.inst.diagram) (hw : r.inst.diagram.Weighs w)
    (hahead : r.diagram.TimersAhead) (he : r.diagram.elements[element]? = some e)
    (hclean : ∀ c ∈ out.2, c.isFailure = false) :
    out.1.supply < r.supply ∨ Command.costs w out.1.inst out.2 < w element := by
  have hleast := hw.least element
  cases h with
  | fails error => cases hclean _ List.mem_cons_self
  | @rests r' commands haudit hsettles =>
      have hcost := Command.costs_settles w r'.inst hsettles
      right
      show Command.costs w r'.inst commands < _
      omega
  | @passes r' n settles flows hend hthrow haudit hsettles hflows hcompletes =>
      by_cases hwaits : e.waits = true
      · exact .inl (hcompletes.supply_lt hwaits hahead he)
      · right
        have hcost := Command.costs_settles w r'.inst hsettles
        have hrush := hw.rush element (by
          show (r.diagram.elements[element]?.any Element.waits) = false
          simpa [he] using hwaits)
        have hnexts : r.inst.diagram.successors element = r.inst.diagram.targets e.outgoing :=
          Diagram.successors_eq_targets he hend hthrow
        rw [hnexts] at hrush
        have hflow : Command.costs w r'.inst flows ≤
            1 + ((r.inst.diagram.targets e.outgoing).map w).sum := by
          rw [hflows]
          split
          · exact Nat.zero_le _
          · have htargets : r'.inst.diagram.targets e.outgoing =
                r.inst.diagram.targets e.outgoing := congrArg (·.targets e.outgoing) hdiagram
            simp [Command.costs, Command.cost, htargets]
        show Command.costs w r'.inst (settles ++ flows) < _
        rw [Command.costs_append]
        omega
  | ends =>
      right
      show 0 < w element
      omega
  | @jumps r' n target link hkind hlink htarget haudit hcompletes =>
      right
      have hrush := hw.rush element (by
        show (r.diagram.elements[element]?.any Element.waits) = false
        simp [he, Element.waits, hkind])
      have hnexts : r.inst.diagram.successors element = [target] := by
        have hsuccessors : r.inst.diagram.successors element =
            (e.linkName?.bind (linkTarget? r.inst.diagram)).toList :=
          Diagram.successors_eq_link he hkind
        have htarget : linkTarget? r.inst.diagram link = some target := htarget
        rw [hsuccessors, hlink, Option.bind_some, htarget, Option.toList_some]
      simp only [hnexts, List.map_cons, List.map_nil, List.sum_cons, List.sum_nil] at hrush
      show Command.costs w r'.inst [.enter target (some n) none] < _
      simp only [Command.costs, Command.cost, List.map_cons, List.map_nil, List.sum_cons,
        List.sum_nil]
      omega

/-- A command uses something up, or what follows from it costs less than it
does. -/
theorem dispatch_supply_or_costs {c : Command} (hr : r.inst.Sound) (hfits : c.Fits r.inst)
    (hw : r.inst.diagram.Weighs w) (hahead : r.diagram.TimersAhead) (hc : c.isFailure = false)
    (hclean : ∀ c' ∈ (r.dispatch c).2, c'.isFailure = false) :
    (r.dispatch c).1.supply < r.supply ∨
      Command.costs w (r.dispatch c).1.inst (r.dispatch c).2 < c.cost w r.inst := by
  obtain ⟨opened, hgrows⟩ := dispatch_grows r c
  have hdiagram := hgrows.diagram
  cases c with
  | takeFlows source flowIds =>
      right
      have hspec := dispatch_spec r (.takeFlows source flowIds)
      generalize r.dispatch (.takeFlows source flowIds) = out at hspec hclean
      cases hspec with
      | idle => exact hfits.cost_pos hw hc
      | stuck error => cases hclean _ List.mem_cons_self
      | @flows _ _ flows audit hflows =>
          have hcosts := Command.costs_targetCommands w r.inst source flows
          have hle := ((hflows.filterMap fun f => r.inst.diagram.findElement? f.target).map
            w).sum_le_sum fun _ _ => Nat.zero_le _
          show Command.costs w r.inst (flows.map (targetCommand r.inst.diagram source)) <
            1 + ((r.inst.diagram.targets flowIds).map w).sum
          rw [hcosts]
          exact Nat.lt_one_add_iff.mpr hle
  | enter element origin via =>
      obtain ⟨⟨e, he, -⟩, -⟩ := hfits
      rw [dispatch_enter he] at hdiagram hclean ⊢
      exact (visit_outcome (r.reportElement e .activated) element e origin via).supply_or_costs
        hdiagram hw hahead he hclean
  | resume n origin =>
      obtain ⟨a, ha, -, -⟩ := hfits
      obtain ⟨e, he, -⟩ := hr.fits ha
      rw [dispatch_resume ha he] at hdiagram hclean ⊢
      have hcost : Command.cost w r.inst (.resume n origin) = w a.element := by
        simp [Command.cost, ha]
      rw [hcost]
      exact (visit_outcome r a.element e origin none).supply_or_costs hdiagram hw hahead he hclean
  | settleRace gateway => exact .inr Nat.zero_lt_one
  | fail error => cases hc

/-- **With each step the supply falls, or it stays and the cost of the queue
falls.** -/
theorem Next.falls {work next : Work} (h : Next work next) (hwork : Work.Sound work)
    (hw : work.1.inst.diagram.Weighs w) (hahead : work.1.diagram.TimersAhead) :
    next.1.supply < work.1.supply ∨ next.1.supply = work.1.supply ∧
      Command.costs w next.1.inst next.2 < Command.costs w work.1.inst work.2 := by
  cases h with
  | step r c queue hc hclean =>
      obtain ⟨opened, hgrows⟩ := dispatch_grows r c
      have hle := (kept_dwindles.dispatch r c).supply_le hahead (dispatch_consumes r c)
      rcases Nat.lt_or_eq_of_le hle with hless | hsame
      · exact .inl hless
      · right
        have hstep := dispatch_supply_or_costs hwork.1 (hwork.2 c List.mem_cons_self) hw hahead
          hc hclean
        have hcost := hstep.resolve_left (Nat.not_lt.mpr (Nat.le_of_eq hsame.symm))
        have hkeep : Command.costs w (r.dispatch c).1.inst queue = Command.costs w r.inst queue :=
          Command.costs_grows (fun c' hc' => hwork.2 c' (List.mem_cons_of_mem _ hc')) hgrows
        have hfirst : Command.costs w r.inst (c :: queue) =
            c.cost w r.inst + Command.costs w r.inst queue := by simp [Command.costs]
        refine ⟨hsame, ?_⟩
        dsimp only at hcost ⊢
        rw [Command.costs_append, hkeep, hfirst]
        omega

/-- **Some number of commands suffices**, by induction on the supply and, where it
stays, on the cost of the queue. -/
theorem exists_drain? {w : Nat → Nat} {d : Diagram} (hw : d.Weighs w)
    (hahead : d.TimersAhead) (r : Run) (queue : List Command) (hdiagram : r.inst.diagram = d)
    (hsound : Work.Sound (r, queue)) (hqueue : ∀ c ∈ queue, c.isFailure = false) :
    ∃ fuel out, drain? fuel r queue = some out := by
  induction hsupply : r.supply using Nat.strong_induction_on generalizing r queue with
  | _ supply ihSupply =>
    induction hcosts : Command.costs w r.inst queue using Nat.strong_induction_on
      generalizing r queue with
    | _ costs ihCosts =>
      cases queue with
      | nil => exact ⟨0, _, rfl⟩
      | cons c queue =>
          have hc := hqueue c List.mem_cons_self
          by_cases hfail : ∃ c' ∈ (r.dispatch c).2, c'.isFailure = true
          · -- a failure is next, and it ends the run
            obtain ⟨error, rest, hfront, -⟩ := enqueue_of_failure queue hfail
            refine ⟨2, ((r.dispatch c).1.abort, some error), ?_⟩
            rw [drain?_cons hc, hfront]
            rfl
          · have hclean : ∀ c' ∈ (r.dispatch c).2, c'.isFailure = false := by
              intro c' hc'
              simpa using fun hf => hfail ⟨c', hc', hf⟩
            have hrest : ∀ c' ∈ queue ++ (r.dispatch c).2, c'.isFailure = false := by
              intro c' hc'
              rcases List.mem_append.mp hc' with hold | hnew
              · exact hqueue c' (List.mem_cons_of_mem _ hold)
              · exact hclean c' hnew
            obtain ⟨opened, hgrows⟩ := dispatch_grows r c
            have hdiagram' : (r.dispatch c).1.inst.diagram = d := hgrows.diagram.trans hdiagram
            have hnext : Next (r, c :: queue) ((r.dispatch c).1, queue ++ (r.dispatch c).2) :=
              .step r c queue hc hclean
            have hsound' := hnext.sound hsound
            have hdrains : ∃ fuel out,
                drain? fuel (r.dispatch c).1 (queue ++ (r.dispatch c).2) = some out := by
              subst hdiagram
              rcases hnext.falls hsound hw hahead with hless | ⟨hsame, hless⟩
              · exact ihSupply _ (hsupply ▸ hless) _ _ hdiagram' hsound' hrest rfl
              · exact ihCosts _ (hcosts ▸ hless) _ _ hdiagram' hsound' hrest
                  (hsame.trans hsupply) rfl
            obtain ⟨fuel, out, hdrain⟩ := hdrains
            refine ⟨fuel + 1, out, ?_⟩
            rw [drain?_cons hc, enqueue_of_no_failure hclean, hdrain]

end Costs

end Run

namespace Engine

/-- **Runs terminate where all cycles wait.**  Let every cycle of the diagram pass
a catch event with a message or a timer, and let no duration be negative.  Then
every run of a reachable instance, whatever its handlers and the time, comes to an
end: finitely many commands are dispatched one after another, and then no command
is left or a failure is next. -/
theorem run_terminates {starts : KeySequence → Prop} {e : Engine} (h : Reachable starts e)
    {i : Instance} (hi : i ∈ e.instances) (hcycles : i.diagram.CyclesWait)
    (hahead : i.diagram.TimersAhead) {r : Run} (hr : r.inst = i) :
    ∃ fuel r' error?, r.start? fuel = some (r', error?) ∧
      (i.state.terminal = false → ∃ last rest,
        Run.Traced (r.activate, Run.seeds i) (r.startTrace fuel) (last, rest) ∧
          (rest = [] ∧ error? = none ∨
            ∃ error left, rest = .fail error :: left ∧ error? = some error)) := by
  subst hr
  cases hgo : r.inst.state.terminal with
  | true => exact ⟨0, r, none, if_pos hgo, fun h => by cases h⟩
  | false =>
      have hsound := (h.sound.instances _ hi).1
      obtain ⟨w, hw⟩ := hcycles.exists_weighs
      obtain ⟨fuel, ⟨r', error?⟩, hdrain⟩ := Run.exists_drain? hw hahead r.activate
        (Run.seeds r.inst) rfl (Run.seeds_sound hsound) (Run.seeds_no_failure r.inst)
      have hstart : r.start? fuel = some (r', error?) := by
        rw [Run.start?, if_neg (by simp [hgo])]
        exact hdrain
      refine ⟨fuel, r', error?, hstart, fun _ => ?_⟩
      obtain ⟨last, rest, htraced, hend⟩ := Run.start?_traced hgo hstart
      refine ⟨last, rest, htraced, ?_⟩
      rcases hend with ⟨hrest, -, herror⟩ | ⟨error, left, hrest, -, herror⟩
      · exact .inl ⟨hrest, herror⟩
      · exact .inr ⟨error, left, hrest, herror⟩

/-- The source of a process that waits for one message after another. -/
private def inboxSource : List String :=
  ["<process id='p'>", "<startEvent id='s'/>",
   "<intermediateCatchEvent id='c' name='m'>", "<messageEventDefinition/>",
   "</intermediateCatchEvent>", "<sequenceFlow id='1' ", "sourceRef='s' targetRef='c'/>",
   "<sequenceFlow id='2' ", "sourceRef='c' targetRef='c'/>", "</process>"]

private def inboxDiagram : Diagram :=
  { id := "p", name := ""
    elements :=
      [{ Element.bare "s" "" .startEvent with outgoing := ["1"] },
       { Element.bare "c" "m" .catchEvent with
          incoming := ["1", "2"], outgoing := ["2"], event := some (.message none) }]
    flows := [⟨"1", "", "s", "c", []⟩, ⟨"2", "", "c", "c", []⟩]
    messages := [] }

private theorem ofMarkup_inboxSource :
    Diagram.ofMarkup (String.join inboxSource) = .ok inboxDiagram :=
  ofMarkup_join (by decide +kernel)

/-- The start event outweighs the catch event, which waits. -/
private theorem inboxDiagram_cyclesWait : inboxDiagram.CyclesWait := by
  refine Diagram.Weighs.cyclesWait (w := fun n => if n = 0 then 6 else 3) ⟨fun n => ?_, ?_⟩
  · split <;> omega
  · intro n hwaits
    match n with
    | 0 => decide
    | 1 => cases hwaits
    | n + 2 => exact Nat.le_refl 3

/-- The catch event leads back to itself; with two messages there its run
ends. -/
theorem run_of_inbox_terminates :
    ∃ e, Reachable (· = .default) e ∧ ∃ i ∈ e.instances, 1 ∈ i.diagram.successors 1 ∧
      i.state = .active ∧ i.unconsumed = 2 ∧
      ∃ fuel r error?, (e.lend i).start? fuel = some (r, error?) := by
  obtain ⟨e, hreachable, htest⟩ := exists_reachable ofMarkup_inboxSource 100
    [.create 1 [], .run 2, .publish 2 "m" [], .publish 2 "m" []]
    (fun e => e.instances[0]?.any fun i =>
      i.diagram == inboxDiagram && i.state == .active && i.unconsumed == 2) (by decide +kernel)
  obtain ⟨i, hi, htest⟩ := (Option.any_eq_true _ _).mp htest
  simp only [Bool.and_eq_true, beq_iff_eq] at htest
  obtain ⟨⟨hdiagram, hactive⟩, hleft⟩ := htest
  have hmem := List.mem_of_getElem? hi
  have hcycles : i.diagram.CyclesWait := hdiagram ▸ inboxDiagram_cyclesWait
  have hahead : i.diagram.TimersAhead := by
    rw [hdiagram]
    intro e he duration hevent
    simp only [inboxDiagram, List.mem_cons, List.not_mem_nil, or_false] at he
    rcases he with rfl | rfl <;> cases hevent
  obtain ⟨fuel, r, error?, hrun, -⟩ := run_terminates hreachable hmem hcycles hahead
    (r := e.lend i) rfl
  refine ⟨e, hreachable, i, hmem, ?_, hactive, hleft, fuel, r, error?, hrun⟩
  rw [hdiagram]
  decide

end Engine

end ProcessEngine
