import Mathlib.Data.List.TakeWhile
import ProcessEngine.Proofs.FlowTargets

/-!
# The choice of an exclusive gateway

The flows behind an exclusive gateway are looked at twice, in their order.  The
first look asks for a condition that holds.  It passes over the flows without a
condition and ends at the first condition that holds or has no truth value, so
whatever stands behind it plays no part.  Only if all conditions are false does
the second look take the first flow without one.

`ExclusiveChoice` says what can come of both, and for each list of flows one of
its cases applies and no other (`exclusiveChoice_iff`).

Main statement: `Run.takes_exclusive_choice`, for the whole transition.
-/

namespace ProcessEngine

/-! ## Conditions -/

/-- A flow has a condition if it has one text for it that is not blank. -/
def SequenceFlow.Conditional (f : SequenceFlow) (condition : String) : Prop :=
  ∃ text, f.conditions = [text] ∧ (∃ c ∈ text.toList, Text.isBlank c = false) ∧
    condition = Text.trim text

theorem Text.stripEnds_eq_nil {drop : Char → Bool} {cs : List Char} :
    Text.stripEnds drop cs = [] ↔ ∀ c ∈ cs, drop c = true := by
  rw [Text.stripEnds, List.reverse_eq_nil_iff, List.dropWhile_eq_nil_iff]
  constructor
  · intro h
    rw [← List.dropWhile_eq_nil_iff]
    by_contra hne
    -- The first character that is kept would be dropped from the other end.
    have hkept := List.head_dropWhile_not drop hne
    rw [h _ (List.mem_reverse.mpr (List.head_mem hne))] at hkept
    cases hkept
  · intro h c hc
    exact h c ((List.dropWhile_sublist drop).subset (List.mem_reverse.mp hc))

theorem Text.isEmpty_trim (s : String) :
    (Text.trim s).isEmpty = true ↔ ∀ c ∈ s.toList, Text.isBlank c = true := by
  rw [← Text.stripEnds_eq_nil, String.isEmpty_iff, Text.trim, String.ofList_eq_empty_iff]

theorem SequenceFlow.condition?_eq_some {f : SequenceFlow} {condition : String} :
    f.condition? = some condition ↔ f.Conditional condition := by
  have hblank (text : String) :
      (Text.trim text).isEmpty = false ↔ ∃ c ∈ text.toList, Text.isBlank c = false := by
    rw [← Bool.not_eq_true, Text.isEmpty_trim]
    simp
  unfold condition? Conditional
  split
  · rename_i text htexts
    simp only [htexts, List.cons.injEq, and_true, exists_eq_left', ← hblank]
    cases (Text.trim text).isEmpty <;> simp [eq_comm]
  · rename_i hother
    exact iff_of_false (by simp) fun ⟨text, htext, _⟩ => hother text htext

theorem SequenceFlow.condition?_eq_none {f : SequenceFlow} :
    f.condition? = none ↔ ¬ ∃ condition, f.Conditional condition := by
  simp only [← SequenceFlow.condition?_eq_some, Option.eq_none_iff_forall_ne_some, not_exists,
    ne_eq]

/-! ## The choice -/

variable {vars : Variables} {flows before after : List SequenceFlow} {f : SequenceFlow}
  {condition : String} {choice : Except EngineError (Option SequenceFlow)}

/-- All conditions of some flows are false. -/
def NoneHolds (vars : Variables) (flows : List SequenceFlow) : Prop :=
  ∀ f ∈ flows, ∀ condition, f.Conditional condition →
    evaluateCondition condition vars = .ok false

/-- What an exclusive gateway chooses among some flows. -/
inductive ExclusiveChoice (vars : Variables) (flows : List SequenceFlow) :
    Except EngineError (Option SequenceFlow) → Prop
  /-- The first condition that is not false holds, whatever comes behind it. -/
  | holds {before after : List SequenceFlow} {f : SequenceFlow} {condition : String}
      (hflows : flows = before ++ f :: after) (hbefore : NoneHolds vars before)
      (hcondition : f.Conditional condition)
      (htrue : evaluateCondition condition vars = .ok true) :
      ExclusiveChoice vars flows (.ok (some f))
  /-- The first condition that is not false has no truth value. -/
  | fails {before after : List SequenceFlow} {f : SequenceFlow} {condition : String}
      {cause : ExprError} (hflows : flows = before ++ f :: after) (hbefore : NoneHolds vars before)
      (hcondition : f.Conditional condition)
      (herror : evaluateCondition condition vars = .error cause) :
      ExclusiveChoice vars flows (.error (.expression f.id f.name cause))
  /-- All conditions are false, and this is the first flow without one. -/
  | default {before after : List SequenceFlow} {f : SequenceFlow}
      (hflows : flows = before ++ f :: after) (hnone : NoneHolds vars flows)
      (hbefore : ∀ g ∈ before, ∃ condition, g.Conditional condition)
      (hplain : ¬ ∃ condition, f.Conditional condition) :
      ExclusiveChoice vars flows (.ok (some f))
  /-- All flows have conditions, and all are false. -/
  | stalls (hnone : NoneHolds vars flows)
      (hall : ∀ f ∈ flows, ∃ condition, f.Conditional condition) :
      ExclusiveChoice vars flows (.ok none)

theorem NoneHolds.tail (h : NoneHolds vars (f :: flows)) : NoneHolds vars flows :=
  fun g hg => h g (List.mem_cons_of_mem _ hg)

/-- Flows whose conditions are false are passed over. -/
theorem firstHolding_append (h : NoneHolds vars before) (rest : List SequenceFlow) :
    firstHolding vars (before ++ rest) = firstHolding vars rest := by
  induction before with
  | nil => rfl
  | cons f before ih =>
      rw [List.cons_append, firstHolding]
      cases hcondition : f.condition? with
      | none => exact ih h.tail
      | some condition =>
          have hfalse := h f List.mem_cons_self condition
            (SequenceFlow.condition?_eq_some.mp hcondition)
          simp only [hfalse]
          exact ih h.tail

theorem firstHolding_of_noneHolds (h : NoneHolds vars flows) :
    firstHolding vars flows = .ok none := by
  have := firstHolding_append h []
  rwa [List.append_nil] at this

/-- Either all conditions are false, or there is a first one that is not. -/
theorem noneHolds_or_split (vars : Variables) (flows : List SequenceFlow) :
    NoneHolds vars flows ∨ ∃ before f after condition, flows = before ++ f :: after ∧
      NoneHolds vars before ∧ f.Conditional condition ∧
      evaluateCondition condition vars ≠ .ok false := by
  induction flows with
  | nil => exact .inl fun f hf => by cases hf
  | cons f flows ih =>
      by_cases hfirst : ∃ condition, f.Conditional condition ∧
          evaluateCondition condition vars ≠ .ok false
      · obtain ⟨condition, hcondition, hfalse⟩ := hfirst
        exact .inr ⟨[], f, flows, condition, rfl, (fun g hg => by cases hg), hcondition, hfalse⟩
      · have hf (condition : String) (h : f.Conditional condition) :
            evaluateCondition condition vars = .ok false := by
          by_contra hne
          exact hfirst ⟨condition, h, hne⟩
        have hcons {rest : List SequenceFlow} (h : NoneHolds vars rest) :
            NoneHolds vars (f :: rest) := by
          intro g hg
          rcases List.mem_cons.mp hg with rfl | hg
          · exact hf
          · exact h g hg
        rcases ih with hnone | ⟨before, g, after, condition, rfl, hbefore, hg⟩
        · exact .inl (hcons hnone)
        · exact .inr ⟨f :: before, g, after, condition, rfl, hcons hbefore, hg⟩

theorem ExclusiveChoice.eq (h : ExclusiveChoice vars flows choice) :
    selectExclusive vars flows = choice := by
  rw [selectExclusive]
  cases h with
  | holds hflows hbefore hcondition htrue =>
      rw [hflows, firstHolding_append hbefore, firstHolding,
        SequenceFlow.condition?_eq_some.mpr hcondition]
      simp only [htrue]
  | fails hflows hbefore hcondition herror =>
      rw [hflows, firstHolding_append hbefore, firstHolding,
        SequenceFlow.condition?_eq_some.mpr hcondition]
      simp only [herror]
  | default hflows hnone hbefore hplain =>
      rw [firstHolding_of_noneHolds hnone]
      refine congrArg Except.ok (List.find?_eq_some_iff_append.mpr
        ⟨by simp [SequenceFlow.condition?_eq_none.mpr hplain], _, _, hflows, fun g hg => ?_⟩)
      obtain ⟨condition, hcondition⟩ := hbefore g hg
      simp [SequenceFlow.condition?_eq_some.mpr hcondition]
  | stalls hnone hall =>
      rw [firstHolding_of_noneHolds hnone]
      refine congrArg Except.ok (List.find?_eq_none.mpr fun g hg => ?_)
      obtain ⟨condition, hcondition⟩ := hall g hg
      simp [SequenceFlow.condition?_eq_some.mpr hcondition]

theorem ExclusiveChoice.exists (vars : Variables) (flows : List SequenceFlow) :
    ∃ choice, ExclusiveChoice vars flows choice := by
  rcases noneHolds_or_split vars flows with hnone | ⟨before, f, after, condition, hflows, hbefore,
    hcondition, hfalse⟩
  · cases hplain : flows.find? fun f => f.condition?.isNone with
    | none =>
        refine ⟨_, .stalls hnone fun f hf => ?_⟩
        have hsome := List.find?_eq_none.mp hplain f hf
        rw [Option.isNone_iff_eq_none, SequenceFlow.condition?_eq_none, not_not] at hsome
        exact hsome
    | some f =>
        obtain ⟨hf, before, after, hflows, hbefore⟩ := List.find?_eq_some_iff_append.mp hplain
        refine ⟨_, .default hflows hnone (fun g hg => ?_) ?_⟩
        · have hsome := hbefore g hg
          rw [Bool.not_eq_true', ← Bool.not_eq_true, Option.isNone_iff_eq_none,
            SequenceFlow.condition?_eq_none, not_not] at hsome
          exact hsome
        · rwa [Option.isNone_iff_eq_none, SequenceFlow.condition?_eq_none] at hf
  · cases hvalue : evaluateCondition condition vars with
    | error cause => exact ⟨_, .fails hflows hbefore hcondition hvalue⟩
    | ok b =>
        cases b with
        | true => exact ⟨_, .holds hflows hbefore hcondition hvalue⟩
        | false => exact absurd hvalue hfalse

/-- **The choice is the only one** for which one of the cases holds. -/
theorem exclusiveChoice_iff :
    ExclusiveChoice vars flows choice ↔ selectExclusive vars flows = choice := by
  refine ⟨ExclusiveChoice.eq, ?_⟩
  rintro rfl
  obtain ⟨choice, hchoice⟩ := ExclusiveChoice.exists vars flows
  rwa [hchoice.eq]

/-! ## The transition -/

namespace Run

variable {r : Run} {source : Nat} {flowIds : List String} {a : Activity} {e : Element}

/-- What the transition from a gateway does with a run, once a choice is made: the one flow that
was chosen is reported and leads to its target; or nothing happens, and the run goes on with what
is left; or the run fails, whatever is left. -/
def Follows (r : Run) (source : Nat) (flowIds : List String) :
    Except EngineError (Option SequenceFlow) → Prop
  | .ok (some f) => ∃ target, r.diagram.findElement? f.target = some target ∧
      r.dispatch (.takeFlows source flowIds)
        = (r.report (r.inst.flowEvent f), [.enter target (some source) (some f.id)])
  | .ok none => r.dispatch (.takeFlows source flowIds) = (r, []) ∧
      ∀ fuel queue, drain? (fuel + 1) r (.takeFlows source flowIds :: queue) = drain? fuel r queue
  | .error error => r.dispatch (.takeFlows source flowIds) = (r, [.fail error]) ∧
      ∀ fuel queue, drain? (fuel + 2) r (.takeFlows source flowIds :: queue)
        = some (r.abort, some error)

theorem takeFlows_of_error (ha : r.activity? source = some a)
    (he : r.diagram.elements[a.element]? = some e) {error : EngineError}
    (h : selectFlows r.inst.vars e (r.diagram.findFlows flowIds) = .error error) :
    r.takeFlows source flowIds = (r, [.fail error]) := by
  simp only [takeFlows, ha, Option.bind_some, he, h]

theorem takeFlows_of_ok (ha : r.activity? source = some a)
    (he : r.diagram.elements[a.element]? = some e) {flows : List SequenceFlow}
    (h : selectFlows r.inst.vars e (r.diagram.findFlows flowIds) = .ok flows) :
    r.takeFlows source flowIds = ({ r with audit := r.audit ++ flows.map r.inst.flowEvent },
      flows.map (targetCommand r.diagram source)) := by
  simp only [takeFlows, ha, Option.bind_some, he, h]

theorem drain?_takeFlows (fuel : Nat) (r : Run) (source : Nat) (flowIds : List String)
    (queue : List Command) :
    drain? (fuel + 1) r (.takeFlows source flowIds :: queue)
      = drain? fuel (r.takeFlows source flowIds).1
          (enqueue queue (r.takeFlows source flowIds).2) := by
  rw [drain?]
  · rfl
  · exact fun error h => by cases h

/-- **An exclusive gateway takes at most one flow.**  Of the flows that it is told to take, unknown
ids left out, one choice can be made and no other: the first flow whose condition holds, where all
conditions in front of it are false; a failure in the name of the first flow whose condition has no
truth value, where all in front of it are false; if all are false, the first flow without a
condition; and none if there is no such flow.  The transition follows this choice. -/
theorem takes_exclusive_choice (hjoined : r.diagram.Joined) (ha : r.activity? source = some a)
    (he : r.diagram.elements[a.element]? = some e) (hkind : e.kind = .exclusiveGateway) :
    (∀ (f : SequenceFlow) (condition : String),
      f.condition? = some condition ↔ f.Conditional condition) ∧
    ∃ choice, ExclusiveChoice r.inst.vars (r.diagram.findFlows flowIds) choice ∧
      (∀ other, ExclusiveChoice r.inst.vars (r.diagram.findFlows flowIds) other →
        other = choice) ∧
      r.Follows source flowIds choice := by
  obtain ⟨choice, hchoice⟩ := ExclusiveChoice.exists r.inst.vars (r.diagram.findFlows flowIds)
  refine ⟨fun _ _ => SequenceFlow.condition?_eq_some, choice, hchoice,
    fun other hother => hother.eq.symm.trans hchoice.eq, ?_⟩
  have hselect : selectFlows r.inst.vars e (r.diagram.findFlows flowIds)
      = choice.map Option.toList := by
    rw [selectFlows, if_pos hkind, hchoice.eq]
    cases choice <;> rfl
  rcases choice with error | _ | f
  · have htake := takeFlows_of_error ha he hselect
    refine ⟨htake, fun fuel queue => ?_⟩
    rw [drain?_takeFlows, htake]
    rfl
  · have htake : r.takeFlows source flowIds = (r, []) := by
      rw [takeFlows_of_ok ha he hselect]
      simp
    refine ⟨htake, fun fuel queue => ?_⟩
    rw [drain?_takeFlows, htake]
    simp [enqueue]
  · have hf := mem_of_mem_findFlows (selectExclusive_mem hchoice.eq)
    obtain ⟨target, htarget⟩ := hjoined.exists_target hf
    refine ⟨target, htarget, (takeFlows_of_ok ha he hselect).trans ?_⟩
    simp [targetCommand, htarget, report]

private def choiceSource : List String :=
  ["<process id='p'><startEvent id='s'/><exclusiveGateway id='g'/><endEvent id='a'/>",
    "<endEvent id='b'/><sequenceFlow id='0' sourceRef='s' targetRef='g'/>",
    "<sequenceFlow id='1' sourceRef='g' targetRef='a'/>",
    "<sequenceFlow id='2' sourceRef='g' targetRef='a'>",
    "<conditionExpression>x = 5</conditionExpression></sequenceFlow>",
    "<sequenceFlow id='3' sourceRef='g' targetRef='b'>",
    "<conditionExpression>x = 2</conditionExpression></sequenceFlow>",
    "<sequenceFlow id='4' sourceRef='g' targetRef='a'>",
    "<conditionExpression>x +</conditionExpression></sequenceFlow></process>"]

private def choiceGateway : Element :=
  { Element.bare "g" "" .exclusiveGateway with
    incoming := ["0"], outgoing := ["1", "2", "3", "4"] }

private def plainFlow : SequenceFlow := ⟨"1", "", "g", "a", []⟩

private def falseFlow : SequenceFlow := ⟨"2", "", "g", "a", ["x = 5"]⟩

private def trueFlow : SequenceFlow := ⟨"3", "", "g", "b", ["x = 2"]⟩

private def brokenFlow : SequenceFlow := ⟨"4", "", "g", "a", ["x +"]⟩

private def choiceDiagram : Diagram :=
  { id := "p", name := "",
    elements := [{ Element.bare "s" "" .startEvent with outgoing := ["0"] }, choiceGateway,
      { Element.bare "a" "" .endEvent with incoming := ["1", "2", "4"] },
      { Element.bare "b" "" .endEvent with incoming := ["3"] }],
    flows := [⟨"0", "", "s", "g", []⟩, plainFlow, falseFlow, trueFlow, brokenFlow],
    messages := [] }

private theorem ofMarkup_choiceSource :
    Diagram.ofMarkup (String.join choiceSource) = .ok choiceDiagram :=
  Engine.ofMarkup_join (by decide +kernel)

/-- Whether a condition has a certain truth value. -/
private def isTruth (b : Bool) : Except ExprError Bool → Bool
  | .ok b' => b == b'
  | .error _ => false

private theorem eq_of_isTruth {b : Bool} {result : Except ExprError Bool}
    (h : isTruth b result = true) : result = .ok b := by
  cases result with
  | error cause => cases h
  | ok b' => rw [beq_iff_eq.mp h]

/-- Whether an instance stands behind the gateway, with one condition false and one that holds. -/
private def standsBehind (i : Instance) : Bool :=
  decide (i.diagram.findFlows ["1", "2", "3", "4"]
    = [plainFlow, falseFlow, trueFlow, brokenFlow]) &&
  i.activities[1]?.any (fun a => decide (i.diagram.elements[a.element]? = some choiceGateway)) &&
  isTruth false (evaluateCondition "x = 5" i.vars) &&
  isTruth true (evaluateCondition "x = 2" i.vars)

/-- A flow without a condition in front, a condition that is false, one that holds and one that is
no expression. -/
theorem takes_exclusive_choice_of_four :
    ∃ e, Engine.Reachable (· = .default) e ∧ ∃ i, e.instances[0]? = some i ∧
      i.diagram.Joined ∧ ∃ a, (e.lend i).activity? 1 = some a ∧
      i.diagram.elements[a.element]? = some choiceGateway ∧
      choiceGateway.kind = .exclusiveGateway ∧
      ExclusiveChoice i.vars (i.diagram.findFlows ["1", "2", "3", "4"]) (.ok (some trueFlow)) ∧
      ∃ target, i.diagram.findElement? trueFlow.target = some target ∧
        (e.lend i).dispatch (.takeFlows 1 ["1", "2", "3", "4"]) =
          ((e.lend i).report (i.flowEvent trueFlow), [.enter target (some 1) (some "3")]) := by
  obtain ⟨e, hreachable, htest⟩ := Engine.exists_reachable ofMarkup_choiceSource 100
    [.createAndRun 1 [("x", .ofInt 2)]]
    (fun e => e.instances[0]?.any standsBehind) (by decide +kernel)
  obtain ⟨i, hi, htest⟩ := (Option.any_eq_true _ _).mp htest
  simp only [standsBehind, Bool.and_eq_true, decide_eq_true_eq] at htest
  obtain ⟨⟨⟨hflows, hactivity⟩, hfalse⟩, htrue⟩ := htest
  obtain ⟨a, ha, helement⟩ := (Option.any_eq_true _ _).mp hactivity
  have helement := of_decide_eq_true helement
  have hjoined : i.diagram.Joined := joined_of_ofMarkup
    (Engine.InUse.ofMarkup_source (.inl hreachable) (List.mem_of_getElem? hi))
  have hbefore : NoneHolds i.vars [plainFlow, falseFlow] := by
    intro f hf condition hcondition
    rw [← SequenceFlow.condition?_eq_some] at hcondition
    rcases List.mem_pair.mp hf with rfl | rfl
    · cases hcondition
    · rw [show falseFlow.condition? = some "x = 5" by decide +kernel] at hcondition
      cases hcondition
      exact eq_of_isTruth hfalse
  have hchosen : ExclusiveChoice i.vars (i.diagram.findFlows ["1", "2", "3", "4"])
      (.ok (some trueFlow)) := by
    have hsplit : i.diagram.findFlows ["1", "2", "3", "4"] =
        [plainFlow, falseFlow] ++ trueFlow :: [brokenFlow] := hflows
    exact .holds hsplit hbefore
      (SequenceFlow.condition?_eq_some.mp (show _ = some "x = 2" by decide +kernel))
      (eq_of_isTruth htrue)
  have hlent : (e.lend i).diagram.Joined := hjoined
  have ha' : (e.lend i).activity? 1 = some a := ha
  have hfour : ∃ choice, ExclusiveChoice i.vars (i.diagram.findFlows ["1", "2", "3", "4"]) choice ∧
      (∀ other, ExclusiveChoice i.vars (i.diagram.findFlows ["1", "2", "3", "4"]) other →
        other = choice) ∧ (e.lend i).Follows 1 ["1", "2", "3", "4"] choice :=
    (takes_exclusive_choice hlent ha' helement rfl).2
  obtain ⟨choice, -, honly, hfollows⟩ := hfour
  obtain rfl := honly _ hchosen
  exact ⟨e, hreachable, i, hi, hjoined, a, ha, helement, rfl, hchosen, hfollows⟩

end Run

end ProcessEngine
