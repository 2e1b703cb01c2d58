import ProcessEngine.Proofs.HomedActivities
import ProcessEngine.Proofs.ArenaSoundness

/-!
# Runs with another past

What a run does next does not depend on how it has come about.  A `Past` is
what may lie behind it: reports, handler calls, and the registrations as they
had become by then.  `Run.recast` puts a past before a run and moves the
activities before a position home.  Every handler of the interpreter does the
same to a run and to the recast one.

Two things must be seen to.  An activity that is opened later is not moved, so
the position lies within the arena.  And flows are taken only from activities
that are new or have not moved (`Command.Steady`), since an exclusive gateway
is told by its position from another element with its id.

Main statement: `start?_recast`, by which a recast run comes to the recast
result.
-/

namespace ProcessEngine

/-- What lies behind a run: reports, calls, and the registration that was there
at a position. -/
structure Past where
  audit : List AuditEvent
  calls : List HandlerCall
  registration : Nat → Registration

/-- A registration behind the calls of an earlier one, which then goes on like
it. -/
def Registration.behind (g earlier : Registration) : Registration :=
  { g with
    handler := fun n =>
      if n < earlier.calls then earlier.handler n else g.handler (n - earlier.calls)
    calls := earlier.calls + g.calls }

/-- The next call is answered as if nothing lay behind. -/
theorem Registration.handler_behind (g earlier : Registration) :
    (g.behind earlier).handler (g.behind earlier).calls = g.handler g.calls := by
  have hlater : ¬ earlier.calls + g.calls < earlier.calls := by omega
  simp [behind, hlater]

namespace Run

/-- The run with a past, and with its activities before a position moved
home. -/
def recast (base : Nat) (past : Past) (r : Run) : Run :=
  { r with
    inst := r.inst.homed base
    registrations := r.registrations.mapIdx fun n g => g.behind (past.registration n)
    audit := past.audit ++ r.audit
    calls := past.calls ++ r.calls }

variable (base : Nat) (past : Past) (r : Run)

@[simp] theorem inst_recast : (r.recast base past).inst = r.inst.homed base := rfl

@[simp] theorem keys_recast : (r.recast base past).keys = r.keys := rfl

@[simp] theorem now_recast : (r.recast base past).now = r.now := rfl

@[simp] theorem diagram_recast : (r.recast base past).diagram = r.diagram := rfl

/-! ## Looking up -/

theorem activity?_recast (n : Nat) : (r.recast base past).activity? n =
    (r.activity? n).map fun a => if n < base then a.homed r.diagram else a :=
  r.inst.getElem?_homed base n

theorem bind_recast {α : Type} {g : Activity → Option α}
    (h : ∀ a, g (a.homed r.diagram) = g a) (n : Nat) :
    ((r.recast base past).activity? n).bind g = (r.activity? n).bind g :=
  r.inst.bind_homed base h n

@[simp] theorem originOf_recast (n : Nat) : (r.recast base past).originOf n = r.originOf n :=
  bind_recast base past r (fun a => a.origin_homed r.diagram) n

@[simp] theorem raceCommands_recast (n : Nat) :
    (r.recast base past).raceCommands n = r.raceCommands n := by
  simp [raceCommands]

@[simp] theorem gatewayFires_recast (e : Element) (n : Nat) :
    (r.recast base past).gatewayFires e n = r.gatewayFires e n := by
  unfold gatewayFires
  rw [bind_recast base past r fun a => by simp [Activity.gateway?]]

/-- An origin is known by the id of its element. -/
theorem arrivedFlow?_none (e : Element) (origin : Option Nat) :
    r.arrivedFlow? e origin none = origin.bind fun n => (r.activity? n).bind fun a =>
      (r.diagram.elements[a.element]?.map Element.id).bind fun id =>
        (r.diagram.flowBetween? id e.id).map SequenceFlow.id := by
  unfold arrivedFlow?
  cases origin with
  | none => rfl
  | some n =>
      cases ha : r.activity? n with
      | none => simp [ha]
      | some a =>
          cases he : r.diagram.elements[a.element]? with
          | none => simp [ha, he]
          | some source => cases hf : r.diagram.flowBetween? source.id e.id <;> simp [ha, he, hf]

@[simp] theorem arrivedFlow?_recast (e : Element) (origin : Option Nat) (via : Option String) :
    (r.recast base past).arrivedFlow? e origin via = r.arrivedFlow? e origin via := by
  cases via with
  | some flow => rfl
  | none =>
      rw [arrivedFlow?_none, arrivedFlow?_none, diagram_recast]
      congr 1
      funext n
      exact bind_recast base past r (fun a => by rw [a.id_homed r.diagram]) n

@[simp] theorem resolveHandler?_recast (e : Element) :
    resolveHandler? (r.recast base past).registrations e =
      resolveHandler? r.registrations e := by
  unfold resolveHandler?
  congr 1
  refine List.ext_getElem? fun n => ?_
  rw [List.getElem?_map, List.getElem?_map, recast, List.getElem?_mapIdx, Option.map_map]
  rfl

theorem getElem?_registrations_recast (n : Nat) :
    (r.recast base past).registrations[n]? =
      r.registrations[n]?.map fun g => g.behind (past.registration n) :=
  List.getElem?_mapIdx

/-! ## Changing -/

theorem report_recast (event : AuditEvent) :
    (r.recast base past).report event = (r.report event).recast base past := by
  simp [report, recast, List.append_assoc]

theorem reportElement_recast (e : Element) (intent : ElementIntent) :
    (r.recast base past).reportElement e intent =
      (r.reportElement e intent).recast base past :=
  report_recast base past r _

theorem recordCall_recast (call : HandlerCall) :
    (r.recast base past).recordCall call = (r.recordCall call).recast base past := by
  unfold recordCall recast
  congr 1
  · exact modify_mapIdx call.registration fun g => rfl
  · exact List.append_assoc ..

theorem modify_recast {f : Instance → Instance}
    (h : f (r.inst.homed base) = (f r.inst).homed base) :
    (r.recast base past).modify f = (r.modify f).recast base past := by
  unfold modify recast
  rw [h]

theorem modifyActivity_recast (n : Nat) {f : Activity → Activity}
    (h : ∀ a, (f a).homed r.diagram = f (a.homed r.diagram)) :
    (r.recast base past).modifyActivity n f = (r.modifyActivity n f).recast base past :=
  modify_recast base past r (Instance.modifyActivity_homed base n h)

theorem advance_recast (n : Nat) (s : ActivityState) :
    (r.recast base past).modifyActivity n (fun a => a.advance s) =
      (r.modifyActivity n fun a => a.advance s).recast base past :=
  modifyActivity_recast base past r n (Activity.homed_advance r.diagram s)

theorem setTimer_recast (n : Nat) (s : TimerState) :
    (r.recast base past).modifyActivity n (fun a => a.setTimer s) =
      (r.modifyActivity n fun a => a.setTimer s).recast base past :=
  modifyActivity_recast base past r n (Activity.homed_setTimer r.diagram s)

theorem recordInbound_recast (n : Nat) (flow : String) :
    (r.recast base past).modifyActivity n (fun a => a.recordInbound flow) =
      (r.modifyActivity n fun a => a.recordInbound flow).recast base past :=
  modifyActivity_recast base past r n (Activity.homed_recordInbound r.diagram flow)

theorem failJob_recast (n : Nat) (reason : String) :
    (r.recast base past).failJob n reason = (r.failJob n reason).recast base past :=
  modifyActivity_recast base past r n fun a => by
    rw [Activity.homed_setFailure, Activity.homed_advance]

theorem winRace_recast (origin : Option Nat) (branch : String) :
    (r.recast base past).modify (fun i => i.winRace origin branch) =
      (r.modify fun i => i.winRace origin branch).recast base past :=
  modify_recast base past r (r.inst.winRace_homed base origin branch)

theorem settleRace_recast (gateway : Nat) :
    (r.recast base past).modify (fun i => i.settleRace gateway) =
      (r.modify fun i => i.settleRace gateway).recast base past :=
  modify_recast base past r (r.inst.settleRace_homed base gateway)

variable {base r}

theorem open?_recast (hbase : base ≤ r.inst.activities.length) (element : Nat)
    (origin : Option Nat) (body : ActivityBody) :
    (r.recast base past).open? element origin body =
      (r.open? element origin body).map (Prod.map (recast base past) id) := by
  unfold open?
  rw [keys_recast]
  cases r.keys.issue with
  | none => rfl
  | some issued =>
      simp [recast, Instance.push_homed base hbase]

/-! ## Handling an element -/

section Handling

variable (hbase : base ≤ r.inst.activities.length) (element : Nat) (e : Element)
  (origin : Option Nat)

include hbase

theorem openElement_recast (state : ActivityState) (continues : Bool) :
    (r.recast base past).openElement element origin state continues =
      (r.openElement element origin state continues).map (recast base past) id := by
  unfold openElement
  rw [open?_recast past hbase]
  cases r.open? element origin (.element state) <;> rfl

theorem endEvent_recast : (r.recast base past).endEvent element e origin =
    (r.endEvent element e origin).map (recast base past) id := by
  unfold endEvent
  rw [openElement_recast past hbase]
  cases r.openElement element origin .completed false with
  | mk r₁ result =>
      cases result with
      | error error => rfl
      | ok step =>
          simp only [Prod.map_apply, id_eq, reportElement_recast, inst_recast,
            Instance.state_homed, Instance.hasPendingEvents_homed]
          split <;> rfl

/-! ### Messages -/

theorem openSubscription?_recast : (r.recast base past).openSubscription? element e origin =
    (r.openSubscription? element e origin).map (Prod.map (recast base past) id) := by
  unfold openSubscription?
  rw [inst_recast, Instance.findOpenSubscription?_homed, open?_recast past hbase]
  cases r.inst.findOpenSubscription? e.id <;> rfl

omit hbase in
theorem receive_recast (position : Nat) (caught : CaughtEvent) :
    (r.recast base past).receive e position caught =
      (r.receive e position caught).map (recast base past) id := rfl

theorem messageCatch_recast : (r.recast base past).messageCatch element e origin =
    (r.messageCatch element e origin).map (recast base past) id := by
  unfold messageCatch
  rw [openSubscription?_recast past hbase]
  cases r.openSubscription? element e origin with
  | none => rfl
  | some opened =>
      obtain ⟨r₁, n⟩ := opened
      simp only [Option.map_some, Prod.map_apply, id_eq, originOf_recast, inst_recast,
        Instance.raceLost_homed, Instance.caught_homed, Instance.findUnconsumed?_homed,
        bind_recast base past r₁ (g := Activity.subscription?)
          (fun a => by simp [Activity.subscription?]), receive_recast, advance_recast]
      split
      · rfl
      · split
        · rfl
        · split
          · rfl
          · split
            · rfl
            · cases r₁.receive e _ _ with
              | mk r₂ error? =>
                  cases error? with
                  | some error => exact congrArg (·, _) (advance_recast base past r₂ n .failed)
                  | none =>
                      simp only [Prod.map_apply, id_eq, advance_recast, winRace_recast]

/-! ### Timers -/

theorem openTimer_recast (duration : Option String) :
    (r.recast base past).openTimer element e duration origin =
      (r.openTimer element e duration origin).map (Prod.map (recast base past) id) := by
  unfold openTimer
  rw [inst_recast, Instance.findCreatedTimer?_homed, now_recast]
  cases r.inst.findCreatedTimer? e.id with
  | some n => rfl
  | none =>
      cases timerMillis e duration with
      | error error => rfl
      | ok ms =>
          simp only [open?_recast past hbase, Instance.key_homed, Instance.definition_homed]
          generalize r.open? element origin (.timer _) = opened
          cases opened <;> rfl

theorem timerCatch_recast (duration : Option String) :
    (r.recast base past).timerCatch element e duration origin =
      (r.timerCatch element e duration origin).map (recast base past) id := by
  unfold timerCatch
  rw [openTimer_recast past hbase]
  cases r.openTimer element e duration origin with
  | error error => rfl
  | ok opened =>
      obtain ⟨r₁, n⟩ := opened
      simp only [Except.map, Prod.map_apply, id_eq, originOf_recast, inst_recast, now_recast,
        Instance.raceLost_homed, setTimer_recast, winRace_recast,
        bind_recast base past r₁ (g := Activity.timer?) (fun a => by simp [Activity.timer?])]
      split
      · rfl
      · split
        · rfl
        · split <;> rfl

/-! ### Links -/

omit hbase in
theorem writeOutputs_recast : (r.recast base past).writeOutputs e =
    (r.writeOutputs e).map (recast base past) := by
  unfold writeOutputs
  rw [inst_recast, Instance.vars_homed]
  cases (Scope.childOf r.inst.vars).propagateOutputs e.outputs <;> rfl

theorem linkCatch_recast : (r.recast base past).linkCatch element e origin =
    (r.linkCatch element e origin).map (recast base past) id := by
  unfold linkCatch
  rw [openElement_recast past hbase]
  cases r.openElement element origin .completed true with
  | mk r₁ result =>
      cases result with
      | error error => rfl
      | ok step =>
          simp only [Prod.map_apply, id_eq, writeOutputs_recast]
          cases r₁.writeOutputs e <;> rfl

theorem linkThrow_recast (link : String) :
    (r.recast base past).linkThrow element e link origin =
      (r.linkThrow element e link origin).map (recast base past) id := by
  unfold linkThrow
  rw [diagram_recast, openElement_recast past hbase]
  cases linkTarget? r.diagram link with
  | none => rfl
  | some target =>
      cases r.openElement element origin .completed false with
      | mk r₁ result =>
          cases result with
          | error error => rfl
          | ok step =>
              simp only [Prod.map_apply, id_eq, writeOutputs_recast]
              cases r₁.writeOutputs e with
              | error error => rfl
              | ok r₂ => simp only [Except.map, reportElement_recast]; rfl

/-! ### Catch and throw events -/

theorem catchBody_recast : (r.recast base past).catchBody element e origin =
    (r.catchBody element e origin).map (recast base past) id := by
  unfold catchBody
  split
  · exact messageCatch_recast past hbase element e origin
  · exact timerCatch_recast past hbase element e origin _
  · exact linkCatch_recast past hbase element e origin
  · exact openElement_recast past hbase element origin .active false

theorem catchEvent_recast : (r.recast base past).catchEvent element e origin =
    (r.catchEvent element e origin).map (recast base past) id := by
  unfold catchEvent
  rw [catchBody_recast past hbase]
  cases r.catchBody element e origin with
  | mk r₁ result =>
      cases result with
      | error error => rfl
      | ok step => simp only [Prod.map_apply, id_eq, raceCommands_recast]

theorem throwEvent_recast : (r.recast base past).throwEvent element e origin =
    (r.throwEvent element e origin).map (recast base past) id := by
  unfold throwEvent
  split
  · exact linkThrow_recast past hbase element e origin _
  · exact openElement_recast past hbase element origin .active false

/-! ### Tasks -/

omit hbase in
/-- A registration is asked the same, whatever lies behind it. -/
theorem attempt_recast (position : Nat) (registration earlier : Registration) (info : JobInfo) :
    (r.recast base past).attempt e position (registration.behind earlier) info =
      (r.attempt e position registration info).map (recast base past) id := by
  unfold attempt
  rw [inst_recast, Instance.vars_homed, registration.handler_behind]
  cases applyMappings r.inst.vars e.inputs with
  | mk vars error? =>
      cases error? with
      | some error => rfl
      | none => simp only [recordCall_recast, Prod.map_apply, id_eq]

omit hbase in
theorem finishJob_recast (n : Nat) (attempt : Attempt) :
    (r.recast base past).finishJob e n attempt =
      (r.finishJob e n attempt).map (recast base past) id := by
  cases attempt with
  | «open» => rfl
  | completed vars =>
      exact congrArg (·, _) (advance_recast base past (r.modify fun i => { i with vars }) n
        .completed)
  | failed reason => exact congrArg (·, _) (failJob_recast base past r n reason)
  | broken error =>
      refine congrArg (·, _) ?_
      rw [failJob_recast]
      rfl

theorem openJob?_recast : (r.recast base past).openJob? element e origin =
    (r.openJob? element e origin).map (Prod.map (recast base past) id) := by
  unfold openJob?
  rw [inst_recast, Instance.findOpenJob?_homed, open?_recast past hbase]
  cases r.inst.findOpenJob? e.id <;> rfl

theorem handleJob_recast : (r.recast base past).handleJob element e origin =
    (r.handleJob element e origin).map (recast base past) id := by
  unfold handleJob
  rw [openJob?_recast past hbase]
  cases r.openJob? element e origin with
  | none => rfl
  | some opened =>
      obtain ⟨r₁, n⟩ := opened
      simp only [Option.map_some, Prod.map_apply, id_eq, resolveHandler?_recast,
        getElem?_registrations_recast, activity?_recast]
      cases resolveHandler? r₁.registrations e with
      | none => rfl
      | some position =>
          dsimp only
          cases hg : r₁.registrations[position]? with
          | none => rfl
          | some registration =>
              cases ha : r₁.activity? n with
              | none => rfl
              | some a =>
                  -- the job of an activity that is moved stays as it is
                  generalize hb : (if n < base then a.homed r₁.diagram else a) = b
                  have hkey : b.key = a.key := by subst hb; split <;> simp
                  have hbody : b.body = a.body := by subst hb; split <;> simp
                  simp only [Option.map_some, hb, Activity.job?, hbody, hkey]
                  split
                  · rfl
                  · simp only [attempt_recast, Prod.map_fst, Prod.map_snd, id_eq,
                      finishJob_recast]
                    rfl

/-! ### Gateways -/

theorem openGateway?_recast : (r.recast base past).openGateway? element origin =
    (r.openGateway? element origin).map (Prod.map (recast base past) id) := by
  unfold openGateway?
  rw [inst_recast, Instance.findActiveGateway?_homed, open?_recast past hbase]
  cases r.inst.findActiveGateway? element <;> rfl

theorem parallelGateway_recast (via : Option String) :
    (r.recast base past).parallelGateway element e origin via =
      (r.parallelGateway element e origin via).map (recast base past) id := by
  unfold parallelGateway
  rw [openGateway?_recast past hbase]
  cases r.openGateway? element origin with
  | none => rfl
  | some opened =>
      obtain ⟨r₁, n⟩ := opened
      simp only [Option.map_some, Prod.map_apply, id_eq, arrivedFlow?_recast]
      cases r₁.arrivedFlow? e origin via with
      | none =>
          simp only [gatewayFires_recast, advance_recast]
          split <;> rfl
      | some flow =>
          simp only [recordInbound_recast, gatewayFires_recast, advance_recast]
          split <;> rfl

theorem eventBasedGateway_recast : (r.recast base past).eventBasedGateway element origin =
    (r.eventBasedGateway element origin).map (recast base past) id := by
  unfold eventBasedGateway
  rw [open?_recast past hbase]
  cases r.open? element origin _ <;> rfl

/-- **Handling an element does the same to a recast run.** -/
theorem handle_recast (via : Option String) :
    (r.recast base past).handle element e origin via =
      (r.handle element e origin via).map (recast base past) id := by
  unfold handle
  cases e.kind with
  | startEvent | exclusiveGateway =>
      exact openElement_recast past hbase element origin .completed true
  | endEvent => exact endEvent_recast past hbase element e origin
  | serviceTask | userTask => exact handleJob_recast past hbase element e origin
  | parallelGateway => exact parallelGateway_recast past hbase element e origin via
  | eventBasedGateway => exact eventBasedGateway_recast past hbase element origin
  | catchEvent => exact catchEvent_recast past hbase element e origin
  | throwEvent => exact throwEvent_recast past hbase element e origin

theorem visit_recast (via : Option String) :
    (r.recast base past).visit element e origin via =
      (r.visit element e origin via).map (recast base past) id := by
  unfold visit
  rw [handle_recast past hbase]
  cases r.handle element e origin via with
  | mk r₁ result =>
      cases result with
      | error error => rfl
      | ok step =>
          simp only [Prod.map_apply, id_eq, proceed, reportElement_recast]
          split <;> rfl

end Handling

/-! ## Commands -/

end Run

/-- A command that takes flows does so from an activity that is not moved. -/
def Command.Steady (base : Nat) (i : Instance) (c : Command) : Prop :=
  ∀ ⦃n flows⦄, c = .takeFlows n flows → n < base →
    ∃ a, i.activities[n]? = some a ∧ a.body.isElement = false

namespace Run

variable {base : Nat} {r : Run}

theorem Grows.steady {opened : List Activity} {r' : Run} {c : Command}
    (h : Grows opened r r') (hc : c.Steady base r.inst) : c.Steady base r'.inst := by
  intro n flows hflows hn
  obtain ⟨a, ha, hbody⟩ := hc hflows hn
  obtain ⟨b, hb, hframe⟩ := h.activity? ha
  refine ⟨b, hb, ?_⟩
  rwa [ActivityBody.isElement_eq_of_frame (congrArg Activity.body hframe)]

/-- An activity that holds a slot holds more than a state. -/
theorem isElement_of_slot? {a : Activity} {slot : Slot} (h : a.slot? = some slot) :
    a.body.isElement = false := by
  cases hb : a.body <;> simp_all [Activity.slot?, ActivityBody.isElement]

/-- A visit takes flows from what is new or was open. -/
theorem Visits.steady {element : Nat} {e : Element} {origin : Option Nat}
    {out : Run × List Command} (h : Visits element e origin r out)
    (hbase : base ≤ r.inst.activities.length) : ∀ c ∈ out.2, c.Steady base out.1.inst := by
  intro c hc m flowIds heq hm
  obtain ⟨opened, hgrows⟩ := h.exists_grows
  cases h with
  | failed =>
      obtain rfl := List.mem_singleton.mp hc
      cases heq
  | @visited r' n a extra flows hmoves hfrom ha hadds hflows =>
      rcases List.mem_append.mp hc with hc | hc
      · cases hadds with
        | nothing => cases hc
        | race =>
            obtain ⟨_, rfl⟩ := eq_settleRace_of_mem hc
            cases heq
        | jump =>
            obtain rfl := List.mem_singleton.mp hc
            cases heq
      · rcases hflows with rfl | ⟨rfl, -⟩
        · cases hc
        · obtain rfl := List.mem_singleton.mp hc
          cases heq
          rcases hfrom with hnew | ⟨b, hb, slot, -, hslot⟩
          · omega
          · obtain ⟨b', hb', hframe⟩ := hgrows.activity? hb
            refine ⟨b', hb', ?_⟩
            rw [ActivityBody.isElement_eq_of_frame (congrArg Activity.body hframe)]
            exact isElement_of_slot? hslot

theorem dispatch_steady {c : Command} (hbase : base ≤ r.inst.activities.length) :
    ∀ c' ∈ (r.dispatch c).2, c'.Steady base (r.dispatch c).1.inst := by
  have h := dispatch_spec r c
  generalize r.dispatch c = out at h
  cases h with
  | idle => simp
  | flows audit =>
      intro c' hc' m flowIds heq
      obtain ⟨f, _, rfl⟩ := List.mem_map.mp hc'
      unfold targetCommand at heq
      split at heq <;> cases heq
  | stuck =>
      intro c' hc' m flowIds heq
      obtain rfl := List.mem_singleton.mp hc'
      cases heq
  | enter _ h => exact h.steady hbase
  | resume _ _ h => exact h.steady hbase
  | settle => simp

/-- **A command that fits and is steady does the same to a recast run.** -/
theorem dispatch_recast (past : Past) {c : Command} (hbase : base ≤ r.inst.activities.length)
    (hfits : c.Fits r.inst) (hsteady : c.Steady base r.inst) :
    (r.recast base past).dispatch c = (r.dispatch c).map (recast base past) id := by
  cases c with
  | takeFlows n flowIds =>
      -- the element that decides which flows are taken is the same
      have helement : ((r.recast base past).activity? n).bind
          (fun a => r.diagram.elements[a.element]?) =
            (r.activity? n).bind fun a => r.diagram.elements[a.element]? := by
        rw [activity?_recast]
        by_cases hn : n < base
        · obtain ⟨a, ha, hbody⟩ := hsteady rfl hn
          rw [show r.activity? n = some a from ha]
          simp [hn, Activity.homed_of_not_isElement hbody]
        · simp [hn]
      simp only [dispatch, takeFlows, diagram_recast, helement, inst_recast, Instance.vars_homed]
      split
      · rfl
      · split
        · rfl
        · simp [recast, List.append_assoc, Instance.flowEvent]
  | enter element origin via =>
      simp only [dispatch, diagram_recast]
      split
      · rfl
      · rename_i e _
        rw [reportElement_recast]
        exact visit_recast (r := r.reportElement e .activated) past hbase element e origin via
  | resume n origin =>
      obtain ⟨a, ha, -, hbody⟩ := hfits
      have hsame : (r.recast base past).activity? n = r.activity? n := by
        rw [activity?_recast, show r.activity? n = some a from ha]
        simp [Activity.homed_of_not_isElement hbody]
      simp only [dispatch, hsame, diagram_recast]
      split
      · rfl
      · split
        · rfl
        · exact visit_recast past hbase _ _ origin none
  | settleRace gateway => exact congrArg (·, _) (settleRace_recast base past r gateway)
  | fail error => rfl

/-! ## Whole runs -/

/-- The queue of a run that may be recast. -/
def Work.Steady (base : Nat) (work : Work) : Prop :=
  base ≤ work.1.inst.activities.length ∧ ∀ c ∈ work.2, c.Steady base work.1.inst

/-- A command leaves behind a queue that fits and is steady. -/
theorem enqueue_dispatch {c : Command} {queue : List Command} (hw : Work.Sound (r, c :: queue))
    (hsteady : Work.Steady base (r, c :: queue)) :
    Work.Sound ((r.dispatch c).1, enqueue queue (r.dispatch c).2) ∧
      Work.Steady base ((r.dispatch c).1, enqueue queue (r.dispatch c).2) := by
  obtain ⟨opened, hgrows⟩ := dispatch_grows r c
  have hout := dispatch_sound hw.1 (hw.2 c List.mem_cons_self)
  have hlength := hgrows.length
  refine ⟨⟨hout.1, fun c' hc' => ?_⟩, ?_, fun c' hc' => ?_⟩
  · rcases mem_enqueue.mp hc' with hold | hnew
    · exact (hw.2 c' (List.mem_cons_of_mem _ hold)).grows hgrows
    · exact hout.2 c' hnew
  · have hbase := hsteady.1
    dsimp only at hbase ⊢
    omega
  · rcases mem_enqueue.mp hc' with hold | hnew
    · exact hgrows.steady (hsteady.2 c' (List.mem_cons_of_mem _ hold))
    · exact dispatch_steady hsteady.1 c' hnew

theorem finish_recast (past : Past) :
    (r.recast base past).finish = (r.finish).recast base past := by
  unfold finish
  rw [inst_recast, Instance.state_homed]
  split
  · exact report_recast base past r _
  · rfl

theorem abort_recast (past : Past) : (r.recast base past).abort = r.abort.recast base past :=
  report_recast base past (r.modify fun i => { i with state := .failed }) _

theorem drain?_recast (past : Past) (fuel : Nat) {queue : List Command}
    (hw : Work.Sound (r, queue)) (hsteady : Work.Steady base (r, queue)) :
    drain? fuel (r.recast base past) queue =
      (drain? fuel r queue).map (Prod.map (recast base past) id) := by
  induction fuel generalizing r queue with
  | zero =>
      cases queue with
      | nil => simp [drain?, finish_recast]
      | cons c queue => rfl
  | succ fuel ih =>
      cases queue with
      | nil => simp [drain?, finish_recast]
      | cons c queue =>
          cases hfail : c.isFailure with
          | true =>
              cases c with
              | fail error => simp [drain?, abort_recast]
              | _ => cases hfail
          | false =>
              have hstep : ∀ r : Run, drain? (fuel + 1) r (c :: queue) =
                  drain? fuel (r.dispatch c).1 (enqueue queue (r.dispatch c).2) := by
                intro r
                cases c with
                | fail error => cases hfail
                | _ => rfl
              have hc := dispatch_recast past hsteady.1 (hw.2 c List.mem_cons_self)
                (hsteady.2 c List.mem_cons_self)
              obtain ⟨hw', hsteady'⟩ := enqueue_dispatch hw hsteady
              rw [hstep, hstep, hc]
              exact ih hw' hsteady'

@[simp] theorem seeds_homed (i : Instance) : seeds (i.homed base) = seeds i := by
  unfold seeds
  rw [Instance.state_homed]
  cases i.state with
  | active =>
      simp [Instance.bind_homed base i (fun a => a.origin_homed i.diagram)]
  | _ => rfl

/-- **A recast run comes to the recast result.** -/
theorem start?_recast (past : Past) (fuel : Nat) (hr : r.inst.Sound)
    (hbase : base ≤ r.inst.activities.length) :
    start? fuel (r.recast base past) =
      (start? fuel r).map (Prod.map (recast base past) id) := by
  have hsteady : Work.Steady base (r.activate, seeds r.inst) := by
    refine ⟨hbase, fun c hc n flows heq => ?_⟩
    rcases seeds_cases hc with ⟨_, -, rfl⟩ | ⟨_, -, rfl⟩ <;> cases heq
  unfold start?
  rw [inst_recast, Instance.state_homed]
  split
  · rfl
  · rw [seeds_homed]
    exact drain?_recast past fuel (seeds_sound hr) hsteady

end Run

end ProcessEngine
