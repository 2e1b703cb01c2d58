import ProcessEngine.Proofs.ArenaSoundness
import ProcessEngine.Proofs.MoreCommands
import ProcessEngine.Proofs.TwinInstances

/-!
# Twin runs

Two runs are twins if they drive twin instances at the same time with the same
handlers, and have reported the same since they began.  What the engine has done
before may differ: the keys that are issued next, the reports from before, and
the calls that handlers had.  So that calls and keys make no difference, the
handlers must be stateless: what they do depends on the job and not on its key,
nor on how often they were called.

The same command does the same to twins, with one exception.  A key source that
is ahead of another one runs out before it.  `Gap` says what two runs began with,
so that keys run out together where there is no such gap.

Main statements: `Twin.dispatch` for one command, and from it `Twin.start?`, by
which runs of twins come to the same end unless keys have run out.
-/

namespace ProcessEngine

/-- A handler that does the same whatever the key of the job is and however often
it was called. -/
def Handler.Stateless (handler : Handler) : Prop :=
  ∀ (m n : Nat) (job : ActiveJob) (key : Int),
    handler m job = handler n { job with info := { job.info with key } }

namespace ActiveJob

/-- What a job tells of itself is not touched by what is done to it. -/
theorem play_info (job : ActiveJob) (info : JobInfo) (actions : List JobAction) :
    ({ job with info } : ActiveJob).play actions = { job.play actions with info } := by
  unfold play
  induction actions generalizing job with
  | nil => rfl
  | cons action actions ih =>
      have hact : ({ job with info } : ActiveJob).act action = { job.act action with info } := by
        cases action <;> rfl
      rw [List.foldl_cons, List.foldl_cons, hact]
      exact ih (job.act action)

theorem settle_info (job : ActiveJob) (info : JobInfo) (outputs : List Mapping) :
    ({ job with info } : ActiveJob).settle outputs = job.settle outputs := rfl

end ActiveJob

namespace Run

/-- What two runs began with: how far one key source is ahead of the other, and
the reports from before. -/
structure Gap where
  keys : Int
  left : List AuditEvent
  right : List AuditEvent

/-- Runs of twin instances in which the same has been done. -/
structure Twin (gap : Gap) (r s : Run) : Prop where
  inst : r.inst.Twin s.inst
  keys : s.keys.next = r.keys.next + gap.keys
  handlers : r.handlers = s.handlers
  stateless : ∀ entry ∈ r.handlers, entry.2.Stateless
  now : r.now = s.now
  audit : ∃ more, r.audit = gap.left ++ more ∧ s.audit = gap.right ++ more

section Twin

variable {gap : Gap} {r s : Run}

/-! ## Looking up -/

theorem Twin.diagram (h : Twin gap r s) : r.diagram = s.diagram := h.inst.diagram

theorem Twin.bind (h : Twin gap r s) {α : Type} {g : Activity → Option α}
    (hg : ∀ a, g a.keyless = g a) (n : Nat) :
    (r.activity? n).bind g = (s.activity? n).bind g :=
  h.inst.bind hg n

theorem Twin.originOf (h : Twin gap r s) (n : Nat) : r.originOf n = s.originOf n :=
  h.bind (fun _ => rfl) n

theorem Twin.raceCommands (h : Twin gap r s) (n : Nat) : r.raceCommands n = s.raceCommands n := by
  unfold Run.raceCommands
  rw [h.originOf]
  simp only [h.inst.raceAt?]

theorem Twin.gatewayFires (h : Twin gap r s) (e : Element) (n : Nat) :
    r.gatewayFires e n = s.gatewayFires e n := by
  unfold Run.gatewayFires
  rw [h.bind fun _ => rfl]

theorem Twin.arrivedFlow? (h : Twin gap r s) (e : Element) (origin : Option Nat)
    (via : Option String) : r.arrivedFlow? e origin via = s.arrivedFlow? e origin via := by
  cases via with
  | some flow => rfl
  | none =>
      cases origin with
      | none => rfl
      | some n =>
          simp only [Run.arrivedFlow?, h.diagram]
          exact h.bind (fun _ => rfl) n

theorem Twin.resolveHandler? (h : Twin gap r s) (e : Element) :
    resolveHandler? r.registrations e = resolveHandler? s.registrations e := by
  have haccepts : ∀ run : Run, run.registrations.map Registration.accepts =
      run.handlers.map Prod.fst := by
    intro run
    rw [Run.handlers, List.map_map]
    rfl
  rw [ProcessEngine.resolveHandler?, ProcessEngine.resolveHandler?, haccepts, haccepts, h.handlers]

/-! ## Changing -/

theorem Twin.modify (h : Twin gap r s) {f g : Instance → Instance}
    (hinst : (f r.inst).Twin (g s.inst)) : Twin gap (r.modify f) (s.modify g) :=
  ⟨hinst, h.keys, h.handlers, h.stateless, h.now, h.audit⟩

theorem Twin.modifyActivity (h : Twin gap r s) (n : Nat) {f : Activity → Activity}
    (hf : ∀ a, (f a).keyless = f a.keyless) :
    Twin gap (r.modifyActivity n f) (s.modifyActivity n f) :=
  h.modify (h.inst.modifyActivity n hf)

theorem Twin.advance (h : Twin gap r s) (n : Nat) (state : ActivityState) :
    Twin gap (r.modifyActivity n fun a => a.advance state)
      (s.modifyActivity n fun a => a.advance state) :=
  h.modifyActivity n (Activity.keyless_advance state)

theorem Twin.setTimer (h : Twin gap r s) (n : Nat) (state : TimerState) :
    Twin gap (r.modifyActivity n fun a => a.setTimer state)
      (s.modifyActivity n fun a => a.setTimer state) :=
  h.modifyActivity n (Activity.keyless_setTimer state)

theorem Twin.winRace (h : Twin gap r s) (origin : Option Nat) (branch : String) :
    Twin gap (r.modify fun i => i.winRace origin branch)
      (s.modify fun i => i.winRace origin branch) :=
  h.modify (h.inst.winRace origin branch)

theorem Twin.withVars (h : Twin gap r s) (vars : Variables) :
    Twin gap (r.modify fun i => { i with vars }) (s.modify fun i => { i with vars }) :=
  h.modify (h.inst.withVars vars)

theorem Twin.withState (h : Twin gap r s) (state : InstanceState) :
    Twin gap (r.modify fun i => { i with state }) (s.modify fun i => { i with state }) :=
  h.modify (h.inst.withState state)

theorem Twin.failJob (h : Twin gap r s) (n : Nat) (reason : String) :
    Twin gap (r.failJob n reason) (s.failJob n reason) :=
  h.modifyActivity n fun a => by rw [Activity.keyless_setFailure, Activity.keyless_advance]

theorem Twin.recordCall (h : Twin gap r s) (call call' : HandlerCall) :
    Twin gap (r.recordCall call) (s.recordCall call') where
  inst := h.inst
  keys := h.keys
  handlers := by rw [handlers_recordCall, handlers_recordCall, h.handlers]
  stateless := by rw [handlers_recordCall]; exact h.stateless
  now := h.now
  audit := h.audit

/-- The same reports are added. -/
theorem Twin.reports (h : Twin gap r s) (events : List AuditEvent) :
    Twin gap { r with audit := r.audit ++ events } { s with audit := s.audit ++ events } := by
  obtain ⟨more, hr, hs⟩ := h.audit
  refine ⟨h.inst, h.keys, h.handlers, h.stateless, h.now, more ++ events, ?_, ?_⟩
  · rw [hr, List.append_assoc]
  · rw [hs, List.append_assoc]

theorem Twin.reportElement (h : Twin gap r s) (e : Element) (intent : ElementIntent) :
    Twin gap (r.reportElement e intent) (s.reportElement e intent) := by
  have hevent : s.inst.elementEvent e intent = r.inst.elementEvent e intent := by
    rw [Instance.elementEvent, Instance.elementEvent, h.inst.key, h.inst.definition]
  rw [Run.reportElement, Run.reportElement, hevent]
  exact h.reports [r.inst.elementEvent e intent]

theorem Twin.reportEnd (h : Twin gap r s) :
    Twin gap (r.report r.inst.endedEvent) (s.report s.inst.endedEvent) := by
  have hevent : s.inst.endedEvent = r.inst.endedEvent := by
    rw [Instance.endedEvent, Instance.endedEvent, h.inst.key, h.inst.definition, h.inst.state]
  rw [hevent]
  exact h.reports [r.inst.endedEvent]

/-! ## Opening activities -/

/-- What opening an activity comes to in twins.  Where they did not begin with
the same key source, one of them may have run out of keys. -/
inductive Opened (gap : Gap) : Option (Run × Nat) → Option (Run × Nat) → Prop
  | both {r s : Run} (h : Twin gap r s) (n : Nat) : Opened gap (some (r, n)) (some (s, n))
  | neither : Opened gap none none
  | left (hgap : gap.keys ≠ 0) (opened : Option (Run × Nat)) : Opened gap none opened
  | right (hgap : gap.keys ≠ 0) (opened : Option (Run × Nat)) : Opened gap opened none

theorem Twin.open? (h : Twin gap r s) (element : Nat) (origin : Option Nat)
    (body : ActivityBody) :
    Opened gap (r.open? element origin body) (s.open? element origin body) := by
  unfold Run.open?
  rw [h.inst.length]
  by_cases hr : r.keys.next < greatestKey
  · have hissue : r.keys.issue = some (r.keys.next, ⟨r.keys.next + 1⟩) := if_pos hr
    by_cases hs : s.keys.next < greatestKey
    · have hissue' : s.keys.issue = some (s.keys.next, ⟨s.keys.next + 1⟩) := if_pos hs
      have hkeys := h.keys
      simp only [hissue, hissue']
      have hpush : ∀ {a b : Activity}, a.keyless = b.keyless →
          Twin gap { r with keys := ⟨r.keys.next + 1⟩, inst := r.inst.push a }
            { s with keys := ⟨s.keys.next + 1⟩, inst := s.inst.push b } := fun hab =>
        ⟨h.inst.push hab, by dsimp only; omega, h.handlers, h.stateless, h.now, h.audit⟩
      have hkeyless : (⟨r.keys.next, element, origin, body⟩ : Activity).keyless =
          (⟨s.keys.next, element, origin, body⟩ : Activity).keyless := rfl
      exact .both (hpush hkeyless) _
    · have hissue' : s.keys.issue = none := if_neg hs
      simp only [hissue']
      refine .right (fun hgap => hs ?_) _
      rw [h.keys, hgap]
      omega
  · have hissue : r.keys.issue = none := if_neg hr
    simp only [hissue]
    by_cases hgap : gap.keys = 0
    · have hs : ¬ s.keys.next < greatestKey := by
        rw [h.keys, hgap]
        omega
      have hissue' : s.keys.issue = none := if_neg hs
      simp only [hissue']
      exact .neither
    · exact .left hgap _

/-! ## Handling an element -/

/-- What a piece of work comes to in twins: the same, or one of them has run out of
keys, where they did not begin with the same key source. -/
inductive Alike {α : Type} (gap : Gap) (exhausted : α) : Run × α → Run × α → Prop
  | same {r s : Run} (h : Twin gap r s) (result : α) : Alike gap exhausted (r, result) (s, result)
  | left (hgap : gap.keys ≠ 0) (r : Run) (out : Run × α) : Alike gap exhausted (r, exhausted) out
  | right (hgap : gap.keys ≠ 0) (s : Run) (out : Run × α) : Alike gap exhausted out (s, exhausted)

/-- What handling an element comes to in twins. -/
abbrev Matched (gap : Gap) : Handled → Handled → Prop := Alike gap (.error .keysExhausted)

section Handling

variable (h : Twin gap r s) (element : Nat) (e : Element) (origin : Option Nat)

include h

theorem Twin.openElement (state : ActivityState) (continues : Bool) :
    Matched gap (r.openElement element origin state continues)
      (s.openElement element origin state continues) := by
  have hopen := h.open? element origin (.element state)
  unfold Run.openElement
  generalize r.open? element origin (.element state) = opened at hopen
  generalize s.open? element origin (.element state) = opened' at hopen
  cases hopen with
  | both h n => exact .same h _
  | neither => exact .same h _
  | left hgap => exact .left hgap _ _
  | right hgap => exact .right hgap _ _

theorem Twin.endEvent :
    Matched gap (r.endEvent element e origin) (s.endEvent element e origin) := by
  have hopen := h.openElement element origin .completed false
  unfold Run.endEvent
  generalize r.openElement element origin .completed false = out at hopen
  generalize s.openElement element origin .completed false = out' at hopen
  cases hopen with
  | same h result =>
      cases result with
      | error error => exact .same h _
      | ok step =>
          have hreport := h.reportElement e .completed
          simp only [hreport.inst.state, hreport.inst.hasPendingEvents]
          split
          · exact .same hreport _
          · exact .same (hreport.withState .completed) _
  | left hgap => exact .left hgap _ _
  | right hgap => exact .right hgap _ _

/-! ### Messages -/

theorem Twin.openSubscription? : Opened gap (r.openSubscription? element e origin)
    (s.openSubscription? element e origin) := by
  unfold Run.openSubscription?
  rw [h.inst.findOpenSubscription?]
  split
  · exact .both h _
  · rw [h.inst.key, h.inst.definition, h.diagram, h.now]
    exact h.open? element origin _

/-- The variables of an event reach twins alike, and the event is consumed in
both. -/
theorem Twin.receive {name : String} {p q : Nat} (hp : r.inst.findUnconsumed? name = some p)
    (hq : s.inst.findUnconsumed? name = some q) {c d : CaughtEvent} (hvars : c.vars = d.vars) :
    Twin gap (r.receive e p c).1 (s.receive e q d).1 ∧
      (r.receive e p c).2 = (s.receive e q d).2 := by
  unfold Run.receive
  rw [h.inst.vars, hvars]
  cases applyMappings (Keyed.putAll s.inst.vars d.vars) e.outputs with
  | mk vars error? =>
      dsimp only
      exact ⟨h.modify ((h.inst.consume hp hq).withVars vars), rfl⟩

theorem Twin.messageCatch : Matched gap (r.messageCatch element e origin)
    (s.messageCatch element e origin) := by
  have hopen := h.openSubscription? element e origin
  unfold Run.messageCatch
  generalize r.openSubscription? element e origin = opened at hopen
  generalize s.openSubscription? element e origin = opened' at hopen
  cases hopen with
  | neither => exact .same h _
  | left hgap => exact .left hgap _ _
  | right hgap => exact .right hgap _ _
  | @both r s h n =>
      have hsubscription := h.bind (g := Activity.subscription?) (fun _ => rfl) n
      simp only [h.originOf, h.inst.raceLost, hsubscription]
      split
      · exact .same (h.advance n .withdrawn) _
      · split
        · exact .same h _
        · rename_i subscription _
          rcases h.inst.findUnconsumed? subscription.name with
            ⟨hr, hs⟩ | ⟨p, q, c, d, hr, hs, hc, hd, hvars⟩
          · simp only [hr, hs]
            exact .same h _
          · simp only [hr, hs, hc, hd]
            obtain ⟨hreceive, herror⟩ := h.receive e hr hs hvars
            generalize r.receive e p c = received at hreceive herror
            generalize s.receive e q d = received' at hreceive herror
            obtain ⟨r₁, error?⟩ := received
            obtain ⟨s₁, error?'⟩ := received'
            obtain rfl : error? = error?' := herror
            cases error? with
            | some error => exact .same (Twin.advance hreceive n .failed) _
            | none => exact .same ((Twin.advance hreceive n .completed).winRace _ e.id) _

/-! ### Timers -/

/-- What finding or opening a timer comes to in twins. -/
theorem Twin.openTimer (duration : Option String) :
    (∃ error, r.openTimer element e duration origin = .error error ∧
      s.openTimer element e duration origin = .error error) ∨
    (∃ r₁ s₁ n, r.openTimer element e duration origin = .ok (r₁, n) ∧
      s.openTimer element e duration origin = .ok (s₁, n) ∧ Twin gap r₁ s₁) ∨
    gap.keys ≠ 0 ∧ (r.openTimer element e duration origin = .error .keysExhausted ∨
      s.openTimer element e duration origin = .error .keysExhausted) := by
  unfold Run.openTimer
  rw [h.inst.findCreatedTimer?]
  cases s.inst.findCreatedTimer? e.id with
  | some n => exact .inr (.inl ⟨_, _, n, rfl, rfl, h⟩)
  | none =>
      cases timerMillis e duration with
      | error error => exact .inl ⟨error, rfl, rfl⟩
      | ok ms =>
          rw [h.inst.key, h.inst.definition, h.now]
          have hopen := h.open? element origin (.timer
            ⟨s.inst.key, s.inst.definition.key, e.id, .created, s.now, s.now.addMillis ms, ms⟩)
          dsimp only
          generalize r.open? element origin _ = opened at hopen
          generalize s.open? element origin _ = opened' at hopen
          cases hopen with
          | both h n => exact .inr (.inl ⟨_, _, n, rfl, rfl, h⟩)
          | neither => exact .inl ⟨_, rfl, rfl⟩
          | left hgap => exact .inr (.inr ⟨hgap, .inl rfl⟩)
          | right hgap => exact .inr (.inr ⟨hgap, .inr rfl⟩)

theorem Twin.timerCatch (duration : Option String) :
    Matched gap (r.timerCatch element e duration origin)
      (s.timerCatch element e duration origin) := by
  have hopen := h.openTimer element e origin duration
  unfold Run.timerCatch
  rcases hopen with ⟨error, hr, hs⟩ | ⟨r₁, s₁, n, hr, hs, hopened⟩ | ⟨hgap, hr | hs⟩
  · simp only [hr, hs]
    exact .same h _
  · have htimer := hopened.bind (g := Activity.timer?) (fun _ => rfl) n
    simp only [hr, hs, hopened.originOf, hopened.inst.raceLost, htimer, hopened.now]
    split
    · exact .same (hopened.setTimer n .cancelled) _
    · split
      · exact .same hopened _
      · split
        · exact .same ((hopened.setTimer n .triggered).winRace _ e.id) _
        · exact .same hopened _
  · simp only [hr]
    exact .left hgap _ _
  · simp only [hs]
    exact .right hgap _ _

/-! ### Links -/

/-- What writing outputs comes to in twins. -/
theorem Twin.writeOutputs :
    (∃ error, r.writeOutputs e = .error error ∧ s.writeOutputs e = .error error) ∨
      ∃ r₁ s₁, r.writeOutputs e = .ok r₁ ∧ s.writeOutputs e = .ok s₁ ∧ Twin gap r₁ s₁ := by
  unfold Run.writeOutputs
  rw [h.inst.vars]
  cases (Scope.childOf s.inst.vars).propagateOutputs e.outputs with
  | error error => exact .inl ⟨_, rfl, rfl⟩
  | ok scope =>
      refine .inr ⟨_, _, rfl, rfl, ?_⟩
      simp only [Run.modify, h.inst.vars]
      exact h.withVars _

theorem Twin.linkCatch : Matched gap (r.linkCatch element e origin)
    (s.linkCatch element e origin) := by
  have hopen := h.openElement element origin .completed true
  unfold Run.linkCatch
  generalize r.openElement element origin .completed true = out at hopen
  generalize s.openElement element origin .completed true = out' at hopen
  cases hopen with
  | left hgap => exact .left hgap _ _
  | right hgap => exact .right hgap _ _
  | same h result =>
      cases result with
      | error error => exact .same h _
      | ok step =>
          rcases h.writeOutputs e with ⟨error, hr, hs⟩ | ⟨r₁, s₁, hr, hs, hwritten⟩
          · simp only [hr, hs]
            exact .same h _
          · simp only [hr, hs]
            exact .same hwritten _

theorem Twin.linkThrow (link : String) : Matched gap (r.linkThrow element e link origin)
    (s.linkThrow element e link origin) := by
  unfold Run.linkThrow
  rw [h.diagram]
  cases linkTarget? s.diagram link with
  | none => exact .same h _
  | some target =>
      have hopen := h.openElement element origin .completed false
      dsimp only
      generalize r.openElement element origin .completed false = out at hopen
      generalize s.openElement element origin .completed false = out' at hopen
      cases hopen with
      | left hgap => exact .left hgap _ _
      | right hgap => exact .right hgap _ _
      | same h result =>
          cases result with
          | error error => exact .same h _
          | ok step =>
              rcases h.writeOutputs e with ⟨error, hr, hs⟩ | ⟨r₁, s₁, hr, hs, hwritten⟩
              · simp only [hr, hs]
                exact .same h _
              · simp only [hr, hs]
                exact .same (hwritten.reportElement e .completed) _

/-! ### Catch and throw events -/

theorem Twin.catchEvent : Matched gap (r.catchEvent element e origin)
    (s.catchEvent element e origin) := by
  have hbody : Matched gap (r.catchBody element e origin) (s.catchBody element e origin) := by
    unfold Run.catchBody
    split
    · exact h.messageCatch element e origin
    · exact h.timerCatch element e origin _
    · exact h.linkCatch element e origin
    · exact h.openElement element origin .active false
  unfold Run.catchEvent
  generalize r.catchBody element e origin = out at hbody
  generalize s.catchBody element e origin = out' at hbody
  cases hbody with
  | left hgap => exact .left hgap _ _
  | right hgap => exact .right hgap _ _
  | same h result =>
      cases result with
      | error error => exact .same h _
      | ok step =>
          simp only [h.raceCommands]
          exact .same h _

theorem Twin.throwEvent : Matched gap (r.throwEvent element e origin)
    (s.throwEvent element e origin) := by
  unfold Run.throwEvent
  split
  · exact h.linkThrow element e origin _
  · exact h.openElement element origin .active false

/-! ### Gateways -/

theorem Twin.parallelGateway (via : Option String) :
    Matched gap (r.parallelGateway element e origin via)
      (s.parallelGateway element e origin via) := by
  have hopen : Opened gap (r.openGateway? element origin) (s.openGateway? element origin) := by
    unfold Run.openGateway?
    rw [h.inst.findActiveGateway?]
    split
    · exact .both h _
    · exact h.open? element origin _
  unfold Run.parallelGateway
  generalize r.openGateway? element origin = opened at hopen
  generalize s.openGateway? element origin = opened' at hopen
  cases hopen with
  | neither => exact .same h _
  | left hgap => exact .left hgap _ _
  | right hgap => exact .right hgap _ _
  | @both r s h n =>
      have hfire : ∀ {r s : Run}, Twin gap r s → Matched gap
          (if r.gatewayFires e n then
            (r.modifyActivity n fun a => a.advance .completed, .ok ⟨n, true, []⟩)
          else (r, .ok ⟨n, false, []⟩))
          (if s.gatewayFires e n then
            (s.modifyActivity n fun a => a.advance .completed, .ok ⟨n, true, []⟩)
          else (s, .ok ⟨n, false, []⟩)) := by
        intro r s h
        rw [h.gatewayFires]
        split
        · exact .same (h.advance n .completed) _
        · exact .same h _
      simp only [h.arrivedFlow?]
      cases s.arrivedFlow? e origin via with
      | none => exact hfire h
      | some flow => exact hfire (h.modifyActivity n (Activity.keyless_recordInbound flow))

theorem Twin.eventBasedGateway : Matched gap (r.eventBasedGateway element origin)
    (s.eventBasedGateway element origin) := by
  have hopen := h.open? element origin (.race ⟨.completed, none⟩)
  unfold Run.eventBasedGateway
  generalize r.open? element origin _ = opened at hopen
  generalize s.open? element origin _ = opened' at hopen
  cases hopen with
  | both h n => exact .same h _
  | neither => exact .same h _
  | left hgap => exact .left hgap _ _
  | right hgap => exact .right hgap _ _

/-! ### Tasks -/

theorem Twin.openJob? : Opened gap (r.openJob? element e origin) (s.openJob? element e origin) := by
  unfold Run.openJob?
  rw [h.inst.findOpenJob?]
  split
  · exact .both h _
  · rw [h.inst.key, h.now]
    exact h.open? element origin _

omit h in
/-- A stateless handler settles a job whatever its key is. -/
theorem settle_of_stateless {handler : Handler} (hstateless : handler.Stateless) (m n : Nat)
    (job : ActiveJob) (key : Int) (outputs : List Mapping) :
    (job.play (handler m job)).settle outputs =
      (({ job with info := { job.info with key } } : ActiveJob).play
        (handler n { job with info := { job.info with key } })).settle outputs := by
  rw [← hstateless m n job key]
  have hplay := ActiveJob.play_info job { job.info with key } (handler m job)
  exact (ActiveJob.settle_info _ _ outputs).symm.trans (congrArg (·.settle outputs) hplay).symm

theorem Twin.attempt (position : Nat) {g g' : Registration} (hhandler : g'.handler = g.handler)
    (hstateless : g.handler.Stateless) {info info' : JobInfo}
    (hinfo : info' = { info with key := info'.key }) :
    Twin gap (r.attempt e position g info).1 (s.attempt e position g' info').1 ∧
      (r.attempt e position g info).2 = (s.attempt e position g' info').2 := by
  unfold Run.attempt
  rw [h.inst.vars]
  cases applyMappings s.inst.vars e.inputs with
  | mk vars error? =>
      cases error? with
      | some error => exact ⟨h, rfl⟩
      | none =>
          refine ⟨h.recordCall _ _, ?_⟩
          dsimp only
          rw [hhandler, hinfo]
          exact settle_of_stateless hstateless g.calls g'.calls
            ⟨info, ⟨vars, some s.inst.vars⟩, none⟩ info'.key e.outputs

theorem Twin.finishJob (n : Nat) (attempt : Attempt) :
    Matched gap (r.finishJob e n attempt) (s.finishJob e n attempt) := by
  cases attempt with
  | «open» => exact .same h _
  | completed vars => exact .same ((h.withVars vars).advance n .completed) _
  | failed reason => exact .same (h.failJob n reason) _
  | broken error => exact .same ((h.failJob n error.message).withState .failed) _

/-- Twins have the same handler registered at a position. -/
theorem Twin.registration (position : Nat) :
    (r.registrations[position]? = none ∧ s.registrations[position]? = none) ∨
      ∃ g g', r.registrations[position]? = some g ∧ s.registrations[position]? = some g' ∧
        g'.handler = g.handler ∧ g.handler.Stateless := by
  have hsame : r.handlers[position]? = s.handlers[position]? := by rw [h.handlers]
  simp only [Run.handlers, List.getElem?_map] at hsame
  cases hg : r.registrations[position]? with
  | none =>
      cases hg' : s.registrations[position]? with
      | none => exact .inl ⟨rfl, rfl⟩
      | some g' => simp [hg, hg'] at hsame
  | some g =>
      cases hg' : s.registrations[position]? with
      | none => simp [hg, hg'] at hsame
      | some g' =>
          simp only [hg, hg', Option.map_some, Option.some.injEq, Prod.mk.injEq] at hsame
          have hmem : (g.accepts, g.handler) ∈ r.handlers :=
            List.mem_map.mpr ⟨g, List.mem_of_getElem? hg, rfl⟩
          exact .inr ⟨g, g', rfl, rfl, hsame.2.symm, h.stateless _ hmem⟩

theorem Twin.handleJob : Matched gap (r.handleJob element e origin)
    (s.handleJob element e origin) := by
  have hopen := h.openJob? element e origin
  unfold Run.handleJob
  generalize r.openJob? element e origin = opened at hopen
  generalize s.openJob? element e origin = opened' at hopen
  cases hopen with
  | neither => exact .same h _
  | left hgap => exact .left hgap _ _
  | right hgap => exact .right hgap _ _
  | @both r s h n =>
      simp only [h.resolveHandler?]
      cases ProcessEngine.resolveHandler? s.registrations e with
      | none => exact .same h _
      | some position =>
          rcases h.registration position with ⟨hr, hs⟩ | ⟨g, g', hr, hs, hhandler, hstateless⟩
          · simp only [hr, hs]
            exact .same h _
          · have hactivity := h.inst.getElem? n
            simp only [hr, hs, activity?]
            cases ha : r.inst.activities[n]? with
            | none =>
                rw [ha] at hactivity
                simp only [Option.map_eq_none_iff.mp hactivity.symm]
                exact .same h _
            | some a =>
                rw [ha] at hactivity
                obtain ⟨b, hb, hkeyless⟩ := Option.map_eq_some_iff.mp hactivity.symm
                have hjob : b.job? = a.job? := by
                  change b.keyless.job? = a.keyless.job?
                  rw [hkeyless]
                simp only [hb, hjob]
                cases a.job? with
                | none => exact .same h _
                | some job =>
                    have hinfo : s.jobInfo e b.key job =
                        { r.jobInfo e a.key job with key := b.key } := by
                      simp only [jobInfo, h.inst.key, h.inst.definition]
                    obtain ⟨htwin, hattempt⟩ := h.attempt e position hhandler hstateless hinfo
                    dsimp only
                    rw [← hattempt]
                    exact Twin.finishJob htwin e n _

/-- **Handling an element does the same to twins.** -/
theorem Twin.handle (via : Option String) :
    Matched gap (r.handle element e origin via) (s.handle element e origin via) := by
  unfold Run.handle
  cases e.kind with
  | startEvent | exclusiveGateway => exact h.openElement element origin .completed true
  | endEvent => exact h.endEvent element e origin
  | serviceTask | userTask => exact h.handleJob element e origin
  | parallelGateway => exact h.parallelGateway element e origin via
  | eventBasedGateway => exact h.eventBasedGateway element origin
  | catchEvent => exact h.catchEvent element e origin
  | throwEvent => exact h.throwEvent element e origin

/-! ## Commands -/

/-- What a visit comes to in twins. -/
theorem Twin.visit (via : Option String) : Alike gap [.fail .keysExhausted]
    (r.visit element e origin via) (s.visit element e origin via) := by
  have hhandle := h.handle element e origin via
  unfold Run.visit
  generalize r.handle element e origin via = out at hhandle
  generalize s.handle element e origin via = out' at hhandle
  cases hhandle with
  | left hgap => exact .left hgap _ _
  | right hgap => exact .right hgap _ _
  | same h result =>
      cases result with
      | error error => exact .same h _
      | ok step =>
          simp only [proceed]
          split
          · exact .same (h.reportElement e .completed) _
          · exact .same h _

end Handling

theorem Twin.takeFlows (h : Twin gap r s) (source : Nat) (flowIds : List String) :
    Alike gap [.fail .keysExhausted] (r.takeFlows source flowIds) (s.takeFlows source flowIds) := by
  unfold Run.takeFlows
  simp only [h.diagram]
  rw [h.bind fun _ => rfl, h.inst.vars]
  split
  · exact .same h _
  · split
    · exact .same h _
    · rename_i flows _
      have hevents : s.inst.flowEvent = r.inst.flowEvent := by
        funext f
        rw [Instance.flowEvent, Instance.flowEvent, h.inst.key, h.inst.definition]
      rw [hevents]
      exact .same (h.reports (flows.map r.inst.flowEvent)) _

/-- **The same command does the same to twins.** -/
theorem Twin.dispatch (h : Twin gap r s) (c : Command) :
    Alike gap [.fail .keysExhausted] (r.dispatch c) (s.dispatch c) := by
  cases c with
  | takeFlows source flowIds => exact h.takeFlows source flowIds
  | enter element origin via =>
      simp only [Run.dispatch, h.diagram]
      cases s.diagram.elements[element]? with
      | none => exact .same h _
      | some e => exact (h.reportElement e .activated).visit element e origin via
  | resume n origin =>
      have helement := h.bind (g := fun a => some a.element) (fun _ => rfl) n
      simp only [Run.dispatch, h.diagram]
      cases hr : r.activity? n with
      | none =>
          cases hs : s.activity? n with
          | none => exact .same h _
          | some b => simp [hr, hs] at helement
      | some a =>
          cases hs : s.activity? n with
          | none => simp [hr, hs] at helement
          | some b =>
              have hab : a.element = b.element := by simpa [hr, hs] using helement
              dsimp only
              rw [hab]
              cases s.diagram.elements[b.element]? with
              | none => exact .same h _
              | some e => exact h.visit b.element e origin none
  | settleRace gateway => exact .same (h.modify (h.inst.settleRace gateway)) _
  | fail error => exact .same h _

/-! ## Whole runs -/

theorem Twin.seeds (h : Twin gap r s) : Run.seeds r.inst = Run.seeds s.inst := by
  have horigin : ∀ n, r.inst.activities[n]?.bind Activity.origin =
      s.inst.activities[n]?.bind Activity.origin := h.originOf
  simp only [Run.seeds, h.inst.state, h.inst.diagram, h.inst.continuations, horigin]

theorem Twin.finish (h : Twin gap r s) : Twin gap r.finish s.finish := by
  unfold Run.finish
  rw [h.inst.state]
  split
  · exact h.reportEnd
  · exact h

theorem Twin.abort (h : Twin gap r s) : Twin gap r.abort s.abort :=
  Twin.reportEnd (h.withState .failed)

/-- To work off the same queue comes to the same in twins.  The second run may
take one command more than the first, so that it can fail for want of keys where
the first does not. -/
theorem Twin.drain? {fuel fuel' : Nat} {queue : List Command} {out : Run × Option EngineError}
    (h : Twin gap r s) (hfuel : fuel ≤ fuel') (hmore : gap.keys = 0 ∨ fuel < fuel')
    (hdrain : Run.drain? fuel r queue = some out)
    (hkeys : gap.keys = 0 ∨ out.2 ≠ some .keysExhausted) :
    ∃ out', Run.drain? fuel' s queue = some out' ∧ Alike gap (some .keysExhausted) out out' := by
  induction fuel generalizing r s queue fuel' with
  | zero =>
      cases queue with
      | nil =>
          cases hdrain
          exact ⟨_, by cases fuel' <;> rfl, .same h.finish none⟩
      | cons c queue => cases hdrain
  | succ fuel ih =>
      cases queue with
      | nil =>
          cases hdrain
          exact ⟨_, by cases fuel' <;> rfl, .same h.finish none⟩
      | cons c queue =>
          obtain ⟨fuel', rfl⟩ : ∃ k, fuel' = k + 1 := ⟨fuel' - 1, by omega⟩
          have hfuel : fuel ≤ fuel' := by omega
          have hmore : gap.keys = 0 ∨ fuel < fuel' := by omega
          cases hc : c.isFailure with
          | true =>
              cases c with
              | fail error =>
                  cases hdrain
                  exact ⟨_, rfl, .same h.abort (some error)⟩
              | _ => cases hc
          | false =>
              have hdispatch := h.dispatch c
              rw [drain?_cons hc] at hdrain
              rw [drain?_cons hc]
              generalize r.dispatch c = after at hdispatch hdrain
              generalize s.dispatch c = after' at hdispatch
              cases hdispatch with
              | same h commands => exact ih h hfuel hmore hdrain
              | left hgap =>
                  -- the first run has failed for want of keys
                  have hnone : out.2 ≠ some .keysExhausted := hkeys.resolve_left hgap
                  cases fuel with
                  | zero => cases hdrain
                  | succ fuel =>
                      cases hdrain
                      exact absurd rfl hnone
              | right hgap =>
                  obtain ⟨left, rfl⟩ : ∃ k, fuel' = k + 1 := ⟨fuel' - 1, by omega⟩
                  exact ⟨_, rfl, .right hgap _ _⟩

/-- **Runs of twins come to the same end**, unless keys have run out. -/
theorem Twin.start? {fuel fuel' : Nat} {out : Run × Option EngineError} (h : Twin gap r s)
    (hfuel : fuel ≤ fuel') (hmore : gap.keys = 0 ∨ fuel < fuel')
    (hstart : r.start? fuel = some out) (hkeys : gap.keys = 0 ∨ out.2 ≠ some .keysExhausted) :
    ∃ out', s.start? fuel' = some out' ∧ Alike gap (some .keysExhausted) out out' := by
  unfold Run.start? at hstart ⊢
  rw [← h.inst.state, ← h.seeds]
  split at hstart
  · rename_i hend
    cases hstart
    exact ⟨_, if_pos hend, .same h none⟩
  · rename_i hgo
    obtain ⟨out', hdrain, halike⟩ := Twin.drain? (h.withState .active) hfuel hmore hstart hkeys
    exact ⟨out', (if_neg hgo).trans hdrain, halike⟩

end Twin

end Run

end ProcessEngine
