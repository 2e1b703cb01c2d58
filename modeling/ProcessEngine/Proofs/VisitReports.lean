import ProcessEngine.Proofs.RunGrowth

/-!
# What a visit reports

A visit reports nothing but the completion of its element, and it does so exactly
where flow goes on from there or ends there.  The commands that follow go with
the report: the outgoing flows are to be taken, or a link has its catch entered,
or nothing follows.  Where nothing is reported, at most a race is settled.

Most handlers report nothing themselves (`Silent`).  The end event and the link
throw report their own completion, and for all others it is reported when their
flow goes on.

Main statement: `visit_outcome`.
-/

namespace ProcessEngine.Run

section Handlers

variable {element : Nat} {e : Element} {origin : Option Nat} {r r₁ : Run} {n : Nat}

/-! ## Handlers that report nothing -/

/-- Handling that reports nothing and adds no command. -/
def Silent (r : Run) (out : Handled) : Prop :=
  out.1.audit = r.audit ∧ ∀ step, out.2 = .ok step → step.extra = []

theorem silent_error {r' : Run} {error : EngineError} (h : r'.audit = r.audit) :
    Silent r (r', .error error) :=
  ⟨h, fun _ hstep => by cases hstep⟩

theorem silent_ok {r' : Run} {continues : Bool} (h : r'.audit = r.audit) :
    Silent r (r', .ok ⟨n, continues, []⟩) :=
  ⟨h, fun _ hstep => by cases hstep; rfl⟩

theorem open?_audit {body : ActivityBody} (h : r.open? element origin body = some (r₁, n)) :
    r₁.audit = r.audit := by
  obtain ⟨-, -, rfl⟩ := open?_eq_some h
  rfl

theorem openElement_silent (r : Run) (element : Nat) (origin : Option Nat)
    (state : ActivityState) (continues : Bool) :
    Silent r (r.openElement element origin state continues) := by
  unfold openElement
  split
  · exact silent_error rfl
  · rename_i r₁ n hopen
    exact silent_ok (open?_audit hopen)

theorem eventBasedGateway_silent (r : Run) (element : Nat) (origin : Option Nat) :
    Silent r (r.eventBasedGateway element origin) := by
  unfold eventBasedGateway
  split
  · exact silent_error rfl
  · rename_i r₁ n hopen
    exact silent_ok (open?_audit hopen)

theorem openJob?_audit (h : r.openJob? element e origin = some (r₁, n)) :
    r₁.audit = r.audit := by
  unfold openJob? at h
  split at h
  · cases h
    rfl
  · exact open?_audit h

theorem finishJob_silent (r : Run) (e : Element) (n : Nat) (attempt : Attempt) :
    Silent r (r.finishJob e n attempt) := by
  cases attempt with
  | «open» => exact silent_ok rfl
  | completed vars => exact silent_ok rfl
  | failed reason => exact silent_ok rfl
  | broken error => exact silent_error rfl

theorem handleJob_silent (r : Run) (element : Nat) (e : Element) (origin : Option Nat) :
    Silent r (r.handleJob element e origin) := by
  unfold handleJob
  split
  · exact silent_error rfl
  · rename_i r₁ n htake
    have haudit := openJob?_audit htake
    split
    · exact silent_ok haudit
    · rename_i position _
      split
      · rename_i registration b _ _
        split
        · exact silent_ok haudit
        · rename_i job _
          have hcall := attempt_fst r₁ e position registration (r₁.jobInfo e b.key job)
          generalize r₁.attempt e position registration (r₁.jobInfo e b.key job) = tried at hcall
          obtain ⟨r₂, attempt⟩ := tried
          have haudit₂ : r₂.audit = r₁.audit := by
            rcases hcall with rfl | ⟨call, rfl⟩ <;> rfl
          obtain ⟨hfinish, hextra⟩ := finishJob_silent r₂ e n attempt
          exact ⟨hfinish.trans (haudit₂.trans haudit), hextra⟩
      · exact silent_ok haudit

theorem parallelGateway_silent (r : Run) (element : Nat) (e : Element) (origin : Option Nat)
    (via : Option String) : Silent r (r.parallelGateway element e origin via) := by
  unfold parallelGateway
  split
  · exact silent_error rfl
  · rename_i r₁ n htake
    have haudit : r₁.audit = r.audit := by
      unfold openGateway? at htake
      split at htake
      · cases htake
        rfl
      · exact open?_audit htake
    dsimp only
    cases r₁.arrivedFlow? e origin via with
    | none =>
        dsimp only
        split <;> exact silent_ok haudit
    | some flow =>
        dsimp only
        split <;> exact silent_ok haudit

theorem receive_audit {position : Nat} {caught : CaughtEvent} {error? : Option ExprError}
    (h : r.receive e position caught = (r₁, error?)) : r₁.audit = r.audit := by
  obtain ⟨vars, rfl⟩ := receive_eq h
  rfl

theorem messageCatch_silent (r : Run) (element : Nat) (e : Element) (origin : Option Nat) :
    Silent r (r.messageCatch element e origin) := by
  unfold messageCatch
  split
  · exact silent_error rfl
  · rename_i r₁ n htake
    have haudit : r₁.audit = r.audit := by
      unfold openSubscription? at htake
      split at htake
      · cases htake
        rfl
      · exact open?_audit htake
    dsimp only
    split
    · exact silent_ok haudit
    · split
      · exact silent_ok haudit
      · split
        · exact silent_ok haudit
        · split
          · exact silent_ok haudit
          · split
            · rename_i hreceive
              exact silent_error ((receive_audit hreceive).trans haudit)
            · rename_i hreceive
              exact silent_ok ((receive_audit hreceive).trans haudit)

theorem timerCatch_silent (r : Run) (element : Nat) (e : Element) (duration : Option String)
    (origin : Option Nat) : Silent r (r.timerCatch element e duration origin) := by
  unfold timerCatch
  split
  · exact silent_error rfl
  · rename_i r₁ n htake
    have haudit : r₁.audit = r.audit := by
      unfold openTimer at htake
      split at htake
      · cases htake
        rfl
      · split at htake
        · cases htake
        · split at htake
          · cases htake
          · rename_i opened hopen
            cases htake
            exact open?_audit hopen
    dsimp only
    split
    · exact silent_ok haudit
    · split
      · exact silent_ok haudit
      · split <;> exact silent_ok haudit

theorem writeOutputs_audit (h : r.writeOutputs e = .ok r₁) : r₁.audit = r.audit := by
  unfold writeOutputs at h
  split at h <;> cases h
  rfl

theorem linkCatch_silent (r : Run) (element : Nat) (e : Element) (origin : Option Nat) :
    Silent r (r.linkCatch element e origin) := by
  unfold linkCatch openElement
  cases hopen : r.open? element origin (.element .completed) with
  | none => exact silent_error rfl
  | some opened =>
      obtain ⟨r₁, n⟩ := opened
      have haudit := open?_audit hopen
      dsimp only
      split
      · exact silent_error haudit
      · rename_i r₂ hwrite
        exact silent_ok ((writeOutputs_audit hwrite).trans haudit)

theorem catchBody_silent (r : Run) (element : Nat) (e : Element) (origin : Option Nat) :
    Silent r (r.catchBody element e origin) := by
  unfold catchBody
  split
  · exact messageCatch_silent r element e origin
  · exact timerCatch_silent r element e _ origin
  · exact linkCatch_silent r element e origin
  · exact openElement_silent r element origin _ _

/-! ## All handlers -/

/-- At most one race is to be settled. -/
def Settles (commands : List Command) : Prop :=
  commands = [] ∨ ∃ gateway, commands = [.settleRace gateway]

/-- What handling an element reports, and the commands that it adds. -/
inductive Reports (e : Element) (r : Run) : Handled → Prop
  | failed {r' : Run} (error : EngineError) (haudit : r'.audit = r.audit) :
      Reports e r (r', .error error)
  | silent {r' : Run} {step : Step} (haudit : r'.audit = r.audit) (hextra : Settles step.extra)
      (hkind : step.continues = true → e.kind ≠ .endEvent ∧ e.kind ≠ .throwEvent) :
      Reports e r (r', .ok step)
  | ended {r' : Run} {n : Nat} {a : Activity} (hkind : e.kind = .endEvent)
      (haudit : r'.audit = r.audit ++ [r.inst.elementEvent e .completed])
      (ha : r'.activity? n = some a) (hdone : a.state = .completed) :
      Reports e r (r', .ok ⟨n, false, []⟩)
  | thrown {r' : Run} {n target : Nat} {a : Activity} {link : String}
      (hkind : e.kind = .throwEvent) (hlink : e.linkName? = some link)
      (htarget : linkTarget? r.diagram link = some target)
      (haudit : r'.audit = r.audit ++ [r.inst.elementEvent e .completed])
      (ha : r'.activity? n = some a) (hdone : a.state = .completed) :
      Reports e r (r', .ok ⟨n, false, [.enter target (some n) none]⟩)

theorem Silent.reports {out : Handled} (h : Silent r out) (hend : e.kind ≠ .endEvent)
    (hthrow : e.kind ≠ .throwEvent) : Reports e r out := by
  obtain ⟨r', error | step⟩ := out
  · exact .failed error h.1
  · exact .silent h.1 (.inl (h.2 step rfl)) fun _ => ⟨hend, hthrow⟩

theorem endEvent_reports (hkind : e.kind = .endEvent) :
    Reports e r (r.endEvent element e origin) := by
  unfold endEvent openElement
  cases hopen : r.open? element origin (.element .completed) with
  | none => exact .failed _ rfl
  | some opened =>
      obtain ⟨r₁, n⟩ := opened
      have ha := activity?_open hopen
      obtain ⟨-, -, rfl⟩ := open?_eq_some hopen
      dsimp only
      split
      · exact .ended hkind rfl ha rfl
      · exact .ended hkind rfl ha rfl

theorem linkThrow_reports (hkind : e.kind = .throwEvent) {link : String}
    (hlink : e.linkName? = some link) : Reports e r (r.linkThrow element e link origin) := by
  unfold linkThrow
  split
  · exact .failed _ rfl
  · rename_i target htarget
    unfold openElement
    cases hopen : r.open? element origin (.element .completed) with
    | none => exact .failed _ rfl
    | some opened =>
        obtain ⟨r₁, n⟩ := opened
        have ha := activity?_open hopen
        obtain ⟨-, -, rfl⟩ := open?_eq_some hopen
        dsimp only
        split
        · exact .failed _ rfl
        · rename_i r₂ hwrite
          have hgrows := writeOutputs_grows hwrite
          have hevent : r₂.inst.elementEvent e .completed = r.inst.elementEvent e .completed := by
            rw [Instance.elementEvent, hgrows.key, hgrows.definition]
            rfl
          rw [activity?, ← writeOutputs_activities hwrite] at ha
          refine .thrown (a := ⟨r.keys.next, element, origin, .element .completed⟩) hkind hlink
            htarget ?_ ha rfl
          show r₂.audit ++ [r₂.inst.elementEvent e .completed] = _
          rw [writeOutputs_audit hwrite, hevent]

/-- A catch event may have a race settled besides. -/
theorem catchEvent_reports (hkind : e.kind = .catchEvent) :
    Reports e r (r.catchEvent element e origin) := by
  have h := catchBody_silent r element e origin
  unfold catchEvent
  generalize r.catchBody element e origin = out at h
  obtain ⟨r', error | step⟩ := out
  · exact .failed error h.1
  · refine .silent h.1 ?_ fun _ => by simp [hkind]
    rw [h.2 step rfl, List.nil_append]
    unfold raceCommands
    split
    · split
      · exact .inr ⟨_, rfl⟩
      · exact .inl rfl
    · exact .inl rfl

theorem throwEvent_reports (hkind : e.kind = .throwEvent) :
    Reports e r (r.throwEvent element e origin) := by
  unfold throwEvent
  split
  · rename_i link hlink
    exact linkThrow_reports hkind hlink
  · unfold openElement
    split
    · exact .failed _ rfl
    · rename_i r₁ n hopen
      exact .silent (open?_audit hopen) (.inl rfl) fun h => by cases h

theorem handle_reports (r : Run) (element : Nat) (e : Element) (origin : Option Nat)
    (via : Option String) : Reports e r (r.handle element e origin via) := by
  unfold handle
  cases hkind : e.kind <;> dsimp only
  case endEvent => exact endEvent_reports hkind
  case throwEvent => exact throwEvent_reports hkind
  case catchEvent => exact catchEvent_reports hkind
  all_goals refine Silent.reports ?_ (by simp [hkind]) (by simp [hkind])
  case startEvent | exclusiveGateway => exact openElement_silent r element origin _ _
  case serviceTask | userTask => exact handleJob_silent r element e origin
  case parallelGateway => exact parallelGateway_silent r element e origin via
  case eventBasedGateway => exact eventBasedGateway_silent r element origin

end Handlers

/-! ## Visits -/

/-- A visit completes an activity, which is new or was open before. -/
structure Completes (element : Nat) (e : Element) (origin : Option Nat) (n : Nat)
    (r r' : Run) : Prop where
  moves : Moves element e origin n r r'
  new_or_open : n = r.inst.activities.length ∨ ∃ a, r.activity? n = some a ∧ Reuses element e a
  done : ∃ a, r'.activity? n = some a ∧ a.state = .completed

/-- What a visit can come to, by its reports and the commands that follow. -/
inductive Outcome (element : Nat) (e : Element) (origin : Option Nat) (r : Run) :
    Run × List Command → Prop
  | fails {r' : Run} (error : EngineError) (haudit : r'.audit = r.audit) :
      Outcome element e origin r (r', [.fail error])
  | rests {r' : Run} {commands : List Command} (haudit : r'.audit = r.audit)
      (hsettles : Settles commands) : Outcome element e origin r (r', commands)
  | passes {r' : Run} {n : Nat} {settles flows : List Command} (hend : e.kind ≠ .endEvent)
      (hthrow : e.kind ≠ .throwEvent)
      (haudit : r'.audit = r.audit ++ [r.inst.elementEvent e .completed])
      (hsettles : Settles settles)
      (hflows : flows = if e.outgoing.isEmpty then [] else [.takeFlows n e.outgoing])
      (h : Completes element e origin n r r') :
      Outcome element e origin r (r', settles ++ flows)
  | ends {r' : Run} {n : Nat} (hkind : e.kind = .endEvent)
      (haudit : r'.audit = r.audit ++ [r.inst.elementEvent e .completed])
      (h : Completes element e origin n r r') : Outcome element e origin r (r', [])
  | jumps {r' : Run} {n target : Nat} {link : String} (hkind : e.kind = .throwEvent)
      (hlink : e.linkName? = some link) (htarget : linkTarget? r.diagram link = some target)
      (haudit : r'.audit = r.audit ++ [r.inst.elementEvent e .completed])
      (h : Completes element e origin n r r') :
      Outcome element e origin r (r', [.enter target (some n) none])

/-- **A visit reports the completion of its element where flow goes on, and
nothing otherwise.** -/
theorem visit_outcome (r : Run) (element : Nat) (e : Element) (origin : Option Nat)
    (via : Option String) : Outcome element e origin r (r.visit element e origin via) := by
  have hreports := handle_reports r element e origin via
  have hspec := handle_spec r element e origin via
  unfold visit
  generalize r.handle element e origin via = out at hreports hspec
  cases hspec with
  | failed n h hbreak =>
      cases hreports with
      | failed _ haudit => exact .fails _ haudit
  | @handled r' step a h hfrom ha hdone hadds hrest =>
      cases hreports with
      | silent haudit hextra hkind =>
          obtain ⟨n, continues, extra⟩ := step
          cases continues with
          | false => exact .rests haudit hextra
          | true =>
              obtain ⟨hend, hthrow⟩ := hkind rfl
              obtain ⟨opened, hgrows⟩ := Moves.exists_grows h
              have hevent : r'.inst.elementEvent e .completed =
                  r.inst.elementEvent e .completed := by
                rw [Instance.elementEvent, hgrows.key, hgrows.definition]
                rfl
              have haudit' : (r'.reportElement e .completed).audit =
                  r.audit ++ [r.inst.elementEvent e .completed] := by
                show r'.audit ++ [r'.inst.elementEvent e .completed] = _
                rw [haudit, hevent]
              have hcompletes : Completes element e origin n r (r'.reportElement e .completed) :=
                ⟨h.tail (.report r' .completed), hfrom, a, ha, hdone rfl⟩
              have hpasses := Outcome.passes hend hthrow haudit' hextra rfl hcompletes
              cases hout : e.outgoing.isEmpty <;> simpa [proceed, hout] using hpasses
      | ended hkind haudit ha' hdone' => exact .ends hkind haudit ⟨h, hfrom, _, ha', hdone'⟩
      | thrown hkind hlink htarget haudit ha' hdone' =>
          exact .jumps hkind hlink htarget haudit ⟨h, hfrom, _, ha', hdone'⟩

end ProcessEngine.Run
