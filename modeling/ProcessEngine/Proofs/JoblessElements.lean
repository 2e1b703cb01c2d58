import ProcessEngine.Proofs.JobOutcomes
import ProcessEngine.Proofs.RunGrowth

/-!
# Elements without jobs

Jobs are the business of tasks alone.  No other element calls a handler, and
none changes a job or makes one, nor is the activity that stands for it a job.
The moves of a visit do not tell this where a visit ends with an error, so it is
shown handler by handler.

Main statement: `handle_jobless`.
-/

namespace ProcessEngine

namespace Activity

/-- Whether an activity is a job is fixed at its creation. -/
theorem isSome_job?_of_frame {a b : Activity} (h : b.frame = a.frame) :
    b.job?.isSome = a.job?.isSome := by
  have hbody : b.body.frame = a.body.frame := congrArg body h
  unfold job?
  cases hb : b.body <;> cases ha : a.body <;> simp_all [ActivityBody.frame]

theorem job?_eq_some {a : Activity} {j : Job} : a.job? = some j ↔ a.body = .job j := by
  unfold job?
  cases a.body <;> simp

/-- A race has no job to win. -/
theorem winRace_of_job {a : Activity} (h : a.job?.isSome = true) (id : String) :
    a.winRace id = a := by
  obtain ⟨j, hj⟩ := Option.isSome_iff_exists.mp h
  simp only [winRace, job?_eq_some.mp hj]

theorem settle_of_job {a : Activity} (h : a.job?.isSome = true) : a.settle = a := by
  obtain ⟨j, hj⟩ := Option.isSome_iff_exists.mp h
  simp only [settle, job?_eq_some.mp hj]

end Activity

namespace Run

/-! ## Leaving jobs alone -/

/-- Between two moments of a run no handler is called, and every job is as it was. -/
structure KeepsJobs (r r' : Run) : Prop where
  calls : r'.calls = r.calls
  jobs : ∀ ⦃n : Nat⦄ ⦃b : Activity⦄, r'.activity? n = some b → b.job?.isSome = true →
    r.activity? n = some b

section KeepsJobs

variable {r r₁ r₂ r' : Run} {element n : Nat} {e : Element} {origin : Option Nat} {a : Activity}

theorem KeepsJobs.of_activities (hcalls : r'.calls = r.calls)
    (hactivities : r'.inst.activities = r.inst.activities) : KeepsJobs r r' :=
  ⟨hcalls, fun n b hb _ => by rwa [activity?, hactivities] at hb⟩

theorem KeepsJobs.refl (r : Run) : KeepsJobs r r := .of_activities rfl rfl

theorem KeepsJobs.trans (h : KeepsJobs r r₁) (h' : KeepsJobs r₁ r₂) : KeepsJobs r r₂ :=
  ⟨h'.calls.trans h.calls, fun _ _ hb hjob => h.jobs (h'.jobs hb hjob) hjob⟩

theorem KeepsJobs.open? {body : ActivityBody} (h : r.open? element origin body = some (r₁, n))
    (hbody : ∀ j, body ≠ .job j) : KeepsJobs r r₁ := by
  have hnew := activity?_open h
  obtain ⟨-, rfl, rfl⟩ := open?_eq_some h
  refine ⟨rfl, fun m b hb hjob => ?_⟩
  by_cases hm : m = r.inst.activities.length
  · subst hm
    obtain rfl := Option.some.inj (hnew.symm.trans hb)
    obtain ⟨j, hj⟩ := Option.isSome_iff_exists.mp hjob
    exact absurd (Activity.job?_eq_some.mp hj) (hbody j)
  · have hb : (r.inst.activities ++ [_])[m]? = some b := hb
    have hlt : m < r.inst.activities.length := by
      have hlength := (List.getElem?_eq_some_iff.mp hb).1
      rw [List.length_append, List.length_singleton] at hlength
      omega
    rwa [List.getElem?_append_left hlt] at hb

/-- What changes an activity keeps the jobs if it changes no job and makes none. -/
theorem KeepsJobs.modifyActivity {f : Activity → Activity}
    (hf : ∀ a, r.activity? n = some a → (f a).job?.isSome = true → f a = a) :
    KeepsJobs r (r.modifyActivity n f) := by
  refine ⟨rfl, fun m b hb hjob => ?_⟩
  by_cases hm : m = n
  · subst hm
    rw [activity?_modify_self, Option.map_eq_some_iff] at hb
    obtain ⟨a, ha, rfl⟩ := hb
    rw [hf a ha hjob]
    exact ha
  · rwa [activity?_modifyActivity_ne hm] at hb

/-- An activity other than a job may change in every way that keeps its frame. -/
theorem KeepsJobs.modify_of_frame (f : Activity → Activity) (ha : r.activity? n = some a)
    (hjob : a.job? = none) (hframe : (f a).frame = a.frame) :
    KeepsJobs r (r.modifyActivity n f) := by
  refine .modifyActivity fun b hb hsome => ?_
  obtain rfl := Option.some.inj (ha.symm.trans hb)
  rw [Activity.isSome_job?_of_frame hframe, hjob] at hsome
  cases hsome

theorem KeepsJobs.advance (ha : r.activity? n = some a) (hjob : a.job? = none)
    (next : ActivityState) : KeepsJobs r (r.modifyActivity n fun a => a.advance next) :=
  .modify_of_frame _ ha hjob (a.frame_advance next)

theorem KeepsJobs.setTimer (ha : r.activity? n = some a) (hjob : a.job? = none)
    (next : TimerState) : KeepsJobs r (r.modifyActivity n fun a => a.setTimer next) :=
  .modify_of_frame _ ha hjob (a.frame_setTimer next)

/-- An activity that is no job stays none. -/
theorem KeepsJobs.job?_eq_none (h : KeepsJobs r r') (ha : r.activity? n = some a)
    (hjob : a.job? = none) {b : Activity} (hb : r'.activity? n = some b) : b.job? = none := by
  cases hsome : b.job? with
  | none => rfl
  | some j =>
      have hold := h.jobs hb (by simp [hsome])
      obtain rfl := Option.some.inj (ha.symm.trans hold)
      rw [hjob] at hsome
      cases hsome

theorem KeepsJobs.winRace (r : Run) (origin : Option Nat) (id : String) :
    KeepsJobs r (r.modify fun i => i.winRace origin id) := by
  cases origin with
  | none => exact .of_activities rfl rfl
  | some o =>
      refine .modifyActivity fun a _ hsome => Activity.winRace_of_job ?_ id
      rwa [Activity.isSome_job?_of_frame (a.frame_winRace id)] at hsome

theorem KeepsJobs.settleRace (r : Run) (gateway : Nat) :
    KeepsJobs r (r.modify fun i => i.settleRace gateway) := by
  refine ⟨rfl, fun n b hb hjob => ?_⟩
  simp only [Run.activity?, modify, Instance.settleRace] at hb ⊢
  split at hb
  · exact hb
  · simp only [List.getElem?_map, Option.map_eq_some_iff] at hb
    obtain ⟨a, ha, rfl⟩ := hb
    split at hjob
    · rename_i horigin
      rw [Activity.isSome_job?_of_frame a.frame_settle] at hjob
      rwa [if_pos horigin, Activity.settle_of_job hjob]
    · rename_i hother
      rwa [if_neg hother]

theorem KeepsJobs.writeOutputs (h : r.writeOutputs e = .ok r₁) : KeepsJobs r r₁ := by
  refine .of_activities ?_ (writeOutputs_activities h)
  unfold Run.writeOutputs at h
  split at h <;> cases h
  rfl

theorem KeepsJobs.receive {position : Nat} {caught : CaughtEvent} {error? : Option ExprError}
    (h : r.receive e position caught = (r₁, error?)) : KeepsJobs r r₁ := by
  obtain ⟨vars, rfl⟩ := receive_eq h
  exact .of_activities rfl rfl

/-- Taking flows is reported, and leads to other elements. -/
theorem takeFlows_keepsJobs (r : Run) (source : Nat) (flowIds : List String) :
    KeepsJobs r (r.takeFlows source flowIds).1 ∧
      ∀ n flows, .takeFlows n flows ∉ (r.takeFlows source flowIds).2 := by
  unfold takeFlows
  split
  · exact ⟨.refl r, fun _ _ h => by cases h⟩
  · split
    · exact ⟨.refl r, fun _ _ h => by cases List.mem_singleton.mp h⟩
    · refine ⟨.of_activities rfl rfl, fun n flows h => ?_⟩
      obtain ⟨f, -, htarget⟩ := List.mem_map.mp h
      unfold targetCommand at htarget
      split at htarget <;> cases htarget

theorem Takes.keepsJobs (h : Takes element e origin r r₁ n a) (hjob : a.job? = none) :
    KeepsJobs r r₁ := by
  cases h with
  | found => exact .refl _
  | opened _ hopen =>
      refine .open? hopen fun j hj => ?_
      subst hj
      cases hjob

end KeepsJobs

/-! ## Elements other than tasks -/

/-- Handling that leaves all jobs alone, for an activity that is none. -/
structure Jobless (r : Run) (out : Handled) : Prop where
  keeps : KeepsJobs r out.1
  activity : ∀ ⦃step : Step⦄, out.2 = .ok step → ∀ ⦃a : Activity⦄,
    out.1.activity? step.activity = some a → a.job? = none

section Jobless

variable {r r₁ r' : Run} {element n : Nat} {e : Element} {origin : Option Nat} {a : Activity}

theorem jobless_error {error : EngineError} (h : KeepsJobs r r') :
    Jobless r (r', .error error) :=
  ⟨h, nofun⟩

/-- What was taken is no job, and it becomes none. -/
theorem jobless_ok {continues : Bool} {extra : List Command} (h : KeepsJobs r r₁)
    (ha : r₁.activity? n = some a) (hjob : a.job? = none) (h' : KeepsJobs r₁ r') :
    Jobless r (r', .ok ⟨n, continues, extra⟩) := by
  refine ⟨h.trans h', fun step hstep b hb => ?_⟩
  cases hstep
  exact h'.job?_eq_none ha hjob hb

/-- The run and the position of an element that needs nothing but a state. -/
theorem openElement_cases (r : Run) (element : Nat) (origin : Option Nat) (state : ActivityState)
    (continues : Bool) :
    r.openElement element origin state continues = (r, .error .keysExhausted) ∨
      ∃ r₁ n a, r.openElement element origin state continues = (r₁, .ok ⟨n, continues, []⟩) ∧
        KeepsJobs r r₁ ∧ r₁.activity? n = some a ∧ a.job? = none := by
  unfold openElement
  cases hopen : r.open? element origin (.element state) with
  | none => exact .inl rfl
  | some opened =>
      obtain ⟨r₁, n⟩ := opened
      exact .inr ⟨r₁, n, _, rfl, .open? hopen nofun, activity?_open hopen, rfl⟩

theorem openElement_jobless (r : Run) (element : Nat) (origin : Option Nat)
    (state : ActivityState) (continues : Bool) :
    Jobless r (r.openElement element origin state continues) := by
  obtain herror | ⟨r₁, n, a, hopen, hkeeps, ha, hjob⟩ :=
    openElement_cases r element origin state continues
  · exact herror ▸ jobless_error (.refl r)
  · exact hopen ▸ jobless_ok hkeeps ha hjob (.refl r₁)

theorem eventBasedGateway_jobless (r : Run) (element : Nat) (origin : Option Nat) :
    Jobless r (r.eventBasedGateway element origin) := by
  unfold eventBasedGateway
  split
  · exact jobless_error (.refl r)
  · rename_i r₁ n hopen
    exact jobless_ok (.open? hopen nofun) (activity?_open hopen) rfl (.refl r₁)

theorem endEvent_jobless (r : Run) (element : Nat) (e : Element) (origin : Option Nat) :
    Jobless r (r.endEvent element e origin) := by
  unfold endEvent
  obtain herror | ⟨r₁, n, a, hopen, hkeeps, ha, hjob⟩ :=
    openElement_cases r element origin .completed false
  · rw [herror]
    exact jobless_error (.refl r)
  · rw [hopen]
    dsimp only
    split <;> exact jobless_ok hkeeps ha hjob (.of_activities rfl rfl)

theorem parallelGateway_jobless (hkind : e.kind = .parallelGateway) (via : Option String) :
    Jobless r (r.parallelGateway element e origin via) := by
  unfold parallelGateway
  split
  · exact jobless_error (.refl r)
  · rename_i r₁ n htake
    obtain ⟨a, g, htakes, hg, -, -⟩ := openGateway?_takes hkind htake
    have hjob : a.job? = none := by rw [Activity.job?, hg]
    have ha := htakes.activity?
    dsimp only
    -- the flow that has arrived, and then the end of the gateway
    have hfires : ∀ {r₂ : Run} {b : Activity}, KeepsJobs r₁ r₂ → r₂.activity? n = some b →
        b.job? = none → Jobless r (if r₂.gatewayFires e n then
          (r₂.modifyActivity n fun a => a.advance .completed, .ok ⟨n, true, []⟩)
        else (r₂, .ok ⟨n, false, []⟩)) := by
      intro r₂ b hkeeps hb hb'
      split
      · exact jobless_ok (htakes.keepsJobs hjob) ha hjob
          (hkeeps.trans (.advance hb hb' _))
      · exact jobless_ok (htakes.keepsJobs hjob) ha hjob hkeeps
    cases r₁.arrivedFlow? e origin via with
    | none => exact hfires (.refl r₁) ha hjob
    | some flow =>
        have hframe := a.frame_recordInbound flow
        have hkeeps : KeepsJobs r₁ (r₁.modifyActivity n fun a => a.recordInbound flow) :=
          .modify_of_frame _ ha hjob hframe
        have hn := activity?_modifyActivity_self (f := fun a => a.recordInbound flow) ha
        exact hfires hkeeps hn (hkeeps.job?_eq_none ha hjob hn)

theorem messageCatch_jobless {ref : Option String} (hkind : e.kind = .catchEvent)
    (hevent : e.event = some (.message ref)) : Jobless r (r.messageCatch element e origin) := by
  unfold messageCatch
  split
  · exact jobless_error (.refl r)
  · rename_i r₁ n htake
    obtain ⟨a, s, htakes, hs, -, -⟩ := openSubscription?_takes hkind hevent htake
    have hjob : a.job? = none := by rw [Activity.job?, hs]
    have ha := htakes.activity?
    have hkeeps := htakes.keepsJobs hjob
    have hidle : ∀ {extra : List Command}, Jobless r (r₁, .ok ⟨n, false, extra⟩) :=
      jobless_ok hkeeps ha hjob (.refl r₁)
    dsimp only
    split
    · exact jobless_ok hkeeps ha hjob (.advance ha hjob _)
    · split
      · exact hidle
      · split
        · exact hidle
        · split
          · exact hidle
          · split
            · rename_i r₂ error hreceive
              have ha₂ : r₂.activity? n = some a := by
                rw [activity?, receive_activities hreceive]
                exact ha
              exact jobless_error (hkeeps.trans ((KeepsJobs.receive hreceive).trans
                (.advance ha₂ hjob _)))
            · rename_i r₂ hreceive
              have ha₂ : r₂.activity? n = some a := by
                rw [activity?, receive_activities hreceive]
                exact ha
              exact jobless_ok hkeeps ha hjob ((KeepsJobs.receive hreceive).trans
                ((KeepsJobs.advance ha₂ hjob _).trans (.winRace _ _ _)))

theorem timerCatch_jobless {duration : Option String} (hkind : e.kind = .catchEvent)
    (hevent : e.event = some (.timer duration)) :
    Jobless r (r.timerCatch element e duration origin) := by
  unfold timerCatch
  split
  · exact jobless_error (.refl r)
  · rename_i r₁ n htake
    obtain ⟨a, t, htakes, ht, -, -⟩ := openTimer_takes hkind hevent htake
    have hjob : a.job? = none := by rw [Activity.job?, ht]
    have ha := htakes.activity?
    have hkeeps := htakes.keepsJobs hjob
    dsimp only
    split
    · exact jobless_ok hkeeps ha hjob (.setTimer ha hjob _)
    · split
      · exact jobless_ok hkeeps ha hjob (.refl r₁)
      · split
        · exact jobless_ok hkeeps ha hjob
            ((KeepsJobs.setTimer ha hjob _).trans (.winRace _ _ _))
        · exact jobless_ok hkeeps ha hjob (.refl r₁)

theorem linkCatch_jobless (r : Run) (element : Nat) (e : Element) (origin : Option Nat) :
    Jobless r (r.linkCatch element e origin) := by
  unfold linkCatch
  obtain herror | ⟨r₁, n, a, hopen, hkeeps, ha, hjob⟩ :=
    openElement_cases r element origin .completed true
  · rw [herror]
    exact jobless_error (.refl r)
  · rw [hopen]
    dsimp only
    split
    · exact jobless_error hkeeps
    · rename_i r₂ hwrite
      exact jobless_ok hkeeps ha hjob (.writeOutputs hwrite)

theorem catchEvent_jobless (hkind : e.kind = .catchEvent) :
    Jobless r (r.catchEvent element e origin) := by
  have h : Jobless r (r.catchBody element e origin) := by
    unfold catchBody
    split
    · rename_i hevent
      exact messageCatch_jobless hkind hevent
    · rename_i hevent
      exact timerCatch_jobless hkind hevent
    · exact linkCatch_jobless r element e origin
    · exact openElement_jobless r element origin _ _
  unfold catchEvent
  generalize r.catchBody element e origin = out at h
  obtain ⟨r', error | step⟩ := out
  · exact jobless_error h.keeps
  · refine ⟨h.keeps, fun step' hstep a ha => ?_⟩
    cases hstep
    exact h.activity rfl ha

theorem throwEvent_jobless (r : Run) (element : Nat) (e : Element) (origin : Option Nat) :
    Jobless r (r.throwEvent element e origin) := by
  unfold throwEvent
  split
  · unfold linkThrow
    split
    · exact jobless_error (.refl r)
    · obtain herror | ⟨r₁, n, a, hopen, hkeeps, ha, hjob⟩ :=
        openElement_cases r element origin .completed false
      · rw [herror]
        exact jobless_error (.refl r)
      · rw [hopen]
        dsimp only
        split
        · exact jobless_error hkeeps
        · rename_i r₂ hwrite
          exact jobless_ok hkeeps ha hjob ((KeepsJobs.writeOutputs hwrite).trans
            (.of_activities rfl rfl))
  · exact openElement_jobless r element origin _ _

/-- **Only tasks have to do with jobs.** -/
theorem handle_jobless (hkind : ¬ (e.kind = .serviceTask ∨ e.kind = .userTask))
    (via : Option String) : Jobless r (r.handle element e origin via) := by
  unfold handle
  cases h : e.kind <;> dsimp only
  case startEvent | exclusiveGateway => exact openElement_jobless r element origin _ _
  case endEvent => exact endEvent_jobless r element e origin
  case serviceTask => exact absurd (.inl h) hkind
  case userTask => exact absurd (.inr h) hkind
  case parallelGateway => exact parallelGateway_jobless h via
  case eventBasedGateway => exact eventBasedGateway_jobless r element origin
  case catchEvent => exact catchEvent_jobless h
  case throwEvent => exact throwEvent_jobless r element e origin

end Jobless

end Run

end ProcessEngine
