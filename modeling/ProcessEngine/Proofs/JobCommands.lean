import ProcessEngine.Proofs.InstanceHistory
import ProcessEngine.Proofs.JoblessElements

/-!
# What a command does about jobs

A task attends to a single job, which was open before or is new.  It is called
for at most once, and only the ending of that call decides what becomes of the
job.  A command that leads to any other element, or to none, leaves all jobs as
they were.

Main statement: `Dispatch.Underway.attends`, by which flow goes on from a job
where the command that attends to it completes it, and from no job otherwise.
-/

namespace ProcessEngine

/-- A job stands at a task, which is the first element with its id. -/
theorem Instance.Sound.job_element {i : Instance} (hi : i.Sound) {n : Nat} {a : Activity} {j : Job}
    (ha : i.activities[n]? = some a) (hj : a.body = .job j) :
    ∃ e, i.diagram.elements[a.element]? = some e ∧
      (e.kind = .serviceTask ∨ e.kind = .userTask) ∧ j.elementId = e.id ∧
      i.diagram.findElement? e.id = some a.element := by
  obtain ⟨e, he, hfits, hfirst⟩ := hi.fits ha
  rw [hj] at hfits hfirst
  cases hfits with
  | job _ hkind _ hid => exact ⟨e, he, hkind, hid, hfirst.resolve_left nofun⟩

namespace Run

/-! ## Tasks -/

/-- Between two moments of a run the handler of an element was called, once, for a job under a
key; it left a scope and an ending. -/
structure Invokes (r : Run) (e : Element) (key : Int) (j : Job) (scope : Variables)
    (ending : Option JobOutcome) (r' : Run) : Prop where
  recorded : ∃ call, r'.calls = r.calls ++ [call] ∧ call.jobKey = key
  ran : r.Ran e (r.jobInfo e key j) scope ending

/-- What becomes of an open job that a task attends to: the handler is not called and the job not
completed, or the ending of the call decides. -/
inductive Fate (r : Run) (e : Element) (key : Int) (j next : Job) (r' : Run) : Prop
  | uncalled (hcalls : r'.calls = r.calls) (hnext : next.state ≠ .completed)
  | called {scope : Variables} {ending : Option JobOutcome}
      (h : r.Invokes e key j scope ending r') (hends : next.state.terminal = ending.isSome)
      (hcompletes : next.state = .completed ↔
        ending = some .completed ∧ ∃ values, Outputs scope e.outputs values)

/-- Between two moments of a run a task attends to a job: an open one that is found, or a new
one.  No other activity changes. -/
structure Attends (r : Run) (e : Element) (n : Nat) (a : Activity) (j next : Job)
    (r' : Run) : Prop where
  kind : e.kind = .serviceTask ∨ e.kind = .userTask
  element : r.diagram.elements[a.element]? = some e
  first : r.diagram.findElement? e.id = some a.element
  body : a.body = .job j
  isOpen : j.state.terminal = false
  taken : r.inst.findOpenJob? e.id = some n ∧ r.activity? n = some a ∨
    r.inst.findOpenJob? e.id = none ∧ n = r.inst.activities.length
  createdAt : next.createdAt = j.createdAt
  activity : r'.activity? n = some { a with body := .job next }
  others : ∀ m, m ≠ n → r'.activity? m = r.activity? m
  fate : r.Fate e a.key j next r'

/-- The result that goes with what becomes of a job: flow goes on if the job is completed. -/
def Goes (n : Nat) (next : Job) (result : Except EngineError Step) : Prop :=
  result = .ok ⟨n, next.state == .completed, []⟩ ∨
    next.state ≠ .completed ∧ ∃ error, result = .error error

section Tasks

variable {r r₁ : Run} {element n : Nat} {e : Element} {origin : Option Nat} {a : Activity}
  {j : Job}

/-- Taking a job changes no other activity, and nothing that a handler is told. -/
theorem openJob?_keeps (h : r.openJob? element e origin = some (r₁, n)) :
    r₁.calls = r.calls ∧ (∀ m, m ≠ n → r₁.activity? m = r.activity? m) ∧ r₁.Ran e = r.Ran e ∧
      r₁.jobInfo e = r.jobInfo e := by
  unfold openJob? at h
  split at h
  · cases h
    exact ⟨rfl, fun _ _ => rfl, rfl, rfl⟩
  · obtain ⟨-, rfl, rfl⟩ := open?_eq_some h
    refine ⟨rfl, fun m hm => ?_, rfl, rfl⟩
    show (r.inst.activities ++ [_])[m]? = r.inst.activities[m]?
    rcases Nat.lt_or_gt_of_ne hm with hlt | hgt
    · rw [List.getElem?_append_left hlt]
    · rw [List.getElem?_eq_none (by simp; omega), List.getElem?_eq_none (by omega)]

/-- A task is entered only where it is the first element with its id. -/
theorem Welcome.first_of_task (h : Welcome element e origin r)
    (hkind : e.kind = .serviceTask ∨ e.kind = .userTask) :
    r.diagram.findElement? e.id = some element := by
  refine h.first.resolve_left fun ⟨hslot, _⟩ => ?_
  rcases hkind with hkind | hkind <;> simpa [Element.slot?, hkind] using hslot 0

/-- The job that a task takes belongs to it. -/
theorem openJob?_element (hr : r.inst.Sound) (hwelcome : Welcome element e origin r)
    (hkind : e.kind = .serviceTask ∨ e.kind = .userTask)
    (h : r.openJob? element e origin = some (r₁, n)) (ha : r₁.activity? n = some a) :
    a.element = element ∧ (r.inst.findOpenJob? e.id = some n ∧ r.activity? n = some a ∨
      r.inst.findOpenJob? e.id = none ∧ n = r.inst.activities.length) := by
  unfold openJob? at h
  split at h
  · rename_i m hfind
    cases h
    refine ⟨?_, .inl ⟨hfind, ha⟩⟩
    obtain ⟨hlt, htest, -⟩ := List.findIdx?_eq_some_iff_getElem.mp hfind
    have ha' : r.inst.activities[n]? = some a := ha
    rw [List.getElem?_eq_getElem hlt, Option.some.injEq] at ha'
    rw [ha', Bool.and_eq_true, Option.any_eq_true] at htest
    obtain ⟨-, j, hj, hid⟩ := htest
    obtain ⟨e', -, -, hid', hfirst⟩ := hr.job_element ha (Activity.job?_eq_some.mp hj)
    have hsame : e'.id = e.id := hid'.symm.trans (by simpa using hid)
    rw [hsame] at hfirst
    exact Option.some.inj (hfirst.symm.trans (hwelcome.first_of_task hkind))
  · rename_i hfree
    obtain rfl := Option.some.inj ((activity?_open h).symm.trans ha)
    exact ⟨rfl, .inr ⟨hfree, (open?_eq_some h).2.1⟩⟩

/-- Outputs do not both have values and fail. -/
theorem not_outputs_of_failsAt {vars : Variables} {outputs : List Mapping} {error : ExprError}
    {values : List (String × Json)} (h : FailsAt vars outputs error) :
    ¬ Outputs vars outputs values := by
  intro houtputs
  obtain ⟨scope, hscope, -⟩ := propagateOutputs_of_outputs [] houtputs
  rw [propagateOutputs_of_failsAt h] at hscope
  cases hscope

theorem attempt_of_ran_fst {g : Registration} {info : JobInfo} {scope : Variables}
    {ending : Option JobOutcome} (h : r.Ran e info scope ending) (position : Nat) :
    ∃ call, (r.attempt e position g info).1 = r.recordCall call ∧ call.jobKey = info.key := by
  obtain ⟨-, vars, -, hinputs, -, -⟩ := h
  rw [attempt, hinputs]
  exact ⟨_, rfl, rfl⟩

theorem calls_finishJob (r : Run) (e : Element) (n : Nat) (attempt : Attempt) :
    (r.finishJob e n attempt).1.calls = r.calls := by
  cases attempt <;> rfl

/-- What is known of a job that a task has taken, once it is known what the call leaves. -/
theorem Leaves.attends {next : Job} {vars : Variables} {state : InstanceState}
    {result : Except EngineError Step} {out : Handled} (hr : r.inst.Sound)
    (hwelcome : Welcome element e origin r) (hkind : e.kind = .serviceTask ∨ e.kind = .userTask)
    (hopen : r.openJob? element e origin = some (r₁, n)) (ha : r₁.activity? n = some a)
    (hj : a.body = .job j) (hstate : j.state.terminal = false)
    (h : r₁.Leaves n a next vars state result out) (hcreated : next.createdAt = j.createdAt)
    (hgoes : Goes n next result) (hfate : r.Fate e a.key j next out.1) :
    r.Attends e n a j next out.1 ∧ Goes n next out.2 := by
  obtain ⟨helement, htaken⟩ := openJob?_element hr hwelcome hkind hopen ha
  obtain ⟨-, hothers, -, -⟩ := openJob?_keeps hopen
  exact ⟨⟨hkind, by rw [helement, hwelcome.element_at],
    by rw [helement, hwelcome.first_of_task hkind], hj, hstate, htaken, hcreated, h.activity,
    fun m hm => (h.others m hm).trans (hothers m hm), hfate⟩, h.result ▸ hgoes⟩

/-- **What handling a task comes to.**  No key is left for a job, or a job is attended to. -/
theorem handleJob_attends (hr : r.inst.Sound) (hwelcome : Welcome element e origin r)
    (hkind : e.kind = .serviceTask ∨ e.kind = .userTask) :
    (r.inst.findOpenJob? e.id = none ∧ r.keys.issue = none ∧
        r.handleJob element e origin = (r, .error .keysExhausted)) ∨
      ∃ n a j next, r.Attends e n a j next (r.handleJob element e origin).1 ∧
        Goes n next (r.handleJob element e origin).2 := by
  cases hopen : r.openJob? element e origin with
  | none =>
      refine .inl ?_
      have hhandle : r.handleJob element e origin = (r, .error .keysExhausted) := by
        rw [handleJob, hopen]
      unfold openJob? at hopen
      split at hopen
      · cases hopen
      · rename_i hfree
        refine ⟨hfree, ?_, hhandle⟩
        unfold open? at hopen
        split at hopen
        · assumption
        · cases hopen
  | some taken =>
      obtain ⟨r₁, n⟩ := taken
      obtain ⟨a, j, htakes, hj, hstate⟩ := openJob?_takes hkind hopen
      have ha := htakes.activity?
      obtain ⟨hcalls, -, hran, hinfo⟩ := openJob?_keeps hopen
      have hnot : j.state ≠ .completed := by
        intro h
        rw [h] at hstate
        cases hstate
      have hfailed : ActivityState.failed ≠ .completed := by decide
      refine .inr ⟨n, a, j, ?_⟩
      cases hg : r₁.handlerOf? e with
      | none =>
          have hleaves := handleJob_waits hopen ha hj hstate (.inl hg)
          refine ⟨j, hleaves.attends hr hwelcome hkind hopen ha hj hstate rfl
            (.inl (by simp [hnot])) (.uncalled ?_ hnot)⟩
          rw [handleJob_of_none hopen hg, hcalls]
      | some g =>
          obtain ⟨position, hhandle⟩ := handleJob_of_some hopen ha hj hg
          obtain ⟨scope, ending, hcalled⟩ | ⟨vars, error, hinputs⟩ :=
            ran_or_inputs_fail hg (r₁.jobInfo e a.key j)
          · obtain ⟨call, hcall, hkey⟩ := attempt_of_ran_fst (g := g) hcalled position
            have hinvokes : r.Invokes e a.key j scope ending (r.handleJob element e origin).1 := by
              refine ⟨⟨call, ?_, hkey⟩, ?_⟩
              · rw [hhandle, calls_finishJob, hcall, ← hcalls]
                rfl
              · rwa [← hran, ← hinfo]
            cases ending with
            | none =>
                have hleaves := handleJob_waits hopen ha hj hstate (.inr ⟨scope, hcalled⟩)
                exact ⟨j, hleaves.attends hr hwelcome hkind hopen ha hj hstate rfl
                  (.inl (by simp [hnot])) (.called hinvokes hstate (by simp [hnot]))⟩
            | some outcome =>
                cases outcome with
                | failed reason =>
                    have hleaves := handleJob_fails hopen ha hj hstate scope reason hcalled
                    exact ⟨_, hleaves.attends hr hwelcome hkind hopen ha hj hstate rfl (.inl rfl)
                      (.called hinvokes rfl (by simp))⟩
                | completed =>
                    obtain ⟨values, houtputs⟩ | ⟨error, hfails⟩ :=
                      outputs_or_failsAt scope e.outputs
                    · have hleaves :=
                        handleJob_completes hopen ha hj hstate scope values hcalled houtputs
                      exact ⟨_, hleaves.attends hr hwelcome hkind hopen ha hj hstate rfl
                        (.inl rfl) (.called hinvokes rfl (by simpa using ⟨values, houtputs⟩))⟩
                    · have hleaves := handleJob_breaks hopen ha hj hstate error
                        (.inr ⟨scope, hcalled, hfails⟩)
                      refine ⟨_, hleaves.attends hr hwelcome hkind hopen ha hj hstate rfl
                        (.inr ⟨hfailed, _, rfl⟩)
                        (.called hinvokes rfl ⟨(absurd · hfailed), fun h => ?_⟩)⟩
                      obtain ⟨-, values, houtputs⟩ := h
                      exact absurd houtputs (not_outputs_of_failsAt hfails)
          · have hleaves := handleJob_breaks hopen ha hj hstate error (.inl ⟨g, vars, hg, hinputs⟩)
            refine ⟨_, hleaves.attends hr hwelcome hkind hopen ha hj hstate rfl
              (.inr ⟨hfailed, _, rfl⟩) (.uncalled ?_ hfailed)⟩
            rw [hhandle, calls_finishJob, attempt_of_inputs_fail hinputs, hcalls]

/-- Reports make no difference to a job. -/
theorem Attends.of_report {next : Job} {r' : Run} {event : AuditEvent}
    (h : (r.report event).Attends e n a j next r') : r.Attends e n a j next r' := by
  refine ⟨h.kind, h.element, h.first, h.body, h.isOpen, h.taken, h.createdAt, h.activity,
    h.others, ?_⟩
  cases h.fate with
  | uncalled hcalls hnext => exact .uncalled hcalls hnext
  | called hinvokes hends hcompletes =>
      exact .called ⟨hinvokes.recorded, hinvokes.ran⟩ hends hcompletes

theorem Attends.congr {next : Job} {r' r'' : Run} (h : r.Attends e n a j next r')
    (hcalls : r''.calls = r'.calls) (hinst : r''.inst = r'.inst) :
    r.Attends e n a j next r'' := by
  refine ⟨h.kind, h.element, h.first, h.body, h.isOpen, h.taken, h.createdAt, ?_,
    fun m hm => ?_, ?_⟩
  · rw [activity?, hinst]
    exact h.activity
  · rw [activity?, hinst]
    exact h.others m hm
  · cases h.fate with
    | uncalled hsame hnext => exact .uncalled (hcalls.trans hsame) hnext
    | called hinvokes hends hcompletes =>
        exact .called ⟨hcalls ▸ hinvokes.recorded, hinvokes.ran⟩ hends hcompletes

end Tasks

end Run

/-! ## Commands -/

namespace Dispatch

/-- The element that a command leads to, and what handling it comes to. -/
def handling? (d : Dispatch) : Option (Element × Handled) :=
  match d.command with
  | .enter element origin via =>
    d.before.diagram.elements[element]?.map fun e =>
      (e, (d.before.reportElement e .activated).handle element e origin via)
  | .resume n origin =>
    (d.before.activity? n).bind fun a =>
      d.before.diagram.elements[a.element]?.map fun e =>
        (e, d.before.handle a.element e origin none)
  | _ => none

/-- Flow goes on from the activity at a position. -/
def continuesFrom (n : Nat) (d : Dispatch) : Bool :=
  d.handling?.any fun handling =>
    match handling.2.2 with
    | .ok step => step.continues && step.activity == n
    | .error _ => false

section Handling

variable {d : Dispatch} {e : Element} {out : Handled}

/-- The command visits the element that it leads to; a command of a run is welcome there. -/
theorem visit_of_handling (h : d.handling? = some (e, out)) :
    ∃ r element origin via, (r = d.before ∨ r = d.before.reportElement e .activated) ∧
      out = r.handle element e origin via ∧
      d.before.dispatch d.command = r.visit element e origin via ∧
      (d.Underway → Run.Welcome element e origin d.before) := by
  obtain ⟨r, c⟩ := d
  cases c with
  | enter element origin via =>
      obtain ⟨e', he, heq⟩ := Option.map_eq_some_iff.mp h
      cases heq
      refine ⟨_, element, origin, via, .inr rfl, rfl, Run.dispatch_enter he _ _, fun hd => ?_⟩
      exact Run.welcome_enter (hd.sound.2 _ List.mem_cons_self) he
  | resume n origin =>
      obtain ⟨a, ha, h⟩ := Option.bind_eq_some_iff.mp h
      obtain ⟨e', he, heq⟩ := Option.map_eq_some_iff.mp h
      cases heq
      refine ⟨_, a.element, origin, none, .inl rfl, rfl, Run.dispatch_resume ha he _, fun hd => ?_⟩
      exact Run.welcome_resume hd.sound.1 (hd.sound.2 _ List.mem_cons_self) ha he
  | _ => cases h

/-- After an element is handled there are only reports to be made. -/
theorem after_of_handling (h : d.handling? = some (e, out)) :
    d.after.calls = out.1.calls ∧ d.after.inst = out.1.inst := by
  obtain ⟨r, element, origin, via, -, hout, hvisit, -⟩ := visit_of_handling h
  rw [after, hvisit, Run.visit, ← hout]
  obtain ⟨r', error | step⟩ := out
  · exact ⟨rfl, rfl⟩
  · dsimp only
    unfold Run.proceed
    split <;> exact ⟨rfl, rfl⟩

/-- Where flow goes on, the outgoing flows are to be taken. -/
theorem follow_of_handling {r' : Run} {step : Step} (h : d.handling? = some (e, r', .ok step)) :
    d.follow = if step.continues && !e.outgoing.isEmpty then
      step.extra ++ [.takeFlows step.activity e.outgoing] else step.extra := by
  obtain ⟨r, element, origin, via, -, hout, hvisit, -⟩ := visit_of_handling h
  rw [follow, hvisit, Run.visit, ← hout]
  dsimp only
  unfold Run.proceed
  cases step.continues <;> cases e.outgoing.isEmpty <;> rfl

theorem follow_of_error {r' : Run} {error : EngineError}
    (h : d.handling? = some (e, r', .error error)) : d.follow = [.fail error] := by
  obtain ⟨r, element, origin, via, -, hout, hvisit, -⟩ := visit_of_handling h
  rw [follow, hvisit, Run.visit, ← hout]

/-- A command that leads to no element leaves all jobs alone, and flow does not go on from it. -/
theorem keepsJobs_of_no_handling (h : d.handling? = none) :
    d.before.KeepsJobs d.after ∧ ∀ n flows, .takeFlows n flows ∉ d.follow := by
  obtain ⟨r, c⟩ := d
  have hidle : r.dispatch c = (r, []) → r.KeepsJobs (r.dispatch c).1 ∧
      ∀ n flows, .takeFlows n flows ∉ (r.dispatch c).2 := by
    intro hdispatch
    rw [hdispatch]
    exact ⟨.refl r, fun _ _ h => by cases h⟩
  cases c with
  | takeFlows source flows => exact r.takeFlows_keepsJobs source flows
  | enter element origin via =>
      have hnone := Option.map_eq_none_iff.mp h
      exact hidle (by simp only [Run.dispatch, hnone])
  | resume n origin =>
      refine hidle ?_
      simp only [Run.dispatch]
      cases ha : r.activity? n with
      | none => rfl
      | some a =>
          have hnone := Option.map_eq_none_iff.mp (Option.bind_eq_none_iff.mp h a ha)
          simp only [hnone]
  | settleRace gateway => exact ⟨.settleRace r gateway, fun _ _ h => by cases h⟩
  | fail error => exact hidle rfl

/-- Flows are to be taken from an activity where flow goes on from it, and nowhere else. -/
theorem continuesFrom_of_takeFlows {n : Nat} {flows : List String}
    (h : .takeFlows n flows ∈ d.follow) : d.continuesFrom n = true := by
  cases hhandling : d.handling? with
  | none => exact absurd h ((keepsJobs_of_no_handling hhandling).2 n flows)
  | some handling =>
      obtain ⟨e, out⟩ := handling
      obtain ⟨r, element, origin, via, -, hout, -, -⟩ := visit_of_handling hhandling
      have hspec := Run.handle_spec r element e origin via
      rw [← hout] at hspec
      cases hspec with
      | failed n h' hbreak =>
          rw [follow_of_error hhandling] at h
          cases List.mem_singleton.mp h
      | @handled r' step a h' hfrom ha hdone hadds hrest =>
          have hextra : .takeFlows n flows ∉ step.extra := by
            intro hmem
            generalize step.extra = extra at hadds hmem
            cases hadds with
            | nothing => cases hmem
            | race =>
                obtain ⟨gateway, hsettle⟩ := Run.eq_settleRace_of_mem hmem
                cases hsettle
            | jump => cases List.mem_singleton.mp hmem
          rw [follow_of_handling hhandling] at h
          split at h
          · rename_i hgoes
            rcases List.mem_append.mp h with h | h
            · exact absurd h hextra
            · cases List.mem_singleton.mp h
              simp only [Bool.and_eq_true] at hgoes
              simp [continuesFrom, hhandling, hgoes.1]
          · exact absurd h hextra

/-- Flow goes on from an activity that is there. -/
theorem lt_of_continuesFrom {n : Nat} (h : d.continuesFrom n = true) :
    n < d.after.inst.activities.length := by
  obtain ⟨⟨e, out⟩, hhandling, hgoes⟩ := (Option.any_eq_true _ _).mp h
  obtain ⟨r, element, origin, via, -, hout, -, -⟩ := visit_of_handling hhandling
  have hspec := Run.handle_spec r element e origin via
  rw [← hout] at hspec
  cases hspec with
  | failed => cases hgoes
  | handled h' hfrom ha =>
      simp only [Bool.and_eq_true, beq_iff_eq] at hgoes
      obtain ⟨-, rfl⟩ := hgoes
      rw [(after_of_handling hhandling).2]
      exact (List.getElem?_eq_some_iff.mp ha).1

/-- **What a command of a run does about jobs.**  It leaves all of them as they were, and flow
goes on from none; or it attends to one of them, and flow goes on from this one if it is completed
and from no other. -/
theorem Underway.attends (hd : d.Underway) :
    (d.before.KeepsJobs d.after ∧ ∀ n b, d.after.activity? n = some b → b.job?.isSome = true →
        d.continuesFrom n = false) ∨
      ∃ e n a j next, d.before.Attends e n a j next d.after ∧
        (∀ m, d.continuesFrom m = true ↔ m = n ∧ next.state = .completed) ∧
        (next.state = .completed →
          d.follow = if e.outgoing.isEmpty then [] else [.takeFlows n e.outgoing]) := by
  cases hhandling : d.handling? with
  | none =>
      refine .inl ⟨(keepsJobs_of_no_handling hhandling).1, fun n b _ _ => ?_⟩
      rw [continuesFrom, hhandling]
      rfl
  | some handling =>
      obtain ⟨e, out⟩ := handling
      obtain ⟨hcalls, hinst⟩ := after_of_handling hhandling
      obtain ⟨r, element, origin, via, hr, hout, -, hwelcome⟩ := visit_of_handling hhandling
      have hbefore : d.before.KeepsJobs r := by
        rcases hr with rfl | rfl <;> exact .of_activities rfl rfl
      have hafter : out.1.KeepsJobs d.after := .of_activities hcalls (by rw [hinst])
      by_cases hkind : e.kind = .serviceTask ∨ e.kind = .userTask
      · have hsound : r.inst.Sound := by
          rcases hr with rfl | rfl <;> exact hd.sound.1
        have hwelcome : Run.Welcome element e origin r := by
          obtain ⟨helement, hfirst, horigin⟩ := hwelcome hd
          rcases hr with rfl | rfl <;> exact ⟨helement, hfirst, horigin⟩
        have hjob : out = r.handleJob element e origin := by
          rw [hout, Run.handle]
          rcases hkind with hkind | hkind <;> rw [hkind]
        rcases Run.handleJob_attends hsound hwelcome hkind with ⟨-, -, hrefused⟩ |
          ⟨n, a, j, next, hattends, hgoes⟩
        · rw [← hjob] at hrefused
          subst hrefused
          refine .inl ⟨hbefore.trans hafter, fun m b _ _ => ?_⟩
          rw [continuesFrom, hhandling]
          rfl
        · rw [← hjob] at hattends hgoes
          have hbetween : d.before.Attends e n a j next d.after := by
            rcases hr with rfl | rfl
            · exact hattends.congr hcalls hinst
            · exact (hattends.congr hcalls hinst).of_report
          obtain ⟨r', result⟩ := out
          refine .inr ⟨e, n, a, j, next, hbetween, fun m => ?_, fun hdone => ?_⟩
          · rw [continuesFrom, hhandling]
            rcases hgoes with rfl | ⟨hnot, error, rfl⟩
            · simp only [Option.any_some, Bool.and_eq_true, beq_iff_eq]
              exact ⟨fun h => ⟨h.2.symm, h.1⟩, fun h => ⟨h.2, h.1.symm⟩⟩
            · simp [hnot]
          · rcases hgoes with rfl | ⟨hnot, -⟩
            · rw [follow_of_handling hhandling, hdone]
              cases e.outgoing.isEmpty <;> rfl
            · exact absurd hdone hnot
      · have hjobless : Run.Jobless r out := by
          rw [hout]
          exact Run.handle_jobless hkind via
        refine .inl ⟨(hbefore.trans hjobless.keeps).trans hafter, fun n b hb hjob => ?_⟩
        rw [continuesFrom, hhandling]
        obtain ⟨r', error | step⟩ := out
        · rfl
        · by_contra hgoes
          simp only [Option.any_some, Bool.not_eq_false, Bool.and_eq_true, beq_iff_eq] at hgoes
          obtain ⟨-, rfl⟩ := hgoes
          rw [Run.activity?, hinst] at hb
          rw [hjobless.activity rfl hb] at hjob
          cases hjob

end Handling

end Dispatch

end ProcessEngine
