import ProcessEngine.Proofs.HandlingMoves
import ProcessEngine.Proofs.MappingOutcomes

/-!
# How a job ends

A job is given to a handler with a scope of its own: the variables of the
instance after the input mappings.  The handler may write to the scope before
and after it completes or fails the job, and only the first of those calls
counts.  What it has written reaches the instance when the job was completed and
all output mappings have values, all at once, and not otherwise.

Main statement: `handleJob_outcomes`, by which one call comes to one of five ends,
each with the variables, the job, the state of the instance and the result that
it leaves.
-/

namespace ProcessEngine

/-! ## What a handler does -/

/-- The ending that an action asks for. -/
def JobAction.ending? : JobAction → Option JobOutcome
  | .complete => some .completed
  | .fail reason => some (.failed reason)
  | _ => none

/-- The variables of a scope after an action. -/
def JobAction.write (vars : Variables) : JobAction → Variables
  | .set name value => Keyed.put vars name value
  | .increment name => Keyed.put vars name (incremented (Keyed.get? vars name))
  | _ => vars

theorem ActiveJob.play_eq (job : ActiveJob) (actions : List JobAction) :
    job.play actions =
      ⟨job.info, ⟨actions.foldl JobAction.write job.scope.vars, job.scope.parent⟩,
        job.outcome.or (actions.findSome? JobAction.ending?)⟩ := by
  unfold play
  induction actions generalizing job with
  | nil => simp
  | cons action actions ih =>
      obtain ⟨info, scope, outcome⟩ := job
      rw [List.foldl_cons, ih]
      cases action <;> cases outcome <;>
        simp [act, conclude, Scope.set, JobAction.write, JobAction.ending?, List.findSome?_cons]

namespace Run

/-- The registration that handles an element. -/
def handlerOf? (r : Run) (e : Element) : Option Registration :=
  (resolveHandler? r.registrations e).bind fun position => r.registrations[position]?

/-- A handler ran for a job of the element: it left a scope and ended the job, or did not. -/
def Ran (r : Run) (e : Element) (info : JobInfo) (scope : Variables)
    (ending : Option JobOutcome) : Prop :=
  ∃ g vars, r.handlerOf? e = some g ∧ applyMappings r.inst.vars e.inputs = (vars, none) ∧
    scope = (g.handler g.calls ⟨info, ⟨vars, some r.inst.vars⟩, none⟩).foldl JobAction.write vars ∧
    ending =
      (g.handler g.calls ⟨info, ⟨vars, some r.inst.vars⟩, none⟩).findSome? JobAction.ending?

/-- An input mapping has no value, or an output mapping of a job that was completed. -/
def MappingFails (r : Run) (e : Element) (info : JobInfo) (error : ExprError) : Prop :=
  (∃ g vars, r.handlerOf? e = some g ∧ applyMappings r.inst.vars e.inputs = (vars, some error)) ∨
    ∃ scope, r.Ran e info scope (some .completed) ∧ FailsAt scope e.outputs error

/-- What a call leaves of the job at a position and of the instance, with its result; all other
activities are as they were. -/
structure Leaves (r : Run) (n : Nat) (a : Activity) (job : Job) (vars : Variables)
    (state : InstanceState) (result : Except EngineError Step) (out : Handled) : Prop where
  activity : out.1.activity? n = some { a with body := .job job }
  others : ∀ m, m ≠ n → out.1.activity? m = r.activity? m
  vars : out.1.inst.vars = vars
  state : out.1.inst.state = state
  result : out.2 = result

theorem Leaves.state_ne {r : Run} {n : Nat} {a : Activity} {job : Job} {vars : Variables}
    {state : InstanceState} {result : Except EngineError Step} {out : Handled}
    (h : r.Leaves n a job vars state result out) (hjob : job.state ≠ .completed) :
    ∀ b, out.1.activity? n = some b → b.state ≠ .completed := by
  intro b hb
  obtain rfl := Option.some.inj (h.activity.symm.trans hb)
  exact hjob

section Jobs

variable {r : Run} {element : Nat} {e : Element} {origin : Option Nat} {n : Nat} {a : Activity}
  {j : Job}

theorem activity?_modifyActivity_self {f : Activity → Activity} (ha : r.activity? n = some a) :
    (r.modifyActivity n f).activity? n = some (f a) := by
  simp only [activity?, modifyActivity, modify, Instance.modifyActivity] at ha ⊢
  rw [List.getElem?_modify_eq, ha]
  rfl

theorem activity?_modifyActivity_ne {f : Activity → Activity} {m : Nat} (h : m ≠ n) :
    (r.modifyActivity n f).activity? m = r.activity? m := by
  simp [activity?, modifyActivity, modify, Instance.modifyActivity, Ne.symm h]

/-- An open job moves on to a final state. -/
theorem advance_of_open (hj : a.body = .job j) (hopen : j.state.terminal = false)
    {next : ActivityState} (hnext : next.terminal = true) :
    a.advance next = { a with body := .job { j with state := next } } := by
  have hstate : a.state = j.state := by rw [Activity.state, hj, ActivityBody.state]
  rw [a.advance_final (by rw [hj]; rfl) hnext, hstate, hopen, hj]
  rfl

/-- What an attempt leaves of an open job and its instance. -/
def LeavesAfter (r : Run) (e : Element) (n : Nat) (a : Activity) (j : Job) (out : Handled) :
    Attempt → Prop
  | .open => r.Leaves n a j r.inst.vars r.inst.state (.ok ⟨n, false, []⟩) out
  | .completed vars =>
    r.Leaves n a { j with state := .completed } vars r.inst.state (.ok ⟨n, true, []⟩) out
  | .failed reason =>
    r.Leaves n a { j with state := .failed, failure := some reason } r.inst.vars r.inst.state
      (.ok ⟨n, false, []⟩) out
  | .broken error =>
    r.Leaves n a { j with state := .failed, failure := some error.message } r.inst.vars .failed
      (.error (.expression e.id e.name error)) out

theorem finishJob_leaves (ha : r.activity? n = some a) (hj : a.body = .job j)
    (hopen : j.state.terminal = false) (attempt : Attempt) :
    LeavesAfter r e n a j (r.finishJob e n attempt) attempt := by
  have hfailed (reason : String) : (a.advance .failed).setFailure reason =
      { a with body := .job { j with state := .failed, failure := some reason } } := by
    rw [advance_of_open hj hopen rfl]
    rfl
  cases attempt with
  | «open» => exact ⟨by rw [← hj]; exact ha, fun m hm => rfl, rfl, rfl, rfl⟩
  | completed vars =>
      refine ⟨?_, fun m hm => ?_, rfl, rfl, rfl⟩
      · rw [← advance_of_open hj hopen rfl]
        exact activity?_modifyActivity_self ha
      · exact activity?_modifyActivity_ne hm
  | failed reason =>
      refine ⟨?_, fun m hm => activity?_modifyActivity_ne hm, rfl, rfl, rfl⟩
      rw [← hfailed]
      exact activity?_modifyActivity_self ha
  | broken error =>
      refine ⟨?_, fun m hm => activity?_modifyActivity_ne hm, rfl, rfl, rfl⟩
      rw [← hfailed]
      exact activity?_modifyActivity_self ha

/-! ## Giving a job to its handler -/

theorem attempt_of_inputs_fail {vars : Variables} {error : ExprError}
    (h : applyMappings r.inst.vars e.inputs = (vars, some error)) (position : Nat)
    (g : Registration) (info : JobInfo) :
    r.attempt e position g info = (r, .broken error) := by
  rw [attempt, h]

/-- An attempt settles what the handler has left. -/
theorem attempt_of_ran {g : Registration} {info : JobInfo} {scope : Variables}
    {ending : Option JobOutcome} (hg : r.handlerOf? e = some g) (h : r.Ran e info scope ending)
    (position : Nat) : (r.attempt e position g info).2 =
      ActiveJob.settle ⟨info, ⟨scope, some r.inst.vars⟩, ending⟩ e.outputs := by
  obtain ⟨g', vars, hg', hinputs, rfl, rfl⟩ := h
  obtain rfl : g = g' := Option.some.inj (hg.symm.trans hg')
  rw [attempt, hinputs]
  dsimp only
  rw [ActiveJob.play_eq, Option.none_or]

theorem ran_or_inputs_fail {g : Registration} (hg : r.handlerOf? e = some g) (info : JobInfo) :
    (∃ scope ending, r.Ran e info scope ending) ∨
      ∃ vars error, applyMappings r.inst.vars e.inputs = (vars, some error) := by
  cases hinputs : applyMappings r.inst.vars e.inputs with
  | mk vars error? =>
      cases error? with
      | none => exact .inl ⟨_, _, g, vars, hg, hinputs, rfl, rfl⟩
      | some error => exact .inr ⟨vars, error, rfl⟩

theorem settle_of_outputs {info : JobInfo} {scope old : Variables} {outputs : List Mapping}
    {values : List (String × Json)} (h : Outputs scope outputs values) :
    ActiveJob.settle ⟨info, ⟨scope, some old⟩, some .completed⟩ outputs =
      .completed (Keyed.putAll old values) := by
  obtain ⟨written, hwrite, hparent⟩ := propagateOutputs_of_outputs old h
  simp only [ActiveJob.settle, hwrite, hparent, Option.getD_some]

theorem settle_of_failsAt {info : JobInfo} {scope old : Variables} {outputs : List Mapping}
    {error : ExprError} (h : FailsAt scope outputs error) :
    ActiveJob.settle ⟨info, ⟨scope, some old⟩, some .completed⟩ outputs = .broken error := by
  simp only [ActiveJob.settle, propagateOutputs_of_failsAt h]

/-- Taking a job leaves the variables, the state and the handlers alone. -/
theorem openJob?_same {r₁ : Run} (h : r.openJob? element e origin = some (r₁, n)) :
    r₁.registrations = r.registrations ∧ r₁.inst.vars = r.inst.vars ∧
      r₁.inst.state = r.inst.state := by
  unfold openJob? at h
  split at h
  · cases h
    exact ⟨rfl, rfl, rfl⟩
  · obtain ⟨-, -, rfl⟩ := open?_eq_some h
    exact ⟨rfl, rfl, rfl⟩

theorem exists_openJob? (element : Nat) (origin : Option Nat)
    (h : (r.inst.findOpenJob? e.id).isSome ∨ r.keys.issue.isSome) :
    ∃ r₁ n, r.openJob? element e origin = some (r₁, n) := by
  unfold openJob?
  split
  · exact ⟨_, _, rfl⟩
  · rename_i hnone
    rw [hnone] at h
    obtain ⟨⟨key, keys⟩, hissue⟩ := Option.isSome_iff_exists.mp (h.resolve_left (by simp))
    exact ⟨_, _, by rw [open?, hissue]⟩

theorem handleJob_of_none {r₁ : Run} (hopen : r.openJob? element e origin = some (r₁, n))
    (hnone : r₁.handlerOf? e = none) : r.handleJob element e origin = (r₁, .ok ⟨n, false, []⟩) := by
  unfold handleJob
  rw [hopen]
  dsimp only
  rw [handlerOf?] at hnone
  cases hposition : resolveHandler? r₁.registrations e with
  | none => rfl
  | some position =>
      rw [hposition, Option.bind_some] at hnone
      simp only [hnone]

theorem handleJob_of_some {r₁ : Run} {g : Registration}
    (hopen : r.openJob? element e origin = some (r₁, n)) (ha : r₁.activity? n = some a)
    (hj : a.body = .job j) (hg : r₁.handlerOf? e = some g) :
    ∃ position, r.handleJob element e origin =
      (r₁.attempt e position g (r₁.jobInfo e a.key j)).1.finishJob e n
        (r₁.attempt e position g (r₁.jobInfo e a.key j)).2 := by
  obtain ⟨position, hposition, hg⟩ := Option.bind_eq_some_iff.mp hg
  refine ⟨position, ?_⟩
  have hjob : a.job? = some j := by rw [Activity.job?, hj]
  simp only [handleJob, hopen, hposition, hg, ha, hjob]

/-- What a call of the handler leaves, once it is known what the attempt comes to. -/
theorem handleJob_leaves {r₁ : Run} {g : Registration} {attempt : Attempt}
    (hopen : r.openJob? element e origin = some (r₁, n)) (ha : r₁.activity? n = some a)
    (hj : a.body = .job j) (hstate : j.state.terminal = false) (hg : r₁.handlerOf? e = some g)
    (hattempt : ∀ position, (r₁.attempt e position g (r₁.jobInfo e a.key j)).2 = attempt) :
    LeavesAfter r₁ e n a j (r.handleJob element e origin) attempt := by
  obtain ⟨position, hhandle⟩ := handleJob_of_some hopen ha hj hg
  rw [hhandle, hattempt]
  -- the record of the call is all that the attempt has changed
  obtain hsame | ⟨call, hcall⟩ := attempt_fst r₁ e position g (r₁.jobInfo e a.key j)
  · rw [hsame]
    exact finishJob_leaves ha hj hstate attempt
  · rw [hcall]
    have hleaves := finishJob_leaves (r := r₁.recordCall call) (e := e) ha hj hstate attempt
    cases attempt <;> exact ⟨hleaves.activity, hleaves.others, hleaves.vars, hleaves.state,
      hleaves.result⟩

theorem Ran.exists_handler {info : JobInfo} {scope : Variables} {ending : Option JobOutcome}
    (h : r.Ran e info scope ending) : ∃ g, r.handlerOf? e = some g := by
  obtain ⟨g, -, hg, -⟩ := h
  exact ⟨g, hg⟩

section Endings

variable {r₁ : Run} (hopen : r.openJob? element e origin = some (r₁, n))
  (ha : r₁.activity? n = some a) (hj : a.body = .job j) (hstate : j.state.terminal = false)
include hopen ha hj hstate

theorem handleJob_completes (scope : Variables) (values : List (String × Json))
    (h : r₁.Ran e (r₁.jobInfo e a.key j) scope (some .completed))
    (houtputs : Outputs scope e.outputs values) :
    LeavesAfter r₁ e n a j (r.handleJob element e origin)
      (.completed (Keyed.putAll r₁.inst.vars values)) := by
  obtain ⟨g, hg⟩ := h.exists_handler
  refine handleJob_leaves hopen ha hj hstate hg fun position => ?_
  rw [attempt_of_ran hg h position, settle_of_outputs houtputs]

theorem handleJob_fails (scope : Variables) (reason : String)
    (h : r₁.Ran e (r₁.jobInfo e a.key j) scope (some (.failed reason))) :
    LeavesAfter r₁ e n a j (r.handleJob element e origin) (.failed reason) := by
  obtain ⟨g, hg⟩ := h.exists_handler
  exact handleJob_leaves hopen ha hj hstate hg fun position => attempt_of_ran hg h position

theorem handleJob_breaks (error : ExprError)
    (h : r₁.MappingFails e (r₁.jobInfo e a.key j) error) :
    LeavesAfter r₁ e n a j (r.handleJob element e origin) (.broken error) := by
  obtain ⟨g, vars, hg, hinputs⟩ | ⟨scope, hran, hfails⟩ := h
  · refine handleJob_leaves hopen ha hj hstate hg fun position => ?_
    rw [attempt_of_inputs_fail hinputs]
  · obtain ⟨g, hg⟩ := hran.exists_handler
    refine handleJob_leaves hopen ha hj hstate hg fun position => ?_
    rw [attempt_of_ran hg hran position, settle_of_failsAt hfails]

theorem handleJob_waits
    (h : r₁.handlerOf? e = none ∨ ∃ scope, r₁.Ran e (r₁.jobInfo e a.key j) scope none) :
    LeavesAfter r₁ e n a j (r.handleJob element e origin) .open := by
  obtain hnone | ⟨scope, hran⟩ := h
  · rw [handleJob_of_none hopen hnone]
    exact ⟨by rw [← hj]; exact ha, fun m hm => rfl, rfl, rfl, rfl⟩
  · obtain ⟨g, hg⟩ := hran.exists_handler
    exact handleJob_leaves hopen ha hj hstate hg fun position => attempt_of_ran hg hran position

end Endings

/-- There is no other way for a job to end. -/
theorem job_endings (r : Run) (e : Element) (info : JobInfo) :
    (∃ scope values, r.Ran e info scope (some .completed) ∧ Outputs scope e.outputs values) ∨
      (∃ scope reason, r.Ran e info scope (some (.failed reason))) ∨
      (∃ error, r.MappingFails e info error) ∨
      r.handlerOf? e = none ∨ ∃ scope, r.Ran e info scope none := by
  cases hg : r.handlerOf? e with
  | none => exact .inr (.inr (.inr (.inl rfl)))
  | some g =>
      obtain ⟨scope, ending, hran⟩ | ⟨vars, error, hinputs⟩ := ran_or_inputs_fail hg info
      · match ending, hran with
        | none, hran => exact .inr (.inr (.inr (.inr ⟨scope, hran⟩)))
        | some (.failed reason), hran => exact .inr (.inl ⟨scope, reason, hran⟩)
        | some .completed, hran =>
            obtain ⟨values, houtputs⟩ | ⟨error, hfails⟩ := outputs_or_failsAt scope e.outputs
            · exact .inl ⟨scope, values, hran, houtputs⟩
            · exact .inr (.inr (.inl ⟨error, .inr ⟨scope, hran, hfails⟩⟩))
      · exact .inr (.inr (.inl ⟨error, .inl ⟨g, vars, hg, hinputs⟩⟩))

end Jobs

/-- **One call of a task's handler.**  There is an open job, or one is opened.  Only if a handler
ran, first completed the job, and all output mappings have values in the scope that it left, does
the call complete the job and write these values over the variables, the last one for each name.
Otherwise the variables stay as they were: a job that was first failed is failed for that reason,
a mapping without a value fails the job and the instance with it, and in all other cases the job
stays open as it was. -/
theorem handleJob_outcomes {r : Run} {e : Element} (element : Nat) (origin : Option Nat)
    (hkind : e.kind = .serviceTask ∨ e.kind = .userTask)
    (hkey : (r.inst.findOpenJob? e.id).isSome ∨ r.keys.issue.isSome) :
    ∃ r₁ n a j, r.openJob? element e origin = some (r₁, n) ∧ r₁.activity? n = some a ∧
      a.body = .job j ∧ j.state.terminal = false ∧
      (∀ scope values, r.Ran e (r₁.jobInfo e a.key j) scope (some .completed) →
        Outputs scope e.outputs values →
        r₁.Leaves n a { j with state := .completed } (Keyed.putAll r.inst.vars values) r.inst.state
            (.ok ⟨n, true, []⟩) (r.handleJob element e origin) ∧
          ∀ name, Keyed.get? (r.handleJob element e origin).1.inst.vars name =
            (Keyed.last? values name).or (Keyed.get? r.inst.vars name)) ∧
      ((¬ ∃ scope values, r.Ran e (r₁.jobInfo e a.key j) scope (some .completed) ∧
          Outputs scope e.outputs values) →
        (r.handleJob element e origin).1.inst.vars = r.inst.vars ∧
          ∀ b, (r.handleJob element e origin).1.activity? n = some b → b.state ≠ .completed) ∧
      (∀ scope reason, r.Ran e (r₁.jobInfo e a.key j) scope (some (.failed reason)) →
        r₁.Leaves n a { j with state := .failed, failure := some reason } r.inst.vars r.inst.state
          (.ok ⟨n, false, []⟩) (r.handleJob element e origin)) ∧
      (∀ error, r.MappingFails e (r₁.jobInfo e a.key j) error →
        r₁.Leaves n a { j with state := .failed, failure := some error.message } r.inst.vars .failed
          (.error (.expression e.id e.name error)) (r.handleJob element e origin)) ∧
      ((r.handlerOf? e = none ∨ ∃ scope, r.Ran e (r₁.jobInfo e a.key j) scope none) →
        r₁.Leaves n a j r.inst.vars r.inst.state (.ok ⟨n, false, []⟩)
          (r.handleJob element e origin)) := by
  obtain ⟨r₁, n, hopen⟩ := exists_openJob? element origin hkey
  obtain ⟨a, j, htakes, hj, hstate⟩ := openJob?_takes hkind hopen
  have ha := htakes.activity?
  obtain ⟨hregistrations, hvars, hinst⟩ := openJob?_same hopen
  have hhandler : r₁.handlerOf? e = r.handlerOf? e := by rw [handlerOf?, hregistrations, handlerOf?]
  have hran : r₁.Ran e = r.Ran e := by
    funext info scope ending
    rw [Ran, hhandler, hvars, Ran]
  have hbreaks : r₁.MappingFails e = r.MappingFails e := by
    funext info error
    rw [MappingFails, hhandler, hvars, hran, MappingFails]
  have hcompletes := handleJob_completes hopen ha hj hstate
  have hfails := handleJob_fails hopen ha hj hstate
  have hbroken := handleJob_breaks hopen ha hj hstate
  have hwaits := handleJob_waits hopen ha hj hstate
  simp only [LeavesAfter, hvars, hinst, hran, hbreaks, hhandler] at hcompletes hfails hbroken hwaits
  refine ⟨r₁, n, a, j, hopen, ha, hj, hstate, fun scope values h houtputs => ?_, fun hnot => ?_,
    hfails, hbroken, hwaits⟩
  · have hleaves := hcompletes scope values h houtputs
    exact ⟨hleaves, fun name => by rw [hleaves.vars, Keyed.get?_putAll]⟩
  · have huntouched {job : Job} {state result}
        (h : r₁.Leaves n a job r.inst.vars state result (r.handleJob element e origin))
        (hjob : job.state ≠ .completed) := And.intro h.vars (h.state_ne hjob)
    obtain ⟨scope, values, h, houtputs⟩ | ⟨scope, reason, h⟩ | ⟨error, h⟩ | h :=
      job_endings r e (r₁.jobInfo e a.key j)
    · exact absurd ⟨scope, values, h, houtputs⟩ hnot
    · exact huntouched (hfails scope reason h) fun hdone => by cases hdone
    · exact huntouched (hbroken error h) fun hdone => by cases hdone
    · refine huntouched (hwaits h) fun hdone => ?_
      rw [hdone] at hstate
      cases hstate

private def swapVars : Variables := [("a", .ofInt 1), ("b", .ofInt 2)]

/-- A task whose outputs exchange two variables. -/
private def swapTask : Element :=
  { Element.bare "t" "" .serviceTask with
    taskType := some "swap", outputs := [⟨"b", "a"⟩, ⟨"a", "b"⟩] }

private def swapDefinition : Definition :=
  { key := 1, id := "p", version := 1, checksum := "", source := "", resourceName := "",
    loadedAt := .ofMillis 0,
    diagram := { id := "p", name := "", elements := [swapTask], flows := [], messages := [] } }

private def swapRun : Run :=
  { inst := Instance.fresh 2 swapDefinition swapVars (.ofMillis 0), keys := ⟨3⟩,
    registrations := [⟨.taskType "swap", fun _ _ => [.complete, .fail "late"], 0⟩],
    now := .ofMillis 0, audit := [], calls := [] }

private theorem swapRun_ran (info : JobInfo) :
    swapRun.Ran swapTask info swapVars (some .completed) :=
  ⟨_, swapVars, rfl, rfl, rfl, rfl⟩

private theorem swapVars_outputs :
    Outputs swapVars swapTask.outputs [("a", .ofInt 2), ("b", .ofInt 1)] := by
  rw [Outputs, if_neg (by decide)]
  exact .cons ⟨rfl, eq_of_isWhole (by decide +kernel)⟩
    (.cons ⟨rfl, eq_of_isWhole (by decide +kernel)⟩ .nil)

/-- The two outputs exchange the variables: neither sees what the other writes. -/
theorem handleJob_outcomes_swap :
    (swapTask.kind = .serviceTask ∨ swapTask.kind = .userTask) ∧
      ((swapRun.inst.findOpenJob? swapTask.id).isSome ∨ swapRun.keys.issue.isSome) ∧
      Keyed.get? (swapRun.handleJob 0 swapTask none).1.inst.vars "a" = some (.ofInt 2) ∧
      Keyed.get? (swapRun.handleJob 0 swapTask none).1.inst.vars "b" = some (.ofInt 1) := by
  have hkey : (swapRun.inst.findOpenJob? swapTask.id).isSome ∨ swapRun.keys.issue.isSome :=
    .inr (by decide)
  obtain ⟨r₁, n, a, j, -, -, -, -, hcompletes, -⟩ :=
    handleJob_outcomes (r := swapRun) (e := swapTask) 0 none (.inl rfl) hkey
  have hvalues := (hcompletes _ _ (swapRun_ran _) swapVars_outputs).2
  exact ⟨.inl rfl, hkey, (hvalues "a").trans rfl, (hvalues "b").trans rfl⟩

end Run

end ProcessEngine
