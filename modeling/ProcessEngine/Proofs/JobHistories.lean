import ProcessEngine.Proofs.JobCommands
import ProcessEngine.Proofs.KeyOrder

/-!
# The history of a job

A job is handed to its handler again and again, with every arrival at its task
and with every run that is resumed, until a handler ends it.  After that it is
never found again: a task looks for open jobs only, and what it opens in its
place has a key of its own.

The account of a job is kept along the history of its instance.  An open job has
been handed out some number of times and nobody has ended it.  A command that
attends to the job adds at most one call at the end, and closes the account if
that call ends the job.  All other commands add calls under other keys, since no
two activities of an instance share one.

Main statement: `finishes_jobs_once`.
-/

namespace ProcessEngine

namespace Dispatch

/-- The calls of handlers that a command makes. -/
def calls (d : Dispatch) : List HandlerCall := d.after.calls.drop d.before.calls.length

/-- A handler is called for the job with a key. -/
def callsFor (key : Int) (d : Dispatch) : Bool := d.calls.any fun call => call.jobKey == key

/-- The handler completes the job with a key before it does anything else to end it, and all
output mappings have values in the scope that it leaves. -/
def Completes (e : Element) (key : Int) (j : Job) (d : Dispatch) : Prop :=
  ∃ scope values, d.before.Invokes e key j scope (some .completed) d.after ∧
    Outputs scope e.outputs values

/-- What an arrival at a task comes to when its job at a position has come to an end: the task
takes up another job that is still open, or opens one under a key that is greater than all before,
or no key is left for one and the instance fails. -/
inductive Renews (element n : Nat) (d : Dispatch) : Prop
  | takesUp {m : Nat} {b : Activity} (hm : m ≠ n) (hb : d.before.activity? m = some b)
      (hat : b.element = element) (hopen : b.isOpenJob = true)
      (hothers : ∀ l, l ≠ m → d.after.activity? l = d.before.activity? l)
      (hcalls : ∀ key, d.callsFor key = true → key = b.key)
  | opens {b : Activity}
      (hfree : ∀ c ∈ d.before.inst.activities, c.element = element → c.isOpenJob = false)
      (hb : d.after.activity? d.before.inst.activities.length = some b)
      (hat : b.element = element) (hjob : b.job?.isSome = true)
      (hfresh : ∀ c ∈ d.before.inst.activities, c.key < b.key)
      (hothers : ∀ l, l ≠ d.before.inst.activities.length →
        d.after.activity? l = d.before.activity? l)
      (hcalls : ∀ key, d.callsFor key = true → key = b.key)
  | refused (hfree : ∀ c ∈ d.before.inst.activities, c.element = element → c.isOpenJob = false)
      (hkeys : d.before.keys.issue = none) (hfollow : d.follow = [.fail .keysExhausted])
      (hafter : d.after.inst = d.before.inst)

end Dispatch

/-- The commands with which a handler was called for the job with a key. -/
def invocations (key : Int) (log : List HistoryEntry) : List Dispatch :=
  (log.filterMap HistoryEntry.dispatch?).filter (Dispatch.callsFor key)

/-- The commands with which flow went on from the activity at a position. -/
def departures (n : Nat) (log : List HistoryEntry) : List Dispatch :=
  (log.filterMap HistoryEntry.dispatch?).filter (Dispatch.continuesFrom n)

section Log

variable {key : Int} {n : Nat} {log : List HistoryEntry} {d : Dispatch}

theorem invocations_dispatched (key : Int) (log : List HistoryEntry) (d : Dispatch) :
    invocations key (log ++ [.dispatched d]) =
      invocations key log ++ if d.callsFor key then [d] else [] := by
  simp only [invocations, List.filterMap_append, List.filter_append, List.filterMap_cons,
    HistoryEntry.dispatch?, List.filterMap_nil, List.filter_cons, List.filter_nil]

theorem departures_dispatched (n : Nat) (log : List HistoryEntry) (d : Dispatch) :
    departures n (log ++ [.dispatched d]) =
      departures n log ++ if d.continuesFrom n then [d] else [] := by
  simp only [departures, List.filterMap_append, List.filter_append, List.filterMap_cons,
    HistoryEntry.dispatch?, List.filterMap_nil, List.filter_cons, List.filter_nil]

theorem invocations_eq_nil (h : ∀ d, .dispatched d ∈ log → d.callsFor key = false) :
    invocations key log = [] := by
  refine List.filter_eq_nil_iff.mpr fun d hd => ?_
  obtain ⟨entry, hentry, hsome⟩ := List.mem_filterMap.mp hd
  cases entry with
  | published c => cases hsome
  | dispatched d' =>
      cases hsome
      simp [h d hentry]

theorem departures_eq_nil (h : ∀ d, .dispatched d ∈ log → d.continuesFrom n = false) :
    departures n log = [] := by
  refine List.filter_eq_nil_iff.mpr fun d hd => ?_
  obtain ⟨entry, hentry, hsome⟩ := List.mem_filterMap.mp hd
  cases entry with
  | published c => cases hsome
  | dispatched d' =>
      cases hsome
      simp [h d hentry]

end Log

/-! ## The calls of a command -/

namespace Run

variable {r r' : Run} {e : Element} {n : Nat} {a : Activity} {j j' next : Job} {key : Int}

/-- A handler is told of a job what never changes about it. -/
theorem Invokes.congr {scope : Variables} {ending : Option JobOutcome}
    (h : r.Invokes e key j scope ending r') (hcreated : j'.createdAt = j.createdAt) :
    r.Invokes e key j' scope ending r' := by
  have hinfo : r.jobInfo e key j' = r.jobInfo e key j := by rw [jobInfo, hcreated, jobInfo]
  exact ⟨h.recorded, hinfo ▸ h.ran⟩

/-- What a handler comes to is told by the run and the job. -/
theorem Ran.unique {info : JobInfo} {scope scope' : Variables}
    {ending ending' : Option JobOutcome} (h : r.Ran e info scope ending)
    (h' : r.Ran e info scope' ending') : scope = scope' ∧ ending = ending' := by
  obtain ⟨g, vars, hg, hinputs, rfl, rfl⟩ := h
  obtain ⟨g', vars', hg', hinputs', rfl, rfl⟩ := h'
  obtain rfl := Option.some.inj (hg.symm.trans hg')
  rw [hinputs] at hinputs'
  cases hinputs'
  exact ⟨rfl, rfl⟩

end Run

namespace Dispatch

variable {d : Dispatch} {e : Element} {n : Nat} {a : Activity} {j next : Job} {key : Int}

theorem callsFor_of_calls (h : d.after.calls = d.before.calls) (key : Int) :
    d.callsFor key = false := by
  simp [callsFor, calls, h]

theorem callsFor_of_invokes {scope : Variables} {ending : Option JobOutcome}
    (h : d.before.Invokes e key j scope ending d.after) (key' : Int) :
    d.callsFor key' = (key == key') := by
  obtain ⟨call, hcalls, rfl⟩ := h.recorded
  simp [callsFor, calls, hcalls]

/-- A task calls a handler for its own job only. -/
theorem key_eq_of_callsFor (h : d.before.Attends e n a j next d.after)
    (hcalls : d.callsFor key = true) : key = a.key := by
  cases h.fate with
  | uncalled hsame =>
      rw [callsFor_of_calls hsame] at hcalls
      cases hcalls
  | called hinvokes =>
      rw [callsFor_of_invokes hinvokes] at hcalls
      exact (beq_iff_eq.mp hcalls).symm

/-- A handler is called for a job of the instance. -/
theorem Underway.exists_of_callsFor (hd : d.Underway) (hcalls : d.callsFor key = true) :
    ∃ a ∈ d.after.inst.activities, a.key = key := by
  rcases hd.attends with ⟨hkeeps, -⟩ | ⟨e, n, a, j, next, hattends, -⟩
  · rw [callsFor_of_calls hkeeps.calls] at hcalls
    cases hcalls
  · rw [key_eq_of_callsFor hattends hcalls]
    exact ⟨_, List.mem_of_getElem? hattends.activity, rfl⟩

end Dispatch

/-! ## What stays of an activity -/

/-- What is settled about an activity when it is created, and kept through a restore: its key
and, for a job, its element. -/
def Activity.post (a : Activity) : Int × Option Nat := (a.key, a.job?.map fun _ => a.element)

/-- What is settled about the activities of an instance, in their order. -/
def Instance.posts (i : Instance) : List (Int × Option Nat) := i.activities.map Activity.post

/-- No two activities have the same key. -/
def Instance.Distinct (i : Instance) : Prop := (i.activities.map Activity.key).Nodup

theorem Activity.post_frame (a : Activity) : a.frame.post = a.post := by
  unfold post job? frame
  cases a.body <;> rfl

section Posts

variable {i j : Instance} {m n : Nat} {a b : Activity}

theorem Run.Grows.posts {opened : List Activity} {r r' : Run} (h : Run.Grows opened r r') :
    r.inst.posts <+: r'.inst.posts := by
  have hposts : ∀ i : Instance, i.posts = i.frames.map Activity.post := by
    intro i
    simp [Instance.posts, Instance.frames, Function.comp_def, Activity.post_frame]
  rw [hposts, hposts, h.frames, List.map_append]
  exact List.prefix_append _ _

theorem Dispatch.posts (d : Dispatch) : d.before.inst.posts <+: d.after.inst.posts := by
  obtain ⟨opened, hgrows⟩ := Run.dispatch_grows d.before d.command
  exact hgrows.posts

theorem Instance.map_fst_posts (i : Instance) :
    i.posts.map Prod.fst = i.activities.map Activity.key := by
  simp [posts, Function.comp_def, Activity.post]

theorem Instance.keys_of_posts (h : i.posts <+: j.posts) :
    i.activities.map Activity.key <+: j.activities.map Activity.key := by
  rw [← map_fst_posts, ← map_fst_posts]
  exact h.map Prod.fst

theorem Instance.length_le_of_posts (h : i.posts <+: j.posts) :
    i.activities.length ≤ j.activities.length := by
  simpa using (keys_of_posts h).length_le

/-- An activity is known again by its position. -/
theorem Instance.post_eq (h : i.posts <+: j.posts) (ha : i.activities[n]? = some a)
    (hb : j.activities[n]? = some b) : a.post = b.post := by
  have hold : i.posts[n]? = some a.post := by simp [posts, ha]
  have hnew : j.posts[n]? = some b.post := by simp [posts, hb]
  rw [List.prefix_iff_getElem?.mp h n (List.getElem?_eq_some_iff.mp hold).1,
    List.getElem?_eq_some_iff.mp hold |>.2] at hnew
  exact Option.some.inj hnew

/-- A key tells the position of its activity. -/
theorem Instance.Distinct.eq_of_key (h : i.Distinct) (ha : i.activities[m]? = some a)
    (hb : i.activities[n]? = some b) (hkey : a.key = b.key) : m = n := by
  have hlt : m < (i.activities.map Activity.key).length := by
    simpa using (List.getElem?_eq_some_iff.mp ha).1
  refine (List.getElem?_inj hlt h).mp ?_
  rw [List.getElem?_map, List.getElem?_map, ha, hb, Option.map_some, Option.map_some, hkey]

/-- Keys that increase tell the order of creation. -/
theorem Instance.key_lt (h : (i.activities.map Activity.key).Pairwise (· < ·))
    (ha : i.activities[m]? = some a) (hb : i.activities[n]? = some b) (hlt : m < n) :
    a.key < b.key := by
  obtain ⟨hm, rfl⟩ := List.getElem?_eq_some_iff.mp ha
  obtain ⟨hn, rfl⟩ := List.getElem?_eq_some_iff.mp hb
  exact List.pairwise_iff_getElem.mp (List.pairwise_map.mp h) m n hm hn hlt

end Posts

/-! ## The account of a job -/

/-- How handlers have dealt with the job at a position: they left it open for some time, and then
at most one of them ended it.  Flow went on from the job if it was completed. -/
structure Job.Account (e : Element) (n : Nat) (key : Int) (j : Job) (log : List HistoryEntry)
    (waiting : List Dispatch) (last : Option Dispatch) : Prop where
  called : invocations key log = waiting ++ last.toList
  leftOpen : ∀ d ∈ waiting, ∃ scope, d.before.Invokes e key j scope none d.after
  ended : ∀ d ∈ last, ∃ scope outcome, d.before.Invokes e key j scope (some outcome) d.after
  gone : departures n log = if j.state = .completed then last.toList else []
  completed : j.state = .completed ↔ ∃ d ∈ last, d.Completes e key j
  isOpen : j.state.terminal = false → last = none

/-- What was dispatched came about in a run of the instance, which had the first of its activities
at that time. -/
def Instance.Recalls (i : Instance) (log : List HistoryEntry) : Prop :=
  ∀ d, .dispatched d ∈ log → d.Underway ∧ d.after.inst.posts <+: i.posts ∧
    d.after.inst.definition = i.definition

/-- Every job of an instance has its account. -/
def Instance.KeepsAccounts (i : Instance) (log : List HistoryEntry) : Prop :=
  ∀ ⦃n : Nat⦄ ⦃a : Activity⦄ ⦃j : Job⦄ ⦃e : Element⦄, i.activities[n]? = some a →
    a.body = .job j → i.diagram.elements[a.element]? = some e →
    ∃ waiting last, j.Account e n a.key log waiting last

namespace Job.Account

variable {d : Dispatch} {e : Element} {n : Nat} {a : Activity} {j next : Job} {key : Int}
  {log : List HistoryEntry} {waiting : List Dispatch} {last : Option Dispatch}

theorem opened (hopen : j.state.terminal = false) (hcalls : invocations key log = [])
    (hgoes : departures n log = []) : j.Account e n key log [] none := by
  have hnot : j.state ≠ .completed := by
    intro h
    rw [h] at hopen
    cases hopen
  exact ⟨hcalls, by simp, by simp, by simp [hgoes], by simp [hnot], fun _ => rfl⟩

/-- A command that has to do with other jobs. -/
theorem skip (h : j.Account e n key log waiting last) (hcalls : d.callsFor key = false)
    (hgoes : d.continuesFrom n = false) :
    j.Account e n key (log ++ [.dispatched d]) waiting last where
  called := by simp [invocations_dispatched, hcalls, h.called]
  leftOpen := h.leftOpen
  ended := h.ended
  gone := by simp [departures_dispatched, hgoes, h.gone]
  completed := h.completed
  isOpen := h.isOpen

/-- **A command that attends to an open job** calls for it once more, if at all, and the account
is closed if this call ends the job. -/
theorem attend (h : j.Account e n a.key log waiting none)
    (hattends : d.before.Attends e n a j next d.after)
    (hgoes : ∀ m, d.continuesFrom m = true ↔ m = n ∧ next.state = .completed) :
    ∃ waiting last, next.Account e n a.key (log ++ [.dispatched d]) waiting last := by
  have hcalls : invocations a.key log = waiting := by simpa using h.called
  have hdepartures : departures n log = [] := by simpa using h.gone
  have hcontinues : d.continuesFrom n = (next.state == .completed) := by
    rw [Bool.eq_iff_iff, hgoes, beq_iff_eq]
    simp
  have hleft : ∀ d ∈ waiting, ∃ scope, d.before.Invokes e a.key next scope none d.after := by
    intro d hd
    obtain ⟨scope, hinvokes⟩ := h.leftOpen d hd
    exact ⟨scope, hinvokes.congr hattends.createdAt⟩
  cases hattends.fate with
  | uncalled hsame hnot =>
      refine ⟨waiting, none, ?_, hleft, by simp, ?_, by simp [hnot], fun _ => rfl⟩
      · simp [invocations_dispatched, d.callsFor_of_calls hsame, hcalls]
      · simp [departures_dispatched, hcontinues, hdepartures, hnot]
  | @called scope ending hinvokes hends hcompletes =>
      have hself : d.callsFor a.key = true := by simp [d.callsFor_of_invokes hinvokes]
      have hinvokes : d.before.Invokes e a.key next scope ending d.after :=
        hinvokes.congr hattends.createdAt
      cases ending with
      | none =>
          have hnot : next.state ≠ .completed := fun hdone => nomatch (hcompletes.mp hdone).1
          refine ⟨waiting ++ [d], none, ?_, fun d' hd' => ?_, by simp, ?_, by simp [hnot],
            fun _ => rfl⟩
          · simp [invocations_dispatched, hself, hcalls]
          · rcases List.mem_append.mp hd' with hd' | hd'
            · exact hleft d' hd'
            · obtain rfl := List.mem_singleton.mp hd'
              exact ⟨scope, hinvokes⟩
          · simp [departures_dispatched, hcontinues, hdepartures, hnot]
      | some outcome =>
          have hdone : next.state = .completed ↔ d.Completes e a.key next := by
            refine hcompletes.trans ⟨fun ⟨houtcome, values, houtputs⟩ => ?_, fun h => ?_⟩
            · exact ⟨scope, values, houtcome ▸ hinvokes, houtputs⟩
            · obtain ⟨scope', values, hinvokes', houtputs⟩ := h
              obtain ⟨rfl, houtcome⟩ := hinvokes.ran.unique hinvokes'.ran
              exact ⟨houtcome, values, houtputs⟩
          refine ⟨waiting, some d, ?_, hleft, ?_, ?_, ?_, fun hopen => ?_⟩
          · simp [invocations_dispatched, hself, hcalls]
          · simpa using ⟨scope, outcome, hinvokes⟩
          · simp [departures_dispatched, hcontinues, hdepartures]
          · simpa using hdone
          · rw [hends] at hopen
            cases hopen

end Job.Account

/-! ## Along a history -/

section Step

variable {d : Dispatch} {log : List HistoryEntry}

/-- A job is known again among the activities of earlier times. -/
theorem Instance.job_of_posts {i j : Instance} (h : i.posts <+: j.posts) {n : Nat}
    {a b : Activity} {job : Job} (hb : i.activities[n]? = some b) (ha : j.activities[n]? = some a)
    (hj : a.body = .job job) : b.key = a.key ∧ b.element = a.element ∧ b.job?.isSome = true := by
  have hpost := Instance.post_eq h hb ha
  rw [Activity.post, Activity.post, Activity.job?_eq_some.mpr hj] at hpost
  obtain ⟨hkey, hplace⟩ := Prod.mk.inj hpost
  cases hjob : b.job? with
  | none => simp [hjob] at hplace
  | some k => exact ⟨hkey, by simpa [hjob] using hplace, rfl⟩

theorem Instance.Recalls.step (h : d.before.inst.Recalls log) (hd : d.Underway) :
    d.after.inst.Recalls (log ++ [.dispatched d]) := by
  intro d' hd'
  obtain ⟨opened, hgrows⟩ := Run.dispatch_grows d.before d.command
  rcases List.mem_append.mp hd' with hold | hnew
  · obtain ⟨hunderway, hearlier, hdefinition⟩ := h d' hold
    exact ⟨hunderway, hearlier.trans d.posts, hdefinition.trans hgrows.definition.symm⟩
  · obtain rfl : d' = d := by simpa using hnew
    exact ⟨hd, List.prefix_rfl, rfl⟩

/-- Nobody has been called for a job that is new, and flow has not gone on from it. -/
theorem Instance.Recalls.nothing_before {i : Instance} (h : i.Recalls log) {key : Int} {n : Nat}
    (hkey : ∀ a ∈ i.activities, a.key ≠ key) (hn : i.activities.length ≤ n) :
    invocations key log = [] ∧ departures n log = [] := by
  refine ⟨invocations_eq_nil fun d hd => ?_, departures_eq_nil fun d hd => ?_⟩
  · obtain ⟨hunderway, hearlier, -⟩ := h d hd
    by_contra hcalls
    rw [Bool.not_eq_false] at hcalls
    obtain ⟨a, ha, hsame⟩ := hunderway.exists_of_callsFor hcalls
    have hmem := (Instance.keys_of_posts hearlier).subset (List.mem_map_of_mem ha)
    obtain ⟨b, hb, hkeys⟩ := List.mem_map.mp hmem
    exact hkey b hb (hkeys.trans hsame)
  · obtain ⟨-, hearlier, -⟩ := h d hd
    by_contra hgoes
    rw [Bool.not_eq_false] at hgoes
    have hlt := d.lt_of_continuesFrom hgoes
    have hle := Instance.length_le_of_posts hearlier
    omega

/-- A new job has a key of its own. -/
theorem Dispatch.key_ne_of_new {e : Element} {n : Nat} {a : Activity} {j next : Job}
    (h : d.before.Attends e n a j next d.after) (hnew : n = d.before.inst.activities.length)
    (hdistinct : d.after.inst.Distinct) : ∀ c ∈ d.before.inst.activities, c.key ≠ a.key := by
  intro c hc hkey
  obtain ⟨m, hm⟩ := List.getElem?_of_mem hc
  have hlt := (List.getElem?_eq_some_iff.mp hm).1
  have hafter : d.after.activity? m = some c := (h.others m (by omega)).trans hm
  have hsame := hdistinct.eq_of_key hafter h.activity hkey
  omega

/-- A command that attends to a job has to do with no other. -/
theorem Dispatch.spares {e : Element} {m n : Nat} {a b : Activity} {j next : Job}
    (h : d.before.Attends e n a j next d.after)
    (hgoes : ∀ m, d.continuesFrom m = true ↔ m = n ∧ next.state = .completed)
    (hdistinct : d.after.inst.Distinct) (hb : d.after.activity? m = some b) (hne : m ≠ n) :
    d.callsFor b.key = false ∧ d.continuesFrom m = false := by
  constructor
  · by_contra hcalls
    rw [Bool.not_eq_false] at hcalls
    have hkey : b.key = a.key := key_eq_of_callsFor h hcalls
    exact hne (hdistinct.eq_of_key hb h.activity hkey)
  · by_contra hcontinues
    rw [Bool.not_eq_false] at hcontinues
    exact hne ((hgoes m).mp hcontinues).1

/-- **A command keeps the account of every job.** -/
theorem Instance.KeepsAccounts.step (h : d.before.inst.KeepsAccounts log)
    (hrecalls : d.before.inst.Recalls log) (hd : d.Underway) (hdistinct : d.after.inst.Distinct) :
    d.after.inst.KeepsAccounts (log ++ [.dispatched d]) := by
  intro m b j' e' hb hj' he'
  obtain ⟨opened, hgrows⟩ := Run.dispatch_grows d.before d.command
  have hdiagram : d.after.inst.diagram = d.before.inst.diagram := hgrows.diagram
  rw [hdiagram] at he'
  rcases hd.attends with ⟨hkeeps, hrests⟩ | ⟨e, n, a, j, next, hattends, hgoes, -⟩
  · have hjob : b.job?.isSome = true := by rw [Activity.job?_eq_some.mpr hj']; rfl
    obtain ⟨waiting, last, haccount⟩ := h (hkeeps.jobs hb hjob) hj' he'
    exact ⟨waiting, last, haccount.skip (d.callsFor_of_calls hkeeps.calls _) (hrests m b hb hjob)⟩
  · by_cases hm : m = n
    · subst hm
      obtain rfl := Option.some.inj (hattends.activity.symm.trans hb)
      obtain rfl : next = j' := by simpa using hj'
      obtain rfl := Option.some.inj (hattends.element.symm.trans he')
      rcases hattends.taken with ⟨-, ha⟩ | ⟨-, hnew⟩
      · obtain ⟨waiting, last, haccount⟩ := h ha hattends.body hattends.element
        obtain rfl := haccount.isOpen hattends.isOpen
        exact haccount.attend hattends hgoes
      · have hkey := Dispatch.key_ne_of_new hattends hnew hdistinct
        obtain ⟨hcalls, hdepartures⟩ := hrecalls.nothing_before hkey (Nat.le_of_eq hnew.symm)
        exact (Job.Account.opened hattends.isOpen hcalls hdepartures).attend hattends hgoes
    · have hbefore : d.before.activity? m = some b := (hattends.others m hm).symm.trans hb
      obtain ⟨waiting, last, haccount⟩ := h hbefore hj' he'
      obtain ⟨hcalls, hrests⟩ := Dispatch.spares hattends hgoes hdistinct hb hm
      exact ⟨waiting, last, haccount.skip hcalls hrests⟩

end Step

/-! ## Arrivals after the end -/

/-- Where a task finds no open job there is none. -/
theorem Instance.Sound.isOpenJob_eq_false {i : Instance} (hi : i.Sound) {element : Nat}
    {e : Element} (he : i.diagram.elements[element]? = some e)
    (hfree : i.findOpenJob? e.id = none) :
    ∀ c ∈ i.activities, c.element = element → c.isOpenJob = false := by
  intro c hc hat
  by_contra hopen
  rw [Bool.not_eq_false] at hopen
  obtain ⟨j, hj, -⟩ := (Option.any_eq_true _ _).mp hopen
  obtain ⟨n, hn⟩ := List.getElem?_of_mem hc
  obtain ⟨e', he', -, hid, -⟩ := hi.job_element hn (Activity.job?_eq_some.mp hj)
  rw [hat, he] at he'
  obtain rfl := Option.some.inj he'
  have hnone := List.findIdx?_eq_none_iff.mp hfree c hc
  simp [hopen, hj, hid] at hnone

namespace Dispatch

variable {d : Dispatch} {e : Element} {k n : Nat} {a b : Activity} {j next : Job}

/-- A job that has come to an end is not attended to. -/
theorem ne_of_ended (h : d.before.Attends e n a j next d.after) (hb : d.before.activity? k = some b)
    (hend : b.state.terminal = true) : k ≠ n := by
  rintro rfl
  rcases h.taken with ⟨-, ha⟩ | ⟨-, hnew⟩
  · obtain rfl := Option.some.inj (ha.symm.trans hb)
    rw [Activity.state, h.body, ActivityBody.state, h.isOpen] at hend
    cases hend
  · have hlt := (List.getElem?_eq_some_iff.mp hb).1
    omega

/-- **No command goes back to a job that has come to an end.** -/
theorem Underway.leaves_ended (hd : d.Underway) (hdistinct : d.after.inst.Distinct)
    (hb : d.before.activity? k = some b) (hjob : b.job?.isSome = true)
    (hend : b.state.terminal = true) :
    d.callsFor b.key = false ∧ d.continuesFrom k = false ∧ d.after.activity? k = some b := by
  rcases hd.attends with ⟨hkeeps, hrests⟩ | ⟨e, n, a, j, next, hattends, hgoes, -⟩
  · obtain ⟨opened, hgrows⟩ := Run.dispatch_grows d.before d.command
    obtain ⟨c, hc, hframe⟩ := hgrows.activity? hb
    have hjob' : c.job?.isSome = true := by rwa [Activity.isSome_job?_of_frame hframe]
    obtain rfl := Option.some.inj ((hkeeps.jobs hc hjob').symm.trans hb)
    exact ⟨d.callsFor_of_calls hkeeps.calls _, hrests k c hc hjob', hc⟩
  · have hne := ne_of_ended hattends hb hend
    have hafter : d.after.activity? k = some b := (hattends.others k hne).trans hb
    obtain ⟨hcalls, hrests⟩ := spares hattends hgoes hdistinct hafter hne
    exact ⟨hcalls, hrests, hafter⟩

/-- **An arrival after the end of a job** does not go back to it. -/
theorem Underway.renews (hd : d.Underway)
    (hkeys : (d.after.inst.activities.map Activity.key).Pairwise (· < ·))
    (hb : d.before.activity? k = some b) (hj : b.body = .job j) (hend : b.state.terminal = true)
    {origin : Option Nat} {via : Option String} (hc : d.command = .enter b.element origin via) :
    d.Renews b.element k := by
  obtain ⟨hsound, hfits⟩ := hd.sound
  have hfits := hfits _ List.mem_cons_self
  rw [hc] at hfits
  obtain ⟨e, he, hkind, -, hfirst⟩ := hsound.job_element hb hj
  have hhandle : (d.before.reportElement e .activated).handle b.element e origin via =
      (d.before.reportElement e .activated).handleJob b.element e origin := by
    rw [Run.handle]
    rcases hkind with hkind | hkind <;> rw [hkind]
  have hhandling : d.handling? =
      some (e, (d.before.reportElement e .activated).handleJob b.element e origin) := by
    rw [handling?, hc, ← hhandle]
    exact Option.map_eq_some_iff.mpr ⟨e, he, rfl⟩
  obtain ⟨hcalls, hinst⟩ := after_of_handling hhandling
  have hwelcome : Run.Welcome b.element e origin (d.before.reportElement e .activated) :=
    ⟨he, .inr hfirst, hfits.2⟩
  rcases Run.handleJob_attends (r := d.before.reportElement e .activated) hsound hwelcome hkind with
    ⟨hfree, hnone, hrefused⟩ | ⟨n, a, j', next, hattends, -⟩
  · rw [hrefused] at hhandling hinst
    exact .refused (hsound.isOpenJob_eq_false he hfree) hnone (follow_of_error hhandling) hinst
  · have hattends : d.before.Attends e n a j' next d.after :=
      (hattends.congr hcalls hinst).of_report
    have hown : ∀ key, d.callsFor key = true → key = a.key := fun key hk =>
      key_eq_of_callsFor hattends hk
    have hat : a.element = b.element := Option.some.inj (hattends.first.symm.trans hfirst)
    rcases hattends.taken with ⟨-, ha⟩ | ⟨hfree, rfl⟩
    · have hopen : a.isOpenJob = true := by
        simp [Activity.isOpenJob, Activity.job?, hattends.body, hattends.isOpen]
      exact .takesUp (ne_of_ended hattends hb hend).symm ha hat hopen hattends.others hown
    · refine .opens (hsound.isOpenJob_eq_false he hfree) hattends.activity hat rfl
        (fun c hc => ?_) hattends.others hown
      obtain ⟨m, hm⟩ := List.getElem?_of_mem hc
      have hlt := (List.getElem?_eq_some_iff.mp hm).1
      have hafter : d.after.activity? m = some c := (hattends.others m (by omega)).trans hm
      exact Instance.key_lt hkeys hafter hattends.activity hlt

end Dispatch

section Others

variable {i : Instance} {log : List HistoryEntry}

theorem Instance.KeepsAccounts.published (h : i.KeepsAccounts log) (c : CaughtEvent) :
    (i.recordEvent c).KeepsAccounts (log ++ [.published c]) := by
  have hlog : (log ++ [HistoryEntry.published c]).filterMap HistoryEntry.dispatch? =
      log.filterMap HistoryEntry.dispatch? := by simp [HistoryEntry.dispatch?]
  intro n a j e ha hj he
  obtain ⟨waiting, last, haccount⟩ := h ha hj he
  refine ⟨waiting, last, ?_, haccount.leftOpen, haccount.ended, ?_, haccount.completed,
    haccount.isOpen⟩
  · rw [invocations, hlog]
    exact haccount.called
  · rw [departures, hlog]
    exact haccount.gone

/-- A job stays at its element, since that is the first one with its id. -/
theorem Instance.KeepsAccounts.relinked (h : i.KeepsAccounts log) (hi : i.Sound) :
    i.relinked.KeepsAccounts log := by
  intro n a j e ha hj he
  simp only [Instance.relinked, List.getElem?_map, Option.map_eq_some_iff] at ha
  obtain ⟨b, hb, rfl⟩ := ha
  have hbody : b.body = .job j := hj
  have hsame : i.relinkedActivity b = b := (hi.fits hb).relinkedActivity (by rw [hbody]; rfl)
  rw [hsame] at he ⊢
  exact h hb hbody he

/-- A restore settles nothing anew. -/
theorem Instance.Sound.posts_relinked (hi : i.Sound) : i.relinked.posts = i.posts := by
  show (i.activities.map i.relinkedActivity).map Activity.post = i.activities.map Activity.post
  rw [List.map_map]
  refine List.map_congr_left fun a ha => ?_
  obtain ⟨n, hn⟩ := List.getElem?_of_mem ha
  cases hbody : a.body.isElement with
  | false => rw [Function.comp_apply, (hi.fits hn).relinkedActivity hbody]
  | true =>
      have hjob : a.job? = none := by
        unfold ActivityBody.isElement at hbody
        unfold Activity.job?
        cases h : a.body <;> simp_all
      have hjob' : (i.relinkedActivity a).job? = none := hjob
      rw [Function.comp_apply, Activity.post, hjob', Activity.post, hjob]
      rfl

end Others

namespace Engine

/-- The accounts of the jobs are kept whatever happens to an instance. -/
theorem lasting_keepsAccounts : Lasting fun i log =>
    i.Recalls log ∧ (i.Distinct → i.KeepsAccounts log) where
  fresh key definition vars now := by
    refine ⟨fun d hd => ?_, fun hdistinct n a j e ha => ?_⟩
    · cases hd
    · cases ha
  event c hc hP := by
    refine ⟨fun d hd => hP.1 d (by simpa using hd), fun hdistinct => ?_⟩
    exact (hP.2 hdistinct).published c
  state s hP :=
    ⟨fun d hd => hP.1 d hd, fun hdistinct n a j e ha hj he => hP.2 hdistinct ha hj he⟩
  step {d log} hd hP := by
    refine ⟨hP.1.step hd, fun hdistinct => ?_⟩
    have hbefore := hdistinct.sublist (Instance.keys_of_posts d.posts).sublist
    exact (hP.2 hbefore).step hP.1 hd hdistinct
  relinked {i log} hi hP := by
    refine ⟨fun d hd => ?_, fun hdistinct => ?_⟩
    · rw [hi.posts_relinked]
      exact hP.1 d hd
    · rw [Instance.Distinct, ← Instance.map_fst_posts, hi.posts_relinked,
        Instance.map_fst_posts] at hdistinct
      exact (hP.2 hdistinct).relinked hi

/-- The keys of an instance increase at every moment. -/
theorem Moment.keys_increase {starts : KeySequence → Prop} {n : Nat} {i : Instance}
    {log : List HistoryEntry} (h : Moment starts n i log) :
    (i.activities.map Activity.key).Pairwise (· < ·) := by
  cases h with
  | stored h hi =>
      exact (h.reachable.descends.ordered.arenas i (List.mem_of_getElem? hi)).of_cons.of_cons
  | @underway e log j more r queue h hi hgo htrace =>
      obtain ⟨opened, hgrows⟩ := htrace.grows
      have hactivate := (e.lend j).activate_grows
      exact (h.reachable.descends.ordered.keyRow_run h.reachable.sound hi
        (hactivate.trans hgrows)).of_cons.of_cons

/-- **A job is finished at most once.**  The handlers that are called under the key of a job leave
it open for some time, and then at most one of them ends it.  Flow goes on from the job at most
once: with the call that ends it, if this one completed it first and all output mappings have
values.  After the end no handler is called for the job, and nothing about it changes; who arrives
at its task then is given another job that is still open, or a new one under a key that is greater
than all before, unless no key is left. -/
theorem finishes_jobs_once {starts : KeySequence → Prop} {n : Nat} {i : Instance}
    {log : List HistoryEntry} (h : Moment starts n i log) {k : Nat} {a : Activity} {j : Job}
    (ha : i.activities[k]? = some a) (hj : a.body = .job j) :
    ∃ (e : Element) (waiting : List Dispatch) (last : Option Dispatch),
      i.diagram.elements[a.element]? = some e ∧
      (e.kind = .serviceTask ∨ e.kind = .userTask) ∧
      invocations a.key log = waiting ++ last.toList ∧
      (∀ d ∈ waiting, ∃ scope, d.before.Invokes e a.key j scope none d.after) ∧
      (∀ d ∈ last, ∃ scope outcome, d.before.Invokes e a.key j scope (some outcome) d.after) ∧
      (j.state.terminal = false → last = none) ∧
      departures k log = (if j.state = .completed then last.toList else []) ∧
      (j.state = .completed ↔ ∃ d ∈ last, d.Completes e a.key j) ∧
      ∀ d, .dispatched d ∈ log →
        (∀ flows, .takeFlows k flows ∈ d.follow → d.continuesFrom k = true) ∧
        (d.continuesFrom k = true →
          d.follow = if e.outgoing.isEmpty then [] else [.takeFlows k e.outgoing]) ∧
        ∀ b, d.before.activity? k = some b → b.state.terminal = true →
          d.callsFor a.key = false ∧ d.continuesFrom k = false ∧ d.after.activity? k = some b ∧
          ∀ origin via, d.command = .enter a.element origin via → d.Renews a.element k := by
  obtain ⟨hrecalls, haccounts⟩ := h.keeps lasting_keepsAccounts
  have hkeys := h.keys_increase
  have hdistinct : i.Distinct := hkeys.imp fun hlt => Int.ne_of_lt hlt
  obtain ⟨e, he, hkind, -, -⟩ := h.sound.job_element ha hj
  obtain ⟨waiting, last, haccount⟩ := haccounts hdistinct ha hj he
  refine ⟨e, waiting, last, he, hkind, haccount.called, haccount.leftOpen, haccount.ended,
    haccount.isOpen, haccount.gone, haccount.completed, fun d hd =>
      ⟨fun flows => d.continuesFrom_of_takeFlows, fun hgoes => ?_, fun b hb hend => ?_⟩⟩
  all_goals
    obtain ⟨hunderway, hposts, hdefinition⟩ := hrecalls d hd
    have hearlier := Instance.keys_of_posts hposts
  · obtain ⟨c, hc⟩ : ∃ c, d.after.activity? k = some c :=
      ⟨_, List.getElem?_eq_getElem (d.lt_of_continuesFrom hgoes)⟩
    obtain ⟨-, hplace, hjob⟩ := Instance.job_of_posts hposts hc ha hj
    rcases hunderway.attends with ⟨-, hrests⟩ | ⟨e', n, a', j', next, hattends, hgoes', hfollow⟩
    · rw [hrests k c hc hjob] at hgoes
      cases hgoes
    · obtain ⟨rfl, hdone⟩ := (hgoes' k).mp hgoes
      obtain rfl := Option.some.inj (hattends.activity.symm.trans hc)
      obtain ⟨opened, hgrows⟩ := Run.dispatch_grows d.before d.command
      have hdiagram : d.before.diagram = i.diagram :=
        congrArg Definition.diagram (hgrows.definition.symm.trans hdefinition)
      have helement := hattends.element
      rw [hdiagram, show a'.element = a.element from hplace, he] at helement
      rw [hfollow hdone, Option.some.inj helement]
  · obtain ⟨hkey, hplace, hjob⟩ := Instance.job_of_posts (d.posts.trans hposts) hb ha hj
    obtain ⟨j', hj'⟩ := Option.isSome_iff_exists.mp hjob
    obtain ⟨hcalls, hcontinues, hafter⟩ :=
      hunderway.leaves_ended (hdistinct.sublist hearlier.sublist) hb hjob hend
    refine ⟨hkey ▸ hcalls, hcontinues, hafter, fun origin via hc => ?_⟩
    rw [← hplace] at hc ⊢
    exact hunderway.renews (hkeys.sublist hearlier.sublist) hb (Activity.job?_eq_some.mp hj')
      hend hc

/-- The source of a process with a task that is reached three times. -/
private def threeArrivalsSource : List String :=
  ["<process id='p'>", "<startEvent id='s'/>", "<userTask id='t'/>",
   "<sequenceFlow id='1' ", "sourceRef='s' targetRef='t'/>",
   "<sequenceFlow id='2' ", "sourceRef='s' targetRef='t'/>",
   "<sequenceFlow id='3' ", "sourceRef='s' targetRef='t'/>", "</process>"]

private def threeArrivalsDiagram : Diagram :=
  { id := "p", name := ""
    elements :=
      [{ Element.bare "s" "" .startEvent with outgoing := ["1", "2", "3"] },
       { Element.bare "t" "" .userTask with incoming := ["1", "2", "3"] }]
    flows := [⟨"1", "", "s", "t", []⟩, ⟨"2", "", "s", "t", []⟩, ⟨"3", "", "s", "t", []⟩]
    messages := [] }

private theorem ofMarkup_threeArrivalsSource :
    Diagram.ofMarkup (String.join threeArrivalsSource) = .ok threeArrivalsDiagram :=
  ofMarkup_join (by decide +kernel)

/-- A handler that completes the first job that it is given, and no other. -/
private def completeFirst : Handler := fun n _ => if n = 0 then [.complete] else []

/-- The first arrival completes its job.  The second one opens another job, for which the handler
is called twice, at this arrival and at the third one, without an end. -/
theorem one_job_finished_one_open :
    ∃ i log, Moment (· = .default) 0 i log ∧
      (∃ a j, i.activities[1]? = some a ∧ a.body = .job j ∧ j.state = .completed ∧
        ∃ d e, invocations a.key log = [d] ∧ departures 1 log = [d] ∧ d.Completes e a.key j) ∧
      ∃ a j, i.activities[2]? = some a ∧ a.body = .job j ∧ j.state = .active ∧
        (invocations a.key log).length = 2 ∧ departures 2 log = [] ∧
        ∃ e, ∀ d ∈ invocations a.key log, ∃ scope,
          d.before.Invokes e a.key j scope none d.after := by
  have hkeys : KeySequence.default.next < greatestKey := by decide
  obtain ⟨e, log, hlog, htest⟩ := exists_history ofMarkup_threeArrivalsSource hkeys 100 0
    [.register (.id "t") completeFirst, .create 1 [], .run 2]
    (fun e log => e.instances[0]?.any fun i =>
      (i.activities[1]?.any fun a => a.job?.any fun j =>
        j.state == .completed && (invocations a.key log).length == 1) &&
      i.activities[2]?.any fun a => a.job?.any fun j =>
        j.state == .active && (invocations a.key log).length == 2) (by decide +kernel)
  obtain ⟨i, hi, htest⟩ := (Option.any_eq_true _ _).mp htest
  rw [Bool.and_eq_true] at htest
  obtain ⟨a, ha, hjob⟩ := (Option.any_eq_true _ _).mp htest.1
  obtain ⟨j, hj, hstate⟩ := (Option.any_eq_true _ _).mp hjob
  obtain ⟨a', ha', hjob'⟩ := (Option.any_eq_true _ _).mp htest.2
  obtain ⟨j', hj', hstate'⟩ := (Option.any_eq_true _ _).mp hjob'
  simp only [Bool.and_eq_true, beq_iff_eq] at hstate hstate'
  have hbody := Activity.job?_eq_some.mp hj
  have hbody' := Activity.job?_eq_some.mp hj'
  have hmoment : Moment (· = .default) 0 i log := .stored hlog hi
  refine ⟨i, log, hmoment, ⟨a, j, ha, hbody, hstate.1, ?_⟩, a', j', ha', hbody', hstate'.1,
    hstate'.2, ?_⟩
  · obtain ⟨task, waiting, last, -, -, hcalls, -, -, -, hgone, hdone, -⟩ :=
      finishes_jobs_once hmoment ha hbody
    obtain ⟨d, hlast, hcompletes⟩ := hdone.mp hstate.1
    obtain rfl : last = some d := hlast
    have hwaiting : waiting = [] := by simpa [hcalls] using hstate.2
    exact ⟨d, task, by rw [hcalls, hwaiting]; rfl, by rw [hgone, if_pos hstate.1]; rfl, hcompletes⟩
  · obtain ⟨task, waiting, last, -, -, hcalls, hleft, -, hopen, hgone, -⟩ :=
      finishes_jobs_once hmoment ha' hbody'
    obtain rfl := hopen (by rw [hstate'.1]; rfl)
    refine ⟨by rw [hgone, hstate'.1]; rfl, task, fun d hd => hleft d ?_⟩
    simpa [hcalls] using hd

/-- Whether a task is reached after the job at position 1 has come to an end there. -/
private def isLateArrival (d : Dispatch) : Bool :=
  match d.command with
  | .enter element _ _ =>
    (d.before.activity? 1).any fun b => b.element == element && b.job?.isSome && b.state.terminal
  | _ => false

private theorem exists_of_isLateArrival {d : Dispatch} (h : isLateArrival d = true) :
    ∃ b origin via, d.before.activity? 1 = some b ∧ b.job?.isSome = true ∧
      b.state.terminal = true ∧ d.command = .enter b.element origin via := by
  unfold isLateArrival at h
  split at h
  · rename_i element origin via hc
    obtain ⟨b, hb, htest⟩ := (Option.any_eq_true _ _).mp h
    simp only [Bool.and_eq_true, beq_iff_eq] at htest
    exact ⟨b, origin, via, hb, htest.1.2, htest.2, htest.1.1 ▸ hc⟩
  · cases h

/-- A late arrival that passes a test. -/
private theorem exists_late_arrival {test : Dispatch → Bool} {log : List HistoryEntry}
    (h : (log.filterMap HistoryEntry.dispatch?).any
      (fun d => isLateArrival d && test d) = true) :
    ∃ d b origin via, .dispatched d ∈ log ∧ d.before.activity? 1 = some b ∧
      b.job?.isSome = true ∧ b.state.terminal = true ∧ d.command = .enter b.element origin via ∧
      test d = true := by
  obtain ⟨d, hd, htest⟩ := List.any_eq_true.mp h
  rw [Bool.and_eq_true] at htest
  obtain ⟨entry, hentry, hsome⟩ := List.mem_filterMap.mp hd
  obtain ⟨b, origin, via, hb, hjob, hend, hc⟩ := exists_of_isLateArrival htest.1
  cases entry with
  | published c => cases hsome
  | dispatched d' =>
      cases hsome
      exact ⟨d, b, origin, via, hentry, hb, hjob, hend, hc, htest.2⟩

/-- **Not every arrival after the end of a job opens another one.**  The third arrival takes up
the job of the second.  Where no job is open it may be that no key is left: here the last one goes
to the job of the first arrival. -/
theorem late_arrivals_open_nothing :
    (¬ ∀ (i : Instance) (log : List HistoryEntry), Moment (· = .default) 0 i log →
      ∀ (d : Dispatch) (b : Activity) (origin : Option Nat) (via : Option String),
        .dispatched d ∈ log → d.before.activity? 1 = some b → b.job?.isSome = true →
        b.state.terminal = true → d.command = .enter b.element origin via →
        d.before.inst.activities.length < d.after.inst.activities.length) ∧
    ¬ ∀ (i : Instance) (log : List HistoryEntry), Moment (· = ⟨9223372036854775803⟩) 0 i log →
      ∀ (d : Dispatch) (b : Activity) (origin : Option Nat) (via : Option String),
        .dispatched d ∈ log → d.before.activity? 1 = some b → b.job?.isSome = true →
        b.state.terminal = true → d.command = .enter b.element origin via →
        (∀ c ∈ d.before.inst.activities, c.isOpenJob = false) →
        d.before.inst.activities.length < d.after.inst.activities.length := by
  refine ⟨fun hall => ?_, fun hall => ?_⟩
  · have hkeys : KeySequence.default.next < greatestKey := by decide
    obtain ⟨e, log, hlog, htest⟩ := exists_history ofMarkup_threeArrivalsSource hkeys 100 0
      [.register (.id "t") completeFirst, .create 1 [], .run 2]
      (fun e log => e.instances[0]?.isSome &&
        (log.filterMap HistoryEntry.dispatch?).any fun d => isLateArrival d &&
          d.before.inst.activities.length == d.after.inst.activities.length) (by decide +kernel)
    rw [Bool.and_eq_true] at htest
    obtain ⟨i, hi⟩ := Option.isSome_iff_exists.mp htest.1
    obtain ⟨d, b, origin, via, hd, hb, hjob, hend, hc, hsame⟩ := exists_late_arrival htest.2
    have hlt := hall i log (.stored hlog hi) d b origin via hd hb hjob hend hc
    exact absurd (beq_iff_eq.mp hsame) (Nat.ne_of_lt hlt)
  · have hkeys : (⟨9223372036854775803⟩ : KeySequence).next < greatestKey := by decide
    obtain ⟨e, log, hlog, htest⟩ := exists_history ofMarkup_threeArrivalsSource hkeys 100 0
      [.register (.id "t") completeFirst, .create 9223372036854775803 [],
        .run 9223372036854775804]
      (fun e log => e.instances[0]?.isSome &&
        (log.filterMap HistoryEntry.dispatch?).any fun d => isLateArrival d &&
          (d.before.inst.activities.length == d.after.inst.activities.length &&
            d.before.inst.activities.all fun c => !c.isOpenJob)) (by decide +kernel)
    rw [Bool.and_eq_true] at htest
    obtain ⟨i, hi⟩ := Option.isSome_iff_exists.mp htest.1
    obtain ⟨d, b, origin, via, hd, hb, hjob, hend, hc, hsame⟩ := exists_late_arrival htest.2
    rw [Bool.and_eq_true] at hsame
    have hfree : ∀ c ∈ d.before.inst.activities, c.isOpenJob = false := by
      intro c hcm
      simpa using List.all_eq_true.mp hsame.2 c hcm
    have hlt := hall i log (.stored hlog hi) d b origin via hd hb hjob hend hc hfree
    exact absurd (beq_iff_eq.mp hsame.1) (Nat.ne_of_lt hlt)

end Engine

end ProcessEngine
