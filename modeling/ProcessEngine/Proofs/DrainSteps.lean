import ProcessEngine.Proofs.HandlingMoves

/-!
# Working off the queue

A run without a failure takes its commands one by one and puts the commands
that follow at the end of the queue.  `Run.Next` is one such step on a run with
its queue, and `Run.Reaches` some number of them.  The first failure ends the
run: nothing is done after the command that failed.

Main statements: `dispatch_spec` lists what one command can come to, and
`start?_cases` how a run can end.  What holds of the queue at the start of a
run and is kept by `Next` holds until its end.
-/

namespace ProcessEngine

namespace Run

/-! ## One command -/

/-- What visiting an element can come to: a failure, or a step whose flows are
taken if the activity is completed. -/
inductive Visits (element : Nat) (e : Element) (origin : Option Nat) (r : Run) :
    Run × List Command → Prop
  | failed {r₁ r' : Run} (n : Nat) (error : EngineError) (h : Moves element e origin n r r₁)
      (hbreak : Breaks e n r₁ r') : Visits element e origin r (r', [.fail error])
  | visited {r' : Run} {n : Nat} {a : Activity} {extra flows : List Command}
      (h : Moves element e origin n r r')
      (hfrom : n = r.inst.activities.length ∨ ∃ a, r.activity? n = some a ∧ Reuses element e a)
      (ha : r'.activity? n = some a) (hadds : Adds e n r' extra)
      (hflows : flows = [] ∨ flows = [.takeFlows n e.outgoing] ∧ a.state = .completed)
      (hrest : a.isWaiting = true → r'.Idle a) :
      Visits element e origin r (r', extra ++ flows)

/-- The commands after a report are those before it. -/
theorem Adds.report {e : Element} {n : Nat} {r : Run} {extra : List Command}
    (h : Adds e n r extra) (event : AuditEvent) : Adds e n (r.report event) extra := by
  cases h with
  | nothing hkind => exact .nothing hkind
  | race hkind => exact .race (r := r.report event) hkind
  | jump hkind htarget => exact .jump hkind htarget

theorem visit_spec (r : Run) (element : Nat) (e : Element) (origin : Option Nat)
    (via : Option String) : Visits element e origin r (r.visit element e origin via) := by
  have h := handle_spec r element e origin via
  unfold visit
  generalize r.handle element e origin via = out at h
  cases h with
  | failed n h hbreak => exact .failed n _ h hbreak
  | @handled r' step a h hfrom ha hdone hadds hrest =>
      obtain ⟨n, continues, extra⟩ := step
      cases continues with
      | false => simpa [proceed] using Visits.visited h hfrom ha hadds (.inl rfl) hrest
      | true =>
          have hmoves := h.tail (.report r' .completed)
          by_cases hout : e.outgoing.isEmpty = true
          · simpa [proceed, hout] using
              Visits.visited hmoves hfrom ha (hadds.report _) (.inl rfl) hrest
          · simpa [proceed, hout] using
              Visits.visited hmoves hfrom ha (hadds.report _) (.inr ⟨rfl, hdone rfl⟩) hrest

/-- What one command can come to. -/
inductive Dispatches (r : Run) : Command → Run × List Command → Prop
  | idle {c : Command} (hc : ∀ g, c ≠ .settleRace g) : Dispatches r c (r, [])
  | flows {source : Nat} {flowIds : List String} {flows : List SequenceFlow}
      (audit : List AuditEvent) (hflows : flows.Sublist (r.diagram.findFlows flowIds)) :
      Dispatches r (.takeFlows source flowIds)
        ({ r with audit }, flows.map (targetCommand r.diagram source))
  | stuck {source : Nat} {flowIds : List String} (error : EngineError) :
      Dispatches r (.takeFlows source flowIds) (r, [.fail error])
  | enter {element : Nat} {e : Element} {origin : Option Nat} {via : Option String}
      {out : Run × List Command} (he : r.diagram.elements[element]? = some e)
      (h : Visits element e origin r out) : Dispatches r (.enter element origin via) out
  | resume {n : Nat} {a : Activity} {e : Element} {origin : Option Nat}
      {out : Run × List Command} (ha : r.activity? n = some a)
      (he : r.diagram.elements[a.element]? = some e)
      (h : Visits a.element e origin r out) : Dispatches r (.resume n origin) out
  | settle (gateway : Nat) :
      Dispatches r (.settleRace gateway) (r.modify fun i => i.settleRace gateway, [])

/-- A flow whose condition holds is one of those that are tried. -/
theorem firstHolding_mem {vars : Variables} {flows : List SequenceFlow} {f : SequenceFlow}
    (h : firstHolding vars flows = .ok (some f)) : f ∈ flows := by
  induction flows with
  | nil => simp [firstHolding] at h
  | cons g rest ih =>
      rw [firstHolding] at h
      split at h
      · exact List.mem_cons_of_mem _ (ih h)
      · split at h
        · simp at h
        · simp only [Except.ok.injEq, Option.some.injEq] at h
          exact h ▸ List.mem_cons_self
        · exact List.mem_cons_of_mem _ (ih h)

theorem selectExclusive_mem {vars : Variables} {flows : List SequenceFlow} {f : SequenceFlow}
    (h : selectExclusive vars flows = .ok (some f)) : f ∈ flows := by
  rw [selectExclusive] at h
  split at h
  · simp at h
  · rename_i g held
    simp only [Except.ok.injEq, Option.some.injEq] at h
    exact h ▸ firstHolding_mem held
  · simp only [Except.ok.injEq] at h
    exact List.mem_of_find?_eq_some h

/-- The flows that are taken stand in the order of the ones that are offered. -/
theorem selectFlows_sublist {vars : Variables} {source : Element}
    {flows selected : List SequenceFlow} (h : selectFlows vars source flows = .ok selected) :
    selected.Sublist flows := by
  rw [selectFlows] at h
  split at h
  · split at h
    · simp at h
    · rename_i f hselect
      simp only [Except.ok.injEq] at h
      subst h
      cases f with
      | none => exact List.nil_sublist _
      | some f => exact List.singleton_sublist.mpr (selectExclusive_mem hselect)
  · simp only [Except.ok.injEq] at h
    exact h ▸ List.Sublist.refl _

/-- Entering an element is reported, and then it is visited. -/
theorem dispatch_enter {r : Run} {element : Nat} {e : Element}
    (he : r.diagram.elements[element]? = some e) (origin : Option Nat) (via : Option String) :
    r.dispatch (.enter element origin via) =
      (r.reportElement e .activated).visit element e origin via := by
  simp only [dispatch, he]

/-- Looking again at an activity is a visit of its element. -/
theorem dispatch_resume {r : Run} {n : Nat} {a : Activity} {e : Element}
    (ha : r.activity? n = some a) (he : r.diagram.elements[a.element]? = some e)
    (origin : Option Nat) :
    r.dispatch (.resume n origin) = r.visit a.element e origin none := by
  simp only [dispatch, ha, he]

/-- A visit after a report is a visit. -/
theorem Visits.of_report {element : Nat} {e : Element} {origin : Option Nat} {r : Run}
    {intent : ElementIntent} {out : Run × List Command}
    (h : Visits element e origin (r.reportElement e intent) out) :
    Visits element e origin r out := by
  cases h with
  | failed n error h hbreak => exact .failed n error (.head (.report r intent) h) hbreak
  | visited h hfrom ha hadds hflows hrest =>
      exact .visited (.head (.report r intent) h) hfrom ha hadds hflows hrest

/-- **Every command comes to one of the listed outcomes.** -/
theorem dispatch_spec (r : Run) (c : Command) : Dispatches r c (r.dispatch c) := by
  cases c with
  | takeFlows source flowIds =>
      simp only [dispatch, takeFlows]
      split
      · exact .idle fun _ h => by cases h
      · split
        · exact .stuck _
        · rename_i hselect
          exact .flows _ (selectFlows_sublist hselect)
  | enter element origin via =>
      simp only [dispatch]
      split
      · exact .idle fun _ h => by cases h
      · rename_i e he
        exact .enter he (visit_spec _ element e origin via).of_report
  | resume n origin =>
      simp only [dispatch]
      split
      · exact .idle fun _ h => by cases h
      · rename_i a ha
        split
        · exact .idle fun _ h => by cases h
        · rename_i e he
          exact .resume ha he (visit_spec r a.element e origin none)
  | settleRace gateway => exact .settle gateway
  | fail error => exact .idle fun _ h => by cases h

/-! ## The whole queue -/

/-- A run with the work that is left. -/
abbrev Work := Run × List Command

/-- One command worked off without a failure. -/
inductive Next : Work → Work → Prop
  | step (r : Run) (c : Command) (queue : List Command) (hc : c.isFailure = false)
      (hcs : ∀ c' ∈ (r.dispatch c).2, c'.isFailure = false) :
      Next (r, c :: queue) ((r.dispatch c).1, queue ++ (r.dispatch c).2)

/-- Some commands worked off without a failure. -/
abbrev Reaches : Work → Work → Prop := Relation.ReflTransGen Next

/-- How a queue without failures ends: it runs empty, or a command fails and is
the last one that is done. -/
inductive Ends (work : Work) : Run → Option EngineError → Prop
  | empty {r : Run} (h : Reaches work (r, [])) : Ends work r.finish none
  | failed {r : Run} {c : Command} {queue : List Command} {error : EngineError}
      (h : Reaches work (r, c :: queue)) (herror : .fail error ∈ (r.dispatch c).2) :
      Ends work (r.dispatch c).1.abort (some error)

theorem Ends.head {work next : Work} {r : Run} {error? : Option EngineError}
    (hnext : Next work next) (h : Ends next r error?) : Ends work r error? := by
  cases h with
  | empty h => exact .empty (.head hnext h)
  | failed h herror => exact .failed (.head hnext h) herror

/-- Nothing is lost in the queue, and nothing is made up. -/
theorem mem_enqueue {queue commands : List Command} {c : Command} :
    c ∈ enqueue queue commands ↔ c ∈ queue ∨ c ∈ commands := by
  cases h : c.isFailure <;> simp [enqueue, h, or_comm]

/-- Commands without failures go to the end of the queue. -/
theorem enqueue_of_no_failure {queue commands : List Command}
    (h : ∀ c ∈ commands, c.isFailure = false) : enqueue queue commands = queue ++ commands := by
  have hnone : commands.filter Command.isFailure = [] := by
    simpa [List.filter_eq_nil_iff] using h
  have hall : commands.filter (fun c => !c.isFailure) = commands := by
    simpa [List.filter_eq_self] using h
  rw [enqueue, hnone, hall]
  rfl

/-- A failure goes to the front. -/
theorem enqueue_of_failure (queue : List Command) {commands : List Command}
    (h : ∃ c ∈ commands, c.isFailure = true) :
    ∃ error rest, enqueue queue commands = .fail error :: rest ∧ .fail error ∈ commands := by
  obtain ⟨c, hc, hfail⟩ := h
  have hmem : c ∈ (commands.filter Command.isFailure).reverse := by simp [hc, hfail]
  rw [enqueue]
  cases hfront : (commands.filter Command.isFailure).reverse with
  | nil =>
      rw [hfront] at hmem
      cases hmem
  | cons d rest =>
      have hd : d ∈ (commands.filter Command.isFailure).reverse := by simp [hfront]
      simp only [List.mem_reverse, List.mem_filter] at hd
      cases d with
      | fail error => exact ⟨error, _, rfl, hd.1⟩
      | _ => cases hd.2

theorem drain?_cases {fuel : Nat} {r r' : Run} {queue : List Command}
    {error? : Option EngineError} (hqueue : ∀ c ∈ queue, c.isFailure = false)
    (h : drain? fuel r queue = some (r', error?)) : Ends (r, queue) r' error? := by
  induction fuel generalizing r queue with
  | zero =>
      cases queue with
      | nil =>
          cases h
          exact .empty .refl
      | cons c queue => cases h
  | succ fuel ih =>
      cases queue with
      | nil =>
          cases h
          exact .empty .refl
      | cons c queue =>
          have hc := hqueue c List.mem_cons_self
          have hrest : drain? fuel (r.dispatch c).1 (enqueue queue (r.dispatch c).2) =
              some (r', error?) := by
            cases c with
            | fail error => cases hc
            | _ => exact h
          by_cases hfail : ∃ c' ∈ (r.dispatch c).2, c'.isFailure = true
          · -- the failure is at the front, so the run ends with the next command
            obtain ⟨error, rest, hfront, herror⟩ := enqueue_of_failure queue hfail
            rw [hfront] at hrest
            cases fuel with
            | zero => cases hrest
            | succ fuel =>
                cases hrest
                exact .failed .refl herror
          · have hcs : ∀ c' ∈ (r.dispatch c).2, c'.isFailure = false := by
              intro c' hc'
              simpa using fun hf => hfail ⟨c', hc', hf⟩
            rw [enqueue_of_no_failure hcs] at hrest
            refine (ih ?_ hrest).head (.step r c queue hc hcs)
            intro c' hc'
            rcases List.mem_append.mp hc' with hold | hnew
            · exact hqueue c' (List.mem_cons_of_mem _ hold)
            · exact hcs c' hnew

/-- The run with its instance under way. -/
def activate (r : Run) : Run := r.modify fun i => { i with state := .active }

/-- The end of a run is only reported. -/
@[simp] theorem inst_finish (r : Run) : r.finish.inst = r.inst := by
  unfold finish
  split <;> rfl

/-- A run starts by entering start events, or by looking again at what is
open. -/
theorem seeds_cases {i : Instance} {c : Command} (h : c ∈ seeds i) :
    (∃ n ∈ i.diagram.startEvents, c = .enter n none none) ∨
      ∃ n ∈ i.continuations, c = .resume n (i.activities[n]?.bind Activity.origin) := by
  unfold seeds at h
  split at h
  · obtain ⟨n, hn, rfl⟩ := List.mem_map.mp h
    exact .inl ⟨n, hn, rfl⟩
  · obtain ⟨n, hn, rfl⟩ := List.mem_map.mp h
    exact .inr ⟨n, hn, rfl⟩
  · cases h
  · cases h

theorem seeds_no_failure (i : Instance) : ∀ c ∈ seeds i, c.isFailure = false := by
  intro c hc
  rcases seeds_cases hc with ⟨n, -, rfl⟩ | ⟨n, -, rfl⟩ <;> rfl

/-- **How a run can end.**  A run of an ended instance does nothing; any other
works off the queue that it starts with. -/
theorem start?_cases {fuel : Nat} {r r' : Run} {error? : Option EngineError}
    (h : r.start? fuel = some (r', error?)) :
    (r.inst.state.terminal = true ∧ r' = r ∧ error? = none) ∨
      (r.inst.state.terminal = false ∧ Ends (r.activate, seeds r.inst) r' error?) := by
  unfold start? at h
  split at h
  · rename_i hend
    cases h
    exact .inl ⟨hend, rfl, rfl⟩
  · rename_i hgo
    exact .inr ⟨by simpa using hgo, drain?_cases (seeds_no_failure r.inst) h⟩

end Run

end ProcessEngine
