import ProcessEngine.Proofs.InstanceHistory
import ProcessEngine.Proofs.RaceBranches

/-!
# Runs that are taken up again

A run of an active instance starts by looking again at what was left open: its
active jobs, its active subscriptions and its created timers.  The commands for
this name activities by their positions, but the visit of an element looks for
an open activity by the id of the element.  Both mean the same activity, since
no two open activities hold one slot and nothing that is done in between closes
another one.

Main statement: `resumed_run_continues`.
-/

namespace ProcessEngine

/-- Whether an activity holds a gateway is fixed at its creation. -/
theorem Activity.gateway?_eq_none_of_frame {a b : Activity} (h : b.frame = a.frame)
    (ha : a.gateway? = none) : b.gateway? = none := by
  have hbody : b.body.frame = a.body.frame := congrArg body h
  unfold gateway? at ha ⊢
  cases hb : b.body <;> cases ha' : a.body <;> simp_all [ActivityBody.frame]

/-- An active job, an active subscription or a created timer. -/
def Activity.isLeftOpen (a : Activity) : Bool :=
  match a.body with
  | .job j => j.state == .active
  | .subscription s => s.state == .active
  | .timer t => t.state == .created
  | _ => false

namespace Instance

/-- The visit of an element takes up the activity at a position: it is open,
and the look-up for the kind of the element finds it by the element's id. -/
inductive TakesUp (i : Instance) (f : Element) (k : Nat) : ActivityBody → Prop
  | job {j : Job} (hkind : f.kind = .serviceTask ∨ f.kind = .userTask)
      (hopen : j.state.terminal = false) (hfind : i.findOpenJob? f.id = some k) :
      TakesUp i f k (.job j)
  | subscription {s : Subscription} {ref : Option String} (hkind : f.kind = .catchEvent)
      (hevent : f.event = some (.message ref)) (hopen : s.state.terminal = false)
      (hfind : i.findOpenSubscription? f.id = some k) : TakesUp i f k (.subscription s)
  | timer {t : Timer} {duration : Option String} (hkind : f.kind = .catchEvent)
      (hevent : f.event = some (.timer duration)) (hopen : t.state = .created)
      (hfind : i.findCreatedTimer? f.id = some k) : TakesUp i f k (.timer t)

variable {i : Instance}

theorem mem_continuations {k : Nat} :
    k ∈ i.continuations ↔ ∃ a, i.activities[k]? = some a ∧ a.isLeftOpen = true := by
  unfold continuations
  rw [List.mem_append, List.mem_append, Run.mem_positions, Run.mem_positions, Run.mem_positions]
  constructor
  · rintro ((⟨a, ha, htest⟩ | ⟨a, ha, htest⟩) | ⟨a, ha, htest⟩) <;> refine ⟨a, ha, ?_⟩ <;>
      cases hb : a.body <;>
      simp_all [Activity.job?, Activity.subscription?, Activity.isCreatedTimer, Activity.timer?,
        Activity.isLeftOpen]
  · rintro ⟨a, ha, hopen⟩
    unfold Activity.isLeftOpen at hopen
    split at hopen
    · rename_i j hb
      exact .inl (.inl ⟨a, ha, by simpa [Activity.job?, hb] using hopen⟩)
    · rename_i s hb
      exact .inl (.inr ⟨a, ha, by simpa [Activity.subscription?, hb] using hopen⟩)
    · rename_i t hb
      exact .inr ⟨a, ha, by simpa [Activity.isCreatedTimer, Activity.timer?, hb] using hopen⟩
    · cases hopen

/-- Where slots are exclusive, a look-up finds the activity that holds the
slot. -/
theorem Exclusive.findSlot? (h : i.Exclusive) {k : Nat} {slot : Slot}
    (hheld : i.slotAt k = some slot) : i.findSlot? slot = some k := by
  cases hfind : i.findSlot? slot with
  | none => exact absurd hheld (slotAt_ne_of_findSlot? hfind k)
  | some m => rw [h (slotAt_of_findSlot? hfind) hheld]

/-- An open job or wait is taken up by a visit of its element. -/
theorem Sound.takesUp (hi : i.Sound) {k : Nat} {a : Activity} {slot : Slot}
    (ha : i.activities[k]? = some a) (hslot : a.slot? = some slot)
    (hgateway : a.gateway? = none) :
    ∃ f, i.diagram.elements[a.element]? = some f ∧ i.TakesUp f k a.body := by
  have hfind := hi.exclusive.findSlot? (slotAt_eq_some.mpr ⟨a, ha, hslot⟩)
  obtain ⟨f, hf, hfits, -⟩ := hi.fits ha
  refine ⟨f, hf, ?_⟩
  cases slot with
  | job id =>
      obtain ⟨j, hj, hopen, rfl⟩ := Activity.slot?_eq_job.mp hslot
      rw [hj] at hfits ⊢
      cases hfits with
      | job _ hkind _ hid => exact .job hkind hopen (by rw [findOpenJob?_eq, ← hid, hfind])
  | subscription id =>
      obtain ⟨s, hs, hopen, rfl⟩ := Activity.slot?_eq_subscription.mp hslot
      rw [hs] at hfits ⊢
      cases hfits with
      | subscription _ hkind hevent _ _ hid =>
          exact .subscription hkind hevent hopen (by rw [findOpenSubscription?_eq, ← hid, hfind])
  | timer id =>
      obtain ⟨t, ht, hopen, rfl⟩ := Activity.slot?_eq_timer.mp hslot
      rw [ht] at hfits ⊢
      cases hfits with
      | timer _ hkind hevent _ _ _ hid =>
          exact .timer hkind hevent hopen (by rw [findCreatedTimer?_eq, ← hid, hfind])
  | gateway element =>
      obtain ⟨g, hg, -⟩ := Activity.slot?_eq_gateway.mp hslot
      simp [Activity.gateway?, hg] at hgateway

end Instance

/-- What was left open is no gateway. -/
theorem Activity.gateway?_of_isLeftOpen (a : Activity) (h : a.isLeftOpen = true) :
    a.gateway? = none := by
  unfold isLeftOpen at h
  unfold gateway?
  split at h <;> simp_all

/-- A command that reaches a parallel gateway does so by a flow: none enters one
otherwise, and none looks at a gateway again. -/
def Command.ByFlow (i : Instance) : Command → Prop
  | .enter element _ none =>
    ∀ e, i.diagram.elements[element]? = some e → e.kind ≠ .parallelGateway
  | .resume n _ => ∃ a, i.activities[n]? = some a ∧ a.gateway? = none
  | _ => True

theorem Command.ByFlow.grows {opened : List Activity} {r r' : Run} {c : Command}
    (h : c.ByFlow r.inst) (hgrows : Run.Grows opened r r') : c.ByFlow r'.inst := by
  cases c with
  | enter element origin via =>
      cases via with
      | none =>
          unfold ByFlow
          rw [hgrows.diagram]
          exact h
      | some flow => trivial
  | resume n origin =>
      obtain ⟨a, ha, hnone⟩ := h
      obtain ⟨b, hb, hframe⟩ := hgrows.activity? ha
      exact ⟨b, hb, Activity.gateway?_eq_none_of_frame hframe hnone⟩
  | _ => trivial

namespace Run

/-- A link leads to a catch event. -/
theorem kind_of_linkTarget? {d : Diagram} {link : String} {n : Nat} {e : Element}
    (h : linkTarget? d link = some n) (he : d.elements[n]? = some e) : e.kind = .catchEvent := by
  unfold linkTarget? at h
  split at h
  · cases h
  · obtain ⟨hlt, htest, -⟩ := List.findIdx?_eq_some_iff_getElem.mp h
    obtain rfl : d.elements[n] = e := by simpa [List.getElem?_eq_getElem hlt] using he
    exact beq_iff_eq.mp (Bool.and_eq_true_iff.mp htest).1

/-- The activities that some commands look at again. -/
def resumes (commands : List Command) : List Nat := commands.filterMap Command.resumed?

theorem resumes_eq_nil {commands : List Command} (h : ∀ c ∈ commands, c.resumed? = none) :
    resumes commands = [] :=
  List.filterMap_eq_nil_iff.mpr h

/-- A queue has as many activities to look at again as before, whatever is
added to it. -/
theorem resumes_enqueue {queue commands : List Command}
    (h : ∀ c ∈ commands, c.resumed? = none) :
    resumes (enqueue queue commands) = resumes queue := by
  have hfront : resumes (commands.filter Command.isFailure).reverse = [] :=
    resumes_eq_nil fun c hc => h c (List.mem_of_mem_filter (List.mem_reverse.mp hc))
  have hback : resumes (commands.filter fun c => !c.isFailure) = [] :=
    resumes_eq_nil fun c hc => h c (List.mem_of_mem_filter hc)
  unfold resumes at hfront hback ⊢
  rw [enqueue, List.filterMap_append, List.filterMap_append, hfront, hback, List.nil_append,
    List.append_nil]

theorem resumes_seeds {i : Instance} (hactive : i.state = .active) :
    resumes (seeds i) = i.continuations := by
  unfold resumes seeds
  rw [hactive]
  simp only [List.filterMap_map]
  exact List.filterMap_some

/-- **Each activity is looked at once**: what has been looked at and what is
still to be looked at are together what the run started with, in its order. -/
theorem Traced.resumes {work next : Work} {log : List Dispatch} (h : Traced work log next) :
    Run.resumes (log.map Dispatch.command) ++ Run.resumes next.2 = Run.resumes work.2 := by
  induction h with
  | start => rfl
  | @step log r c queue _ _ ih =>
      rw [← ih, resumes_enqueue (dispatch_resumed? r c)]
      simp only [Run.resumes, List.map_append, List.filterMap_append, List.map_cons, List.map_nil,
        List.append_assoc]
      rw [← List.filterMap_append, List.singleton_append]

/-- While an activity is still to be looked at again, nothing else has been
done. -/
theorem all_resumed {r₀ : Run} {next : Work} {log : List Dispatch} (hr₀ : r₀.inst.Sound)
    (htrace : Traced (r₀.activate, seeds r₀.inst) log next) {k : Nat}
    (hk : k ∈ resumes next.2) : ∀ d ∈ log, d.command.resumed?.isSome = true := by
  have hsound := seeds_sound hr₀
  have hqueued : r₀.activate.inst.Queued (seeds r₀.inst) :=
    (seeds_queued r₀.inst).of_slotAt fun n _ => rfl
  induction htrace with
  | start => simp
  | @step log r c queue htrace hc ih =>
      have hleft : k ∈ resumes queue := by
        rwa [resumes_enqueue (dispatch_resumed? r c)] at hk
      have hleft' : k ∈ resumes (c :: queue) := by
        obtain ⟨c', hc', hk'⟩ := List.mem_filterMap.mp hleft
        exact List.mem_filterMap.mpr ⟨c', List.mem_cons_of_mem _ hc', hk'⟩
      intro d hd
      rcases List.mem_append.mp hd with hd | hd
      · exact ih hleft' d hd
      · obtain rfl := List.mem_singleton.mp hd
        rcases htrace.reaches (seeds_no_failure _) with ⟨hreaches, -⟩ | ⟨error, rest, -, hhead, -⟩
        · have hqueue := hreaches.queued hsound hqueued
          cases hqueue with
          | rest h =>
              rw [resumes_eq_nil fun c' hc' => h c' (List.mem_cons_of_mem _ hc')] at hleft
              cases hleft
          | resume => rfl
        · obtain ⟨rfl, -⟩ := List.cons.inj hhead
          cases hc

/-! ## How gateways are reached -/

/-- The commands of a run that starts respect gateways. -/
theorem seeds_byFlow (i : Instance) : ∀ c ∈ seeds i, c.ByFlow i := by
  intro c hc
  rcases seeds_cases hc with ⟨n, hn, rfl⟩ | ⟨n, hn, rfl⟩
  · obtain ⟨e, he, hkind⟩ := (Option.any_eq_true _ _).mp (List.mem_filter.mp hn).2
    intro e' he'
    obtain rfl : e = e' := Option.some.inj (he.symm.trans he')
    simp [beq_iff_eq.mp hkind]
  · obtain ⟨a, ha, hopen⟩ := Instance.mem_continuations.mp hn
    exact ⟨a, ha, a.gateway?_of_isLeftOpen hopen⟩

theorem Visits.byFlow {element : Nat} {e : Element} {origin : Option Nat} {r : Run}
    {out : Run × List Command} (h : Visits element e origin r out) :
    ∀ c ∈ out.2, c.ByFlow out.1.inst := by
  intro c hc
  cases h with
  | failed =>
      obtain rfl := List.mem_singleton.mp hc
      trivial
  | visited _ _ _ hadds hflows =>
      rcases List.mem_append.mp hc with hc | hc
      · cases hadds with
        | nothing => cases hc
        | race =>
            obtain ⟨gateway, rfl⟩ := eq_settleRace_of_mem hc
            trivial
        | jump _ htarget =>
            obtain rfl := List.mem_singleton.mp hc
            intro e' he'
            rw [kind_of_linkTarget? htarget he']
            simp
      · rcases hflows with rfl | ⟨rfl, -⟩
        · cases hc
        · obtain rfl := List.mem_singleton.mp hc
          trivial

theorem dispatch_byFlow (r : Run) (c : Command) :
    ∀ c' ∈ (r.dispatch c).2, c'.ByFlow (r.dispatch c).1.inst := by
  have h := dispatch_spec r c
  generalize r.dispatch c = out at h
  cases h with
  | idle => simp
  | flows audit hflows =>
      intro c' hc'
      obtain ⟨f, -, rfl⟩ := List.mem_map.mp hc'
      unfold targetCommand
      split <;> trivial
  | stuck =>
      intro c' hc'
      obtain rfl := List.mem_singleton.mp hc'
      trivial
  | enter _ h => exact h.byFlow
  | resume _ _ h => exact h.byFlow
  | settle => simp

theorem Reaches.byFlow {work next : Work} (h : Reaches work next) (hw : Work.Sound work)
    (hbyFlow : ∀ c ∈ work.2, c.ByFlow work.1.inst) : ∀ c ∈ next.2, c.ByFlow next.1.inst := by
  refine h.keeps (P := fun work => ∀ c ∈ work.2, c.ByFlow work.1.inst) ?_ hw hbyFlow
  intro r c queue _ _ hqueue c' hc'
  rcases List.mem_append.mp hc' with hold | hnew
  · obtain ⟨opened, hgrows⟩ := dispatch_grows r c
    exact (hqueue c' (List.mem_cons_of_mem _ hold)).grows hgrows
  · exact dispatch_byFlow r c c' hnew

end Run

/-- Every command of a trace is one that a run comes to. -/
theorem Run.Traced.underway {r₀ : Run} {next : Run.Work} {log : List Dispatch} {d : Dispatch}
    (h : Run.Traced (r₀.activate, Run.seeds r₀.inst) log next) (hr₀ : r₀.inst.Sound)
    (hd : d ∈ log) : d.Underway := by
  obtain ⟨queue, hreaches⟩ := h.reaches_of_mem (Run.seeds_no_failure _) hd
  exact ⟨r₀, queue, hr₀, hreaches⟩

namespace Dispatch.Underway

variable {d : Dispatch} {k : Nat}

/-- **Parallel gateways are reached by flows only.** -/
theorem byFlow (h : d.Underway) :
    d.command.ByFlow d.before.inst := by
  obtain ⟨r₀, queue, hr₀, hreaches⟩ := h
  refine hreaches.byFlow (Run.seeds_sound hr₀) (fun c hc => ?_) _ List.mem_cons_self
  exact (Run.seeds_byFlow r₀.inst c hc).grows (.of_frames rfl rfl rfl rfl rfl rfl rfl)

/-- An activity that is looked at again is no gateway. -/
theorem gateway? (h : d.Underway) (hk : d.command.resumed? = some k) {a : Activity}
    (ha : d.before.activity? k = some a) : a.gateway? = none := by
  have hbyFlow := h.byFlow
  cases hc : d.command with
  | resume n origin =>
      rw [hc] at hk hbyFlow
      obtain rfl := Option.some.inj hk
      obtain ⟨b, hb, hnone⟩ := hbyFlow
      obtain rfl : a = b := Option.some.inj (ha.symm.trans hb)
      exact hnone
  | _ =>
      rw [hc] at hk
      cases hk

/-- An activity is looked at again while nothing else has been done, so it is
still open. -/
theorem held (h : d.Underway) (hk : d.command.resumed? = some k) :
    ∃ slot, d.before.inst.slotAt k = some slot := by
  obtain ⟨r₀, queue, hr₀, hreaches⟩ := h
  have hqueued : r₀.activate.inst.Queued (Run.seeds r₀.inst) :=
    (Run.seeds_queued r₀.inst).of_slotAt fun n _ => rfl
  have hqueue := hreaches.queued (Run.seeds_sound hr₀) hqueued
  generalize d.command = c at hk hqueue
  cases hqueue with
  | rest h =>
      rw [h c List.mem_cons_self] at hk
      cases hk
  | resume hheld =>
      obtain rfl := Option.some.inj hk
      exact ⟨_, hheld⟩

/-- Looking at an open activity again opens none. -/
theorem still (h : d.Underway) (hk : d.command.resumed? = some k) :
    Run.Grows [] d.before d.after := by
  obtain ⟨slot, hheld⟩ := h.held hk
  have hsound := h.sound.1
  obtain ⟨r, c⟩ := d
  show Run.Grows [] r (r.dispatch c).1
  have hspec := Run.dispatch_spec r c
  generalize r.dispatch c = out at hspec
  cases hspec with
  | idle => exact .refl r
  | resume ha he h =>
      obtain rfl := Option.some.inj hk
      obtain ⟨b, hb, hslot⟩ := Instance.slotAt_eq_some.mp hheld
      obtain rfl := Option.some.inj (ha.symm.trans hb)
      exact h.still_of_held ((hsound.fits ha).slot? he hslot) hheld
  | _ => cases hk

end Dispatch.Underway

namespace Engine

/-- **A resumed run continues exactly the activities that it names.**  It looks
once, in their order, at the active jobs, the active subscriptions and the
created timers that it starts with.  Each of them is still open when its turn
comes, it is the one that the look-up by the id of its element finds, and no
activity is opened and no key issued for it.  Only where such a look fails the
instance are the others left out. -/
theorem resumed_run_continues {starts : KeySequence → Prop} {e : Engine}
    (h : Reachable starts e) {i : Instance} (hi : i ∈ e.instances) (hactive : i.state = .active) :
    i.continuations.Nodup ∧
      (∀ k, k ∈ i.continuations ↔ ∃ a, i.activities[k]? = some a ∧ a.isLeftOpen = true) ∧
      (∀ log next, Run.Traced ((e.lend i).activate, Run.seeds i) log next →
        Run.resumes (log.map Dispatch.command) ++ Run.resumes next.2 = i.continuations ∧
        ∀ d ∈ log, ∀ k, d.command.resumed? = some k →
          (∃ a f, d.before.activity? k = some a ∧
            d.before.diagram.elements[a.element]? = some f ∧ d.before.inst.TakesUp f k a.body) ∧
          d.after.inst.activities.length = d.before.inst.activities.length ∧
          d.after.keys = d.before.keys) ∧
      ∀ fuel r' error?, (e.lend i).start? fuel = some (r', error?) →
        Run.resumes (((e.lend i).startTrace fuel).map Dispatch.command) = i.continuations ∨
          (Run.resumes (((e.lend i).startTrace fuel).map Dispatch.command) <+: i.continuations ∧
            ∃ error d, error? = some error ∧ ((e.lend i).startTrace fuel).getLast? = some d ∧
              d.command.resumed?.isSome = true ∧ .fail error ∈ d.follow) := by
  have hr₀ : (e.lend i).inst.Sound := (h.sound.instances i hi).1
  refine ⟨i.nodup_continuations, fun k => Instance.mem_continuations, ?_, ?_⟩
  · intro log next htrace
    refine ⟨htrace.resumes.trans (Run.resumes_seeds hactive), fun d hd k hk => ?_⟩
    have hunderway := htrace.underway hr₀ hd
    obtain ⟨slot, hheld⟩ := hunderway.held hk
    obtain ⟨a, ha, hslot⟩ := Instance.slotAt_eq_some.mp hheld
    obtain ⟨f, hf, htakes⟩ := hunderway.sound.1.takesUp ha hslot (hunderway.gateway? hk ha)
    have hstill := hunderway.still hk
    refine ⟨⟨a, f, ha, hf, htakes⟩, by simpa using hstill.length, ?_⟩
    have hkeys := hstill.keys
    cases hafter : d.after.keys
    cases hbefore : d.before.keys
    simp_all
  · intro fuel r' error? hrun
    have hgo : (e.lend i).inst.state.terminal = false := by
      show i.state.terminal = false
      rw [hactive]
      rfl
    obtain ⟨r₁, rest, htrace, hend⟩ := Run.start?_traced hgo hrun
    have hall : Run.resumes (((e.lend i).startTrace fuel).map Dispatch.command) ++
        Run.resumes rest = i.continuations :=
      htrace.resumes.trans (Run.resumes_seeds hactive)
    by_cases hrest : Run.resumes rest = []
    · left
      rw [← hall, hrest, List.append_nil]
    · right
      obtain ⟨k, hk⟩ := List.exists_mem_of_ne_nil _ hrest
      refine ⟨⟨_, hall⟩, ?_⟩
      rcases hend with ⟨rfl, -⟩ | ⟨error, left, rfl, -, rfl⟩
      · exact absurd rfl hrest
      · rcases htrace.reaches (Run.seeds_no_failure i) with
          ⟨-, hclean⟩ | ⟨error', _, d, hhead, hlast, hd⟩
        · cases hclean _ List.mem_cons_self
        · obtain ⟨herror, -⟩ := List.cons.inj hhead
          cases herror
          have hmem := List.mem_of_getLast? hlast
          exact ⟨error, d, rfl, hlast, Run.all_resumed hr₀ htrace hk d hmem, hd⟩

/-- The source of a process with a task and a message to wait for. -/
def errandSource : List String :=
  ["<process id='p'>", "<startEvent id='s'/>", "<userTask id='a'/>",
   "<intermediateCatchEvent id='b' name='m'>", "<messageEventDefinition/>",
   "</intermediateCatchEvent>", "<sequenceFlow id='1' ", "sourceRef='s' targetRef='a'/>",
   "<sequenceFlow id='2' ", "sourceRef='s' targetRef='b'/>", "</process>"]

def errandDiagram : Diagram :=
  { id := "p", name := ""
    elements :=
      [{ Element.bare "s" "" .startEvent with outgoing := ["1", "2"] },
       { Element.bare "a" "" .userTask with incoming := ["1"] },
       { Element.bare "b" "m" .catchEvent with incoming := ["2"], event := some (.message none) }]
    flows := [⟨"1", "", "s", "a", []⟩, ⟨"2", "", "s", "b", []⟩]
    messages := [] }

theorem ofMarkup_errandSource :
    Diagram.ofMarkup (String.join errandSource) = .ok errandDiagram :=
  ofMarkup_join (by decide +kernel)

/-- A run looks again at an open job and at a subscription. -/
theorem resumed_run_of_errand :
    ∃ e, Reachable (· = .default) e ∧ ∃ i ∈ e.instances, i.state = .active ∧
      i.continuations = [1, 2] ∧ ∃ r', (e.lend i).start? 100 = some (r', none) ∧
        Run.resumes (((e.lend i).startTrace 100).map Dispatch.command) = [1, 2] := by
  obtain ⟨e, hreachable, htest⟩ := exists_reachable ofMarkup_errandSource 100
    [.create 1 [], .run 2, .publish 2 "m" []]
    (fun e => e.instances[0]?.any fun i => i.state == .active && i.continuations == [1, 2] &&
      ((e.lend i).start? 100).any fun out => out.2.isNone) (by decide +kernel)
  obtain ⟨i, hi, htest⟩ := (Option.any_eq_true _ _).mp htest
  simp only [Bool.and_eq_true, beq_iff_eq] at htest
  obtain ⟨⟨hactive, hopen⟩, hrun⟩ := htest
  obtain ⟨⟨r', error?⟩, hrun, hnone⟩ := (Option.any_eq_true _ _).mp hrun
  obtain rfl : error? = none := by simpa using hnone
  have hmem := List.mem_of_getElem? hi
  have hruns := (resumed_run_continues hreachable hmem hactive).2.2.2 100 r' none hrun
  rcases hruns with hall | ⟨-, error, d, herror, -⟩
  · exact ⟨e, hreachable, i, hmem, hactive, hopen, r', hrun, hall.trans hopen⟩
  · cases herror

end Engine

end ProcessEngine
