import ProcessEngine.Proofs.EngineReachability

/-!
# The history of an instance

An instance is moved by what is published to it and by the commands that its
runs dispatch.  `Run.Traced` follows a run command by command, in the order of
the queue, and `Engine.History` collects over the whole life of an engine what
happened to the instance at one position.  Taking a snapshot and restoring it
adds nothing to a history.

`Engine.Moment` is an instance with its history so far, between the operations
of its engine or in the midst of a run.

Main statement: `Moment.keeps`, by which a law that publishing, each single
command and relinking keep (`Lasting`) holds at every moment.
-/

namespace ProcessEngine

/-- A command at the moment when it is dispatched, with the run that it finds. -/
structure Dispatch where
  before : Run
  command : Command

namespace Dispatch

/-- The run that the command leaves. -/
def after (d : Dispatch) : Run := (d.before.dispatch d.command).1

/-- The commands that follow from the command. -/
def follow (d : Dispatch) : List Command := (d.before.dispatch d.command).2

/-- Whether the command fails its instance. -/
def fails (d : Dispatch) : Bool := d.follow.any Command.isFailure

end Dispatch

/-- What happens to an instance. -/
inductive HistoryEntry where
  | published (c : CaughtEvent)
  | dispatched (d : Dispatch)

/-- The published event of an entry. -/
def HistoryEntry.event? : HistoryEntry → Option CaughtEvent
  | published c => some c
  | dispatched _ => none

/-- The dispatched command of an entry. -/
def HistoryEntry.dispatch? : HistoryEntry → Option Dispatch
  | published _ => none
  | dispatched d => some d

namespace Run

/-! ## The trace of a run -/

/-- Some commands are worked off one after another; these are all of them, in
order.  A failure is not worked off: it ends the run. -/
inductive Traced (work : Work) : List Dispatch → Work → Prop
  | start : Traced work [] work
  | step {log : List Dispatch} {r : Run} {c : Command} {queue : List Command}
      (h : Traced work log (r, c :: queue)) (hc : c.isFailure = false) :
      Traced work (log ++ [⟨r, c⟩]) ((r.dispatch c).1, enqueue queue (r.dispatch c).2)

/-- The commands that `drain?` works off. -/
def trace : Nat → Run → List Command → List Dispatch
  | _, _, [] => []
  | 0, _, _ :: _ => []
  | _ + 1, _, .fail _ :: _ => []
  | fuel + 1, r, command :: queue =>
    ⟨r, command⟩ :: trace fuel (r.dispatch command).1 (enqueue queue (r.dispatch command).2)

/-- The commands that `start?` works off. -/
def startTrace (fuel : Nat) (r : Run) : List Dispatch :=
  if r.inst.state.terminal then [] else trace fuel r.activate (seeds r.inst)

theorem Traced.trans {work next last : Work} {log log' : List Dispatch}
    (h : Traced work log next) (h' : Traced next log' last) : Traced work (log ++ log') last := by
  induction h' with
  | start => rwa [List.append_nil]
  | step _ hc ih =>
      rw [← List.append_assoc]
      exact ih.step hc

/-- **How a trace ends with its run**: nothing is left, or a failure is next. -/
theorem drain?_traced {fuel : Nat} {r r' : Run} {queue : List Command}
    {error? : Option EngineError} (h : drain? fuel r queue = some (r', error?)) :
    ∃ r₁ rest, Traced (r, queue) (trace fuel r queue) (r₁, rest) ∧
      ((rest = [] ∧ r' = r₁.finish ∧ error? = none) ∨
        ∃ error left, rest = .fail error :: left ∧ r' = r₁.abort ∧ error? = some error) := by
  induction fuel generalizing r queue with
  | zero =>
      cases queue with
      | nil =>
          cases h
          exact ⟨r, [], .start, .inl ⟨rfl, rfl, rfl⟩⟩
      | cons c queue => cases h
  | succ fuel ih =>
      cases queue with
      | nil =>
          cases h
          exact ⟨r, [], .start, .inl ⟨rfl, rfl, rfl⟩⟩
      | cons c queue =>
          cases hc : c.isFailure with
          | true =>
              cases c with
              | fail error =>
                  cases h
                  exact ⟨r, _, .start, .inr ⟨error, queue, rfl, rfl, rfl⟩⟩
              | _ => cases hc
          | false =>
              have hrest : drain? fuel (r.dispatch c).1 (enqueue queue (r.dispatch c).2) =
                  some (r', error?) := by
                cases c with
                | fail error => cases hc
                | _ => exact h
              obtain ⟨r₁, rest, htraced, hend⟩ := ih hrest
              have hall := (Traced.start.step hc).trans htraced
              refine ⟨r₁, rest, ?_, hend⟩
              cases c with
              | fail error => cases hc
              | _ => exact hall

/-- A run that has not ended traces the queue that it starts with. -/
theorem start?_traced {fuel : Nat} {r r' : Run} {error? : Option EngineError}
    (hgo : r.inst.state.terminal = false) (h : r.start? fuel = some (r', error?)) :
    ∃ r₁ rest, Traced (r.activate, seeds r.inst) (r.startTrace fuel) (r₁, rest) ∧
      ((rest = [] ∧ r' = r₁.finish ∧ error? = none) ∨
        ∃ error left, rest = .fail error :: left ∧ r' = r₁.abort ∧ error? = some error) := by
  have hgo' : ¬ r.inst.state.terminal = true := by simp [hgo]
  rw [start?, if_neg hgo'] at h
  rw [startTrace, if_neg hgo']
  exact drain?_traced h

theorem Traced.sound {work next : Work} {log : List Dispatch} (h : Traced work log next)
    (hw : Work.Sound work) : Work.Sound next := by
  induction h with
  | start => exact hw
  | @step log r c queue _ _ ih =>
      obtain ⟨opened, hgrows⟩ := dispatch_grows r c
      have hout := dispatch_sound ih.1 (ih.2 c List.mem_cons_self)
      refine ⟨hout.1, fun c' hc' => ?_⟩
      rcases mem_enqueue.mp hc' with hold | hnew
      · exact (ih.2 c' (List.mem_cons_of_mem _ hold)).grows hgrows
      · exact hout.2 c' hnew

theorem Traced.grows {work next : Work} {log : List Dispatch} (h : Traced work log next) :
    ∃ opened, Grows opened work.1 next.1 := by
  induction h with
  | start => exact ⟨_, .refl _⟩
  | @step log r c queue _ _ ih =>
      obtain ⟨xs, hbefore⟩ := ih
      obtain ⟨ys, hstep⟩ := dispatch_grows r c
      exact ⟨_, hbefore.trans hstep⟩

/-- **A trace is a chain of steps without failures**, up to a last command that
may have failed. -/
theorem Traced.reaches {work next : Work} {log : List Dispatch} (h : Traced work log next)
    (hqueue : ∀ c ∈ work.2, c.isFailure = false) :
    (Reaches work next ∧ ∀ c ∈ next.2, c.isFailure = false) ∨
      ∃ error rest d, next.2 = .fail error :: rest ∧ log.getLast? = some d ∧
        .fail error ∈ d.follow := by
  induction h with
  | start => exact .inl ⟨.refl, hqueue⟩
  | @step log r c queue _ hc ih =>
      rcases ih with ⟨hreaches, hclean⟩ | ⟨error, rest, d, hhead, -⟩
      · by_cases hfail : ∃ c' ∈ (r.dispatch c).2, c'.isFailure = true
        · obtain ⟨error, rest, hfront, herror⟩ := enqueue_of_failure queue hfail
          exact .inr ⟨error, rest, _, hfront, List.getLast?_concat, herror⟩
        · have hcs : ∀ c' ∈ (r.dispatch c).2, c'.isFailure = false := by
            intro c' hc'
            simpa using fun hf => hfail ⟨c', hc', hf⟩
          rw [enqueue_of_no_failure hcs]
          refine .inl ⟨hreaches.tail (.step r c queue hc hcs), fun c' hc' => ?_⟩
          rcases List.mem_append.mp hc' with hold | hnew
          · exact hclean c' (List.mem_cons_of_mem _ hold)
          · exact hcs c' hnew
      · obtain ⟨rfl, -⟩ := List.cons.inj hhead
        cases hc

/-- Every command of a trace is dispatched at a moment that the run reaches
without a failure. -/
theorem Traced.reaches_of_mem {work next : Work} {log : List Dispatch}
    (h : Traced work log next) (hqueue : ∀ c ∈ work.2, c.isFailure = false) {d : Dispatch}
    (hd : d ∈ log) : ∃ queue, Reaches work (d.before, d.command :: queue) := by
  induction h with
  | start => cases hd
  | @step log r c queue h hc ih =>
      rcases List.mem_append.mp hd with hd | hd
      · exact ih hd
      · obtain rfl := List.mem_singleton.mp hd
        rcases h.reaches hqueue with ⟨hreaches, -⟩ | ⟨error, rest, d, hhead, -⟩
        · exact ⟨queue, hreaches⟩
        · obtain ⟨rfl, -⟩ := List.cons.inj hhead
          cases hc

end Run

/-- A command that a run of a sound instance comes to, nothing having failed
before it. -/
def Dispatch.Underway (d : Dispatch) : Prop :=
  ∃ (r₀ : Run) (queue : List Command), r₀.inst.Sound ∧
    Run.Reaches (r₀.activate, Run.seeds r₀.inst) (d.before, d.command :: queue)

/-- A command that a run comes to finds a sound arena, and fits it. -/
theorem Dispatch.Underway.sound {d : Dispatch} (h : d.Underway) :
    Run.Work.Sound (d.before, [d.command]) := by
  obtain ⟨r₀, queue, hr₀, hreaches⟩ := h
  have hwork := hreaches.sound (Run.seeds_sound hr₀)
  refine ⟨hwork.1, fun c hc => ?_⟩
  obtain rfl := List.mem_singleton.mp hc
  exact hwork.2 _ List.mem_cons_self

namespace Engine

/-! ## Histories -/

/-- What a run of an instance by its key does to the instance at a position. -/
def recordedRun (fuel : Nat) (e : Engine) (n : Nat) (instanceKey : Int) : List HistoryEntry :=
  if e.findIndex? instanceKey = some n then
    match e.instances[n]? with
    | some i => ((e.lend i).startTrace fuel).map .dispatched
    | none => []
  else []

/-- What running what has just been created does to the instance at a
position. -/
def recordedThen (fuel : Nat) (n : Nat) : Engine × Except EngineError Instance →
    List HistoryEntry
  | (e, .ok i) => e.recordedRun fuel n i.key
  | (_, .error _) => []

/-- What an operation does to the instance at a position. -/
def recorded (fuel : Nat) (e : Engine) (n : Nat) : Operation → List HistoryEntry
  | .publish instanceKey name vars =>
    if e.findIndex? instanceKey = some n then [.published ⟨name, e.now, vars, false⟩] else []
  | .run instanceKey => e.recordedRun fuel n instanceKey
  | .createAndRun definitionKey vars => recordedThen fuel n (e.create definitionKey vars)
  | .createAndRunById id vars => recordedThen fuel n (e.createById id vars)
  | _ => []

/-- An engine with all that happened to its instance at a position. -/
inductive History (starts : KeySequence → Prop) (n : Nat) : Engine → List HistoryEntry → Prop
  | fresh (name : String) {keys : KeySequence} (now : Instant) (hkeys : starts keys) :
      History starts n (Engine.fresh name keys now) []
  | perform {e : Engine} {log : List HistoryEntry} {fuel : Nat} {op : Operation}
      {out : Engine × Answer} (h : History starts n e log) (hop : e.perform? fuel op = some out) :
      History starts n out.1 (log ++ e.recorded fuel n op)
  | restore {e blank e' : Engine} {log : List HistoryEntry} {text : String}
      (h : History starts n e log) (hblank : blank.Blank) (hkeys : starts blank.keys)
      (hparse : Snapshot.parse? text = some e.snapshot) (hrestore : blank.restore text = .ok e') :
      History starts n e' log

/-- What operations do to the instance at a position, one after another. -/
def recordedAll (fuel n : Nat) : Engine → List Operation → List HistoryEntry
  | _, [] => []
  | e, op :: rest =>
    match e.perform? fuel op with
    | none => []
    | some out => e.recorded fuel n op ++ recordedAll fuel n out.1 rest

/-- An instance at a moment of its history, which is known up to this moment. -/
inductive Moment (starts : KeySequence → Prop) (n : Nat) :
    Instance → List HistoryEntry → Prop
  | stored {e : Engine} {log : List HistoryEntry} {i : Instance} (h : History starts n e log)
      (hi : e.instances[n]? = some i) : Moment starts n i log
  | underway {e : Engine} {log : List HistoryEntry} {i : Instance} {more : List Dispatch}
      {r : Run} {queue : List Command} (h : History starts n e log)
      (hi : e.instances[n]? = some i) (hgo : i.state.terminal = false)
      (htrace : Run.Traced ((e.lend i).activate, Run.seeds i) more (r, queue)) :
      Moment starts n r.inst (log ++ more.map .dispatched)

theorem History.reachable {starts : KeySequence → Prop} {n : Nat} {e : Engine}
    {log : List HistoryEntry} (h : History starts n e log) : Reachable starts e := by
  induction h with
  | fresh name now hkeys => exact .fresh name now hkeys
  | perform _ hop ih => exact ih.perform hop
  | restore _ hblank hkeys hparse hrestore ih => exact ih.restore hblank hkeys hparse hrestore

theorem History.performAll {starts : KeySequence → Prop} {n : Nat} {e : Engine}
    {log : List HistoryEntry} {fuel : Nat} {ops : List Operation} {out : Engine × List Answer}
    (h : History starts n e log) (hops : e.performAll? fuel ops = some out) :
    History starts n out.1 (log ++ recordedAll fuel n e ops) := by
  induction ops generalizing e log out with
  | nil =>
      cases hops
      simpa [recordedAll] using h
  | cons op rest ih =>
      rw [performAll?] at hops
      split at hops
      · cases hops
      · rename_i hop
        obtain ⟨later, hrest, rfl⟩ := Option.map_eq_some_iff.mp hops
        have hlater := ih (h.perform hop) hrest
        simpa [recordedAll, hop, List.append_assoc] using hlater

/-- An engine with its history after some operations on a loaded source, where
both pass a test. -/
theorem exists_history {pieces : List String} {diagram : Diagram} {keys : KeySequence}
    (hsource : Diagram.ofMarkup (String.join pieces) = .ok diagram)
    (hkeys : keys.next < greatestKey) (fuel n : Nat) (ops : List Operation)
    (test : Engine → List HistoryEntry → Bool)
    (htest : ((loadedFrom keys (String.join pieces) "" diagram).performAll? fuel ops).any (fun out =>
      test out.1 (recordedAll fuel n (loadedFrom keys (String.join pieces) "" diagram) ops)) = true) :
    ∃ e log, History (· = keys) n e log ∧ test e log = true := by
  obtain ⟨out, hout, htest⟩ := (Option.any_eq_true _ _).mp htest
  obtain ⟨answer, hload⟩ := perform?_load hkeys hsource ""
  have hfresh : History (· = keys) n (Engine.fresh defaultEngineName keys (.ofMillis 0)) [] :=
    .fresh defaultEngineName (.ofMillis 0) rfl
  exact ⟨out.1, _, (hfresh.perform hload).performAll hout, htest⟩

/-- Every reachable engine has a history. -/
theorem Reachable.history {starts : KeySequence → Prop} {e : Engine} (h : Reachable starts e)
    (n : Nat) : ∃ log, History starts n e log := by
  induction h with
  | fresh name now hkeys => exact ⟨_, .fresh name now hkeys⟩
  | perform _ hop ih =>
      obtain ⟨log, hlog⟩ := ih
      exact ⟨_, hlog.perform hop⟩
  | restore _ hblank hkeys hparse hrestore ih =>
      obtain ⟨log, hlog⟩ := ih
      exact ⟨_, hlog.restore hblank hkeys hparse hrestore⟩

/-! ## Laws about histories -/

/-- What lasts whatever happens to an instance. -/
structure Lasting (P : Instance → List HistoryEntry → Prop) : Prop where
  fresh (key : Int) (d : Definition) (vars : Variables) (now : Instant) :
    P (Instance.fresh key d vars now) []
  event {i : Instance} {log : List HistoryEntry} (c : CaughtEvent) (hc : c.consumed = false)
    (hP : P i log) : P (i.recordEvent c) (log ++ [.published c])
  state {i : Instance} {log : List HistoryEntry} (s : InstanceState) (hP : P i log) :
    P { i with state := s } log
  step {d : Dispatch} {log : List HistoryEntry} (hd : d.Underway) (hP : P d.before.inst log) :
    P d.after.inst (log ++ [.dispatched d])
  relinked {i : Instance} {log : List HistoryEntry} (hi : i.Sound) (hP : P i log) :
    P i.relinked log

/-- A law holds of the instance at a position with its history; without an
instance there is no history. -/
def Keeps (P : Instance → List HistoryEntry → Prop) (n : Nat) (e : Engine)
    (log : List HistoryEntry) : Prop :=
  (∀ i, e.instances[n]? = some i → P i log) ∧ (e.instances[n]? = none → log = [])

section Laws

variable {P : Instance → List HistoryEntry → Prop} {n : Nat} {e : Engine}
  {log : List HistoryEntry}

theorem Lasting.traced (hP : Lasting P) {r₀ : Run} {next : Run.Work} {more : List Dispatch}
    (hr₀ : r₀.inst.Sound) (htrace : Run.Traced (r₀.activate, Run.seeds r₀.inst) more next) (h : P r₀.inst log) :
    P next.1.inst (log ++ more.map .dispatched) := by
  induction htrace with
  | start =>
      have hactive : P r₀.activate.inst log := hP.state .active h
      simpa using hactive
  | @step more r c queue htrace hc ih =>
      rw [List.map_append, ← List.append_assoc]
      refine hP.step (d := ⟨r, c⟩) ⟨r₀, queue, hr₀, ?_⟩ ih
      rcases htrace.reaches (Run.seeds_no_failure _) with ⟨hreaches, -⟩ | ⟨error, rest, -, hhead, -⟩
      · exact hreaches
      · obtain ⟨rfl, -⟩ := List.cons.inj hhead
        cases hc

theorem Lasting.start? (hP : Lasting P) {fuel : Nat} {r r' : Run} {error? : Option EngineError}
    (hrun : r.start? fuel = some (r', error?)) (hr : r.inst.Sound) (h : P r.inst log) :
    P r'.inst (log ++ (r.startTrace fuel).map .dispatched) := by
  cases hend : r.inst.state.terminal with
  | true =>
      rw [Run.start?, if_pos hend] at hrun
      cases hrun
      simpa [Run.startTrace, hend] using h
  | false =>
      obtain ⟨r₁, rest, htrace, ⟨-, rfl, -⟩ | ⟨error, left, -, rfl, -⟩⟩ :=
        Run.start?_traced hend hrun
      · rw [Run.inst_finish]
        exact hP.traced hr htrace h
      · exact hP.state .failed (hP.traced hr htrace h)

/-- An operation that leaves all instances alone. -/
theorem Keeps.of_instances {e' : Engine} (h : Keeps P n e log)
    (hinstances : e'.instances = e.instances) : Keeps P n e' (log ++ []) := by
  unfold Keeps
  rwa [hinstances, List.append_nil]

theorem load_instances (e : Engine) (source resourceName : String) :
    (e.load source resourceName).1.instances = e.instances := by
  unfold load
  split
  · rfl
  · dsimp only
    split
    · rfl
    · split <;> rfl

theorem Keeps.create (h : Keeps P n e log) (hP : Lasting P) (definitionKey : Int)
    (vars : Variables) : Keeps P n (e.create definitionKey vars).1 (log ++ []) := by
  unfold Engine.create
  split
  · exact h.of_instances rfl
  · rename_i d _
    split
    · exact h.of_instances rfl
    · rename_i key keys _
      have hafter : ∀ i, (e.instances ++ [Instance.fresh key d vars e.now])[n]? = some i →
          P i (log ++ []) := by
        intro i hi
        rw [List.append_nil]
        by_cases hn : n < e.instances.length
        · rw [List.getElem?_append_left hn] at hi
          exact h.1 i hi
        · rw [List.getElem?_append_right (by omega)] at hi
          obtain rfl := List.mem_singleton.mp (List.mem_of_getElem? hi)
          rw [h.2 (List.getElem?_eq_none (by omega))]
          exact hP.fresh _ _ _ _
      refine ⟨hafter, fun hnone => ?_⟩
      have hlength := List.getElem?_eq_none_iff.mp hnone
      simp only [report, List.length_append, List.length_singleton] at hlength
      rw [List.append_nil]
      exact h.2 (List.getElem?_eq_none (by omega))

theorem Keeps.createById (h : Keeps P n e log) (hP : Lasting P) (id : String)
    (vars : Variables) : Keeps P n (e.createById id vars).1 (log ++ []) := by
  unfold Engine.createById
  split
  · exact h.of_instances rfl
  · exact h.create hP _ vars

theorem lt_of_findIndex? {key : Int} {m : Nat} (h : e.findIndex? key = some m) :
    m < e.instances.length :=
  (List.findIdx?_eq_some_iff_getElem.mp h).1

/-- A run by a key is a run of the instance that has the key. -/
theorem run?_eq_some {fuel : Nat} {key : Int} {out : Engine × Except EngineError Instance}
    {m : Nat} (hrun : e.run? fuel key = some out) (hfind : e.findIndex? key = some m) :
    ∃ i r error?, e.instances[m]? = some i ∧ (e.lend i).start? fuel = some (r, error?) ∧
      out.1 = e.settle m r := by
  obtain ⟨i, hi⟩ : ∃ i, e.instances[m]? = some i :=
    ⟨_, List.getElem?_eq_getElem (lt_of_findIndex? hfind)⟩
  simp only [Engine.run?, hfind, hi] at hrun
  split at hrun
  · cases hrun
  · rename_i r hstart
    cases hrun
    exact ⟨i, r, _, hi, hstart, rfl⟩
  · rename_i r error hstart
    cases hrun
    exact ⟨i, r, _, hi, hstart, rfl⟩

theorem Keeps.publish (h : Keeps P n e log) (hP : Lasting P) (instanceKey : Int)
    (name : String) (vars : Variables) :
    Keeps P n (e.publish instanceKey name vars).1
      (log ++ if e.findIndex? instanceKey = some n then
        [.published ⟨name, e.now, vars, false⟩] else []) := by
  unfold Engine.publish
  split
  · rename_i hfind
    rw [hfind]
    exact h.of_instances rfl
  · rename_i m hfind
    have hlt := lt_of_findIndex? hfind
    rw [hfind]
    by_cases hm : m = n
    · subst hm
      rw [if_pos rfl]
      refine ⟨fun i hi => ?_, fun hnone => ?_⟩
      · simp only [List.getElem?_modify_eq, Option.map_eq_map, Option.map_eq_some_iff] at hi
        obtain ⟨i, hi, rfl⟩ := hi
        exact hP.event _ rfl (h.1 i hi)
      · simp only [List.getElem?_eq_none_iff, List.length_modify] at hnone
        omega
    · have hsame : (e.instances.modify m fun i =>
          i.recordEvent ⟨name, e.now, vars, false⟩)[n]? = e.instances[n]? := by
        simp [hm]
      rw [if_neg (by simpa using hm), List.append_nil]
      exact ⟨fun i hi => h.1 i (hsame ▸ hi), fun hnone => h.2 (hsame ▸ hnone)⟩

theorem Keeps.run (h : Keeps P n e log) (hP : Lasting P) (he : e.Sound) {fuel : Nat}
    {instanceKey : Int} {out : Engine × Except EngineError Instance}
    (hrun : e.run? fuel instanceKey = some out) :
    Keeps P n out.1 (log ++ e.recordedRun fuel n instanceKey) := by
  unfold recordedRun
  cases hfind : e.findIndex? instanceKey with
  | none =>
      rw [Engine.run?, hfind] at hrun
      cases hrun
      exact h.of_instances rfl
  | some m =>
      obtain ⟨i, r, error?, hi, hstart, hout⟩ := run?_eq_some hrun hfind
      rw [hout]
      by_cases hm : m = n
      · subst hm
        have hsound : (e.lend i).inst.Sound := (he.instances i (List.mem_of_getElem? hi)).1
        rw [if_pos rfl, hi]
        refine ⟨fun j hj => ?_, fun hnone => ?_⟩
        · simp only [Engine.settle, List.getElem?_set_self (lt_of_findIndex? hfind),
            Option.some.injEq] at hj
          subst hj
          exact hP.start? hstart hsound (h.1 i hi)
        · simp only [Engine.settle, List.getElem?_set_self (lt_of_findIndex? hfind),
            reduceCtorEq] at hnone
      · have hsame : (e.settle m r).instances[n]? = e.instances[n]? := by
          simp [Engine.settle, List.getElem?_set_ne hm]
        rw [if_neg (by simpa using hm), List.append_nil]
        exact ⟨fun i hi => h.1 i (hsame ▸ hi), fun hnone => h.2 (hsame ▸ hnone)⟩

theorem Keeps.thenRun (hP : Lasting P) {fuel : Nat}
    {created out : Engine × Except EngineError Instance} (h : Keeps P n created.1 (log ++ []))
    (he : created.1.Sound) (hrun : thenRun? fuel created = some out) :
    Keeps P n out.1 (log ++ recordedThen fuel n created) := by
  unfold Engine.thenRun? at hrun
  unfold recordedThen
  rw [List.append_nil] at h
  split at hrun
  · exact h.run hP he hrun
  · cases hrun
    exact h.of_instances rfl

theorem Keeps.perform (h : Keeps P n e log) (hP : Lasting P) (he : e.Sound) {fuel : Nat}
    {op : Operation} {out : Engine × Answer} (hop : e.perform? fuel op = some out) :
    Keeps P n out.1 (log ++ e.recorded fuel n op) := by
  cases op with
  | load source resourceName =>
      cases hop
      rw [answered_fst]
      exact h.of_instances (e.load_instances source resourceName)
  | loadBytes source =>
      cases hop
      rw [answered_fst]
      refine h.of_instances ?_
      unfold loadBytes
      split
      · exact e.load_instances _ _
      · rfl
  | loadFile name content =>
      cases hop
      rw [answered_fst]
      refine h.of_instances ?_
      unfold loadFile
      split
      · exact e.load_instances _ _
      · rfl
  | create definitionKey vars =>
      cases hop
      rw [answered_fst]
      exact h.create hP definitionKey vars
  | createById id vars =>
      cases hop
      rw [answered_fst]
      exact h.createById hP id vars
  | publish instanceKey name vars =>
      cases hop
      rw [answered_fst]
      exact h.publish hP instanceKey name vars
  | run instanceKey =>
      obtain ⟨ran, hrun, rfl⟩ := Option.map_eq_some_iff.mp hop
      rw [answered_fst]
      exact h.run hP he hrun
  | createAndRun definitionKey vars =>
      obtain ⟨ran, hrun, rfl⟩ := Option.map_eq_some_iff.mp hop
      rw [answered_fst]
      exact Keeps.thenRun hP (h.create hP definitionKey vars)
        ((e.create_changes definitionKey vars).sound he) hrun
  | createAndRunById id vars =>
      obtain ⟨ran, hrun, rfl⟩ := Option.map_eq_some_iff.mp hop
      rw [answered_fst]
      exact Keeps.thenRun hP (h.createById hP id vars)
        ((e.createById_changes id vars).sound he) hrun
  | setClock now =>
      cases hop
      exact h.of_instances rfl
  | advanceClock ms =>
      cases hop
      exact h.of_instances rfl
  | register accepts handler =>
      cases hop
      exact h.of_instances rfl

/-- A law that lasts holds of the instance at every position. -/
theorem History.keeps {starts : KeySequence → Prop} (h : History starts n e log)
    (hP : Lasting P) : Keeps P n e log := by
  induction h with
  | fresh name now => exact ⟨(fun i hi => by cases hi), fun _ => rfl⟩
  | perform h hop ih => exact ih.perform hP h.reachable.sound hop
  | @restore e blank e' log text h hblank hkeys hparse hrestore ih =>
      have hsound := h.reachable.sound
      rw [restore_eq_rebuild hparse, rebuild_snapshot hsound hblank] at hrestore
      obtain rfl := Except.ok.inj hrestore
      refine ⟨fun j hj => ?_, fun hnone => ih.2 ?_⟩
      · simp only [List.getElem?_map, Option.map_eq_some_iff] at hj
        obtain ⟨i, hi, rfl⟩ := hj
        exact hP.relinked (hsound.instances i (List.mem_of_getElem? hi)).1 (ih.1 i hi)
      · simpa using hnone

/-- **A law that lasts holds at every moment.** -/
theorem Moment.keeps {starts : KeySequence → Prop} {i : Instance}
    (h : Moment starts n i log) (hP : Lasting P) : P i log := by
  cases h with
  | stored h hi => exact (h.keeps hP).1 i hi
  | @underway e log j more r queue h hi hgo htrace =>
      have hsound : (e.lend j).inst.Sound :=
        (h.reachable.sound.instances j (List.mem_of_getElem? hi)).1
      exact hP.traced hsound htrace ((h.keeps hP).1 j hi)

end Laws

theorem Moment.sound {starts : KeySequence → Prop} {n : Nat} {i : Instance}
    {log : List HistoryEntry} (h : Moment starts n i log) : i.Sound := by
  cases h with
  | stored h hi => exact (h.reachable.sound.instances i (List.mem_of_getElem? hi)).1
  | @underway e log j more r queue h hi hgo htrace =>
      have hsound := (h.reachable.sound.instances j (List.mem_of_getElem? hi)).1
      exact (htrace.sound (Run.seeds_sound (r := e.lend j) hsound)).1

end Engine

end ProcessEngine
