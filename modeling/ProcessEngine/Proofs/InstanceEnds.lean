import ProcessEngine.Proofs.InstanceCompletion
import ProcessEngine.Proofs.TokenBalance

/-!
# How instances end

An error ends a run at once: the command that meets it is the last one that is
dispatched, and all that follows is that the instance is marked as failed and its
end reported.  A run without an error leaves no failed instance.  So the result
of a run tells whether the instance has failed in it.

The end of an instance is reported where a run leaves it in a final state, and
since such an instance is not run again, it is reported once.  Between its
creation and its end only elements and flows are reported on an instance.

Main statement: `end_of_instance`, for all instances of reachable engines.
-/

namespace ProcessEngine

/-- The instance that a report is about. -/
def AuditEvent.instanceKey? : AuditEvent → Option Int
  | definitionLoaded .. => none
  | instanceCreated _ key _ _ => some key
  | instanceEnded _ key _ _ _ => some key
  | element _ key _ _ _ _ => some key

/-- Whether a report tells the end of an instance. -/
def AuditEvent.isEnd : AuditEvent → Bool
  | instanceEnded .. => true
  | _ => false

/-- The reports on an instance. -/
def reportsOn (key : Int) (events : List AuditEvent) : List AuditEvent :=
  events.filter fun event => event.instanceKey? == some key

theorem reportsOn_append (key : Int) (events more : List AuditEvent) :
    reportsOn key (events ++ more) = reportsOn key events ++ reportsOn key more :=
  List.filter_append ..

theorem reportsOn_eq_self {key : Int} {events : List AuditEvent}
    (h : ∀ event ∈ events, event.instanceKey? = some key) : reportsOn key events = events :=
  List.filter_eq_self.mpr fun event hevent => by simp [h event hevent]

theorem reportsOn_eq_nil {key : Int} {events : List AuditEvent}
    (h : ∀ event ∈ events, event.instanceKey? ≠ some key) : reportsOn key events = [] :=
  List.filter_eq_nil_iff.mpr fun event hevent => by simpa using h event hevent

/-- The report of the end, where there is one. -/
def Instance.endReports (i : Instance) : List AuditEvent :=
  if i.state.terminal then [i.endedEvent] else []

namespace Run

section Reports

variable {r r₁ r' : Run}

/-- An instance that has ended is left alone. -/
theorem start?_of_terminal (h : r.inst.state.terminal = true) (fuel : Nat) :
    r.start? fuel = some (r, none) :=
  if_pos h

/-! ## What a run reports -/

/-- A report on an element or a flow of the instance with a key. -/
def IsProgress (key : Int) (event : AuditEvent) : Prop :=
  event.instanceKey? = some key ∧ event.isEnd = false

/-- All that is reported from one moment to another is the progress of the
instance. -/
structure Logs (r r' : Run) : Prop where
  key : r'.inst.key = r.inst.key
  audit : ∃ more, r'.audit = r.audit ++ more ∧ ∀ event ∈ more, IsProgress r.inst.key event

theorem Logs.trans (h : Logs r r₁) (h' : Logs r₁ r') : Logs r r' := by
  obtain ⟨more, haudit, hmore⟩ := h.audit
  obtain ⟨further, haudit', hfurther⟩ := h'.audit
  refine ⟨h'.key.trans h.key, more ++ further, ?_, fun event hevent => ?_⟩
  · rw [haudit', haudit, List.append_assoc]
  · rcases List.mem_append.mp hevent with hevent | hevent
    · exact hmore event hevent
    · exact h.key ▸ hfurther event hevent

theorem Logs.of_quiet (hkey : r'.inst.key = r.inst.key) (haudit : r'.audit = r.audit) :
    Logs r r' :=
  ⟨hkey, [], by rw [haudit, List.append_nil], nofun⟩

theorem Logs.of_element {e : Element} {intent : ElementIntent}
    (hkey : r'.inst.key = r.inst.key)
    (haudit : r'.audit = r.audit ++ [r.inst.elementEvent e intent]) : Logs r r' := by
  refine ⟨hkey, _, haudit, fun event hevent => ?_⟩
  obtain rfl := List.mem_singleton.mp hevent
  exact ⟨rfl, rfl⟩

theorem visit_logs (r : Run) (element : Nat) (e : Element) (origin : Option Nat)
    (via : Option String) : Logs r (r.visit element e origin via).1 := by
  obtain ⟨opened, hgrows⟩ := (visit_spec r element e origin via).exists_grows
  have houtcome := visit_outcome r element e origin via
  generalize r.visit element e origin via = out at hgrows houtcome
  cases houtcome with
  | fails error haudit => exact .of_quiet hgrows.key haudit
  | rests haudit => exact .of_quiet hgrows.key haudit
  | passes _ _ haudit => exact .of_element hgrows.key haudit
  | ends _ haudit => exact .of_element hgrows.key haudit
  | jumps _ _ _ haudit => exact .of_element hgrows.key haudit

theorem dispatch_logs (r : Run) (c : Command) : Logs r (r.dispatch c).1 := by
  cases c with
  | takeFlows source flowIds =>
      show Logs r (r.takeFlows source flowIds).1
      unfold takeFlows
      split
      · exact .of_quiet rfl rfl
      · split
        · exact .of_quiet rfl rfl
        · refine ⟨rfl, _, rfl, fun event hevent => ?_⟩
          obtain ⟨f, -, rfl⟩ := List.mem_map.mp hevent
          exact ⟨rfl, rfl⟩
  | enter element origin via =>
      simp only [dispatch]
      split
      · exact .of_quiet rfl rfl
      · rename_i e he
        have hreport : Logs r (r.reportElement e .activated) := .of_element rfl rfl
        exact hreport.trans (visit_logs _ element e origin via)
  | resume n origin =>
      simp only [dispatch]
      split
      · exact .of_quiet rfl rfl
      · split
        · exact .of_quiet rfl rfl
        · exact visit_logs r _ _ origin none
  | settleRace gateway => exact .of_quiet (r.settleRace_grows gateway).key rfl
  | fail error => exact .of_quiet rfl rfl

theorem Reaches.logs {work next : Work} (h : Reaches work next) : Logs work.1 next.1 := by
  induction h with
  | refl => exact .of_quiet rfl rfl
  | tail _ hnext ih =>
      cases hnext with
      | step r c queue => exact ih.trans (dispatch_logs r c)

/-- **A run reports the progress of its instance, and at last its end if the
instance has come to one in it.** -/
theorem start?_logs {fuel : Nat} {error? : Option EngineError}
    (h : r.start? fuel = some (r', error?)) :
    ∃ more progress, r'.audit = r.audit ++ more ∧
      (∀ event ∈ more, event.instanceKey? = some r.inst.key) ∧
      r.inst.endReports ++ more = progress ++ r'.inst.endReports ∧
      ∀ event ∈ progress, event.isEnd = false := by
  rcases start?_cases h with ⟨-, rfl, -⟩ | ⟨hgo, hends⟩
  · exact ⟨[], [], (List.append_nil _).symm, nofun, List.append_nil _, nofun⟩
  · have hnone : r.inst.endReports = [] := by rw [Instance.endReports, hgo]; rfl
    obtain ⟨last, hlogs, hinst, haudit⟩ : ∃ last, Logs r last ∧ r'.inst.key = last.inst.key ∧
        r'.audit = last.audit ++ r'.inst.endReports := by
      have hactivate : Logs r r.activate := .of_quiet rfl rfl
      cases hends with
      | @empty last hreaches =>
          refine ⟨last, hactivate.trans hreaches.logs, by rw [inst_finish], ?_⟩
          rw [inst_finish, Instance.endReports, finish]
          split
          · rfl
          · exact (List.append_nil _).symm
      | @failed last c queue error hreaches =>
          exact ⟨_, hactivate.trans (hreaches.logs.trans (dispatch_logs last c)), rfl, rfl⟩
    obtain ⟨progress, hprogress, hall⟩ := hlogs.audit
    refine ⟨progress ++ r'.inst.endReports, progress, ?_, fun event hevent => ?_, ?_, ?_⟩
    · rw [haudit, hprogress, List.append_assoc]
    · rcases List.mem_append.mp hevent with hevent | hevent
      · exact (hall event hevent).1
      · unfold Instance.endReports at hevent
        split at hevent
        · obtain rfl := List.mem_singleton.mp hevent
          exact congrArg some (hinst.trans hlogs.key)
        · cases hevent
    · rw [hnone, List.nil_append]
    · exact fun event hevent => (hall event hevent).2

end Reports

section Errors

variable {element : Nat} {e : Element} {origin : Option Nat} {n : Nat} {r r' : Run}

/-! ## Runs with an error -/

theorem Moves.live (h : Moves element e origin n r r') (hr : r.inst.state ≠ .failed) :
    r'.inst.state ≠ .failed := by
  induction h with
  | refl => exact hr
  | tail _ hmove ih =>
      rcases hmove.state with hstate | ⟨hstate, -⟩ <;> rw [hstate]
      · exact ih
      · nofun

/-- Only an error fails an instance. -/
theorem dispatch_live {c : Command} (hclean : ∀ c' ∈ (r.dispatch c).2, c'.isFailure = false)
    (hr : r.inst.state ≠ .failed) : (r.dispatch c).1.inst.state ≠ .failed := by
  have hvisits : ∀ {element : Nat} {e : Element} {origin : Option Nat} {out : Run × List Command},
      Visits element e origin r out → (∀ c' ∈ out.2, c'.isFailure = false) →
        out.1.inst.state ≠ .failed := by
    intro element e origin out h hclean
    cases h with
    | failed n error => cases hclean _ List.mem_cons_self
    | visited h => exact h.live hr
  have h := dispatch_spec r c
  generalize r.dispatch c = out at h hclean
  cases h with
  | idle => exact hr
  | flows => exact hr
  | stuck => exact hr
  | enter _ h => exact hvisits h hclean
  | resume _ _ h => exact hvisits h hclean
  | settle gateway =>
      simp only [modify, Instance.settleRace]
      split <;> exact hr

/-- **A run that does not find its instance ended gives an error just if it
leaves the instance failed.** -/
theorem start?_error_iff {fuel : Nat} {error? : Option EngineError}
    (h : r.start? fuel = some (r', error?)) (hr : r.inst.Sound)
    (hgo : r.inst.state.terminal = false) :
    (∃ error, error? = some error) ↔ r'.inst.state = .failed := by
  rcases start?_cases h with ⟨hend, -, -⟩ | ⟨-, hends⟩
  · rw [hgo] at hend
    cases hend
  · cases hends with
    | empty hreaches =>
        have hlive := hreaches.keeps (P := fun work => work.1.inst.state ≠ .failed)
          (fun _ hclean => dispatch_live hclean) (seeds_sound hr) nofun
        rw [inst_finish]
        exact ⟨nofun, fun hfailed => absurd hfailed hlive⟩
    | failed => exact ⟨fun _ => rfl, fun _ => ⟨_, rfl⟩⟩

/-- A queue that does not begin with a failure was left by commands without
one. -/
theorem Traced.clean {work next : Work} {log : List Dispatch} (h : Traced work log next)
    (hhead : ∀ error rest, next.2 ≠ .fail error :: rest) : ∀ d ∈ log, d.fails = false := by
  induction h with
  | start => exact fun d hd => absurd hd List.not_mem_nil
  | @step log r c queue h hc ih =>
      have hbefore : ∀ error rest, c :: queue ≠ .fail error :: rest := by
        rintro error rest heq
        obtain ⟨rfl, -⟩ := List.cons.inj heq
        cases hc
      intro d hd
      rcases List.mem_append.mp hd with hd | hd
      · exact ih hbefore d hd
      · obtain rfl := List.mem_singleton.mp hd
        cases hfails : Dispatch.fails ⟨r, c⟩ with
        | false => rfl
        | true =>
            obtain ⟨error, rest, hfront, -⟩ :=
              enqueue_of_failure queue (List.any_eq_true.mp hfails)
            exact absurd hfront (hhead error rest)

/-- **The command that meets an error is the last one of its run.**  Nothing has
failed before it, and after it the instance is marked as failed and its end
reported. -/
theorem start?_stops {fuel : Nat} {error : EngineError}
    (h : r.start? fuel = some (r', some error)) :
    ∃ front d, r.startTrace fuel = front ++ [d] ∧ (∀ d' ∈ front, d'.fails = false) ∧
      .fail error ∈ d.follow ∧ r' = d.after.abort := by
  have hgo : r.inst.state.terminal = false := by
    cases hend : r.inst.state.terminal with
    | false => rfl
    | true =>
        rw [start?_of_terminal hend] at h
        cases h
  obtain ⟨r₁, rest, htraced, ⟨-, -, hnone⟩ | ⟨found, left, rfl, rfl, herror⟩⟩ :=
    start?_traced hgo h
  · cases hnone
  · obtain rfl := Option.some.inj herror
    generalize hwork : (r₁, Command.fail error :: left) = next at htraced
    generalize hlog : r.startTrace fuel = log at htraced
    cases htraced with
    | start =>
        have hseeds := seeds_no_failure r.inst (.fail error)
        obtain ⟨-, hqueue⟩ := Prod.mk.inj hwork
        rw [← hqueue] at hseeds
        cases hseeds List.mem_cons_self
    | @step front last c queue htraced hc =>
        obtain ⟨rfl, hqueue⟩ := Prod.mk.inj hwork
        have hclean := htraced.clean fun error' rest heq => by
          obtain ⟨rfl, -⟩ := List.cons.inj heq
          cases hc
        have hmem : Command.fail error ∈ enqueue queue (last.dispatch c).2 := by
          rw [← hqueue]
          exact List.mem_cons_self
        refine ⟨front, ⟨last, c⟩, rfl, hclean, ?_, rfl⟩
        rcases mem_enqueue.mp hmem with hold | hnew
        · -- a failure is never left in the queue when another command is dispatched
          rcases htraced.reaches (seeds_no_failure r.inst) with ⟨-, hqueued⟩ | ⟨_, _, _, hhead, -⟩
          · cases hqueued _ (List.mem_cons_of_mem _ hold)
          · obtain ⟨rfl, -⟩ := List.cons.inj hhead
            cases hc
        · exact hnew

end Errors

end Run

namespace Engine

section Engines

variable {e e' : Engine} {key : Int} {n : Nat} {i : Instance}

/-- An instance is found by its key. -/
theorem Sound.findIndex? (he : e.Sound) (hi : e.instances[n]? = some i) :
    e.findIndex? i.key = some n := by
  obtain ⟨hlt, hat⟩ := List.getElem?_eq_some_iff.mp hi
  refine List.findIdx?_eq_some_iff_getElem.mpr ⟨hlt, by simp [hat], fun m hm => ?_⟩
  have hj := List.getElem?_eq_getElem (Nat.lt_trans hm hlt)
  simp only [Bool.not_eq_true, beq_eq_false_iff_ne]
  intro hkey
  have hsame := he.position hj hi hkey
  omega

/-- What a run of an instance by its key comes to. -/
theorem Sound.run?_eq (he : e.Sound) (hi : e.instances[n]? = some i) (fuel : Nat) :
    e.run? fuel i.key = ((e.lend i).start? fuel).map fun ran =>
      (e.settle n ran.1, match ran.2 with
        | none => .ok ran.1.inst
        | some error => .error error) := by
  simp only [Engine.run?, he.findIndex? hi, hi]
  cases (e.lend i).start? fuel with
  | none => rfl
  | some ran =>
      obtain ⟨r, error?⟩ := ran
      cases error? <;> rfl

theorem getElem?_settle (hi : e.instances[n]? = some i) (r : Run) :
    (e.settle n r).instances[n]? = some r.inst :=
  List.getElem?_set_self (List.getElem?_eq_some_iff.mp hi).1

/-! ## What is heard of an instance -/

/-- Reports from some time on: there is none on an instance that the engine does
not know, and the end of one that it knows is the last report on it, made just if
it has come. -/
structure Heard (key : Int) (e : Engine) (seen : List AuditEvent) : Prop where
  absent : (∀ i ∈ e.instances, i.key ≠ key) → reportsOn key seen = []
  present : ∀ i ∈ e.instances, i.key = key → ∃ progress,
    reportsOn key seen = progress ++ i.endReports ∧ ∀ event ∈ progress, event.isEnd = false

variable {seen : List AuditEvent}

/-- Reports on other instances. -/
theorem Heard.other (h : Heard key e seen) {more : List AuditEvent}
    (hinstances : ∀ i ∈ e'.instances, i.key = key → i ∈ e.instances)
    (habsent : (∀ i ∈ e'.instances, i.key ≠ key) → ∀ i ∈ e.instances, i.key ≠ key)
    (hmore : reportsOn key more = []) : Heard key e' (seen ++ more) := by
  have hseen : reportsOn key (seen ++ more) = reportsOn key seen := by
    rw [reportsOn_append, hmore, List.append_nil]
  refine ⟨fun hnone => ?_, fun i hi hkey => ?_⟩ <;> rw [hseen]
  · exact h.absent (habsent hnone)
  · exact h.present i (hinstances i hi hkey) hkey

/-- What a run reports is heard of its instance and of no other one. -/
theorem Heard.run (h : Heard key e seen) (he : e.Sound) {fuel : Nat} {r : Run}
    {error? : Option EngineError} (hi : e.instances[n]? = some i)
    (hrun : (e.lend i).start? fuel = some (r, error?)) :
    ∃ more, r.audit = e.audit ++ more ∧ Heard key (e.settle n r) (seen ++ more) := by
  obtain ⟨more, progress, haudit, hall, hends, hclean⟩ := Run.start?_logs hrun
  change ∀ event ∈ more, event.instanceKey? = some i.key at hall
  change i.endReports ++ more = progress ++ r.inst.endReports at hends
  obtain ⟨opened, hgrows⟩ := Run.start?_grows hrun
  have hsame : r.inst.key = i.key := hgrows.key
  refine ⟨more, haudit, ?_⟩
  by_cases hkey : i.key = key
  · subst hkey
    have hset : r.inst ∈ (e.settle n r).instances := List.mem_of_getElem? (getElem?_settle hi r)
    refine ⟨fun hnone => absurd hsame (hnone _ hset), fun j hj hkey => ?_⟩
    obtain ⟨m, hm⟩ := List.getElem?_of_mem hj
    by_cases hn : n = m
    · subst hn
      obtain rfl := Option.some.inj (hm.symm.trans (getElem?_settle hi r))
      obtain ⟨before, hbefore, hquiet⟩ := h.present i (List.mem_of_getElem? hi) rfl
      refine ⟨before ++ progress, ?_, fun event hevent => ?_⟩
      · calc reportsOn i.key (seen ++ more)
            = (before ++ i.endReports) ++ more := by
              rw [reportsOn_append, hbefore, reportsOn_eq_self hall]
          _ = before ++ (progress ++ r.inst.endReports) := by rw [List.append_assoc, hends]
          _ = before ++ progress ++ r.inst.endReports := (List.append_assoc ..).symm
      · rcases List.mem_append.mp hevent with hevent | hevent
        · exact hquiet event hevent
        · exact hclean event hevent
    · -- no other instance has this key
      rw [settle, List.getElem?_set_ne hn] at hm
      exact absurd (he.position hi hm hkey.symm) hn
  · refine h.other (fun j hj hjkey => ?_) (Change.run hi hrun).absent
      (reportsOn_eq_nil fun event hevent => ?_)
    · rcases mem_of_mem_set hj with hj | rfl
      · exact hj
      · exact absurd (hsame.symm.trans hjkey) hkey
    · rw [hall event hevent]
      exact fun heq => hkey (Option.some.inj heq)

theorem Change.heard (h : Change e e') (he : e.Sound) (hheard : Heard key e seen) :
    ∃ more, e'.audit = e.audit ++ more ∧ Heard key e' (seen ++ more) := by
  have habsent : (∀ j ∈ e'.instances, j.key ≠ key) → ∀ i ∈ e.instances, i.key ≠ key := h.absent
  cases h with
  | load resourceName => exact ⟨_, rfl, hheard.other (fun _ hi _ => hi) habsent rfl⟩
  | @create d vars hd hroom =>
      by_cases hkey : e.keys.next = key
      · have hnew : ∀ i ∈ e.instances, i.key ≠ key := fun i hi heq =>
          he.key_ne hi (heq.trans hkey.symm)
        have hcreated : reportsOn key [(Instance.fresh e.keys.next d vars e.now).createdEvent] =
            [(Instance.fresh e.keys.next d vars e.now).createdEvent] :=
          reportsOn_eq_self fun event hevent => by
            obtain rfl := List.mem_singleton.mp hevent
            exact congrArg some hkey
        refine ⟨_, rfl, fun hnone => ?_, fun i hi hikey => ?_⟩
        · exact absurd hkey (hnone _ (List.mem_append_right _ List.mem_cons_self))
        · rcases List.mem_append.mp hi with hi | hi
          · exact absurd hikey (hnew i hi)
          · obtain rfl := List.mem_singleton.mp hi
            refine ⟨[(Instance.fresh e.keys.next d vars e.now).createdEvent], ?_,
              fun event hevent => ?_⟩
            · rw [reportsOn_append, hheard.absent hnew, hcreated, List.nil_append]
              exact (List.append_nil _).symm
            · obtain rfl := List.mem_singleton.mp hevent
              rfl
      · refine ⟨_, rfl, hheard.other (fun i hi hikey => ?_) habsent ?_⟩
        · rcases List.mem_append.mp hi with hi | hi
          · exact hi
          · obtain rfl := List.mem_singleton.mp hi
            exact absurd hikey hkey
        · refine reportsOn_eq_nil fun event hevent heq => ?_
          obtain rfl := List.mem_singleton.mp hevent
          exact hkey (Option.some.inj heq)
  | publish m name vars =>
      refine ⟨[], (List.append_nil _).symm, fun hnone => ?_, fun j hj hjkey => ?_⟩ <;>
        rw [List.append_nil]
      · exact hheard.absent (habsent hnone)
      · obtain ⟨i, hi, rfl | rfl⟩ := exists_of_mem_modify hj
        · exact hheard.present _ hi hjkey
        · exact hheard.present i hi hjkey
  | run hi hrun => exact hheard.run he hi hrun
  | clock now =>
      exact ⟨[], (List.append_nil _).symm, hheard.other (fun _ hi _ => hi) habsent rfl⟩
  | register accepts handler =>
      exact ⟨[], (List.append_nil _).symm, hheard.other (fun _ hi _ => hi) habsent rfl⟩

theorem Changes.heard (h : Changes e e') (he : e.Sound) (hheard : Heard key e []) :
    ∃ seen, e'.audit = e.audit ++ seen ∧ Heard key e' seen := by
  induction h with
  | refl => exact ⟨[], (List.append_nil _).symm, hheard⟩
  | tail hbefore hchange ih =>
      obtain ⟨seen, haudit, hseen⟩ := ih
      obtain ⟨more, haudit', hmore⟩ := hchange.heard (Changes.sound hbefore he) hseen
      exact ⟨seen ++ more, by rw [haudit', haudit, List.append_assoc], hmore⟩

/-! ## After the end -/

/-- Nothing happens to an instance that has ended, but that events are published
to it. -/
theorem Change.ended (h : Change e e') (hi : e.instances[n]? = some i)
    (hend : i.state.terminal = true) :
    ∃ j, e'.instances[n]? = some j ∧ j.state = i.state ∧ j.vars = i.vars ∧
      j.activities = i.activities := by
  cases h with
  | load => exact ⟨i, hi, rfl, rfl, rfl⟩
  | create =>
      have hlt := (List.getElem?_eq_some_iff.mp hi).1
      exact ⟨i, by rw [← hi]; exact List.getElem?_append_left hlt, rfl, rfl, rfl⟩
  | publish m name vars =>
      by_cases hm : m = n
      · subst hm
        exact ⟨i.recordEvent ⟨name, e.now, vars, false⟩, by simp [hi], rfl, rfl, rfl⟩
      · exact ⟨i, by simp [hm, hi], rfl, rfl, rfl⟩
  | @run m fuel i₀ r error? hi₀ hrun =>
      by_cases hm : m = n
      · subst hm
        obtain rfl : i₀ = i := Option.some.inj (hi₀.symm.trans hi)
        rw [Run.start?_of_terminal (r := e.lend i₀) hend] at hrun
        cases hrun
        exact ⟨i₀, getElem?_settle hi _, rfl, rfl, rfl⟩
      · exact ⟨i, by simp [settle, hm, hi], rfl, rfl, rfl⟩
  | clock => exact ⟨i, hi, rfl, rfl, rfl⟩
  | register => exact ⟨i, hi, rfl, rfl, rfl⟩

theorem Changes.ended (h : Changes e e') (hi : e.instances[n]? = some i)
    (hend : i.state.terminal = true) :
    ∃ j, e'.instances[n]? = some j ∧ j.state = i.state ∧ j.vars = i.vars ∧
      j.activities = i.activities := by
  induction h with
  | refl => exact ⟨i, hi, rfl, rfl, rfl⟩
  | tail _ hchange ih =>
      obtain ⟨j, hj, hstate, hvars, hactivities⟩ := ih
      obtain ⟨k, hk, hstate', hvars', hactivities'⟩ :=
        hchange.ended hj (by rw [hstate]; exact hend)
      exact ⟨k, hk, hstate'.trans hstate, hvars'.trans hvars, hactivities'.trans hactivities⟩

end Engines

/-- **The failure and the end of an instance.**  Take an instance of a reachable
engine after some operations.  A run of it gives an error just if it finds the
instance unended and leaves it failed; the command that met the error was the last
one that was dispatched, nothing had failed before, and all that was done after it
was to mark the instance as failed and to report its end.  Reports that were heard
since before the instance was there hold its end just if it has ended, with its
final state, as the last report on it and nowhere before.  And once it has ended,
no operation changes its state, its variables or its activities. -/
theorem end_of_instance {starts : KeySequence → Prop} {e₀ e : Engine} (h : Reachable starts e₀)
    (hops : e₀.Operates e) {n : Nat} {i : Instance} (hi : e.instances[n]? = some i) :
    (∀ fuel out, e.run? fuel i.key = some out →
      ((∃ error, out.2 = .error error) ↔ i.state.terminal = false ∧
        ∃ j, out.1.instances[n]? = some j ∧ j.state = .failed) ∧
      ∀ error, out.2 = .error error → ∃ front d,
        (e.lend i).startTrace fuel = front ++ [d] ∧ (∀ d' ∈ front, d'.fails = false) ∧
          .fail error ∈ d.follow ∧
          out.1.instances[n]? = some { d.after.inst with state := .failed } ∧
          out.1.calls = d.after.calls ∧
          out.1.audit =
            d.after.audit ++ [{ d.after.inst with state := .failed : Instance }.endedEvent]) ∧
    ((∀ j ∈ e₀.instances, j.key ≠ i.key) → ∃ seen progress, e.audit = e₀.audit ++ seen ∧
      reportsOn i.key seen = progress ++ (if i.state.terminal then [i.endedEvent] else []) ∧
      ∀ event ∈ progress, event.isEnd = false) ∧
    (i.state.terminal = true → ∀ e', e.Operates e' → ∃ j, e'.instances[n]? = some j ∧
      j.state = i.state ∧ j.vars = i.vars ∧ j.activities = i.activities) := by
  have hsound : e.Sound := hops.changes.sound h.sound
  have hmem := List.mem_of_getElem? hi
  refine ⟨fun fuel out hrun => ?_, fun hnew => ?_, fun hend e' hlater => ?_⟩
  · rw [hsound.run?_eq hi, Option.map_eq_some_iff] at hrun
    obtain ⟨⟨r, error?⟩, hstart, rfl⟩ := hrun
    have hset := getElem?_settle hi r
    refine ⟨?_, fun error herror => ?_⟩
    · cases hgo : i.state.terminal with
      | true =>
          rw [Run.start?_of_terminal (r := e.lend i) hgo] at hstart
          cases hstart
          simp
      | false =>
          have hiff := Run.start?_error_iff hstart (hsound.instances i hmem).1 hgo
          simp only [hset, Option.some.injEq, true_and, exists_eq_left', ← hiff]
          cases error? <;> simp
    · cases error? with
      | none => cases herror
      | some found =>
          obtain rfl := Except.error.inj herror
          obtain ⟨front, d, htrace, hclean, hfail, rfl⟩ := Run.start?_stops hstart
          exact ⟨front, d, htrace, hclean, hfail, hset, rfl, rfl⟩
  · have hnone : Heard i.key e₀ [] := ⟨fun _ => rfl, fun j hj hkey => absurd hkey (hnew j hj)⟩
    obtain ⟨seen, haudit, hheard⟩ := hops.changes.heard h.sound hnone
    obtain ⟨progress, hprogress, hclean⟩ := hheard.present i hmem rfl
    exact ⟨seen, progress, haudit, hprogress, hclean⟩
  · exact hlater.changes.ended hi hend

/-- The source of a process with a link that leads nowhere. -/
private def strandedSource : List String :=
  ["<process id='p'>", "<startEvent id='s'/>",
   "<intermediateThrowEvent id='t'>", "<linkEventDefinition name='l'/>",
   "</intermediateThrowEvent>",
   "<sequenceFlow id='1' ", "sourceRef='s' targetRef='t'/>", "</process>"]

private def strandedDiagram : Diagram :=
  { id := "p", name := ""
    elements :=
      [{ Element.bare "s" "" .startEvent with outgoing := ["1"] },
       { Element.bare "t" "" .throwEvent with incoming := ["1"], event := some (.link "l") }]
    flows := [⟨"1", "", "s", "t", []⟩]
    messages := [] }

private theorem ofMarkup_strandedSource :
    Diagram.ofMarkup (String.join strandedSource) = .ok strandedDiagram :=
  ofMarkup_join (by decide +kernel)

/-- The run meets the link and fails the instance, whose end is then the last
report on it; run again and sent an event, the instance stays as it is. -/
theorem end_of_stranded_instance :
    ∃ e out e' i j, (loaded (String.join strandedSource) "" strandedDiagram).Operates e ∧
      e.instances[0]? = some i ∧ e.run? 100 i.key = some out ∧
      (∃ error, out.2 = .error error) ∧ i.state.terminal = false ∧
      out.1.instances[0]? = some j ∧ j.state = .failed ∧
      (∃ seen progress, out.1.audit =
          (loaded (String.join strandedSource) "" strandedDiagram).audit ++ seen ∧
        reportsOn j.key seen = progress ++ [j.endedEvent] ∧
        ∀ event ∈ progress, event.isEnd = false) ∧
      out.1.performAll? 100 [.publish 2 "m" [], .run 2] = some e' ∧
      ∃ k, e'.1.instances[0]? = some k ∧ k.state = j.state ∧ k.vars = j.vars ∧
        k.activities = j.activities := by
  have hreachable : Reachable (· = .default)
      (loaded (String.join strandedSource) "" strandedDiagram) :=
    reachable_loaded ofMarkup_strandedSource (by rfl) ""
  have htest : ((loaded (String.join strandedSource) "" strandedDiagram).performAll? 100
      [.create 1 []]).any (fun created => created.1.instances[0]?.any fun i =>
        i.key == 2 && (created.1.perform? 100 (.run 2)).any fun ran =>
          (ran.1.performAll? 100 [.publish 2 "m" [], .run 2]).isSome &&
            ran.1.instances[0]?.any fun j => j.key == 2 && j.state == .failed &&
              !i.state.terminal) = true := by decide +kernel
  obtain ⟨created, hcreated, htest⟩ := (Option.any_eq_true _ _).mp htest
  obtain ⟨i, hi, htest⟩ := (Option.any_eq_true _ _).mp htest
  obtain ⟨hkey, htest⟩ := (Bool.and_eq_true _ _).mp htest
  obtain ⟨ran, hran, htest⟩ := (Option.any_eq_true _ _).mp htest
  obtain ⟨hlater, htest⟩ := (Bool.and_eq_true _ _).mp htest
  obtain ⟨e', hlater⟩ := Option.isSome_iff_exists.mp hlater
  obtain ⟨j, hj, htest⟩ := (Option.any_eq_true _ _).mp htest
  simp only [Bool.and_eq_true, beq_iff_eq, Bool.not_eq_true'] at hkey htest
  obtain ⟨⟨hjkey, hfailed⟩, hgo⟩ := htest
  have hoperates := Operates.performAll hcreated
  obtain ⟨out, hrun, rfl⟩ := Option.map_eq_some_iff.mp hran
  rw [answered_fst] at hj hlater
  rw [← hkey] at hrun
  have herror := ((end_of_instance hreachable hoperates hi).1 100 out hrun).1.mpr
    ⟨hgo, j, hj, hfailed⟩
  have hthen : (loaded (String.join strandedSource) "" strandedDiagram).Operates out.1 := by
    refine hoperates.tail ⟨100, .run i.key, (answered .inst out).2, ?_⟩
    rw [perform?, hrun, ← answered_fst .inst out]
    rfl
  obtain ⟨-, hheard, hstays⟩ := end_of_instance hreachable hthen hj
  obtain ⟨seen, progress, haudit, hprogress, hclean⟩ :=
    hheard fun k hk => absurd hk List.not_mem_nil
  rw [hfailed] at hprogress
  exact ⟨created.1, out, e', i, j, hoperates, hi, hrun, herror, hgo, hj, hfailed,
    ⟨seen, progress, haudit, hprogress, hclean⟩, hlater,
    hstays (by rw [hfailed]; rfl) e'.1 (Operates.performAll hlater)⟩

end Engine

end ProcessEngine
