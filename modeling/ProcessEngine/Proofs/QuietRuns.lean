import ProcessEngine.Proofs.InstanceCompletion
import ProcessEngine.Proofs.MessageLedger
import ProcessEngine.Proofs.RaceResolution
import ProcessEngine.Proofs.ResumedRuns

/-!
# Runs that change nothing

A run looks at everything that is left open, and at whatever it opens itself.
So after it, every subscription that still waits found no event, and every timer
found that its time had not come.  Events are only used up in the course of the
run, so this is still so at its end (`Work.Attended`).  Another run at the same
time finds the same: it looks at each activity, and at the races that some of
them take part in, and leaves everything as it is.

Main statement: `run_again_changes_nothing`.
-/

namespace ProcessEngine

theorem Activity.isWaiting_of_isLeftOpen {a : Activity} (hwait : a.isWait = true)
    (hopen : a.isLeftOpen = true) : a.isWaiting = true := by
  unfold isWait at hwait
  unfold isLeftOpen at hopen
  unfold isWaiting
  cases hb : a.body <;>
    simp_all [ActivityBody.isWait, ActivityBody.isWaiting, ActivityState.terminal,
      ActivityState.rank]

/-- What was left open holds a slot. -/
theorem Activity.slot?_of_isLeftOpen {a : Activity} (hopen : a.isLeftOpen = true) :
    ∃ slot, a.slot? = some slot := by
  unfold isLeftOpen at hopen
  unfold slot?
  cases hb : a.body <;> simp_all [ActivityState.terminal, ActivityState.rank]

namespace Run

section Visits

variable {element : Nat} {e : Element} {origin : Option Nat} {n : Nat} {r r' : Run}
  {out : Run × List Command}

/-! ## What is looked at comes to rest -/

/-- Idleness lasts as long as no event is published and no time passes. -/
theorem Idle.mono {a : Activity} (h : r.Idle a)
    (hconsumes : Instance.ConsumesAll r.inst r'.inst) (hnow : r'.now = r.now) : r'.Idle a := by
  refine ⟨fun s hs => hconsumes.findUnconsumed?_none (h.1 s hs), fun t ht => ?_⟩
  rw [hnow]
  exact h.2 t ht

/-- A move leaves all other waits alone. -/
theorem Move.waitAt?_ne (h : Move element e origin n r r') {m : Nat} (hm : m ≠ n) :
    r'.inst.waitAt? m = r.inst.waitAt? m := by
  cases h with
  | report => rfl
  | call => rfl
  | outputs h =>
      unfold Instance.waitAt?
      rw [writeOutputs_activities h]
  | opened hbody hopen =>
      obtain ⟨-, rfl, rfl⟩ := open?_eq_some hopen
      simp only [Instance.waitAt?, Instance.push]
      rcases Nat.lt_or_gt_of_ne hm with hlt | hgt
      · rw [List.getElem?_append_left hlt]
      · rw [List.getElem?_eq_none (by simp; omega), List.getElem?_eq_none (by omega)]
  | complete => rfl
  | finishJob vars => exact Instance.waitAt?_modifyActivity_ne _ hm _
  | failJob => exact Instance.waitAt?_modifyActivity_ne _ hm _
  | arrive => exact Instance.waitAt?_modifyActivity_ne _ hm _
  | fire => exact Instance.waitAt?_modifyActivity_ne _ hm _
  | withdraw => exact Instance.waitAt?_modifyActivity_ne _ hm _
  | message _ _ _ _ _ _ _ _ hreceive =>
      obtain ⟨vars, rfl⟩ := receive_eq hreceive
      exact (Instance.waitAt?_winRace _ _ _ m).trans (Instance.waitAt?_modifyActivity_ne _ hm _)
  | trigger =>
      exact (Instance.waitAt?_winRace _ _ _ m).trans (Instance.waitAt?_modifyActivity_ne _ hm _)

theorem Moves.waitAt?_ne (h : Moves element e origin n r r') {m : Nat} (hm : m ≠ n) :
    r'.inst.waitAt? m = r.inst.waitAt? m := by
  induction h with
  | refl => rfl
  | tail _ hmove ih => exact (hmove.waitAt?_ne hm).trans ih

/-- A wait that is left after a visit was there before, or nothing can be done
about it. -/
theorem Visits.idle_or_same (h : Visits element e origin r out)
    (hclean : ∀ c ∈ out.2, c.isFailure = false) {k : Nat} {b : Activity}
    (hb : out.1.inst.waitAt? k = some b) (hopen : b.isLeftOpen = true) :
    out.1.Idle b ∨ r.inst.waitAt? k = some b := by
  cases h with
  | failed n error => cases hclean _ List.mem_cons_self
  | @visited r' n a extra flows h hfrom ha hadds hflows hrest =>
      by_cases hk : k = n
      · subst hk
        obtain ⟨hb, hwait⟩ := Instance.waitAt?_eq_some.mp hb
        obtain rfl : a = b := Option.some.inj (ha.symm.trans hb)
        exact .inl (hrest (Activity.isWaiting_of_isLeftOpen hwait hopen))
      · exact .inr (h.waitAt?_ne hk ▸ hb)

/-- After an open activity is looked at again, nothing more can be done about
it. -/
theorem Visits.idle_of_held {a : Activity} {slot : Slot} (h : Visits a.element e origin r out)
    (hr : r.inst.Sound) (ha : r.activity? n = some a)
    (he : r.diagram.elements[a.element]? = some e) (hheld : r.inst.slotAt n = some slot)
    (hclean : ∀ c ∈ out.2, c.isFailure = false) {b : Activity}
    (hb : out.1.inst.waitAt? n = some b) (hopen : b.isLeftOpen = true) : out.1.Idle b := by
  cases h with
  | failed n error => cases hclean _ List.mem_cons_self
  | @visited r' k c extra flows h hfrom hc hadds hflows hrest =>
      obtain rfl := h.eq_of_held hfrom hc hr ha he hheld
      obtain ⟨hb, hwait⟩ := Instance.waitAt?_eq_some.mp hb
      obtain rfl : c = b := Option.some.inj (hc.symm.trans hb)
      exact hrest (Activity.isWaiting_of_isLeftOpen hwait hopen)

/-- A wait that is left open is none that was settled. -/
theorem waitAt?_of_settleRace {i : Instance} {gateway k : Nat} {b : Activity}
    (hb : (i.settleRace gateway).waitAt? k = some b) (hopen : b.isLeftOpen = true) :
    i.waitAt? k = some b := by
  unfold Instance.settleRace at hb
  split at hb
  · exact hb
  · obtain ⟨a, ha, rfl⟩ :=
      Option.map_eq_some_iff.mp ((Instance.waitAt?_map_settled i gateway k).symm.trans hb)
    rcases Instance.settled_cases gateway a with ⟨heq, -⟩ | ⟨-, -, hwithdrawn⟩
    · rwa [heq]
    · have hwait := Activity.isWait_of_isWithdrawn hwithdrawn
      have hwaiting := Activity.isWaiting_of_isLeftOpen hwait hopen
      rw [Activity.isWithdrawn_of_isWaiting hwaiting] at hwithdrawn
      cases hwithdrawn

end Visits

/-- Every wait that is left open is still to be looked at again, or nothing can
be done about it. -/
def Work.Attended (work : Work) : Prop :=
  ∀ ⦃k : Nat⦄ ⦃a : Activity⦄, work.1.inst.waitAt? k = some a → a.isLeftOpen = true →
    (∃ c ∈ work.2, c.resumed? = some k) ∨ work.1.Idle a

/-- What is left open after a command was not meant by it, or nothing can be
done about it. -/
theorem dispatch_idle_or_same {r : Run} {c : Command} {queue : List Command}
    (hw : Work.Sound (r, c :: queue)) (hqueued : r.inst.Queued (c :: queue))
    (hclean : ∀ c' ∈ (r.dispatch c).2, c'.isFailure = false) {k : Nat} {b : Activity}
    (hb : (r.dispatch c).1.inst.waitAt? k = some b) (hopen : b.isLeftOpen = true) :
    (r.dispatch c).1.Idle b ∨ (r.inst.waitAt? k = some b ∧ c.resumed? ≠ some k) := by
  have hother : c.resumed? = none →
      (r.dispatch c).1.Idle b ∨ r.inst.waitAt? k = some b →
      (r.dispatch c).1.Idle b ∨ (r.inst.waitAt? k = some b ∧ c.resumed? ≠ some k) :=
    fun hnone hcases => hcases.imp id fun hsame => ⟨hsame, by simp [hnone]⟩
  have hspec := dispatch_spec r c
  cases c with
  | resume m origin =>
      obtain ⟨a, ha, -, -⟩ := hw.2 _ List.mem_cons_self
      obtain ⟨e, he, -⟩ := hw.1.fits ha
      have hvisit := visit_spec r a.element e origin none
      rw [dispatch_resume ha he] at hclean hb ⊢
      cases hqueued with
      | rest h => cases h _ List.mem_cons_self
      | resume hheld =>
          by_cases hk : k = m
          · subst hk
            exact .inl (hvisit.idle_of_held hw.1 ha he hheld hclean hb hopen)
          · refine (hvisit.idle_or_same hclean hb hopen).imp id fun hsame => ⟨hsame, fun heq => ?_⟩
            exact hk (Option.some.inj heq).symm
  | takeFlows source flows =>
      refine hother rfl ?_
      generalize r.dispatch (.takeFlows source flows) = out at hspec hb
      cases hspec <;> exact .inr hb
  | enter element origin via =>
      refine hother rfl ?_
      generalize r.dispatch (.enter element origin via) = out at hspec hb hclean
      cases hspec with
      | idle => exact .inr hb
      | enter _ h => exact h.idle_or_same hclean hb hopen
  | settleRace gateway => exact hother rfl (.inr (waitAt?_of_settleRace hb hopen))
  | fail error => exact hother rfl (.inr hb)

theorem Next.attended {work next : Work} (h : Next work next) (hw : Work.Sound work)
    (hqueued : work.1.inst.Queued work.2) (hattended : Work.Attended work) :
    Work.Attended next := by
  cases h with
  | step r c queue _ hclean =>
      intro k b hb hopen
      rcases dispatch_idle_or_same hw hqueued hclean hb hopen with hidle | ⟨hsame, hne⟩
      · exact .inr hidle
      · rcases hattended hsame hopen with ⟨c', hc', hk⟩ | hidle
        · rcases List.mem_cons.mp hc' with rfl | hc'
          · exact absurd hk hne
          · exact .inl ⟨c', List.mem_append_left _ hc', hk⟩
        · obtain ⟨opened, hgrows⟩ := dispatch_grows r c
          exact .inr (hidle.mono (dispatch_consumes r c) hgrows.now)

theorem Reaches.attended {work next : Work} (h : Reaches work next) (hw : Work.Sound work)
    (hqueued : work.1.inst.Queued work.2) (hattended : Work.Attended work) :
    Work.Attended next := by
  induction h with
  | refl => exact hattended
  | tail hreaches hnext ih =>
      exact hnext.attended (Reaches.sound hreaches hw) (Reaches.queued hreaches hw hqueued) ih

/-- An instance that has not started has no activities. -/
def Unstarted (i : Instance) : Prop := i.state = .ready → i.activities = []

theorem seeds_attended {r : Run} (hgo : r.inst.state.terminal = false)
    (hready : Unstarted r.inst) : Work.Attended (r.activate, seeds r.inst) := by
  intro k a ha hopen
  have ha : r.inst.activities[k]? = some a := (Instance.waitAt?_eq_some.mp ha).1
  left
  unfold seeds
  cases hstate : r.inst.state with
  | ready =>
      rw [hready hstate] at ha
      cases ha
  | active =>
      exact ⟨_, List.mem_map_of_mem (Instance.mem_continuations.mpr ⟨a, ha, hopen⟩), rfl⟩
  | completed =>
      rw [hstate] at hgo
      cases hgo
  | failed =>
      rw [hstate] at hgo
      cases hgo

/-! ## Instances that have started -/

section Started

variable {element : Nat} {e : Element} {origin : Option Nat} {n : Nat} {r r' : Run}

theorem Move.started (h : Move element e origin n r r') (hr : r.inst.state ≠ .ready) :
    r'.inst.state ≠ .ready := by
  rcases h.state with hstate | ⟨hstate, -⟩ <;> rw [hstate]
  · exact hr
  · nofun

theorem Moves.started (h : Moves element e origin n r r') (hr : r.inst.state ≠ .ready) :
    r'.inst.state ≠ .ready := by
  induction h with
  | refl => exact hr
  | tail _ hmove ih => exact hmove.started ih

theorem Breaks.started (h : Breaks e n r r') (hr : r.inst.state ≠ .ready) :
    r'.inst.state ≠ .ready := by
  cases h with
  | idle => exact hr
  | fail => exact nofun
  | spoil _ _ _ _ _ _ _ hreceive =>
      have hstate := receive_state hreceive
      exact hstate ▸ hr

theorem Visits.started {out : Run × List Command} (h : Visits element e origin r out)
    (hr : r.inst.state ≠ .ready) : out.1.inst.state ≠ .ready := by
  cases h with
  | failed n error h hbreak => exact hbreak.started (h.started hr)
  | visited h => exact h.started hr

theorem dispatch_started {c : Command} (hr : r.inst.state ≠ .ready) :
    (r.dispatch c).1.inst.state ≠ .ready := by
  have h := dispatch_spec r c
  generalize r.dispatch c = out at h
  cases h with
  | idle => exact hr
  | flows => exact hr
  | stuck => exact hr
  | enter _ h => exact h.started hr
  | resume _ _ h => exact h.started hr
  | settle gateway =>
      simp only [modify, Instance.settleRace]
      split <;> exact hr

/-- A run leaves an instance that has started. -/
theorem start?_started {fuel : Nat} {error? : Option EngineError} (hr : r.inst.Sound)
    (h : r.start? fuel = some (r', error?)) : r'.inst.state ≠ .ready := by
  rcases start?_cases h with ⟨hend, rfl, -⟩ | ⟨-, hends⟩
  · intro hready
    rw [hready] at hend
    cases hend
  · cases hends with
    | failed => exact nofun
    | empty hreaches =>
        rw [inst_finish]
        exact hreaches.keeps (P := fun work => work.1.inst.state ≠ .ready)
          (fun _ _ => dispatch_started) (seeds_sound hr) nofun

end Started

/-- **At the end of a run without an error everything rests**: nothing can be
done about what still waits, also where the instance has completed. -/
theorem start?_rests {fuel : Nat} {r r' : Run} (h : r.start? fuel = some (r', none))
    (hgo : r.inst.state.terminal = false) (hr : r.inst.Sound) (hready : Unstarted r.inst)
    {k : Nat} {a : Activity} (ha : r'.inst.activities[k]? = some a)
    (hopen : a.isLeftOpen = true) : r'.Idle a := by
  rcases start?_cases h with ⟨hend, -, -⟩ | ⟨-, hends⟩
  · rw [hgo] at hend
    cases hend
  · cases hends with
    | @empty r₁ hreaches =>
        have hqueued : r.activate.inst.Queued (seeds r.inst) :=
          (seeds_queued r.inst).of_slotAt fun n _ => rfl
        have hattended := hreaches.attended (seeds_sound hr) hqueued (seeds_attended hgo hready)
        rw [inst_finish] at ha
        have hidle : r₁.Idle a := by
          by_cases hwait : a.isWait = true
          · rcases hattended (Instance.waitAt?_eq_some.mpr ⟨ha, hwait⟩) hopen with
              ⟨c, hc, -⟩ | hidle
            · cases hc
            · exact hidle
          · exact idle_of_not_isWait (by simpa using hwait)
        exact hidle.mono (by rw [inst_finish]) (finish_grows r₁).now

/-- After every run the instance has come to an end, or everything rests. -/
theorem start?_idle {fuel : Nat} {r r' : Run} {error? : Option EngineError}
    (h : r.start? fuel = some (r', error?)) (hr : r.inst.Sound) (hready : Unstarted r.inst) :
    r'.inst.state.terminal = true ∨ ∀ ⦃k : Nat⦄ ⦃a : Activity⦄,
      r'.inst.activities[k]? = some a → a.isLeftOpen = true → r'.Idle a := by
  rcases start?_cases h with ⟨hend, rfl, -⟩ | ⟨hgo, hends⟩
  · exact .inl hend
  · cases hends with
    | failed => exact .inl rfl
    | empty => exact .inr fun _ _ ha hopen => start?_rests h hgo hr hready ha hopen

/-! ## Looking again at what rests -/

section Again

variable {r : Run}

/-- To settle races leaves alone what rests. -/
theorem settleRace_eq (hracing : r.inst.Racing fun _ => False) (gateway : Nat) :
    r.dispatch (.settleRace gateway) = (r, []) := by
  have hsame : r.inst.settleRace gateway = r.inst := by
    unfold Instance.settleRace
    split
    · rfl
    · rename_i winner hwon
      have hmap : r.inst.activities.map (Instance.settled gateway) = r.inst.activities := by
        refine (List.map_congr_left fun a ha => ?_).trans (List.map_id _)
        obtain ⟨n, hn⟩ := List.getElem?_of_mem ha
        rcases Instance.settled_cases gateway a with ⟨heq, -⟩ | ⟨ho, hwaiting, -⟩
        · exact heq
        · obtain ⟨race, hrace, hwinner⟩ := Option.bind_eq_some_iff.mp hwon
          have hwait := Instance.waitAt?_eq_some.mpr ⟨hn, Activity.isWait_of_isWaiting hwaiting⟩
          exact (hracing.waiting hwait ho hrace hwaiting (by simp [hwinner])).elim
      exact congrArg (fun activities => { r.inst with activities }) hmap
  show (r.modify fun i => i.settleRace gateway, []) = _
  rw [modify, hsame]

/-- Behind a race that is decided nothing waits, so no wait has lost its race. -/
theorem raceLost_eq_false (hracing : r.inst.Racing fun _ => False) {k : Nat} {a : Activity}
    (ha : r.activity? k = some a) (hwaiting : a.isWaiting = true) (id : String) :
    r.inst.raceLost (r.originOf k) id = false := by
  have horigin : r.originOf k = a.origin := by simp [originOf, ha]
  rw [horigin]
  cases ho : a.origin with
  | none => rfl
  | some g =>
      by_contra hlost
      rw [Bool.not_eq_false, Instance.raceLost_some] at hlost
      obtain ⟨race, hrace, hwon⟩ := (Option.any_eq_true _ _).mp hlost
      obtain ⟨winner, hwinner, -⟩ := (Option.any_eq_true _ _).mp hwon
      have hwait := Instance.waitAt?_eq_some.mpr ⟨ha, Activity.isWait_of_isWaiting hwaiting⟩
      exact hracing.waiting hwait ho hrace hwaiting (by simp [hwinner])

/-- **Looking again at what rests changes nothing**, where no handler takes the
job; a race may be settled once more. -/
theorem resume_eq (hr : r.inst.Sound) (hracing : r.inst.Racing fun _ => False) {k : Nat}
    {a : Activity} (ha : r.activity? k = some a) (hopen : a.isLeftOpen = true)
    (hidle : r.Idle a)
    (hquiet : ∀ j f, a.body = .job j → r.diagram.elements[a.element]? = some f →
      resolveHandler? r.registrations f = none) (origin : Option Nat) :
    ∃ cs, r.dispatch (.resume k origin) = (r, cs) ∧
      (cs = [] ∨ ∃ gateway, cs = [.settleRace gateway]) := by
  obtain ⟨slot, hslot⟩ := Activity.slot?_of_isLeftOpen hopen
  obtain ⟨f, hf, htakes⟩ := hr.takesUp ha hslot (a.gateway?_of_isLeftOpen hopen)
  have hraces : r.raceCommands k = [] ∨ ∃ gateway, r.raceCommands k = [.settleRace gateway] := by
    unfold raceCommands
    split
    · split
      · exact .inr ⟨_, rfl⟩
      · exact .inl rfl
    · exact .inl rfl
  rw [dispatch_resume ha hf]
  generalize hb : a.body = body at htakes
  cases htakes with
  | job hkind _ hfind =>
      have hjob : r.handle a.element f origin none = (r, .ok ⟨k, false, []⟩) := by
        have hwork : r.handleJob a.element f origin = (r, .ok ⟨k, false, []⟩) := by
          simp only [handleJob, openJob?, hfind, hquiet _ f hb hf]
        rcases hkind with hkind | hkind <;> simpa only [handle, hkind] using hwork
      exact ⟨[], by simp [visit, hjob, proceed], .inl rfl⟩
  | @subscription s ref hkind hevent hwaits hfind =>
      have hlost := raceLost_eq_false hracing ha (isWaiting_subscription hb hwaits) f.id
      have hsub : (r.activity? k).bind Activity.subscription? = some s := by
        simp [ha, Activity.subscription?, hb]
      have hcatch : r.messageCatch a.element f origin = (r, .ok ⟨k, false, []⟩) := by
        simp [messageCatch, openSubscription?, hfind, hlost, hsub, hidle.1 s hb]
      refine ⟨r.raceCommands k, ?_, hraces⟩
      simp [visit, handle, hkind, catchEvent, catchBody, hevent, hcatch, proceed]
  | @timer t duration hkind hevent hwaits hfind =>
      have hlost := raceLost_eq_false hracing ha (isWaiting_timer hb hwaits) f.id
      have htimer : (r.activity? k).bind Activity.timer? = some t := by
        simp [ha, Activity.timer?, hb]
      have hcatch : r.timerCatch a.element f duration origin = (r, .ok ⟨k, false, []⟩) := by
        simp [timerCatch, openTimer, hfind, hlost, htimer, hidle.2 t hb]
      refine ⟨r.raceCommands k, ?_, hraces⟩
      simp [visit, handle, hkind, catchEvent, catchBody, hevent, hcatch, proceed]

/-- Settling races that are settled takes a command each. -/
theorem drain?_settles (hracing : r.inst.Racing fun _ => False) {gateways : List Nat}
    {fuel : Nat} (hfuel : gateways.length ≤ fuel) :
    drain? fuel r (gateways.map .settleRace) = some (r.finish, none) := by
  induction gateways generalizing fuel with
  | nil => cases fuel <;> rfl
  | cons g rest ih =>
      cases fuel with
      | zero => simp at hfuel
      | succ fuel =>
          have hleft : rest.length ≤ fuel := by simpa using hfuel
          have hrest : drain? fuel r (enqueue (rest.map .settleRace) []) =
              some (r.finish, none) := by
            simpa [enqueue] using ih hleft
          change drain? fuel (r.dispatch (.settleRace g)).1
            (enqueue (rest.map .settleRace) (r.dispatch (.settleRace g)).2) = _
          rw [settleRace_eq hracing]
          exact hrest

/-- Looking again at what rests takes two commands each at most. -/
theorem drain?_resumes (hracing : r.inst.Racing fun _ => False) {origin : Nat → Option Nat}
    {ns : List Nat} {gateways : List Nat} {fuel : Nat}
    (hns : ∀ n ∈ ns, ∃ cs, r.dispatch (.resume n (origin n)) = (r, cs) ∧
      (cs = [] ∨ ∃ gateway, cs = [.settleRace gateway]))
    (hfuel : 2 * ns.length + gateways.length ≤ fuel) :
    drain? fuel r ((ns.map fun n => .resume n (origin n)) ++ gateways.map .settleRace) =
      some (r.finish, none) := by
  induction ns generalizing gateways fuel with
  | nil => exact drain?_settles hracing (by simpa using hfuel)
  | cons n rest ih =>
      have hrest := fun m hm => hns m (List.mem_cons_of_mem n hm)
      rw [List.length_cons] at hfuel
      cases fuel with
      | zero => omega
      | succ fuel =>
          obtain ⟨cs, hdispatch, hcs⟩ := hns n List.mem_cons_self
          change drain? fuel (r.dispatch (.resume n (origin n))).1
            (enqueue _ (r.dispatch (.resume n (origin n))).2) = _
          rw [hdispatch]
          rcases hcs with rfl | ⟨g, rfl⟩
          · have hleft : 2 * rest.length + gateways.length ≤ fuel := by omega
            simpa [enqueue] using ih hrest hleft
          · have hleft : 2 * rest.length + (gateways ++ [g]).length ≤ fuel := by
              rw [List.length_append, List.length_singleton]
              omega
            simpa [enqueue, Command.isFailure] using ih hrest hleft

/-- **A run of an active instance that rests changes nothing.** -/
theorem start?_of_idle (hr : r.inst.Sound) (hactive : r.inst.state = .active)
    (hracing : r.inst.Racing fun _ => False)
    (hidle : ∀ ⦃k : Nat⦄ ⦃a : Activity⦄, r.inst.activities[k]? = some a →
      a.isLeftOpen = true → r.Idle a)
    (hquiet : ∀ a ∈ r.inst.activities, ∀ j f, a.body = .job j → j.state = .active →
      r.diagram.elements[a.element]? = some f → resolveHandler? r.registrations f = none)
    {fuel : Nat} (hfuel : 2 * r.inst.continuations.length ≤ fuel) :
    r.start? fuel = some (r, none) := by
  have hgo : ¬ r.inst.state.terminal = true := by
    rw [hactive]
    nofun
  have hsame : (r.modify fun i => { i with state := .active }) = r := by
    obtain ⟨inst, keys, registrations, now, audit, calls⟩ := r
    obtain ⟨key, definition, vars, createdAt, state, caught, activities⟩ := inst
    obtain rfl : state = .active := hactive
    rfl
  have hfinish : r.finish = r := by
    rw [finish, if_neg hgo]
  have hseeds : seeds r.inst =
      r.inst.continuations.map fun n => .resume n (r.inst.activities[n]?.bind Activity.origin) := by
    unfold seeds
    rw [hactive]
  have hall : 2 * r.inst.continuations.length + ([] : List Nat).length ≤ fuel := hfuel
  rw [start?, if_neg hgo, hsame, hseeds]
  refine (congrArg (drain? fuel r) (List.append_nil _).symm).trans ?_
  refine (drain?_resumes hracing (fun n hn => ?_) hall).trans (by rw [hfinish])
  obtain ⟨a, ha, hopen⟩ := Instance.mem_continuations.mp hn
  refine resume_eq hr hracing ha hopen (hidle ha hopen) (fun j f hj hf => ?_) _
  refine hquiet a (List.mem_of_getElem? ha) j f hj ?_ hf
  simpa [Activity.isLeftOpen, hj] using hopen

end Again

end Run

namespace Engine

theorem Reachable.unstarted {starts : KeySequence → Prop} {e : Engine}
    (h : Reachable starts e) : ∀ i ∈ e.instances, Run.Unstarted i := by
  refine h.forall_instances ?_ (fun i c _ hP => hP) (fun hr _ hrun => ?_) ?_
  · exact fun key d vars now _ => rfl
  · exact fun hready => absurd hready (Run.start?_started hr hrun)
  · intro i _ hP hready
    have hnone : i.activities = [] := hP hready
    simp [Instance.relinked, hnone]

/-- **Running again without news changes nothing.**  Whatever a run has come
to, let the instance be run once more at the same time as the run left it, be it
by the same engine or by any other that holds it.  If no handler takes the job
of an open task, the second run succeeds and leaves the whole engine as it was:
the instance, the keys, the reports and the calls of handlers.  It takes two
commands for each activity that was left open. -/
theorem run_again_changes_nothing {starts : KeySequence → Prop} {e e₂ : Engine}
    (h : Reachable starts e) {fuel : Nat} {key : Int}
    {out : Engine × Except EngineError Instance} {n : Nat} (hrun : e.run? fuel key = some out)
    (hn : e.findIndex? key = some n) {i : Instance} (hi : out.1.instances[n]? = some i)
    {m : Nat} (hm : e₂.findIndex? key = some m) (hi₂ : e₂.instances[m]? = some i)
    (hnow : e₂.now = e.now)
    (hquiet : ∀ a ∈ i.activities, ∀ j f, a.body = .job j → j.state = .active →
      i.diagram.elements[a.element]? = some f → resolveHandler? e₂.registrations f = none)
    {fuel₂ : Nat} (hfuel : 2 * i.continuations.length ≤ fuel₂) :
    e₂.run? fuel₂ key = some (e₂, .ok i) := by
  obtain ⟨i₀, r, error?, hi₀, hstart, hout⟩ := run?_eq_some hrun hn
  obtain rfl : r.inst = i := by
    rw [hout] at hi
    simpa [settle, List.getElem?_set_self (lt_of_findIndex? hn)] using hi
  have hmem := List.mem_of_getElem? hi₀
  have hsound₀ : (e.lend i₀).inst.Sound := (h.sound.instances i₀ hmem).1
  have hsound := Run.start?_sound hstart hsound₀
  obtain ⟨opened, hgrows⟩ := Run.start?_grows hstart
  have hagain : (e₂.lend r.inst).start? fuel₂ = some (e₂.lend r.inst, none) := by
    cases hend : r.inst.state.terminal with
    | true => exact if_pos hend
    | false =>
        have hactive : r.inst.state = .active := by
          have hstarted := Run.start?_started hsound₀ hstart
          cases hstate : r.inst.state <;> simp_all [InstanceState.terminal]
        have hracing := (Run.start?_racing hstart hsound₀ (h.racing i₀ hmem)).resolve_left
          (by simp [hactive])
        have hidle := (Run.start?_idle hstart hsound₀ (h.unstarted i₀ hmem)).resolve_left
          (by simp [hend])
        have hnow' : e₂.now = r.now := hnow.trans hgrows.now.symm
        refine Run.start?_of_idle (r := e₂.lend r.inst) hsound hactive hracing
          (fun k a ha hopen => ?_) hquiet hfuel
        refine ⟨(hidle ha hopen).1, fun t ht => ?_⟩
        show isDue e₂.now t.dueAt = false
        rw [hnow']
        exact (hidle ha hopen).2 t ht
  have hsettle : e₂.settle m (e₂.lend r.inst) = e₂ := by
    have hset : e₂.instances.set m r.inst = e₂.instances := by
      apply List.ext_getElem?
      intro k
      by_cases hk : m = k
      · subst hk
        rw [List.getElem?_set_self (lt_of_findIndex? hm), hi₂]
      · rw [List.getElem?_set_ne hk]
    exact congrArg (fun instances => { e₂ with instances }) hset
  simp only [Engine.run?, hm, hi₂, hagain, hsettle]
  rfl

/-- A task without a handler and a message that has not come: the second run
looks at both and changes nothing. -/
theorem run_of_errand_again :
    ∃ e out i, Reachable (· = .default) e ∧ e.run? 100 2 = some out ∧
      out.1.instances[0]? = some i ∧ i.continuations = [1, 2] ∧
      out.1.run? 4 2 = some (out.1, .ok i) := by
  obtain ⟨e, hreachable, htest⟩ := exists_reachable ofMarkup_errandSource 100 [.create 1 []]
    (fun e => e.findIndex? 2 == some 0 && (e.run? 100 2).any fun out =>
      out.1.findIndex? 2 == some 0 && out.1.now == e.now && out.1.registrations.isEmpty &&
        out.1.instances[0]?.any fun i => i.continuations == [1, 2]) (by decide +kernel)
  simp only [Bool.and_eq_true, beq_iff_eq] at htest
  obtain ⟨hfirst, hrun⟩ := htest
  obtain ⟨out, hrun, htest⟩ := (Option.any_eq_true _ _).mp hrun
  simp only [Bool.and_eq_true, beq_iff_eq, List.isEmpty_iff] at htest
  obtain ⟨⟨⟨hagain, hnow⟩, hnone⟩, htest⟩ := htest
  obtain ⟨i, hi, hopen⟩ := (Option.any_eq_true _ _).mp htest
  have hopen : i.continuations = [1, 2] := by simpa using hopen
  refine ⟨e, out, i, hreachable, hrun, hi, hopen, ?_⟩
  refine run_again_changes_nothing hreachable hrun hfirst hi hagain hi hnow ?_ ?_
  · intro a _ j f _ _ _
    rw [hnone]
    exact List.findSome?_eq_none_iff.mpr fun kind _ => rfl
  · rw [hopen]
    decide

end Engine

end ProcessEngine
