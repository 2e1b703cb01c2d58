import ProcessEngine.Proofs.InstanceProgress
import ProcessEngine.Proofs.QuietRuns

/-!
# No wake-up is missed, and no timer is early

The branches of a run compete for events, and a wait is looked at when its branch
comes to it: at the start of the run, on a first arrival or on a later one.  What
counts is the end of the run.  `start?_rests` says that nothing could be done
about what still waits then; here this is told by the events and the clock.

A timer fires in one kind of move only, which asks the clock first.
`Run.FiresDue` carries that through the run: a timer that fires between two
moments of it is due.

Main statement: `run_misses_nothing`.
-/

namespace ProcessEngine

namespace Activity

/-! ## What becomes of a timer -/

theorem timer?_eq_some {a : Activity} {t : Timer} : a.timer? = some t ↔ a.body = .timer t := by
  unfold timer?
  cases a.body <;> simp

theorem timer?_advance (a : Activity) (next : ActivityState) :
    (a.advance next).timer? = a.timer? := by
  rcases a.advance_cases next with heq | ⟨-, -, heq⟩
  · rw [heq]
  · rw [heq]
    unfold timer?
    cases a.body <;> rfl

theorem timer?_recordInbound (a : Activity) (flow : String) :
    (a.recordInbound flow).timer? = a.timer? := by
  obtain ⟨key, element, origin, body⟩ := a
  cases body <;> rfl

theorem timer?_winRace (a : Activity) (branch : String) :
    (a.winRace branch).timer? = a.timer? := by
  obtain ⟨key, element, origin, body⟩ := a
  cases body <;> rfl

theorem timer?_setFailure (a : Activity) (reason : String) :
    (a.setFailure reason).timer? = a.timer? := by
  obtain ⟨key, element, origin, body⟩ := a
  cases body <;> rfl

/-- Where a race is settled no timer fires. -/
theorem timer?_of_settle {a : Activity} {t : Timer} (h : a.settle.timer? = some t)
    (hfired : t.state = .triggered) : a.timer? = some t := by
  unfold settle at h
  split at h
  · rwa [timer?_advance] at h
  · rename_i t₀ hb
    rw [setTimer_timer a hb (by decide)] at h
    split at h
    · simp only [timer?, Option.some.injEq] at h
      rw [← h] at hfired
      cases hfired
    · exact h
  · exact h

/-- A timer that is served keeps the time when it is due. -/
theorem timer?_serve {a : Activity} {u : Timer} (hu : a.body = .timer u) {t : Timer}
    (h : a.serve.timer? = some t) : t.dueAt = u.dueAt := by
  have hserve : a.serve = a.setTimer .triggered := by
    unfold serve
    rw [hu]
  rw [hserve, setTimer_timer a hu (by decide)] at h
  split at h
  · simp only [timer?, Option.some.injEq] at h
    rw [← h]
  · rw [timer?_eq_some, hu] at h
    cases h
    rfl

end Activity

namespace Run

/-- The timers that fire between two moments of a run are due. -/
structure FiresDue (r r' : Run) : Prop where
  now : r'.now = r.now
  due : ∀ ⦃n : Nat⦄ ⦃b : Activity⦄ ⦃t : Timer⦄, r'.activity? n = some b → b.timer? = some t →
    t.state = .triggered →
      (∃ a, r.activity? n = some a ∧ a.timer? = some t) ∨ isDue r.now t.dueAt = true

theorem FiresDue.of_activities {r r' : Run} (hnow : r'.now = r.now)
    (h : r'.inst.activities = r.inst.activities) : FiresDue r r' where
  now := hnow
  due n b t hb ht _ := .inl ⟨b, by rwa [activity?, ← h], ht⟩

theorem FiresDue.trans {r r₁ r₂ : Run} (h : FiresDue r r₁) (h' : FiresDue r₁ r₂) :
    FiresDue r r₂ where
  now := h'.now.trans h.now
  due n b t hb ht hfired := by
    rcases h'.due hb ht hfired with ⟨a, ha, ht⟩ | hdue
    · exact h.due ha ht hfired
    · exact .inr (h.now ▸ hdue)

theorem modifyActivity_firesDue {r : Run} {n : Nat} {f : Activity → Activity}
    (hf : ∀ a, r.activity? n = some a → ∀ t, (f a).timer? = some t → t.state = .triggered →
      a.timer? = some t ∨ isDue r.now t.dueAt = true) : FiresDue r (r.modifyActivity n f) where
  now := rfl
  due m b t hb ht hfired := by
    by_cases hm : n = m
    · subst hm
      rw [activity?_modify_self] at hb
      obtain ⟨a, ha, rfl⟩ := Option.map_eq_some_iff.mp hb
      exact (hf a ha t ht hfired).imp (fun ht => ⟨a, ha, ht⟩) id
    · have hsame : (r.modifyActivity n f).activity? m = r.activity? m :=
        List.getElem?_modify_ne f _ hm
      exact .inl ⟨b, hsame ▸ hb, ht⟩

/-- A change that leaves the timer of its activity alone. -/
theorem FiresDue.of_timer? {r : Run} {n : Nat} {f : Activity → Activity}
    (hf : ∀ a, (f a).timer? = a.timer?) : FiresDue r (r.modifyActivity n f) :=
  modifyActivity_firesDue fun a _ _ ht _ => .inl (hf a ▸ ht)

/-- A wait is served at its time, if it is a timer. -/
theorem serveWait_firesDue {r : Run} {n : Nat} {a : Activity} (ha : r.activity? n = some a)
    (hdue : ∀ t, a.body = .timer t → isDue r.now t.dueAt = true) (origin : Option Nat)
    (id : String) : FiresDue r (r.serveWait n origin id) := by
  have hserve : FiresDue r (r.modifyActivity n Activity.serve) := by
    refine modifyActivity_firesDue fun b hb t ht _ => ?_
    obtain rfl := Option.some.inj (ha.symm.trans hb)
    cases hbody : a.body with
    | timer u =>
        right
        rw [Activity.timer?_serve hbody ht]
        exact hdue u hbody
    | subscription s =>
        have hadvance : a.serve = a.advance .completed := by
          unfold Activity.serve
          rw [hbody]
        rw [hadvance, Activity.timer?_advance] at ht
        exact .inl ht
    | _ =>
        have hsame : a.serve = a := by
          unfold Activity.serve
          rw [hbody]
        exact .inl (hsame ▸ ht)
  have hwin : FiresDue (r.modifyActivity n Activity.serve) (r.serveWait n origin id) := by
    cases origin with
    | none => exact .of_activities rfl rfl
    | some g => exact .of_timer? fun a => a.timer?_winRace id
  exact hserve.trans hwin

theorem receive_firesDue {r r₁ : Run} {e : Element} {position : Nat} {caught : CaughtEvent}
    {error? : Option ExprError} (h : r.receive e position caught = (r₁, error?)) :
    FiresDue r r₁ := by
  obtain ⟨vars, rfl⟩ := receive_eq h
  exact .of_activities rfl rfl

theorem Move.firesDue {element : Nat} {e : Element} {origin : Option Nat} {n : Nat}
    {r r' : Run} (h : Move element e origin n r r') : FiresDue r r' := by
  cases h with
  | report => exact .of_activities rfl rfl
  | call => exact .of_activities rfl rfl
  | outputs h => exact .of_activities (writeOutputs_grows h).now (writeOutputs_activities h)
  | opened hbody hopen =>
      obtain ⟨-, rfl, rfl⟩ := open?_eq_some hopen
      refine ⟨rfl, fun m b t hb ht hfired => ?_⟩
      by_cases hm : m < r.inst.activities.length
      · simp only [activity?, Instance.push] at hb
        rw [List.getElem?_append_left hm] at hb
        exact .inl ⟨b, hb, ht⟩
      · simp only [activity?, Instance.push] at hb
        rw [List.getElem?_append_right (Nat.le_of_not_lt hm)] at hb
        obtain rfl := List.mem_singleton.mp (List.mem_of_getElem? hb)
        -- a new timer has not fired
        cases hbody <;> simp only [Activity.timer?, Option.some.injEq, reduceCtorEq] at ht
        rw [← ht] at hfired
        cases hfired
  | complete => exact .of_activities rfl rfl
  | finishJob vars =>
      have hvars : FiresDue r (r.modify fun i => { i with vars }) := .of_activities rfl rfl
      exact hvars.trans (.of_timer? fun a => a.timer?_advance _)
  | failJob reason =>
      exact .of_timer? fun a => (Activity.timer?_setFailure _ reason).trans (a.timer?_advance _)
  | arrive flow => exact .of_timer? fun a => a.timer?_recordInbound flow
  | fire => exact .of_timer? fun a => a.timer?_advance _
  | withdraw =>
      exact modifyActivity_firesDue fun a _ t ht hfired =>
        .inl (Activity.timer?_of_settle ht hfired)
  | message _ ha hs _ _ _ _ _ hreceive =>
      rw [activity?, ← receive_activities hreceive] at ha
      refine (receive_firesDue hreceive).trans (serveWait_firesDue ha (fun t ht => ?_) _ _)
      rw [hs] at ht
      cases ht
  | trigger _ ha ht _ _ _ hdue =>
      refine serveWait_firesDue ha (fun u hu => ?_) _ _
      rw [ht] at hu
      cases hu
      exact hdue

theorem Breaks.firesDue {e : Element} {n : Nat} {r r' : Run} (h : Breaks e n r r') :
    FiresDue r r' := by
  cases h with
  | idle => exact .of_activities rfl rfl
  | fail => exact .of_activities rfl rfl
  | spoil _ _ _ _ _ _ _ hreceive =>
      exact (receive_firesDue hreceive).trans (.of_timer? fun a => a.timer?_advance _)

theorem settleRace_firesDue (r : Run) (gateway : Nat) :
    FiresDue r (r.modify fun i => i.settleRace gateway) := by
  cases hwon : (r.inst.raceAt? (some gateway)).bind Race.winner with
  | none => exact .of_activities rfl (by simp only [modify, Instance.settleRace, hwon])
  | some winner =>
      have hactivities : (r.modify fun i => i.settleRace gateway).inst.activities =
          r.inst.activities.map (Instance.settled gateway) := by
        simp only [modify, Instance.settleRace, hwon]
        rfl
      refine ⟨rfl, fun n b t hb ht hfired => .inl ?_⟩
      rw [activity?, hactivities, List.getElem?_map] at hb
      obtain ⟨a, ha, rfl⟩ := Option.map_eq_some_iff.mp hb
      refine ⟨a, ha, ?_⟩
      unfold Instance.settled at ht
      split at ht
      · exact Activity.timer?_of_settle ht hfired
      · exact ht

/-- **No run fires a timer that is not due.** -/
theorem kept_firesDue : Kept FiresDue where
  refl _ := .of_activities rfl rfl
  trans := .trans
  move _ h := h.firesDue
  breaks h := h.firesDue
  settle := settleRace_firesDue
  audit _ _ := .of_activities rfl rfl
  state _ _ := .of_activities rfl rfl

end Run

namespace Engine

/-- **No wake-up is missed, and no timer is early.**  A ready or active instance
is run, and the run succeeds.  Then every event to whose name some subscription
is still open has been consumed, no timer is left that is due by the clock of the
run, and every timer that has fired in the run is due. -/
theorem run_misses_nothing {starts : KeySequence → Prop} {e : Engine} (h : Reachable starts e)
    {i : Instance} (hi : i ∈ e.instances) (hgo : i.state = .ready ∨ i.state = .active)
    {fuel : Nat} {r : Run} (hrun : (e.lend i).start? fuel = some (r, none)) :
    (∀ a ∈ r.inst.activities, ∀ s : Subscription, a.body = .subscription s →
      s.state = .ready ∨ s.state = .active →
        ∀ c ∈ r.inst.caught, c.name = s.name → c.consumed = true) ∧
    (∀ a ∈ r.inst.activities, ∀ t : Timer, a.body = .timer t → t.state = .created →
      t.dueAt.before e.now = false) ∧
    ∀ (n : Nat) (a : Activity) (t : Timer), r.inst.activities[n]? = some a →
      a.body = .timer t → t.state = .triggered →
        (∃ b, i.activities[n]? = some b ∧ b.body = .timer t) ∨ t.dueAt.before e.now = true := by
  have hsound : (e.lend i).inst.Sound := (h.sound.instances i hi).1
  have hopen : (e.lend i).inst.state.terminal = false := by
    show i.state.terminal = false
    rcases hgo with hstate | hstate <;> rw [hstate] <;> rfl
  have hfires := Run.kept_firesDue.start? hrun
  have hnow : r.now = e.now := hfires.now
  have hrests : ∀ a ∈ r.inst.activities, a.isLeftOpen = true → r.Idle a := by
    intro a ha hleft
    obtain ⟨k, hk⟩ := List.getElem?_of_mem ha
    exact Run.start?_rests hrun hopen hsound (h.unstarted i hi) hk hleft
  refine ⟨fun a ha s hs hstate c hc hname => ?_, fun a ha t ht hcreated => ?_,
    fun n a t ha ht hfired => ?_⟩
  · have horderly := (Run.kept_progresses.start? hrun).orderly (h.orderly i hi) a ha
    have hactive : s.state = .active := hstate.resolve_left (horderly.started s hs)
    have hnone := (hrests a ha (by simp [Activity.isLeftOpen, hs, hactive])).1 s hs
    simpa [hname] using List.findIdx?_eq_none_iff.mp hnone c hc
  · have hidle := (hrests a ha (by simp [Activity.isLeftOpen, ht, hcreated])).2 t ht
    rwa [hnow] at hidle
  · rcases hfires.due ha (Activity.timer?_eq_some.mpr ht) hfired with ⟨b, hb, hbt⟩ | hdue
    · exact .inl ⟨b, hb, Activity.timer?_eq_some.mp hbt⟩
    · exact .inr hdue

/-- A subscription stays open where only an event of another name has come. -/
theorem run_of_errand_misses_nothing :
    ∃ e, Reachable (· = .default) e ∧ ∃ i ∈ e.instances, i.state = .active ∧
      ∃ r, (e.lend i).start? 100 = some (r, none) ∧
        (r.inst.activities.map Activity.state == [.completed, .active, .active]) = true ∧
        (r.inst.caught.map fun c => (c.name, c.consumed)) = [("n", false)] ∧
        ∀ a ∈ r.inst.activities, ∀ s : Subscription, a.body = .subscription s →
          s.state = .ready ∨ s.state = .active →
            ∀ c ∈ r.inst.caught, c.name = s.name → c.consumed = true := by
  obtain ⟨e, hreachable, htest⟩ := exists_reachable ofMarkup_errandSource 100
    [.create 1 [], .run 2, .publish 2 "n" []]
    (fun e => e.instances[0]?.any fun i => i.state == .active &&
      ((e.lend i).start? 100).any fun out => out.2.isNone &&
        out.1.inst.activities.map Activity.state == [.completed, .active, .active] &&
          (out.1.inst.caught.map fun c => (c.name, c.consumed)) == [("n", false)])
    (by decide +kernel)
  obtain ⟨i, hi, htest⟩ := (Option.any_eq_true _ _).mp htest
  simp only [Bool.and_eq_true, beq_iff_eq] at htest
  obtain ⟨hactive, hrun⟩ := htest
  obtain ⟨⟨r, error?⟩, hrun, htest⟩ := (Option.any_eq_true _ _).mp hrun
  simp only [Bool.and_eq_true, beq_iff_eq, Option.isNone_iff_eq_none] at htest
  obtain ⟨⟨rfl, hstates⟩, hcaught⟩ := htest
  have hmem := List.mem_of_getElem? hi
  exact ⟨e, hreachable, i, hmem, hactive, r, hrun, by simp [hstates], hcaught,
    (run_misses_nothing hreachable hmem (.inr hactive) hrun).1⟩

end Engine

end ProcessEngine
