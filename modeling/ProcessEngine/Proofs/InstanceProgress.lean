import ProcessEngine.Proofs.MessageLedger
import ProcessEngine.Proofs.ResumedRuns
import ProcessEngine.Proofs.RunRelations

/-!
# Instances only move forward

An activity stays at its position with its key, its origin, its element and its
kind.  What may change about it changes in one direction: a state gives way to a
later one, flows arrive at a gateway behind those that have arrived, and the
winner of a race stays.  `Activity.Evolves` says so about two moments in the life
of an activity, and `Instance.Evolves` about all activities and published events
of an instance.

Some of what an activity holds is kept in order besides (`Activity.Orderly`): a
flow arrives at a gateway once, a job has a reason of failure exactly when it
has failed, and a subscription is never without a start.

Main statement: `history_append_only`, for each operation on an engine and for
restoring its snapshot.
-/

namespace ProcessEngine

/-! ## States -/

/-- A state at a later time: the same, or one of a later stage, which a final
state has none of. -/
def ActivityState.Forward (s t : ActivityState) : Prop :=
  t = s ∨ s.terminal = false ∧ s.rank < t.rank

namespace ActivityState

theorem Forward.refl (s : ActivityState) : s.Forward s := .inl rfl

theorem Forward.trans {s t u : ActivityState} (h : s.Forward t) (h' : t.Forward u) :
    s.Forward u := by
  rcases h with rfl | ⟨hs, hst⟩
  · exact h'
  · rcases h' with rfl | ⟨-, htu⟩
    · exact .inr ⟨hs, hst⟩
    · exact .inr ⟨hs, by omega⟩

theorem forward_of_mayBecome {s next : ActivityState} (h : s.mayBecome next = true) :
    s.Forward next := by
  have hlt : s.rank < next.rank := by simpa [mayBecome] using h
  cases hs : s.terminal with
  | false => exact .inr ⟨hs, hlt⟩
  | true =>
      rw [mayBecome_eq_false_of_terminal hs] at h
      cases h

end ActivityState

/-! ## Activities -/

namespace Activity

/-- The flows that have arrived at the gateway of an activity. -/
def inbound (a : Activity) : List String := (a.gateway?.map Gateway.inbound).getD []

/-- The winner of the race of an activity. -/
def winner? (a : Activity) : Option String := a.race?.bind Race.winner

theorem inbound_withState (a : Activity) (next : ActivityState) :
    ({ a with body := a.body.withState next } : Activity).inbound = a.inbound := by
  unfold inbound gateway?
  cases a.body <;> rfl

theorem winner?_withState (a : Activity) (next : ActivityState) :
    ({ a with body := a.body.withState next } : Activity).winner? = a.winner? := by
  unfold winner? race?
  cases a.body <;> rfl

/-- How an activity may look at a later time.  The frame of its body is its kind
with all that is fixed at its creation. -/
structure Evolves (a b : Activity) : Prop where
  key : b.key = a.key
  origin : b.origin = a.origin
  body : b.body.frame = a.body.frame
  state : a.state.Forward b.state
  inbound : a.inbound <+: b.inbound
  winner : ∀ id, a.winner? = some id → b.winner? = some id

/-- What an activity holds is in order. -/
structure Orderly (a : Activity) : Prop where
  inbound : a.inbound.Nodup
  failure : ∀ j, a.body = .job j → (j.failure.isSome = true ↔ j.state = .failed)
  started : ∀ s, a.body = .subscription s → s.state ≠ .ready

theorem Evolves.refl (a : Activity) : a.Evolves a :=
  ⟨rfl, rfl, rfl, .refl _, List.prefix_rfl, fun _ h => h⟩

theorem Evolves.trans {a b c : Activity} (h : a.Evolves b) (h' : b.Evolves c) : a.Evolves c where
  key := h'.key.trans h.key
  origin := h'.origin.trans h.origin
  body := h'.body.trans h.body
  state := h.state.trans h'.state
  inbound := h.inbound.trans h'.inbound
  winner id hid := h'.winner id (h.winner id hid)

/-- A timer that has left `created` stays as it is. -/
theorem Evolves.timer {a b : Activity} (h : a.Evolves b) {t : Timer} (ht : a.body = .timer t)
    (hleft : t.state ≠ .created) : b.body = .timer t := by
  have hstate := h.state
  have hbody := h.body
  obtain ⟨instanceKey, definitionKey, elementId, state, createdAt, dueAt, duration⟩ := t
  cases hb : b.body with
  | timer u =>
      obtain ⟨instanceKey', definitionKey', elementId', state', createdAt', dueAt', duration'⟩ := u
      simp only [Activity.state, ht, hb, ActivityBody.state] at hstate
      simp only [ht, hb, ActivityBody.frame, ActivityBody.timer.injEq, Timer.mk.injEq] at hbody
      have hsame : state' = state := by
        rcases hstate with heq | ⟨hopen, -⟩
        · cases state <;> cases state' <;> simp_all [TimerState.asActivity]
        · cases state <;> simp_all [TimerState.asActivity, ActivityState.terminal,
            ActivityState.rank]
      obtain ⟨rfl, rfl, rfl, -, rfl, rfl, rfl⟩ := hbody
      rw [hsame]
  | _ => simp [ht, hb, ActivityBody.frame] at hbody

/-- An activity that comes from another one in order. -/
def Progresses (a b : Activity) : Prop := a.Evolves b ∧ (a.Orderly → b.Orderly)

theorem Progresses.refl (a : Activity) : a.Progresses a := ⟨.refl a, id⟩

theorem Progresses.trans {a b c : Activity} (h : a.Progresses b) (h' : b.Progresses c) :
    a.Progresses c :=
  ⟨h.1.trans h'.1, fun ha => h'.2 (h.2 ha)⟩

/-- An activity is advanced to a later state, or not at all. -/
theorem advance_cases (a : Activity) (next : ActivityState) :
    a.advance next = a ∨ a.body.isTimer = false ∧ a.state.mayBecome next = true ∧
      a.advance next = { a with body := a.body.withState next } := by
  unfold advance advance?
  split
  · rename_i h
    simp only [Bool.and_eq_true, Bool.not_eq_true'] at h
    exact .inr ⟨h.1, h.2, rfl⟩
  · exact .inl rfl

theorem evolves_advance (a : Activity) (next : ActivityState) : a.Evolves (a.advance next) := by
  rcases a.advance_cases next with heq | ⟨htimer, hmay, heq⟩
  · rw [heq]
    exact .refl a
  · rw [heq]
    have hstate : (a.body.withState next).state = next := by
      cases hb : a.body <;> simp_all [ActivityBody.isTimer, ActivityBody.withState,
        ActivityBody.state]
    refine ⟨rfl, rfl, ActivityBody.frame_withState _ _, ?_, ?_, fun id hid => ?_⟩
    · show a.state.Forward (a.body.withState next).state
      rw [hstate]
      exact ActivityState.forward_of_mayBecome hmay
    · exact ⟨[], (List.append_nil _).trans (inbound_withState a next).symm⟩
    · rwa [winner?_withState]

/-- To advance keeps order, but a job fails with a reason only. -/
theorem Orderly.advance {a : Activity} (ha : a.Orderly) {next : ActivityState}
    (hnext : next = .failed → ∀ j, a.body ≠ .job j) : (a.advance next).Orderly := by
  rcases a.advance_cases next with heq | ⟨-, hmay, heq⟩
  · rwa [heq]
  · rw [heq]
    obtain ⟨hinbound, hfailure, -⟩ := ha
    have hlt : a.state.rank < next.rank := by simpa [ActivityState.mayBecome] using hmay
    refine ⟨by rwa [inbound_withState], fun j hj => ?_, fun s hs => ?_⟩
    · cases hb : a.body with
      | job j₀ =>
          obtain rfl : { j₀ with state := next } = j := by
            simpa [hb, ActivityBody.withState] using hj
          -- a job that has failed is not advanced any more
          have hopen : j₀.state ≠ .failed := by
            intro hfailed
            have hrank : a.state.rank = 2 := by
              simp [state, hb, ActivityBody.state, hfailed, ActivityState.rank]
            cases next <;> simp_all [ActivityState.rank]
          have hnone : ¬ j₀.failure.isSome = true := fun hsome => hopen ((hfailure j₀ hb).mp hsome)
          exact iff_of_false hnone fun hfailed => hnext hfailed j₀ hb
      | _ => simp [hb, ActivityBody.withState] at hj
    · cases hb : a.body with
      | subscription s₀ =>
          obtain rfl : { s₀ with state := next } = s := by
            simpa [hb, ActivityBody.withState] using hs
          rintro rfl
          simp [ActivityState.rank] at hlt
      | _ => simp [hb, ActivityBody.withState] at hs

theorem progresses_advance (a : Activity) {next : ActivityState}
    (hnext : next = .failed → ∀ j, a.body ≠ .job j) : a.Progresses (a.advance next) :=
  ⟨a.evolves_advance next, fun ha => ha.advance hnext⟩

theorem progresses_setTimer (a : Activity) {next : TimerState} (hnext : next ≠ .created) :
    a.Progresses (a.setTimer next) := by
  obtain ⟨key, element, origin, body⟩ := a
  cases body with
  | timer t =>
      rw [setTimer_timer _ rfl hnext]
      split
      · rename_i hcreated
        refine ⟨⟨rfl, rfl, rfl, ?_, List.prefix_rfl, fun _ h => h⟩,
          fun ha => ⟨ha.inbound, nofun, nofun⟩⟩
        simp only [state, ActivityBody.state, hcreated]
        cases next with
        | created => exact absurd rfl hnext
        | _ => exact .inr ⟨rfl, by decide⟩
      · exact .refl _
  | _ => exact .refl _

theorem progresses_recordInbound (a : Activity) (flow : String) :
    a.Progresses (a.recordInbound flow) := by
  obtain ⟨key, element, origin, body⟩ := a
  cases body with
  | gateway g =>
      have hstate : (g.record flow).state = g.state := by
        unfold Gateway.record Gateway.record?
        split <;> rfl
      have hprefix : g.inbound <+: (g.record flow).inbound := by
        unfold Gateway.record Gateway.record?
        split
        · exact List.prefix_rfl
        · exact List.prefix_append _ _
      have hframe := frame_recordInbound ⟨key, element, origin, .gateway g⟩ flow
      have hbody := congrArg Activity.body hframe
      exact ⟨⟨rfl, rfl, hbody, .inl hstate, hprefix, fun _ h => h⟩,
        fun ha => ⟨Gateway.nodup_inbound_record ha.inbound flow, nofun, nofun⟩⟩
  | _ => exact .refl _

theorem progresses_winRace (a : Activity) (branch : String) :
    a.Progresses (a.winRace branch) := by
  obtain ⟨key, element, origin, body⟩ := a
  cases body with
  | race race =>
      refine ⟨⟨rfl, rfl, rfl, .inl rfl, List.prefix_rfl, fun id hid => ?_⟩,
        fun ha => ⟨ha.inbound, nofun, nofun⟩⟩
      have hid : race.winner = some id := hid
      simp [winner?, winRace, race?, hid]
  | _ => exact .refl _

/-- A job that fails gets its reason at the same time. -/
theorem progresses_fail {a : Activity} {j : Job} (hj : a.body = .job j)
    (hopen : j.state.terminal = false) (reason : String) :
    a.Progresses ((a.advance .failed).setFailure reason) := by
  have hadvance : a.advance .failed = { a with body := .job { j with state := .failed } } := by
    rw [advance_final a (by rw [hj]; rfl) rfl]
    simp [state, hj, ActivityBody.state, hopen, ActivityBody.withState]
  rw [hadvance]
  refine ⟨⟨rfl, rfl, by rw [hj]; rfl, .inr ⟨?_, ?_⟩, ?_, fun id hid => ?_⟩, fun ha =>
    ⟨List.nodup_nil, fun j' hj' => ?_, by rintro s ⟨⟩⟩⟩
  · simpa [state, hj, ActivityBody.state] using hopen
  · cases hs : j.state <;> simp_all [state, ActivityBody.state, ActivityState.terminal,
      ActivityState.rank, setFailure]
  · simp [inbound, gateway?, hj, setFailure]
  · simp [winner?, race?, hj] at hid
  · cases hj'
    simp

theorem progresses_serve (a : Activity) : a.Progresses a.serve := by
  unfold serve
  split
  · exact a.progresses_advance nofun
  · exact a.progresses_setTimer nofun
  · exact .refl a

theorem progresses_settle (a : Activity) : a.Progresses a.settle := by
  unfold settle
  split
  · exact a.progresses_advance nofun
  · exact a.progresses_setTimer nofun
  · exact .refl a

end Activity

/-! ## Runs -/

namespace Run

/-- Between two moments of a run the activities progress where they are, and
those that are opened are in order. -/
structure Progresses (r r' : Run) : Prop where
  stays : ∀ ⦃n : Nat⦄ ⦃a : Activity⦄, r.activity? n = some a →
    ∃ b, r'.activity? n = some b ∧ a.Progresses b
  opened : ∀ ⦃n : Nat⦄ ⦃b : Activity⦄, r'.activity? n = some b → r.activity? n = none → b.Orderly

theorem Progresses.of_activities {r r' : Run} (h : r'.inst.activities = r.inst.activities) :
    Progresses r r' where
  stays n a ha := ⟨a, by rwa [activity?, h], .refl a⟩
  opened n b hb hnone := by
    rw [activity?, h] at hb
    rw [activity?, hb] at hnone
    cases hnone

theorem Progresses.trans {r r₁ r₂ : Run} (h : Progresses r r₁) (h' : Progresses r₁ r₂) :
    Progresses r r₂ where
  stays n a ha := by
    obtain ⟨b, hb, hab⟩ := h.stays ha
    obtain ⟨c, hc, hbc⟩ := h'.stays hb
    exact ⟨c, hc, hab.trans hbc⟩
  opened n c hc hnone := by
    cases hb : r₁.activity? n with
    | none => exact h'.opened hc hb
    | some b =>
        obtain ⟨c', hc', hbc⟩ := h'.stays hb
        obtain rfl : c' = c := Option.some.inj (hc'.symm.trans hc)
        exact hbc.2 (h.opened hb hnone)

/-- What is in order remains so. -/
theorem Progresses.orderly {r r' : Run} (h : Progresses r r')
    (hr : ∀ a ∈ r.inst.activities, a.Orderly) : ∀ b ∈ r'.inst.activities, b.Orderly := by
  intro b hb
  obtain ⟨n, hn⟩ := List.getElem?_of_mem hb
  cases ha : r.activity? n with
  | none => exact h.opened hn ha
  | some a =>
      obtain ⟨b', hb', hab⟩ := h.stays ha
      obtain rfl : b' = b := Option.some.inj (hb'.symm.trans hn)
      exact hab.2 (hr a (List.mem_of_getElem? ha))

theorem modifyActivity_progresses {r : Run} {n : Nat} {f : Activity → Activity}
    (hf : ∀ a, r.activity? n = some a → a.Progresses (f a)) :
    Progresses r (r.modifyActivity n f) where
  stays m a ha := by
    by_cases hm : n = m
    · subst hm
      exact ⟨f a, by rw [activity?_modify_self, ha]; rfl, hf a ha⟩
    · refine ⟨a, ?_, .refl a⟩
      rw [← ha]
      exact List.getElem?_modify_ne f _ hm
  opened m b hb hnone := by
    have hlt := (List.getElem?_eq_some_iff.mp hb).1
    have hge := List.getElem?_eq_none_iff.mp hnone
    simp only [modifyActivity, modify, Instance.modifyActivity, List.length_modify] at hlt
    omega

theorem serveWait_progresses (r : Run) (n : Nat) (origin : Option Nat) (id : String) :
    Progresses r (r.serveWait n origin id) := by
  have hwin : Progresses (r.modifyActivity n Activity.serve) (r.serveWait n origin id) := by
    cases origin with
    | none => exact .of_activities rfl
    | some g => exact modifyActivity_progresses fun a _ => a.progresses_winRace id
  exact (modifyActivity_progresses fun a _ => a.progresses_serve).trans hwin

theorem Opens.orderly {r : Run} {element : Nat} {e : Element} {body : ActivityBody}
    (h : Opens r element e body) (key : Int) (origin : Option Nat) :
    (Activity.mk key element origin body).Orderly := by
  cases h with
  | job => exact ⟨List.nodup_nil, by rintro j ⟨⟩; simp, nofun⟩
  | subscription => exact ⟨List.nodup_nil, nofun, by rintro s ⟨⟩; simp⟩
  | _ => exact ⟨List.nodup_nil, nofun, nofun⟩

theorem Move.progresses {element : Nat} {e : Element} {origin : Option Nat} {n : Nat}
    {r r' : Run} (h : Move element e origin n r r') : Progresses r r' := by
  cases h with
  | report => exact .of_activities rfl
  | call => exact .of_activities rfl
  | outputs h => exact .of_activities (writeOutputs_activities h)
  | opened hbody hopen =>
      obtain ⟨-, rfl, rfl⟩ := open?_eq_some hopen
      refine ⟨fun m a ha => ⟨a, ?_, .refl a⟩, fun m b hb hnone => ?_⟩
      · rw [← ha]
        exact List.getElem?_append_left (List.getElem?_eq_some_iff.mp ha).1
      · have hge := List.getElem?_eq_none_iff.mp hnone
        simp only [activity?, Instance.push] at hb
        rw [List.getElem?_append_right hge] at hb
        obtain rfl := List.mem_singleton.mp (List.mem_of_getElem? hb)
        exact hbody.orderly _ _
  | complete => exact .of_activities rfl
  | finishJob vars =>
      have hvars : Progresses r (r.modify fun i => { i with vars }) := .of_activities rfl
      exact hvars.trans (modifyActivity_progresses fun a _ => a.progresses_advance (by rintro ⟨⟩))
  | failJob reason ha hj hopen =>
      refine modifyActivity_progresses fun b hb => ?_
      obtain rfl := Option.some.inj (ha.symm.trans hb)
      exact Activity.progresses_fail hj hopen reason
  | arrive flow => exact modifyActivity_progresses fun a _ => a.progresses_recordInbound flow
  | fire => exact modifyActivity_progresses fun a _ => a.progresses_advance (by rintro ⟨⟩)
  | withdraw => exact modifyActivity_progresses fun a _ => a.progresses_settle
  | message _ _ _ _ _ _ _ _ hreceive =>
      have hreceived := Progresses.of_activities (receive_activities hreceive)
      exact hreceived.trans (serveWait_progresses _ n _ _)
  | trigger => exact r.serveWait_progresses n _ _

theorem Breaks.progresses {e : Element} {n : Nat} {r r' : Run} (h : Breaks e n r r') :
    Progresses r r' := by
  cases h with
  | idle => exact .of_activities rfl
  | fail => exact .of_activities rfl
  | spoil ha hs _ _ _ _ _ hreceive =>
      have hactivities := receive_activities hreceive
      refine (Progresses.of_activities hactivities).trans ?_
      refine modifyActivity_progresses fun b hb => b.progresses_advance fun _ j hj => ?_
      -- it is the subscription that fails, and not a job
      rw [activity?, hactivities] at hb
      obtain rfl := Option.some.inj (ha.symm.trans hb)
      rw [hs] at hj
      cases hj

theorem settleRace_progresses (r : Run) (gateway : Nat) :
    Progresses r (r.modify fun i => i.settleRace gateway) := by
  cases hwon : (r.inst.raceAt? (some gateway)).bind Race.winner with
  | none =>
      refine .of_activities ?_
      simp only [modify, Instance.settleRace, hwon]
  | some winner =>
      have hactivities : (r.modify fun i => i.settleRace gateway).inst.activities =
          r.inst.activities.map fun a => if a.origin = some gateway then a.settle else a := by
        simp only [modify, Instance.settleRace, hwon]
      refine ⟨fun n a ha => ?_, fun n b hb hnone => ?_⟩
      · refine ⟨_, by rw [activity?, hactivities, List.getElem?_map, ← activity?, ha]; rfl, ?_⟩
        by_cases ho : a.origin = some gateway
        · simpa only [if_pos ho] using a.progresses_settle
        · simpa only [if_neg ho] using .refl a
      · rw [activity?, hactivities, List.getElem?_map, ← activity?, hnone] at hb
        cases hb

/-- **Every run lets the activities of its instance progress.** -/
theorem kept_progresses : Kept Progresses where
  refl _ := .of_activities rfl
  trans := .trans
  move _ h := h.progresses
  breaks h := h.progresses
  settle := settleRace_progresses
  audit _ _ := .of_activities rfl
  state _ _ := .of_activities rfl

/-- Every run consumes events one by one. -/
theorem kept_consumes : Kept fun r r' => Instance.ConsumesAll r.inst r'.inst where
  refl _ := .refl
  trans := .trans
  move _ h := .single h.consumes
  breaks h := .single h.consumes
  settle r gateway := dispatch_consumes r (.settleRace gateway)
  audit _ _ := .refl
  state _ _ := .single (.nothing rfl)

end Run

/-! ## Instances -/

/-- How an instance may look at a later time: every activity is where it was, at
an element with the same id, and so is every event, which may be consumed by
now. -/
structure Instance.Evolves (i j : Instance) : Prop where
  key : j.key = i.key
  definition : j.definition = i.definition
  activities : ∀ ⦃n : Nat⦄ ⦃a : Activity⦄, i.activities[n]? = some a →
    ∃ b, j.activities[n]? = some b ∧ a.Evolves b ∧
      j.elementIdAt b.element = i.elementIdAt a.element
  caught : ∀ ⦃n : Nat⦄ ⦃c : CaughtEvent⦄, i.caught[n]? = some c →
    ∃ d, j.caught[n]? = some d ∧ d.published = c.published ∧
      (c.consumed = true → d.consumed = true)

namespace Instance

theorem Evolves.refl (i : Instance) : i.Evolves i :=
  ⟨rfl, rfl, fun _ a ha => ⟨a, ha, .refl a, rfl⟩, fun _ c hc => ⟨c, hc, rfl, id⟩⟩

theorem Evolves.trans {i j k : Instance} (h : i.Evolves j) (h' : j.Evolves k) : i.Evolves k where
  key := h'.key.trans h.key
  definition := h'.definition.trans h.definition
  activities n a ha := by
    obtain ⟨b, hb, hab, hid⟩ := h.activities ha
    obtain ⟨c, hc, hbc, hid'⟩ := h'.activities hb
    exact ⟨c, hc, hab.trans hbc, hid'.trans hid⟩
  caught n c hc := by
    obtain ⟨d, hd, hcd, hused⟩ := h.caught hc
    obtain ⟨f, hf, hdf, hused'⟩ := h'.caught hd
    exact ⟨f, hf, hdf.trans hcd, fun hc => hused' (hused hc)⟩

/-- Consumption is all that happens to the events of an instance. -/
theorem ConsumesAll.getElem? {i j : Instance} (h : ConsumesAll i j) {n : Nat} {c : CaughtEvent}
    (hc : i.caught[n]? = some c) : ∃ d, j.caught[n]? = some d ∧ d.published = c.published ∧
      (c.consumed = true → d.consumed = true) := by
  have hpublished : (j.caught[n]?).map CaughtEvent.published = some c.published := by
    rw [← List.getElem?_map, h.published, List.getElem?_map, hc]
    rfl
  obtain ⟨d, hd, hsame⟩ := Option.map_eq_some_iff.mp hpublished
  refine ⟨d, hd, hsame, fun hused => ?_⟩
  have hlater := h.hasConsumedAt (k := n) (by simp [Instance.hasConsumedAt, hc, hused])
  simpa [Instance.hasConsumedAt, hd] using hlater

theorem evolves_recordEvent (i : Instance) (c : CaughtEvent) : i.Evolves (i.recordEvent c) where
  key := rfl
  definition := rfl
  activities n a ha := ⟨a, ha, .refl a, rfl⟩
  caught n d hd :=
    ⟨d, by rw [← hd]; exact List.getElem?_append_left (List.getElem?_eq_some_iff.mp hd).1, rfl, id⟩

/-- A snapshot that is restored brings every activity back to an element with
the id of its own. -/
theorem Sound.evolves_relinked {i : Instance} (hi : i.Sound) : i.Evolves i.relinked where
  key := rfl
  definition := rfl
  activities n a ha := by
    refine ⟨i.relinkedActivity a, by simp [Instance.relinked, ha],
      ⟨rfl, rfl, rfl, .refl _, List.prefix_rfl, fun _ h => h⟩, ?_⟩
    obtain ⟨hlt, htest, -⟩ := List.findIdx?_eq_some_iff_getElem.mp (hi.fits ha).findElement?
    have hid : i.diagram.elements[(i.relinkedActivity a).element].id = i.elementIdAt a.element := by
      simpa using htest
    rw [← hid]
    show (i.diagram.elements[(i.relinkedActivity a).element]?.map Element.id).getD "" = _
    rw [List.getElem?_eq_getElem hlt]
    rfl
  caught n c hc := ⟨c, hc, rfl, id⟩

end Instance

/-- **An instance evolves by every run.** -/
theorem Run.start?_evolves {fuel : Nat} {r r' : Run} {error? : Option EngineError}
    (h : r.start? fuel = some (r', error?)) : r.inst.Evolves r'.inst := by
  obtain ⟨opened, hgrows⟩ := start?_grows h
  refine ⟨hgrows.key, hgrows.definition, fun n a ha => ?_, fun n c hc => ?_⟩
  · obtain ⟨b, hb, hevolves⟩ := (kept_progresses.start? h).stays ha
    obtain ⟨b', hb', hframe⟩ := hgrows.activity? ha
    obtain rfl : b = b' := Option.some.inj (hb.symm.trans hb')
    refine ⟨b, hb, hevolves.1, ?_⟩
    rw [Instance.elementIdAt, hgrows.diagram, Activity.element_eq_of_frame hframe]
    rfl
  · exact Instance.ConsumesAll.getElem? (kept_consumes.start? h) hc

/-! ## Engines -/

namespace Engine

/-- Every instance of an engine is where it was, and has evolved. -/
def Evolves (e e' : Engine) : Prop :=
  ∀ ⦃n : Nat⦄ ⦃i : Instance⦄, e.instances[n]? = some i →
    ∃ j, e'.instances[n]? = some j ∧ i.Evolves j

theorem Evolves.refl (e : Engine) : e.Evolves e := fun _ i hi => ⟨i, hi, .refl i⟩

theorem Evolves.trans {e e₁ e₂ : Engine} (h : e.Evolves e₁) (h' : e₁.Evolves e₂) :
    e.Evolves e₂ := by
  intro n i hi
  obtain ⟨j, hj, hij⟩ := h hi
  obtain ⟨k, hk, hjk⟩ := h' hj
  exact ⟨k, hk, hij.trans hjk⟩

theorem Change.evolves {e e' : Engine} (h : Change e e') : e.Evolves e' := by
  intro n i hi
  cases h with
  | load => exact ⟨i, hi, .refl i⟩
  | create =>
      have hlt := (List.getElem?_eq_some_iff.mp hi).1
      exact ⟨i, by rw [← hi]; exact List.getElem?_append_left hlt, .refl i⟩
  | publish m name vars =>
      by_cases hm : m = n
      · subst hm
        exact ⟨i.recordEvent ⟨name, e.now, vars, false⟩, by simp [hi], i.evolves_recordEvent _⟩
      · exact ⟨i, by simp [hm, hi], .refl i⟩
  | @run m fuel i₀ r error? hi₀ hrun =>
      by_cases hm : m = n
      · subst hm
        obtain rfl : i₀ = i := Option.some.inj (hi₀.symm.trans hi)
        have hlt := (List.getElem?_eq_some_iff.mp hi).1
        exact ⟨r.inst, by rw [settle]; exact List.getElem?_set_self hlt,
          Run.start?_evolves (r := e.lend i₀) hrun⟩
      · exact ⟨i, by simp [settle, hm, hi], .refl i⟩
  | clock => exact ⟨i, hi, .refl i⟩
  | register => exact ⟨i, hi, .refl i⟩

theorem Changes.evolves {e e' : Engine} (h : Changes e e') : e.Evolves e' := by
  induction h with
  | refl => exact .refl e
  | tail _ hchange ih => exact ih.trans hchange.evolves

/-- An engine after one more operation, or brought back from its own
snapshot. -/
inductive Further (e : Engine) : Engine → Prop
  | perform {fuel : Nat} {op : Operation} {out : Engine × Answer}
      (hop : e.perform? fuel op = some out) : Further e out.1
  | restore {blank e' : Engine} {text : String} (hblank : blank.Blank)
      (hparse : Snapshot.parse? text = some e.snapshot) (hrestore : blank.restore text = .ok e') :
      Further e e'

/-- Where key sources may start otherwise, the same engines are reached. -/
theorem Reachable.mono {starts starts' : KeySequence → Prop} (hstarts : ∀ k, starts k → starts' k)
    {e : Engine} (h : Reachable starts e) : Reachable starts' e := by
  induction h with
  | fresh name now hkeys => exact .fresh name now (hstarts _ hkeys)
  | perform _ hop ih => exact ih.perform hop
  | restore _ hblank hkeys hparse hrestore ih =>
      exact ih.restore hblank (hstarts _ hkeys) hparse hrestore

/-- In a reachable engine everything is in order. -/
theorem Reachable.orderly {starts : KeySequence → Prop} {e : Engine} (h : Reachable starts e) :
    ∀ i ∈ e.instances, ∀ a ∈ i.activities, a.Orderly := by
  refine h.forall_instances ?_ (fun i c _ hP => hP)
    (fun _ hP hrun => (Run.kept_progresses.start? hrun).orderly hP) fun i _ hP => ?_
  · exact fun key d vars now a ha => by cases ha
  · intro b hb
    obtain ⟨a, ha, rfl⟩ := List.mem_map.mp hb
    obtain ⟨hinbound, hfailure, hstarted⟩ := hP a ha
    exact ⟨hinbound, hfailure, hstarted⟩

theorem Reachable.evolves {starts : KeySequence → Prop} {e e' : Engine} (h : Reachable starts e)
    (hnext : e.Further e') : e.Evolves e' := by
  cases hnext with
  | perform hop => exact (perform?_changes hop).evolves
  | restore hblank hparse hrestore =>
      rw [restore_eq_rebuild hparse, rebuild_snapshot h.sound hblank] at hrestore
      obtain rfl := Except.ok.inj hrestore
      intro n i hi
      have hsound := (h.sound.instances i (List.mem_of_getElem? hi)).1
      exact ⟨i.relinked, by simp [hi], hsound.evolves_relinked⟩

/-- **The history of an instance is append-only.**  Whatever is done next to a
reachable engine, be it an operation or restoring its snapshot, every instance
is still there, with all its activities and published events in their places.
Activities keep their kind, key, element id and origin, their states only move
forward, flows arrive behind those that have arrived, a winner stays, and events
are consumed and never given back.  Before and after, the flows that have arrived
at a gateway are distinct, and the jobs with a reason of failure are those that
have failed. -/
theorem history_append_only {starts : KeySequence → Prop} {e e' : Engine}
    (h : Reachable starts e) (hnext : e.Further e') :
    e.Evolves e' ∧ (∀ i ∈ e.instances, ∀ a ∈ i.activities, a.Orderly) ∧
      ∀ i ∈ e'.instances, ∀ a ∈ i.activities, a.Orderly := by
  refine ⟨h.evolves hnext, h.orderly, ?_⟩
  have hany : Reachable (fun _ => True) e := h.mono fun _ _ => trivial
  cases hnext with
  | perform hop => exact (hany.perform hop).orderly
  | restore hblank hparse hrestore => exact (hany.restore hblank trivial hparse hrestore).orderly

/-- A run completes a subscription behind a start event and an open task, and
consumes its event. -/
theorem errand_evolves_by_run :
    ∃ e e', Reachable (· = .default) e ∧ e.Further e' ∧
      (e.instances[0]?.any fun i =>
        i.activities.map Activity.state == [.completed, .active, .active] &&
          i.caught.map CaughtEvent.consumed == [false]) = true ∧
      (e'.instances[0]?.any fun i =>
        i.activities.map Activity.state == [.completed, .active, .completed] &&
          i.caught.map CaughtEvent.consumed == [true]) = true ∧ e.Evolves e' := by
  obtain ⟨e, hreachable, htest⟩ := exists_reachable ofMarkup_errandSource 100
    [.create 1 [], .run 2, .publish 2 "m" []]
    (fun e => (e.instances[0]?.any fun i =>
        i.activities.map Activity.state == [.completed, .active, .active] &&
          i.caught.map CaughtEvent.consumed == [false]) &&
      (e.perform? 100 (.run 2)).any fun out => out.1.instances[0]?.any fun i =>
        i.activities.map Activity.state == [.completed, .active, .completed] &&
          i.caught.map CaughtEvent.consumed == [true]) (by decide +kernel)
  obtain ⟨hbefore, hrun⟩ := (Bool.and_eq_true _ _).mp htest
  obtain ⟨out, hop, hafter⟩ := (Option.any_eq_true _ _).mp hrun
  have hnext : e.Further out.1 := .perform hop
  exact ⟨e, out.1, hreachable, hnext, hbefore, hafter, (history_append_only hreachable hnext).1⟩

end Engine

end ProcessEngine
