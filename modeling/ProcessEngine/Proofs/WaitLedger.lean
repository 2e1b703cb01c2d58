import ProcessEngine.Proofs.ArenaSoundness

/-!
# What served waits stand for

A wait is served for good: once a subscription is completed or a timer
triggered, nothing changes it any more.  Flow goes on from a wait only after it
was served.

Main statement: `start?_onward`, by which what comes from a wait comes from a
served one.
-/

namespace ProcessEngine

/-- The activity that a command comes from. -/
def Command.source? : Command → Option Nat
  | takeFlows source _ => some source
  | enter _ origin _ => origin
  | resume _ _ | settleRace _ | fail _ => none

theorem Command.Fits.source_lt {i : Instance} {c : Command} {o : Nat} (h : c.Fits i)
    (ho : c.source? = some o) : o < i.activities.length := by
  cases c with
  | takeFlows source flows =>
      obtain rfl := Option.some.inj ho
      exact h
  | enter element origin via => exact h.2 o ho
  | _ => cases ho

namespace Instance

/-- Flow may go on from a position: if there is a wait, it was served. -/
def Passed (i : Instance) (n : Nat) : Prop :=
  ∀ ⦃a : Activity⦄, i.activities[n]? = some a → a.isWait = true → a.isServed = true

/-- What comes from a wait comes from a served one. -/
def Onward (i : Instance) : Prop :=
  ∀ ⦃n : Nat⦄ ⦃a : Activity⦄ ⦃o : Nat⦄, i.activities[n]? = some a → a.origin = some o →
    i.Passed o

/-- Served waits are as they were. -/
def ServedKept (i j : Instance) : Prop :=
  ∀ ⦃n : Nat⦄ ⦃a : Activity⦄, i.activities[n]? = some a → a.isServed = true →
    j.activities[n]? = some a

theorem ServedKept.trans {i j k : Instance} (h : ServedKept i j) (h' : ServedKept j k) :
    ServedKept i k :=
  fun _ _ ha hserved => h' (h ha hserved) hserved

theorem ServedKept.of_activities {i j : Instance} (h : j.activities = i.activities) :
    ServedKept i j :=
  fun _ _ ha _ => by rw [h]; exact ha

/-- A change to an activity that is not served. -/
theorem servedKept_modifyActivity {i : Instance} {n : Nat} {a : Activity}
    (f : Activity → Activity) (ha : i.activities[n]? = some a) (hopen : a.isServed = false) :
    ServedKept i (i.modifyActivity n f) := by
  intro m b hb hserved
  have hne : m ≠ n := by
    rintro rfl
    obtain rfl : a = b := Option.some.inj (ha.symm.trans hb)
    rw [hopen] at hserved
    cases hserved
  simpa [modifyActivity, Ne.symm hne] using hb

theorem servedKept_winRace (i : Instance) (origin : Option Nat) (id : String) :
    ServedKept i (i.winRace origin id) := by
  cases origin with
  | none => exact .of_activities rfl
  | some g =>
      intro m b hb hserved
      simp only [winRace, modifyActivity, List.getElem?_modify, hb, Option.map_eq_map,
        Option.map_some]
      split
      · rw [Run.winRace_of_isWait (Activity.isWait_of_isServed hserved)]
      · rfl

theorem servedKept_settleRace (i : Instance) (gateway : Nat) :
    ServedKept i (i.settleRace gateway) := by
  intro m b hb hserved
  unfold settleRace
  split
  · exact hb
  · have hsettle : b.settle = b := by
      refine Activity.settle_of_not_isWaiting ?_
      cases hw : b.isWaiting with
      | false => rfl
      | true =>
          rw [Activity.isServed_of_isWaiting hw] at hserved
          cases hserved
    simp [hb, hsettle]

end Instance

namespace Run

section Moves

variable {element : Nat} {e : Element} {origin : Option Nat} {n : Nat} {r r' : Run}

/-! ## Served for good -/

/-- No move touches a served wait. -/
theorem Move.servedKept (h : Move element e origin n r r') :
    Instance.ServedKept r.inst r'.inst := by
  have hother : ∀ {a : Activity}, ((∃ j, a.body = .job j) ∨ ∃ g, a.body = .gateway g) →
      a.isServed = false := by
    rintro a (⟨j, hb⟩ | ⟨g, hb⟩) <;> simp [Activity.isServed, hb, ActivityBody.isServed]
  cases h with
  | report => exact .of_activities rfl
  | call => exact .of_activities rfl
  | outputs h => exact .of_activities (writeOutputs_activities h)
  | opened _ hopen =>
      obtain ⟨-, -, rfl⟩ := open?_eq_some hopen
      intro m b hb _
      show (r.inst.activities ++ [_])[m]? = some b
      rw [List.getElem?_append_left (List.getElem?_eq_some_iff.mp hb).1]
      exact hb
  | complete => exact .of_activities rfl
  | finishJob vars ha hj => exact Instance.servedKept_modifyActivity _ ha (hother (.inl ⟨_, hj⟩))
  | failJob reason ha hj => exact Instance.servedKept_modifyActivity _ ha (hother (.inl ⟨_, hj⟩))
  | arrive flow ha hg => exact Instance.servedKept_modifyActivity _ ha (hother (.inr ⟨_, hg⟩))
  | fire ha hg => exact Instance.servedKept_modifyActivity _ ha (hother (.inr ⟨_, hg⟩))
  | withdraw _ ha hwait =>
      exact Instance.servedKept_modifyActivity _ ha (Activity.isServed_of_isWaiting hwait)
  | @message r₁ a s position caught _ ha hs hwait _ _ _ _ hreceive =>
      have hactivities := receive_activities hreceive
      have ha₁ : r₁.inst.activities[n]? = some a := by rw [hactivities]; exact ha
      have hopen := Activity.isServed_of_isWaiting (isWaiting_subscription hs hwait)
      exact ((Instance.ServedKept.of_activities hactivities).trans
        (Instance.servedKept_modifyActivity Activity.serve ha₁ hopen)).trans
        (Instance.servedKept_winRace _ _ _)
  | @trigger a t _ ha ht hwait =>
      have hopen := Activity.isServed_of_isWaiting (isWaiting_timer ht hwait)
      exact (Instance.servedKept_modifyActivity Activity.serve ha hopen).trans
        (Instance.servedKept_winRace _ _ _)

theorem Moves.servedKept (h : Moves element e origin n r r') :
    Instance.ServedKept r.inst r'.inst := by
  induction h with
  | refl => exact .of_activities rfl
  | tail _ hmove ih => exact ih.trans hmove.servedKept

theorem Breaks.servedKept (h : Breaks e n r r') : Instance.ServedKept r.inst r'.inst := by
  cases h with
  | idle => exact .of_activities rfl
  | fail => exact .of_activities rfl
  | @spoil r₁ a s position caught error ha hs hwait _ _ _ _ hreceive =>
      have hactivities := receive_activities hreceive
      have ha₁ : r₁.inst.activities[n]? = some a := by rw [hactivities]; exact ha
      have hopen := Activity.isServed_of_isWaiting (isWaiting_subscription hs hwait)
      exact (Instance.ServedKept.of_activities hactivities).trans
        (Instance.servedKept_modifyActivity _ ha₁ hopen)

theorem Visits.servedKept {out : Run × List Command} (h : Visits element e origin r out) :
    Instance.ServedKept r.inst out.1.inst := by
  cases h with
  | failed n error h hbreak => exact h.servedKept.trans hbreak.servedKept
  | visited h => exact h.servedKept

/-! ## From served waits only -/

/-- Where flow may go on, it may still do so later. -/
theorem Grows.passed {opened : List Activity} {o : Nat} (hgrows : Grows opened r r')
    (hkept : Instance.ServedKept r.inst r'.inst) (ho : o < r.inst.activities.length)
    (h : r.inst.Passed o) : r'.inst.Passed o := by
  intro b hb hwait
  rcases hgrows.cases_activity? hb with ⟨a, ha, hframe⟩ | ⟨hnew, _⟩
  · have hserved := h ha (by rw [← Activity.isWait_eq_of_frame hframe, hwait])
    obtain rfl : a = b := Option.some.inj ((hkept ha hserved).symm.trans hb)
    exact hserved
  · omega

/-- What is there goes on coming from served waits, if what is new does. -/
theorem Grows.onward {opened : List Activity} (hgrows : Grows opened r r')
    (hkept : Instance.ServedKept r.inst r'.inst) (hr : r.inst.Sound) (honward : r.inst.Onward)
    (hnew : ∀ n a o, r.inst.activities.length ≤ n → r'.activity? n = some a →
      a.origin = some o → r'.inst.Passed o) : r'.inst.Onward := by
  intro n b o hb ho
  by_cases hn : n < r.inst.activities.length
  · rcases hgrows.cases_activity? hb with ⟨a, ha, hframe⟩ | ⟨hge, _⟩
    · rw [Activity.origin_eq_of_frame hframe] at ho
      have hlt := hr.origin_lt ha ho
      exact hgrows.passed hkept (by omega) (honward ha ho)
    · omega
  · exact hnew n b o (Nat.not_lt.mp hn) hb ho

theorem isServed_of_state {a : Activity} (hwait : a.isWait = true)
    (hstate : a.state = .completed) : a.isServed = true := by
  cases hb : a.body with
  | subscription s =>
      simpa [Activity.isServed, Activity.state, hb, ActivityBody.isServed, ActivityBody.state]
        using hstate
  | timer t =>
      cases ht : t.state <;>
        simp_all [Activity.isServed, Activity.state, ActivityBody.isServed, ActivityBody.state,
          TimerState.asActivity]
  | _ => simp [Activity.isWait, hb, ActivityBody.isWait] at hwait

/-- **A visit goes on from what it has completed**, and a completed wait is
served. -/
theorem Visits.onward {out : Run × List Command} (h : Visits element e origin r out)
    (hr : r.inst.Sound) (honward : r.inst.Onward)
    (horigin : ∀ o, origin = some o → o < r.inst.activities.length ∧ r.inst.Passed o) :
    out.1.inst.Onward ∧ ∀ c ∈ out.2, ∀ o, c.source? = some o → out.1.inst.Passed o := by
  obtain ⟨opened, hgrows⟩ := h.exists_grows
  constructor
  · refine hgrows.onward h.servedKept hr honward fun n a o hn ha ho => ?_
    obtain ⟨-, -, hfrom, -⟩ := h.new_activity hn ha
    obtain ⟨hlt, hpassed⟩ := horigin o (hfrom ▸ ho)
    exact hgrows.passed h.servedKept hlt hpassed
  · intro c hc o ho
    have hvisit := h
    cases h with
    | failed =>
        obtain rfl := List.mem_singleton.mp hc
        cases ho
    | @visited r' n a extra flows hmoves hfrom ha hadds hflows =>
        rcases List.mem_append.mp hc with hc | hc
        · cases hadds with
          | nothing => cases hc
          | race =>
              obtain ⟨_, rfl⟩ := eq_settleRace_of_mem hc
              cases ho
          | jump hkind =>
              obtain rfl := List.mem_singleton.mp hc
              obtain rfl := Option.some.inj ho
              -- the activity of a throw event is new, and no wait
              rcases hfrom with hnew | ⟨_, _, _, hlooks, _⟩
              · obtain ⟨-, -, -, hfits⟩ := hvisit.new_activity (Nat.le_of_eq hnew.symm) ha
                intro b hb hwait
                obtain rfl : a = b := Option.some.inj (ha.symm.trans hb)
                unfold Activity.isWait at hwait
                generalize a.body = body at hfits hwait
                cases hfits with
                | timer _ hkind' => simp [hkind] at hkind'
                | subscription _ hkind' => simp [hkind] at hkind'
                | _ => cases hwait
              · simp [Element.slot?, hkind] at hlooks
        · rcases hflows with rfl | ⟨rfl, hstate⟩
          · cases hc
          · obtain rfl := List.mem_singleton.mp hc
            obtain rfl := Option.some.inj ho
            intro b hb hwait
            obtain rfl : a = b := Option.some.inj (ha.symm.trans hb)
            exact isServed_of_state hwait hstate

end Moves

/-- What comes from a wait, or is about to, comes from a served one. -/
def Work.Onward (work : Work) : Prop :=
  work.1.inst.Onward ∧ ∀ c ∈ work.2, ∀ o, c.source? = some o → work.1.inst.Passed o

theorem dispatch_servedKept (r : Run) (c : Command) :
    Instance.ServedKept r.inst (r.dispatch c).1.inst := by
  have h := dispatch_spec r c
  generalize r.dispatch c = out at h
  cases h with
  | idle => exact .of_activities rfl
  | flows => exact .of_activities rfl
  | stuck => exact .of_activities rfl
  | enter _ h => exact h.servedKept
  | resume _ _ h => exact h.servedKept
  | settle gateway => exact Instance.servedKept_settleRace _ gateway

theorem dispatch_onward {r : Run} {c : Command} {queue : List Command}
    (hw : Work.Sound (r, c :: queue)) (honward : Work.Onward (r, c :: queue)) :
    Work.Onward ((r.dispatch c).1, queue ++ (r.dispatch c).2) := by
  obtain ⟨opened, hgrows⟩ := dispatch_grows r c
  have hkept := dispatch_servedKept r c
  have hfits := hw.2 c List.mem_cons_self
  have hpassed := honward.2 c List.mem_cons_self
  have hout : (r.dispatch c).1.inst.Onward ∧
      ∀ c' ∈ (r.dispatch c).2, ∀ o, c'.source? = some o → (r.dispatch c).1.inst.Passed o := by
    have h := dispatch_spec r c
    generalize r.dispatch c = out at h
    cases h with
    | idle => exact ⟨honward.1, by simp⟩
    | flows =>
        refine ⟨honward.1, fun c' hc' o ho => ?_⟩
        obtain ⟨f, _, rfl⟩ := List.mem_map.mp hc'
        unfold targetCommand at ho
        split at ho
        · exact hpassed o ho
        · cases ho
    | stuck => exact ⟨honward.1, by simp [Command.source?]⟩
    | enter _ h => exact h.onward hw.1 honward.1 fun o ho => ⟨hfits.2 o ho, hpassed o ho⟩
    | resume ha _ h =>
        refine h.onward hw.1 honward.1 fun o ho => ?_
        obtain ⟨b, hb, horigin, -⟩ := hfits
        have hlt := hw.1.origin_lt hb (horigin.trans ho)
        have hb' := (List.getElem?_eq_some_iff.mp hb).1
        exact ⟨Nat.lt_trans hlt hb', honward.1 hb (horigin.trans ho)⟩
    | settle gateway =>
        refine ⟨(r.settleRace_grows gateway).onward hkept hw.1 honward.1 ?_, by simp⟩
        intro n a o hn ha _
        obtain ⟨b, hb, _⟩ := (r.settleRace_grows gateway).activity?_still ha
        have hlt := (List.getElem?_eq_some_iff.mp hb).1
        omega
  refine ⟨hout.1, fun c' hc' o ho => ?_⟩
  rcases List.mem_append.mp hc' with hc' | hc'
  · have hlt : o < r.inst.activities.length :=
      Command.Fits.source_lt (hw.2 c' (List.mem_cons_of_mem _ hc')) ho
    exact hgrows.passed hkept hlt (honward.2 c' (List.mem_cons_of_mem _ hc') o ho)
  · exact hout.2 c' hc' o ho

theorem Reaches.onward {work next : Work} (h : Reaches work next) (hw : Work.Sound work)
    (honward : Work.Onward work) : Work.Onward next :=
  h.keeps (fun hsound _ => dispatch_onward hsound) hw honward

/-- **Flow goes on from served waits only**, whatever a run does. -/
theorem start?_onward {fuel : Nat} {r r' : Run} {error? : Option EngineError}
    (h : r.start? fuel = some (r', error?)) (hr : r.inst.Sound) (honward : r.inst.Onward) :
    r'.inst.Onward := by
  rcases start?_cases h with ⟨_, rfl, _⟩ | ⟨_, hends⟩
  · exact honward
  · have hsound := seeds_sound hr
    have hstart : Work.Onward (r.activate, seeds r.inst) := by
      refine ⟨honward, fun c hc o ho => ?_⟩
      rcases seeds_cases hc with ⟨n, -, rfl⟩ | ⟨n, -, rfl⟩ <;> cases ho
    cases hends with
    | empty hreaches =>
        rw [inst_finish]
        exact (hreaches.onward hsound hstart).1
    | failed hreaches =>
        exact (dispatch_onward (hreaches.sound hsound) (hreaches.onward hsound hstart)).1

end Run

end ProcessEngine
