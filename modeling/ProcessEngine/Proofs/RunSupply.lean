import ProcessEngine.Proofs.FlowGraph
import ProcessEngine.Proofs.InstanceProgress
import ProcessEngine.Proofs.VisitReports
import ProcessEngine.Proofs.WaitLedger

/-!
# What a run can use up

A wait is completed by an event that nobody has consumed, or by a timer that is
overdue.  Both are there when a run starts, and a run adds none: events are
published between runs, and a timer that is created is due later than now, if its
duration is not negative.  `Run.supply` counts what is left.

Main statements: a run never adds to the supply (`kept_dwindles`), and the visit
of a waiting catch event that goes on takes something away from it
(`Completes.supply_lt`).
-/

namespace ProcessEngine

/-- No duration of a timer that can be read is negative. -/
def Diagram.TimersAhead (d : Diagram) : Prop :=
  ∀ e ∈ d.elements, ∀ duration, e.event = some (.timer duration) →
    ∀ ms, Run.timerMillis e duration = .ok ms → 0 ≤ ms

/-- Nothing is due before it is created. -/
theorem not_isDue_addMillis (now : Instant) {ms : Int} (hms : 0 ≤ ms) :
    isDue now (now.addMillis ms) = false := by
  unfold isDue Instant.before Instant.addMillis
  rw [Int.fdiv_eq_ediv_of_nonneg _ (by omega), Int.fmod_eq_emod_of_nonneg _ (by omega)]
  simp only [Bool.or_eq_false_iff, Bool.and_eq_false_iff, decide_eq_false_iff_not,
    beq_eq_false_iff_ne]
  omega

namespace Instance

/-- The events that nobody has consumed. -/
def unconsumed (i : Instance) : Nat := i.caught.countP fun c => !c.consumed

/-- To consume the first event of a name leaves one less. -/
theorem unconsumed_consume {i : Instance} {name : String} {position : Nat}
    (hfind : i.findUnconsumed? name = some position) :
    (i.consume position).unconsumed + 1 = i.unconsumed := by
  obtain ⟨⟨c, hc, hfresh, -⟩, -⟩ := findUnconsumed?_eq_some.mp hfind
  have hcount := countP_modify (p := fun c => !c.consumed)
    (f := fun c => { c with consumed := true }) hc
  simp only [hfresh, Bool.not_false, Bool.not_true, if_true, Bool.false_eq_true, if_false,
    Nat.add_zero] at hcount
  exact hcount

theorem unconsumed_congr {i j : Instance} (h : j.caught = i.caught) :
    j.unconsumed = i.unconsumed := by
  rw [unconsumed, h, unconsumed]

/-- Events are only used up. -/
theorem ConsumesAll.unconsumed_le {i j : Instance} (h : ConsumesAll i j) :
    j.unconsumed ≤ i.unconsumed := by
  induction h with
  | refl => exact Nat.le_refl _
  | tail _ hstep ih =>
      cases hstep with
      | nothing h => rwa [unconsumed_congr h]
      | event hfind h =>
          have hless := unconsumed_consume hfind
          rw [unconsumed_congr h]
          omega

end Instance

namespace Activity

/-- A timer that has not fired although its time has come. -/
def isOverdue (now : Instant) (a : Activity) : Bool :=
  a.timer?.any fun t => t.state == .created && isDue now t.dueAt

theorem isOverdue_iff {now : Instant} {a : Activity} :
    a.isOverdue now = true ↔
      ∃ t, a.body = .timer t ∧ t.state = .created ∧ isDue now t.dueAt = true := by
  unfold isOverdue timer?
  cases a.body <;> simp

/-- What is overdue was so before. -/
theorem Evolves.isOverdue {a b : Activity} (h : a.Evolves b) {now : Instant}
    (hb : b.isOverdue now = true) : a.isOverdue now = true := by
  obtain ⟨t, ht, hcreated, hdue⟩ := isOverdue_iff.mp hb
  have hbody := h.body
  cases ha : a.body with
  | timer u =>
      by_cases hleft : u.state = .created
      · refine isOverdue_iff.mpr ⟨u, ha, hleft, ?_⟩
        simp only [ha, ht, ActivityBody.frame, ActivityBody.timer.injEq, Timer.mk.injEq] at hbody
        rwa [← hbody.2.2.2.2.2.1]
      · have hsame := h.timer ha hleft
        rw [ht] at hsame
        obtain rfl := ActivityBody.timer.inj hsame
        exact absurd hcreated hleft
  | _ => simp [ha, ht, ActivityBody.frame] at hbody

end Activity

namespace Run

/-- The events that nobody has consumed and the timers that are overdue. -/
def supply (r : Run) : Nat :=
  r.inst.unconsumed + r.inst.activities.countP (Activity.isOverdue r.now)

/-- Every timer that is overdue was overdue before. -/
def Overdue (r r' : Run) : Prop :=
  ∀ (n : Nat) b, r'.inst.activities[n]? = some b → b.isOverdue r.now = true →
    ∃ a, r.inst.activities[n]? = some a ∧ a.isOverdue r.now = true

/-- Between two moments of a run the supply is not added to, as long as no timer
is created behind its time. -/
def Dwindles (r r' : Run) : Prop :=
  r.diagram.TimersAhead → r'.diagram = r.diagram ∧ r'.now = r.now ∧ Overdue r r'

theorem Dwindles.trans {r r₁ r₂ : Run} (h : Dwindles r r₁) (h' : Dwindles r₁ r₂) :
    Dwindles r r₂ := by
  intro hahead
  obtain ⟨hdiagram, hnow, hoverdue⟩ := h hahead
  obtain ⟨hdiagram', hnow', hoverdue'⟩ := h' (hdiagram ▸ hahead)
  refine ⟨hdiagram'.trans hdiagram, hnow'.trans hnow, fun n c hc hlate => ?_⟩
  rw [← hnow] at hlate
  obtain ⟨b, hb, hlate⟩ := hoverdue' n c hc hlate
  rw [hnow] at hlate
  exact hoverdue n b hb hlate

/-- Growth that opens nothing keeps every timer or lets it go. -/
theorem Grows.dwindles {r r' : Run} (h : Grows [] r r') (hprogress : Progresses r r') :
    Dwindles r r' := by
  intro _
  refine ⟨h.diagram, h.now, fun n b hb hlate => ?_⟩
  obtain ⟨a, ha, -⟩ := h.activity?_still hb
  obtain ⟨b', hb', hab⟩ := hprogress.stays ha
  obtain rfl := Option.some.inj (hb'.symm.trans hb)
  exact ⟨a, ha, hab.1.isOverdue hlate⟩

/-- What is opened is not overdue. -/
theorem Opens.not_overdue {r : Run} {element : Nat} {e : Element} {body : ActivityBody}
    (h : Opens r element e body) (hahead : r.diagram.TimersAhead) (he : e ∈ r.diagram.elements)
    {b : Activity} (hb : b.body.frame = body.frame) : b.isOverdue r.now = false := by
  by_contra hlate
  obtain ⟨t, ht, -, hdue⟩ := Activity.isOverdue_iff.mp (by simpa using hlate)
  rw [ht] at hb
  cases h with
  | timer _ hevent hms =>
      simp only [ActivityBody.frame, ActivityBody.timer.injEq, Timer.mk.injEq] at hb
      have hms := hahead e he _ hevent _ hms
      rw [hb.2.2.2.2.2.1, not_isDue_addMillis r.now hms] at hdue
      cases hdue
  | _ => simp [ActivityBody.frame] at hb

theorem Move.dwindles {element : Nat} {e : Element} {origin : Option Nat} {n : Nat} {r r' : Run}
    (he : r.diagram.elements[element]? = some e) (h : Move element e origin n r r') :
    Dwindles r r' := by
  rcases h.grows with hstill | ⟨-, body, hbody, hgrows⟩
  · exact hstill.dwindles h.progresses
  · intro hahead
    refine ⟨hgrows.diagram, hgrows.now, fun m b hb hlate => ?_⟩
    rcases hgrows.cases_activity? hb with ⟨a, ha, -⟩ | ⟨-, hnew⟩
    · obtain ⟨b', hb', hab⟩ := h.progresses.stays ha
      obtain rfl := Option.some.inj (hb'.symm.trans hb)
      exact ⟨a, ha, hab.1.isOverdue hlate⟩
    · have hframe := List.mem_singleton.mp (List.mem_of_getElem? hnew)
      have hbody' : b.body.frame = body.frame := congrArg Activity.body hframe
      rw [hbody.not_overdue hahead (List.mem_of_getElem? he) hbody'] at hlate
      cases hlate

/-- **A run creates no timer that is overdue.** -/
theorem kept_dwindles : Kept Dwindles where
  refl r := (Grows.refl r).dwindles (.of_activities rfl)
  trans := .trans
  move he h := h.dwindles he
  breaks h := h.grows.dwindles h.progresses
  settle r gateway := (r.settleRace_grows gateway).dwindles (settleRace_progresses r gateway)
  audit r audit :=
    have hgrows : Grows [] r { r with audit } := .of_frames rfl rfl rfl rfl rfl rfl rfl
    hgrows.dwindles (.of_activities rfl)
  state r _ := (r.modify_grows rfl rfl rfl rfl).dwindles (.of_activities rfl)

theorem Dwindles.supply_le {r r' : Run} (h : Dwindles r r') (hahead : r.diagram.TimersAhead)
    (hconsumes : Instance.ConsumesAll r.inst r'.inst) : r'.supply ≤ r.supply := by
  obtain ⟨-, hnow, hoverdue⟩ := h hahead
  have hlate := countP_le_of_getElem? hoverdue
  have hleft := hconsumes.unconsumed_le
  unfold supply
  rw [hnow]
  omega

section Waits

variable {element : Nat} {e : Element} {origin : Option Nat} {n : Nat} {r r' : Run}

theorem serveWait_caught (r : Run) (n : Nat) (origin : Option Nat) (id : String) :
    (r.serveWait n origin id).inst.caught = r.inst.caught :=
  winRace_caught _ origin id

/-- A move that completes a wait takes an event or a timer away. -/
theorem Move.supply_lt_or (h : Move element e origin n r r') (hwaits : e.waits = true)
    (hahead : r.diagram.TimersAhead) (he : r.diagram.elements[element]? = some e)
    (hopen : ∀ a, r.activity? n = some a → a.isWait = true ∧ a.isServed = false) :
    r'.supply < r.supply ∨ ∀ a, r'.activity? n = some a → a.isWait = true ∧ a.isServed = false := by
  have hkind : e.kind = .catchEvent := by
    simp only [Element.waits, Bool.and_eq_true, beq_iff_eq] at hwaits
    exact hwaits.1
  have hwait : ∀ {a : Activity}, r.activity? n = some a → a.body.isWait = true :=
    fun ha => (hopen _ ha).1
  have hdwindles := h.dwindles he hahead
  cases h with
  | report => exact .inr hopen
  | call => exact .inr hopen
  | outputs h =>
      refine .inr fun a ha => hopen a ?_
      rwa [activity?, ← writeOutputs_activities h]
  | opened hbody hopened =>
      refine .inr fun a ha => ?_
      rw [activity?_open hopened] at ha
      obtain rfl := Option.some.inj ha
      cases hbody with
      | element _ hplain =>
          simp only [Element.waits, Bool.and_eq_true, beq_iff_eq] at hwaits
          unfold Element.slot? at hplain
          rw [hkind] at hplain
          split at hwaits <;> simp_all
      | race hrace => simp [hkind] at hrace
      | gateway hgateway => simp [hkind] at hgateway
      | job hjob => simp [hkind] at hjob
      | timer => exact ⟨rfl, rfl⟩
      | subscription => exact ⟨rfl, rfl⟩
  | complete hend => simp [hkind] at hend
  | finishJob _ ha hj => simpa [hj, ActivityBody.isWait] using hwait ha
  | failJob _ ha hj => simpa [hj, ActivityBody.isWait] using hwait ha
  | arrive _ ha hg => simpa [hg, ActivityBody.isWait] using hwait ha
  | fire ha hg => simpa [hg, ActivityBody.isWait] using hwait ha
  | withdraw _ ha hwaiting =>
      refine .inr fun b hb => ?_
      rw [activity?_modify_self, ha] at hb
      obtain rfl := Option.some.inj hb
      have hwithdrawn := Activity.isWithdrawn_settle hwaiting
      refine ⟨Activity.isWait_of_isWithdrawn hwithdrawn, ?_⟩
      by_contra hserved
      rw [Activity.isWithdrawn_of_isServed (by simpa using hserved)] at hwithdrawn
      cases hwithdrawn
  | @message r₁ a s position caught _ _ _ _ _ _ hfind _ hreceive =>
      left
      obtain ⟨vars, rfl⟩ := receive_eq hreceive
      have hlate := countP_le_of_getElem? hdwindles.2.2
      have hless := Instance.unconsumed_consume hfind
      have hleft := Instance.unconsumed_congr (i := r.inst.consume position)
        (serveWait_caught (r.modify fun i => { i.consume position with vars }) n a.origin e.id)
      unfold supply
      rw [hdwindles.2.1, hleft]
      omega
  | @trigger a t _ ha ht hcreated _ _ hdue =>
      left
      have hlate : a.isOverdue r.now = true := Activity.isOverdue_iff.mpr ⟨t, ht, hcreated, hdue⟩
      have hwaiting := isWaiting_timer ht hcreated
      have hfewer : (r.serveWait n a.origin e.id).inst.activities.countP
          (Activity.isOverdue r.now) < r.inst.activities.countP (Activity.isOverdue r.now) := by
        refine countP_lt_of_getElem? hdwindles.2.2 ha hlate fun b hb => ?_
        have hserve := activity?_serveWait_self ha hwaiting a.origin e.id
        obtain rfl := Option.some.inj (hserve.symm.trans hb)
        by_contra hstill
        obtain ⟨u, hu, hcreated, -⟩ := Activity.isOverdue_iff.mp (by simpa using hstill)
        have hserved := Activity.isServed_serve hwaiting
        simp [Activity.isServed, hu, ActivityBody.isServed, hcreated] at hserved
      have hsame := Instance.unconsumed_congr (serveWait_caught r n a.origin e.id)
      unfold supply
      rw [hdwindles.2.1, hsame]
      omega

/-- **Where a waiting catch event goes on, something was used up.** -/
theorem Completes.supply_lt (h : Completes element e origin n r r') (hwaits : e.waits = true)
    (hahead : r.diagram.TimersAhead) (he : r.diagram.elements[element]? = some e) :
    r'.supply < r.supply := by
  obtain ⟨hmoves, hfrom, a, ha, hdone⟩ := h
  have hstart : ∀ b, r.activity? n = some b → b.isWait = true ∧ b.isServed = false := by
    intro b hb
    rcases hfrom with rfl | ⟨c, hc, slot, hslot, hheld⟩
    · have hlt := (List.getElem?_eq_some_iff.mp hb).1
      omega
    · obtain rfl := Option.some.inj (hc.symm.trans hb)
      have hwaiting : c.isWaiting = true := by
        rw [Activity.isWaiting_eq_slot?, hheld]
        simp only [Element.waits, Bool.and_eq_true, beq_iff_eq] at hwaits
        simp only [Element.slot?, hwaits.1] at hslot
        split at hslot <;> cases hslot <;> rfl
      exact ⟨Activity.isWait_of_isWaiting hwaiting, Activity.isServed_of_isWaiting hwaiting⟩
  have hend : r'.supply < r.supply ∨
      ∀ b, r'.activity? n = some b → b.isWait = true ∧ b.isServed = false := by
    clear ha hdone
    induction hmoves with
    | refl => exact .inr hstart
    | @tail r₁ r₂ hbefore hmove ih =>
        have hdiagram := (kept_dwindles.moves he hbefore hahead).1
        have hahead₁ : r₁.diagram.TimersAhead := hdiagram ▸ hahead
        have he₁ : r₁.diagram.elements[element]? = some e := hdiagram ▸ he
        rcases ih with hless | hopen
        · have hle := Dwindles.supply_le (hmove.dwindles he₁) hahead₁ (.single hmove.consumes)
          exact .inl (by omega)
        · rcases hmove.supply_lt_or hwaits hahead₁ he₁ hopen with hless | hopen
          · have hle := Dwindles.supply_le (kept_dwindles.moves he hbefore) hahead
              (Moves.consumes hbefore)
            exact .inl (by omega)
          · exact .inr hopen
  rcases hend with hless | hopen
  · exact hless
  · obtain ⟨hwait, hserved⟩ := hopen a ha
    rw [isServed_of_state hwait hdone] at hserved
    cases hserved

end Waits

end Run

end ProcessEngine
