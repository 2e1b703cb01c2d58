import ProcessEngine.Proofs.MessageLedger
import ProcessEngine.Proofs.RaceBranches
import ProcessEngine.Proofs.RaceResolution
import ProcessEngine.Proofs.WaitLedger

/-!
# The winners of a race

The winner of a race is kept by its element id, and a branch counts as the
winner if it has this id.  So there can be several winners: two flows of a
gateway that lead to one catch event open two branches of one id, and a second
event serves the second branch as well.

This is the only way.  Served branches bear the id of the winner, and a race
gets at most as many branches of an id as flows lead there.

Main statement: `race_won_once`, for all instances.
-/

namespace ProcessEngine

namespace Instance

/-- Served branches bear the id of the winner. -/
def Crowned (i : Instance) : Prop :=
  ∀ ⦃n g : Nat⦄ ⦃b : Activity⦄ ⦃race : Race⦄, i.waitAt? n = some b → b.origin = some g →
    i.raceAt? (some g) = some race → b.isServed = true → race.winner = b.elementId?

theorem Crowned.same {i j : Instance} (h : i.Crowned) (hsame : SameRaces i j) : j.Crowned :=
  fun n g _ _ hb ho hrace => h (hsame.waits n ▸ hb) ho (hsame.races g ▸ hrace)

end Instance

namespace Run

open Instance

section Crowned

variable {element : Nat} {e : Element} {origin : Option Nat} {n : Nat} {r r' : Run}
  {announced : Nat → Prop}

/-! ## Served branches after a failure -/

theorem Breaks.crowned (h : Breaks e n r r') (hr : r.inst.Crowned) : r'.inst.Crowned := by
  cases h with
  | idle => exact hr
  | fail => exact hr.same (.of_activities rfl)
  | @spoil r₁ a s position caught error ha hs hwait _ _ _ _ hreceive =>
      have hactivities := receive_activities hreceive
      have ha₁ : r₁.inst.activities[n]? = some a := by rw [hactivities]; exact ha
      have hr₁ := hr.same (.of_activities hactivities)
      have hfailed : a.advance .failed =
          { a with body := .subscription { s with state := .failed } } :=
        Activity.advance_subscription hs hwait rfl
      have hopen : (a.advance .failed).isServed = false := by rw [hfailed]; rfl
      have hiswait : (a.advance .failed).isWait = true := by rw [hfailed]; rfl
      have haswait : a.isWait = true :=
        Activity.isWait_of_isWaiting (isWaiting_subscription hs hwait)
      intro m g b race hb ho hrace hserved
      have hraces := raceAt?_modifyActivity_of_isWait (f := fun a => a.advance .failed) ha₁
        haswait hiswait g
      rcases waitAt?_modifyActivity_cases ha₁ hb with ⟨_, hold⟩ | ⟨_, rfl⟩
      · exact hr₁ hold ho (hraces ▸ hrace) hserved
      · rw [hopen] at hserved
        cases hserved

/-- Also a visit that fails leaves all served branches with the winner's id. -/
theorem Visits.crowned {out : Run × List Command} (h : Visits element e origin r out)
    (hr : r.inst.Sound) (hwelcome : Welcome element e origin r)
    (hracing : r.inst.Racing announced) : out.1.inst.Crowned := by
  have hall : r.inst.Racing fun _ => True := hracing.mono fun _ _ => trivial
  cases h with
  | failed n error h hbreak =>
      have hmoved := h.racing hr hwelcome (fun _ _ _ => trivial) hall
      exact hbreak.crowned hmoved.served
  | visited h => exact (h.racing hr hwelcome (fun _ _ _ => trivial) hall).served

theorem dispatch_crowned {c : Command} (hr : r.inst.Sound) (hc : c.Fits r.inst)
    (hracing : r.inst.Racing announced) : (r.dispatch c).1.inst.Crowned := by
  have h := dispatch_spec r c
  generalize r.dispatch c = out at h
  cases h with
  | idle => exact hracing.served
  | flows => exact hracing.served
  | stuck => exact hracing.served
  | enter he h => exact h.crowned hr (welcome_enter hc he) hracing
  | resume ha he h => exact h.crowned hr (welcome_resume hr hc ha he) hracing
  | settle gateway => exact (hracing.settle gateway).served

end Crowned

/-- Whether a run fails or not, its served branches bear the winners' ids. -/
theorem start?_crowned {fuel : Nat} {r r' : Run} {error? : Option EngineError}
    (h : r.start? fuel = some (r', error?)) (hr : r.inst.Sound)
    (hracing : r.inst.state = .failed ∨ r.inst.Racing fun _ => False)
    (hcrowned : r.inst.Crowned) : r'.inst.Crowned := by
  rcases start?_cases h with ⟨_, rfl, _⟩ | ⟨hgo, hends⟩
  · exact hcrowned
  · have hsound := seeds_sound hr
    have hstart := seeds_racing hgo hracing
    cases hends with
    | empty hreaches =>
        rw [inst_finish]
        exact (hreaches.racing hsound hstart).served
    | failed hreaches =>
        have hmid := hreaches.sound hsound
        exact (dispatch_crowned hmid.1 (hmid.2 _ List.mem_cons_self)
          (hreaches.racing hsound hstart)).same (.of_activities rfl)

end Run

/-! ## Stored instances -/

namespace Instance

variable {i : Instance}

theorem Bounded.relinked (h : i.Bounded) (hi : i.Sound) : i.relinked.Bounded := by
  intro g b race f hb hrace hf id
  simp only [Instance.relinked, List.getElem?_map, Option.map_eq_some_iff] at hb
  obtain ⟨a, ha, rfl⟩ := hb
  have hbody : a.body = .race race := hrace
  rw [(hi.fits ha).relinkedActivity (by rw [hbody]; rfl)] at hf
  have harrived : i.relinked.arrived g id = i.arrived g id := by
    simp only [arrived, Instance.relinked, List.countP_map]
    rfl
  rw [harrived]
  exact h ha hbody hf id

theorem Onward.relinked (h : i.Onward) : i.relinked.Onward := by
  intro n b o hb ho c hc hwait
  simp only [Instance.relinked, List.getElem?_map, Option.map_eq_some_iff] at hb hc
  obtain ⟨a, ha, rfl⟩ := hb
  obtain ⟨a', ha', rfl⟩ := hc
  have hpassed : i.Passed o := h ha ho
  have hserved : a'.isServed = true := hpassed ha' hwait
  exact hserved

end Instance

namespace Engine.Reachable

variable {starts : KeySequence → Prop} {e : Engine}

theorem crowned (h : Reachable starts e) : ∀ i ∈ e.instances, i.Crowned := by
  have hboth : ∀ i ∈ e.instances,
      (i.state = .failed ∨ i.Racing fun _ => False) ∧ i.Crowned := by
    refine h.forall_instances
      (P := fun i => (i.state = .failed ∨ i.Racing fun _ => False) ∧ i.Crowned) ?_ ?_ ?_ ?_
    · intro key d vars now
      have hracing : (Instance.fresh key d vars now).Racing fun _ => False := by
        refine ⟨?_, ?_, ?_, ?_, ?_⟩ <;>
          simp [Instance.waitAt?, Instance.fresh, Instance.raceAt?]
      exact ⟨.inr hracing, hracing.served⟩
    · exact fun i c _ hP => ⟨hP.1.imp id fun hracing => hracing.same (.of_activities rfl),
        hP.2.same (.of_activities rfl)⟩
    · exact fun hr hP hrun =>
        ⟨Run.start?_racing hrun hr hP.1, Run.start?_crowned hrun hr hP.1 hP.2⟩
    · exact fun i hi hP => ⟨hP.1.imp id fun hracing => hracing.same hi.sameRaces_relinked,
        hP.2.same hi.sameRaces_relinked⟩
  exact fun i hi => (hboth i hi).2

theorem bounded (h : Reachable starts e) : ∀ i ∈ e.instances, i.Bounded := by
  refine h.forall_instances ?_ (fun i c _ hP => hP) (fun hr hP hrun => ?_) ?_
  · intro key d vars now g a race f ha
    simp [Instance.fresh] at ha
  · exact Run.start?_bounded hrun hr hP
  · exact fun i hi hP => hP.relinked hi

theorem onward (h : Reachable starts e) : ∀ i ∈ e.instances, i.Onward := by
  refine h.forall_instances ?_ (fun i c _ hP => hP) (fun hr hP hrun => ?_) ?_
  · intro key d vars now n a o ha
    simp [Instance.fresh] at ha
  · exact Run.start?_onward hrun hr hP
  · exact fun i _ hP => hP.relinked

theorem balanced (h : Reachable starts e) : ∀ i ∈ e.instances, i.Balanced := by
  intro i hi
  obtain ⟨n, hn⟩ := List.getElem?_of_mem hi
  obtain ⟨log, hlog⟩ := h.history n
  exact (((Moment.stored hlog hn).keeps lasting_ledger).balanced _).balanced

end Engine.Reachable

/-! ## Winners -/

/-- The number of flows from an element to the winner of a race. -/
def Race.flowsToWinner (race : Race) (d : Diagram) (f : Element) : Nat :=
  race.winner.elim 0 (d.flowsTo f.outgoing)

/-- No more branches are served than flows lead to the winner. -/
theorem Instance.countP_isServed_branches {i : Instance} (hcrowned : i.Crowned)
    (hbounded : i.Bounded) {g : Nat} {a : Activity} {race : Race} {f : Element}
    (ha : i.activities[g]? = some a) (hrace : a.body = .race race)
    (hf : i.diagram.elements[a.element]? = some f) :
    (i.branches g).countP Activity.isServed ≤ race.flowsToWinner i.diagram f := by
  have hrace' : i.raceAt? (some g) = some race := raceAt?_eq_some.mpr ⟨a, ha, hrace⟩
  have hid : ∀ b ∈ i.branches g, b.isServed = true → race.winner = b.elementId? := by
    intro b hb hserved
    obtain ⟨n, hn, ho⟩ := mem_branches.mp hb
    exact hcrowned hn ho hrace' hserved
  unfold Race.flowsToWinner
  cases hwinner : race.winner with
  | none =>
      refine Nat.le_of_eq (List.countP_eq_zero.mpr fun b hb hserved => ?_)
      have hsome := Activity.isSome_elementId? (Activity.isWait_of_isServed hserved)
      rw [← hid b hb hserved, hwinner] at hsome
      cases hsome
  | some winner =>
      refine Nat.le_trans ?_ (hbounded ha hrace hf winner)
      rw [branches, List.countP_filter, Instance.arrived]
      refine List.countP_mono_left fun b hb hserved => ?_
      simp only [Bool.and_eq_true, beq_iff_eq] at hserved
      obtain ⟨hserved, hwait, ho⟩ := hserved
      have hb' : b ∈ i.branches g := List.mem_filter.mpr ⟨hb, by simp [hwait, ho]⟩
      have hwins := hid b hb' hserved
      simp [Activity.isBranch, hwait, ho, ← hwins, hwinner]

/-- What a list has once at most stands at one position. -/
theorem eq_of_countP_le_one {α : Type} {p : α → Bool} {xs : List α} (h : xs.countP p ≤ 1)
    {m n : Nat} {a b : α} (ha : xs[m]? = some a) (hpa : p a = true) (hb : xs[n]? = some b)
    (hpb : p b = true) : m = n := by
  induction xs generalizing m n with
  | nil => cases ha
  | cons x rest ih =>
      have hnone : ∀ {k : Nat} {c : α}, rest[k]? = some c → p c = true → p x = true → False := by
        intro k c hc hpc hpx
        have hpos := List.countP_pos_iff.mpr ⟨c, List.mem_of_getElem? hc, hpc⟩
        rw [List.countP_cons_of_pos hpx] at h
        omega
      cases m with
      | zero =>
          obtain rfl : x = a := by simpa using ha
          cases n with
          | zero => rfl
          | succ n => exact (hnone (by simpa using hb) hpb hpa).elim
      | succ m =>
          cases n with
          | zero =>
              obtain rfl : x = b := by simpa using hb
              exact (hnone (by simpa using ha) hpa hpb).elim
          | succ n =>
              have hrest : rest.countP p ≤ 1 :=
                Nat.le_trans (List.Sublist.countP_le (List.sublist_cons_self x rest)) h
              have heq := ih hrest (List.getElem?_cons_succ ▸ ha) (List.getElem?_cons_succ ▸ hb)
              exact congrArg (· + 1) heq

/-- Flow has gone on from a position. -/
def Instance.GoesOn (i : Instance) (n : Nat) : Prop := ∃ c ∈ i.activities, c.origin = some n

/-- Where one branch of a race is served at most, flow goes on from one at
most. -/
theorem Instance.Onward.goesOn_eq {i : Instance} (h : i.Onward) {g : Nat}
    (hserved : (i.branches g).countP Activity.isServed ≤ 1) {m n : Nat} {b c : Activity}
    (hb : i.waitAt? m = some b) (hbo : b.origin = some g) (hc : i.waitAt? n = some c)
    (hco : c.origin = some g) (hm : i.GoesOn m) (hn : i.GoesOn n) : m = n := by
  have hpasses : ∀ {k d}, i.waitAt? k = some d → i.GoesOn k → d.isServed = true := by
    rintro k d hd ⟨x, hx, ho⟩
    obtain ⟨j, hj⟩ := List.getElem?_of_mem hx
    have hpassed : i.Passed k := h hj ho
    exact hpassed (waitAt?_eq_some.mp hd).1 (waitAt?_eq_some.mp hd).2
  rw [branches, List.countP_filter] at hserved
  obtain ⟨hb', hbwait⟩ := waitAt?_eq_some.mp hb
  obtain ⟨hc', hcwait⟩ := waitAt?_eq_some.mp hc
  refine eq_of_countP_le_one hserved hb' ?_ hc' ?_
  · simp [hpasses hb hm, hbwait, hbo]
  · simp [hpasses hc hn, hcwait, hco]

/-- **A race is won by no more branches than flows lead from its gateway to the
winner.**  Every consumed event is used up by a subscription of its own.  So
where one flow leads to the winner, one branch at most is served; unless the
instance has failed, one event at most was consumed for the race; and flow goes
on from one branch at most. -/
theorem Engine.race_won_once {starts : KeySequence → Prop} {e : Engine}
    (h : Engine.Reachable starts e) {i : Instance} (hi : i ∈ e.instances) {g : Nat}
    {a : Activity} {race : Race} {f : Element} (ha : i.activities[g]? = some a)
    (hrace : a.body = .race race) (hf : i.diagram.elements[a.element]? = some f) :
    (i.branches g).countP Activity.isServed ≤ race.flowsToWinner i.diagram f ∧
      i.caught.countP CaughtEvent.consumed = i.activities.countP Activity.hasConsumed ∧
      (race.flowsToWinner i.diagram f ≤ 1 →
        (i.branches g).countP Activity.isServed ≤ 1 ∧
        (i.state ≠ .failed → (i.branches g).countP Activity.hasConsumed ≤ 1) ∧
        ∀ m n b c, i.waitAt? m = some b → b.origin = some g → i.waitAt? n = some c →
          c.origin = some g → i.GoesOn m → i.GoesOn n → m = n) := by
  have hserved := Instance.countP_isServed_branches (h.crowned i hi) (h.bounded i hi) ha hrace hf
  refine ⟨hserved, h.balanced i hi, fun hone => ?_⟩
  have hserved := Nat.le_trans hserved hone
  refine ⟨hserved, fun hstate => Nat.le_trans ?_ hserved, ?_⟩
  · have hracing := (h.racing i hi).resolve_left hstate
    refine List.countP_mono_left fun b hb hconsumed => ?_
    obtain ⟨n, hn, _⟩ := Instance.mem_branches.mp hb
    rcases hracing.intact hn with hwait | hserved | hwithdrawn
    · rw [Activity.hasConsumed_of_isWaiting hwait] at hconsumed
      cases hconsumed
    · exact hserved
    · rw [Activity.hasConsumed_of_isWithdrawn hwithdrawn] at hconsumed
      cases hconsumed
  · intro m n b c hb hbo hc hco hm hn
    exact (h.onward i hi).goesOn_eq hserved hb hbo hc hco hm hn

/-- One of two messages wins the race between two catch events. -/
theorem Engine.race_of_messages_won_once :
    ∃ e, Engine.Reachable (· = .default) e ∧ ∃ i ∈ e.instances, i.state ≠ .failed ∧
      ∃ a race f, i.activities[1]? = some a ∧ a.body = .race race ∧
        i.diagram.elements[a.element]? = some f ∧ race.flowsToWinner i.diagram f = 1 ∧
        (i.branches 1).length = 2 ∧ (i.branches 1).countP Activity.isServed ≤ 1 ∧
        (i.branches 1).countP Activity.hasConsumed ≤ 1 := by
  obtain ⟨e, hreachable, htest⟩ := Engine.exists_reachable ofMarkup_raceSource 100
    [.create 1 [], .publish 2 "yes" [], .publish 2 "no" [], .run 2]
    (fun e => e.instances[0]?.any fun i => i.state != .failed && (i.branches 1).length == 2 &&
      i.activities[1]?.any fun a => a.body == .race ⟨.completed, some "a"⟩ &&
        i.diagram.elements[a.element]?.any fun f =>
          Race.flowsToWinner ⟨.completed, some "a"⟩ i.diagram f == 1) (by decide +kernel)
  obtain ⟨i, hi, htest⟩ := (Option.any_eq_true _ _).mp htest
  obtain ⟨⟨hstate, hbranches⟩, a, ha, hrace, f, hf, hone⟩ := by
    simpa [Option.any_eq_true] using htest
  have hmem := List.mem_of_getElem? hi
  have hwon := (Engine.race_won_once hreachable hmem ha hrace hf).2.2 (Nat.le_of_eq hone)
  exact ⟨e, hreachable, i, hmem, hstate, a, _, f, ha, hrace, hf, hone, hbranches, hwon.1,
    hwon.2.1 hstate⟩

/-- The source of a process with two flows from a gateway to one catch event. -/
private def twinSource : List String :=
  ["<process id='p'>", "<startEvent id='s'/>", "<eventBasedGateway id='g'/>",
   "<intermediateCatchEvent id='c' name='m'>", "<messageEventDefinition/>",
   "</intermediateCatchEvent>", "<sequenceFlow id='1' ", "sourceRef='s' targetRef='g'/>",
   "<sequenceFlow id='2' ", "sourceRef='g' targetRef='c'/>",
   "<sequenceFlow id='3' ", "sourceRef='g' targetRef='c'/>", "</process>"]

private def twinDiagram : Diagram :=
  { id := "p", name := ""
    elements :=
      [{ Element.bare "s" "" .startEvent with outgoing := ["1"] },
       { Element.bare "g" "" .eventBasedGateway with incoming := ["1"], outgoing := ["2", "3"] },
       { Element.bare "c" "m" .catchEvent with
          incoming := ["2", "3"], event := some (.message none) }]
    flows := [⟨"1", "", "s", "g", []⟩, ⟨"2", "", "g", "c", []⟩, ⟨"3", "", "g", "c", []⟩]
    messages := [] }

private theorem ofMarkup_twinSource :
    Diagram.ofMarkup (String.join twinSource) = .ok twinDiagram :=
  Engine.ofMarkup_join (by decide +kernel)

/-- Two flows to one catch event let two messages win one race. -/
theorem Engine.race_can_be_won_twice :
    ¬ ∀ e, Engine.Reachable (· = .default) e → ∀ i ∈ e.instances, ∀ g a race,
      i.activities[g]? = some a → a.body = .race race →
        (i.branches g).countP Activity.isServed ≤ 1 := by
  intro hclaim
  obtain ⟨e, hreachable, htest⟩ := Engine.exists_reachable ofMarkup_twinSource 100
    [.create 1 [], .publish 2 "m" [], .publish 2 "m" [], .run 2]
    (fun e => e.instances[0]?.any fun i => (i.branches 1).countP Activity.isServed == 2 &&
      i.activities[1]?.any fun a => a.body == .race ⟨.completed, some "c"⟩) (by decide +kernel)
  obtain ⟨i, hi, htest⟩ := (Option.any_eq_true _ _).mp htest
  obtain ⟨htwo, a, ha, hrace⟩ := by
    simpa [Option.any_eq_true] using htest
  have hone := hclaim e hreachable i (List.mem_of_getElem? hi) 1 a _ ha hrace
  omega

end ProcessEngine
