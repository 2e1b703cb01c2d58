import ProcessEngine.Proofs.RaceWinners
import ProcessEngine.Proofs.WakeUps

/-!
# Messages come before timers

No rule says that a message wins against a timer that is due at the same time.
It follows from the order in which a run of an active instance looks again at
what was left open: subscriptions come before timers, and whatever the run
opens comes later still.  So when the timer of a race fires, every subscription
of the race has been looked at, and none of them found an event.  Events are
only used up in a run, and nobody can join a race that is older than the run,
so the same is true at the end.

`Instance.TimersLast` is the order in which activities are looked at, and
`Run.Beaten` says what a timer that has fired tells about the subscriptions of
its race.

Main statement: `message_beats_timer`.
-/

namespace ProcessEngine

/-- A subscription and a timer never bear the same element id, since the first
element with an id is one kind of catch event. -/
theorem Instance.Sound.elementId_ne {i : Instance} (hi : i.Sound) {m n : Nat} {a b : Activity}
    {s : Subscription} {t : Timer} (ha : i.activities[m]? = some a) (hs : a.body = .subscription s)
    (hb : i.activities[n]? = some b) (ht : b.body = .timer t) : s.elementId ≠ t.elementId := by
  intro hsame
  obtain ⟨e, he, hfits, hfirst⟩ := hi.fits ha
  obtain ⟨f, hf, hfits', hfirst'⟩ := hi.fits hb
  rw [hs] at hfits hfirst
  rw [ht] at hfits' hfirst'
  cases hfits with
  | subscription _ _ hevent _ _ hid =>
      cases hfits' with
      | timer _ _ hevent' _ _ _ hid' =>
          have hfind := hfirst.resolve_left nofun
          have hfind' := hfirst'.resolve_left nofun
          rw [← hid, hsame, hid', hfind'] at hfind
          rw [← Option.some.inj hfind, hf] at he
          obtain rfl := Option.some.inj he
          rw [hevent] at hevent'
          cases hevent'

/-! ## The order in which activities are looked at -/

/-- Among some positions no subscription comes after a timer. -/
def Instance.TimersLast (i : Instance) (ns : List Nat) : Prop :=
  ns.Pairwise fun m n => ∀ a b : Activity, i.activities[m]? = some a → i.activities[n]? = some b →
    a.timer?.isSome = true → b.subscription? = none

theorem Instance.timersLast_continuations (i : Instance) : i.TimersLast i.continuations := by
  have hkind : ∀ {p : Activity → Bool} {n : Nat} {a : Activity}, n ∈ i.positions p →
      i.activities[n]? = some a → p a = true := by
    intro p n a hn ha
    obtain ⟨b, hb, hp⟩ := Run.mem_positions.mp hn
    obtain rfl := Option.some.inj (hb.symm.trans ha)
    exact hp
  have htimers : ∀ n ∈ i.positions Activity.isCreatedTimer, ∀ b : Activity,
      i.activities[n]? = some b → b.subscription? = none := by
    intro n hn b hb
    have htest := hkind hn hb
    cases hbody : b.body <;>
      simp_all [Activity.isCreatedTimer, Activity.subscription?, Activity.timer?]
  unfold TimersLast continuations
  rw [List.pairwise_append]
  refine ⟨List.pairwise_of_forall_mem_list fun m hm n _ a b ha _ htimer => ?_,
    List.pairwise_of_forall_mem_list fun _ _ n hn _ b _ hb _ => htimers n hn b hb,
    fun _ _ n hn _ b _ hb _ => htimers n hn b hb⟩
  -- what comes first are jobs and subscriptions
  rcases List.mem_append.mp hm with hm | hm <;>
    have htest := hkind hm ha <;>
    cases hbody : a.body <;> simp_all [Activity.job?, Activity.subscription?, Activity.timer?]

namespace Activity

theorem subscription?_eq_some {a : Activity} {s : Subscription} :
    a.subscription? = some s ↔ a.body = .subscription s := by
  unfold subscription?
  cases a.body <;> simp

/-- Whether an activity is a timer is fixed at its creation. -/
theorem isSome_timer?_of_frame {a b : Activity} (h : b.frame = a.frame) :
    b.timer?.isSome = a.timer?.isSome := by
  have hbody : b.body.frame = a.body.frame := congrArg body h
  unfold timer?
  cases hb : b.body <;> cases ha : a.body <;> simp_all [ActivityBody.frame]

/-- A subscription keeps its name and its element id. -/
theorem subscription_of_frame {a b : Activity} (h : b.frame = a.frame) {s : Subscription}
    (hs : b.body = .subscription s) :
    ∃ s₀, a.body = .subscription s₀ ∧ s₀.name = s.name ∧ s₀.elementId = s.elementId := by
  have hbody : b.body.frame = a.body.frame := congrArg body h
  rw [hs] at hbody
  cases ha : a.body with
  | subscription s₀ =>
      simp only [ha, ActivityBody.frame, ActivityBody.subscription.injEq,
        Subscription.mk.injEq] at hbody
      exact ⟨s₀, rfl, hbody.2.2.2.1.symm, hbody.2.2.1.symm⟩
  | _ => simp [ha, ActivityBody.frame] at hbody

/-- A timer keeps its element id. -/
theorem timer_of_frame {a b : Activity} (h : b.frame = a.frame) {t : Timer}
    (ht : b.body = .timer t) : ∃ t₀, a.body = .timer t₀ ∧ t₀.elementId = t.elementId := by
  have hbody : b.body.frame = a.body.frame := congrArg body h
  rw [ht] at hbody
  cases ha : a.body with
  | timer t₀ =>
      simp only [ha, ActivityBody.frame, ActivityBody.timer.injEq, Timer.mk.injEq] at hbody
      exact ⟨t₀, rfl, hbody.2.2.1.symm⟩
  | _ => simp [ha, ActivityBody.frame] at hbody

/-- A subscription that waits is active. -/
theorem Orderly.isLeftOpen {a : Activity} (h : a.Orderly) {s : Subscription}
    (hs : a.body = .subscription s) (hopen : s.state.terminal = false) : a.isLeftOpen = true := by
  have hstarted := h.started s hs
  unfold Activity.isLeftOpen
  cases hstate : s.state <;> simp_all [ActivityState.terminal, ActivityState.rank]

end Activity

namespace Run

/-- The order of some positions does not depend on what happens to the activities there. -/
theorem Grows.timersLast {opened : List Activity} {r r' : Run} (h : Grows opened r r')
    {ns : List Nat} (hns : ∀ n ∈ ns, n < r.inst.activities.length)
    (hlast : r.inst.TimersLast ns) : r'.inst.TimersLast ns := by
  refine List.Pairwise.imp_of_mem (fun {m n} hm hn hmn a b ha hb htimer => ?_) hlast
  obtain ⟨a', ha', hframe⟩ := h.activity? (List.getElem?_eq_getElem (hns m hm))
  obtain ⟨b', hb', hframe'⟩ := h.activity? (List.getElem?_eq_getElem (hns n hn))
  obtain rfl := Option.some.inj (ha.symm.trans ha')
  obtain rfl := Option.some.inj (hb.symm.trans hb')
  rw [Activity.isSome_timer?_of_frame hframe] at htimer
  have hnone := hmn _ _ (List.getElem?_eq_getElem (hns m hm))
    (List.getElem?_eq_getElem (hns n hn)) htimer
  cases hbody : b.body with
  | subscription s =>
      obtain ⟨s₀, hs₀, -⟩ := Activity.subscription_of_frame hframe' hbody
      simp [Activity.subscription?, hs₀] at hnone
  | _ => simp [Activity.subscription?, hbody]

/-- What is still to be looked at again only gets less. -/
theorem Reaches.resumes_sublist {work next : Work} (h : Reaches work next) :
    (resumes next.2).Sublist (resumes work.2) := by
  induction h with
  | refl => exact List.Sublist.refl _
  | tail _ hnext ih =>
      cases hnext with
      | step r c queue =>
          have hsame : resumes (queue ++ (r.dispatch c).2) = resumes queue := by
            show List.filterMap _ _ = _
            rw [List.filterMap_append]
            show resumes queue ++ resumes _ = _
            rw [resumes_eq_nil (dispatch_resumed? r c), List.append_nil]
          refine List.Sublist.trans ?_ ih
          rw [hsame]
          exact (List.sublist_cons_self c queue).filterMap _

/-! ## Nobody joins an old race -/

section Race

variable {g : Nat} {r r' : Run} {c : Command} {queue : List Command}

theorem slotAt_of_raceAt? {i : Instance} {race : Race} (h : i.raceAt? (some g) = some race) :
    i.slotAt g = none := by
  obtain ⟨a, ha, hbody⟩ := Instance.raceAt?_eq_some.mp h
  simp [Instance.slotAt, ha, Activity.slot?, hbody]

/-- A race stays one. -/
theorem Grows.raceAt? {opened : List Activity} (h : Grows opened r r') {race : Race}
    (hrace : r.inst.raceAt? (some g) = some race) :
    ∃ race', r'.inst.raceAt? (some g) = some race' := by
  obtain ⟨a, ha, hbody⟩ := Instance.raceAt?_eq_some.mp hrace
  obtain ⟨b, hb, hframe⟩ := h.activity? ha
  have hbody' : b.body.frame = a.body.frame := congrArg Activity.body hframe
  rw [hbody] at hbody'
  cases hb' : b.body with
  | race race' => exact ⟨race', Instance.raceAt?_eq_some.mpr ⟨b, hb, hb'⟩⟩
  | _ => simp [hb', ActivityBody.frame] at hbody'

/-- The winner of a race stays. -/
theorem Progresses.winner {race : Race} {winner : String} (h : Progresses r r')
    (hrace : r.inst.raceAt? (some g) = some race) (hwon : race.winner = some winner) :
    ∃ race', r'.inst.raceAt? (some g) = some race' ∧ race'.winner = some winner := by
  obtain ⟨a, ha, hbody⟩ := Instance.raceAt?_eq_some.mp hrace
  obtain ⟨b, hb, hevolves, -⟩ := h.stays ha
  have hwinner := hevolves.winner winner (by simp [Activity.winner?, Activity.race?, hbody, hwon])
  unfold Activity.winner? Activity.race? at hwinner
  cases hb' : b.body with
  | race race' =>
      exact ⟨race', Instance.raceAt?_eq_some.mpr ⟨b, hb, hb'⟩, by simpa [hb'] using hwinner⟩
  | _ => simp [hb'] at hwinner

/-- No command in a queue brings a branch to a race. -/
def Work.Closed (g : Nat) (work : Work) : Prop :=
  ∀ id, Command.allBring work.1.diagram g id work.2 = 0

/-- What every command needs: the activity to be looked at is still open. -/
theorem exists_slotAt_of_queued {i : Instance} (h : i.Queued (c :: queue)) {n : Nat}
    (hn : c.resumed? = some n) : ∃ slot, i.slotAt n = some slot := by
  cases h with
  | rest h =>
      rw [h c List.mem_cons_self] at hn
      cases hn
  | resume hheld =>
      obtain rfl := Option.some.inj hn
      exact ⟨_, hheld⟩

/-- **A race to which no command brings a branch gets none**, and none is about to come. -/
theorem dispatch_closed (hw : Work.Sound (r, c :: queue)) (hqueued : r.inst.Queued (c :: queue))
    {race : Race} (hrace : r.inst.raceAt? (some g) = some race)
    (hclosed : Work.Closed g (r, c :: queue)) :
    Work.Closed g ((r.dispatch c).1, queue ++ (r.dispatch c).2) ∧
      ∀ ⦃n : Nat⦄ ⦃b : Activity⦄, (r.dispatch c).1.inst.waitAt? n = some b → b.origin = some g →
        ∃ a, r.inst.waitAt? n = some a ∧ b.frame = a.frame := by
  obtain ⟨opened, hgrows⟩ := dispatch_grows r c
  obtain ⟨x, hx, -⟩ := Instance.raceAt?_eq_some.mp hrace
  have hstep := fun id => dispatch_arrived (fun n hn => exists_slotAt_of_queued hqueued hn) hw.1
    (List.getElem?_eq_some_iff.mp hx).1 (slotAt_of_raceAt? hrace) id
  have hnone : ∀ id, c.brings r.diagram g id = 0 ∧ Command.allBring r.diagram g id queue = 0 := by
    intro id
    have hall := hclosed id
    simp only [Command.allBring, List.map_cons, List.sum_cons] at hall ⊢
    omega
  refine ⟨fun id => ?_, fun n b hb ho => ?_⟩
  · have harrived := hgrows.arrived g id
    have hstep := hstep id
    have hnone := hnone id
    rw [show ((r.dispatch c).1, queue ++ (r.dispatch c).2).1.diagram = r.diagram from
      hgrows.diagram, Command.allBring_append]
    omega
  · obtain ⟨hb, hwait⟩ := Instance.waitAt?_eq_some.mp hb
    rcases hgrows.cases_activity? hb with ⟨a, ha, hframe⟩ | ⟨-, hnew⟩
    · refine ⟨a, Instance.waitAt?_eq_some.mpr ⟨ha, ?_⟩, hframe⟩
      rw [← Activity.isWait_eq_of_frame hframe, hwait]
    · obtain ⟨id, hid⟩ := Option.isSome_iff_exists.mp (Activity.isSome_elementId? hwait)
      have hbranch : b.frame.isBranch g id = true := by
        rw [Activity.isBranch_eq_of_frame b.frame_frame]
        simp [Activity.isBranch, hwait, ho, hid]
      have hpos := List.countP_pos_iff.mpr ⟨_, List.mem_of_getElem? hnew, hbranch⟩
      have harrived := hgrows.arrived g id
      have hstep := hstep id
      have hnone := hnone id
      omega

/-! ## What a fired timer tells -/

/-- To look again at one wait leaves all others alone. -/
theorem dispatch_resume_waitAt?_ne {m : Nat} {origin : Option Nat}
    (hw : Work.Sound (r, .resume m origin :: queue))
    (hqueued : r.inst.Queued (.resume m origin :: queue))
    (hclean : ∀ c' ∈ (r.dispatch (.resume m origin)).2, c'.isFailure = false) {n : Nat}
    (hn : n ≠ m) : (r.dispatch (.resume m origin)).1.inst.waitAt? n = r.inst.waitAt? n := by
  obtain ⟨a, ha, -⟩ := hw.2 _ List.mem_cons_self
  obtain ⟨e, he, -⟩ := hw.1.fits ha
  obtain ⟨slot, hheld⟩ := exists_slotAt_of_queued hqueued rfl
  have hvisit := visit_spec r a.element e origin none
  rw [dispatch_resume ha he] at hclean ⊢
  generalize r.visit a.element e origin none = out at hvisit hclean
  cases hvisit with
  | failed k error => cases hclean _ List.mem_cons_self
  | visited h hfrom hc =>
      obtain rfl := h.eq_of_held hfrom hc hw.1 ha he hheld
      exact h.waitAt?_ne hn

/-- If a timer of a race has fired, no event is left for any subscription of the race. -/
def Beaten (g : Nat) (i : Instance) : Prop :=
  ∀ ⦃n : Nat⦄ ⦃b : Activity⦄ ⦃t : Timer⦄, i.waitAt? n = some b → b.origin = some g →
    b.body = .timer t → b.isServed = true →
    ∀ ⦃k : Nat⦄ ⦃d : Activity⦄ ⦃s : Subscription⦄, i.waitAt? k = some d → d.origin = some g →
      d.body = .subscription s → i.findUnconsumed? s.name = none

/-- **When a timer fires, the subscriptions of its race have been looked at**: before the
command that lets it fire, the race is open, so that they all wait.  One that is still to be
looked at comes before every timer, and a command of another kind comes after all of them. -/
theorem idle_of_fires (hw : Work.Sound (r, c :: queue)) (hqueued : r.inst.Queued (c :: queue))
    (hclean : ∀ c' ∈ (r.dispatch c).2, c'.isFailure = false)
    (hattended : Work.Attended (r, c :: queue))
    (hlast : r.inst.TimersLast (resumes (c :: queue))) {n : Nat} {a : Activity} {t : Timer}
    (ha : r.inst.waitAt? n = some a) (ht : a.body = .timer t)
    (hfires : (r.dispatch c).1.inst.waitAt? n ≠ some a) {k : Nat} {d : Activity}
    {s : Subscription} (hd : r.inst.waitAt? k = some d) (hs : d.body = .subscription s)
    (hopen : d.isLeftOpen = true) : r.Idle d := by
  rcases hattended hd hopen with ⟨c', hc', hk⟩ | hidle
  · exfalso
    cases hqueued with
    | rest h =>
        rw [h c' hc'] at hk
        cases hk
    | @resume m origin slot _ hheld hnew h =>
        obtain rfl : n = m := by
          by_contra hne
          refine hfires ?_
          rw [dispatch_resume_waitAt?_ne hw (.resume hheld hnew h) hclean hne, ha]
        rcases List.mem_cons.mp hc' with rfl | hc'
        · obtain rfl : n = k := Option.some.inj hk
          obtain rfl := Option.some.inj (ha.symm.trans hd)
          rw [hs] at ht
          cases ht
        · have hcomes := (List.pairwise_cons.mp hlast).1 k (List.mem_filterMap.mpr ⟨c', hc', hk⟩)
            a d (Instance.waitAt?_eq_some.mp ha).1 (Instance.waitAt?_eq_some.mp hd).1
            (by simp [Activity.timer?, ht])
          simp [Activity.subscription?, hs] at hcomes
  · exact hidle

theorem dispatch_beaten (hw : Work.Sound (r, c :: queue)) (hqueued : r.inst.Queued (c :: queue))
    (hclean : ∀ c' ∈ (r.dispatch c).2, c'.isFailure = false)
    (hattended : Work.Attended (r, c :: queue)) (hracing : Work.Racing (r, c :: queue))
    (horderly : ∀ a ∈ r.inst.activities, a.Orderly)
    (hlast : r.inst.TimersLast (resumes (c :: queue))) {race : Race}
    (hrace : r.inst.raceAt? (some g) = some race) (hclosed : Work.Closed g (r, c :: queue))
    (hbeaten : Beaten g r.inst) : Beaten g (r.dispatch c).1.inst := by
  intro n b t hb hbo ht hserved k d s hd hdo hs
  have hjoin := (dispatch_closed hw hqueued hrace hclosed).2
  obtain ⟨a, ha, hframe⟩ := hjoin hb hbo
  obtain ⟨d₀, hd₀, hframe₀⟩ := hjoin hd hdo
  obtain ⟨t₀, ht₀, hid⟩ := Activity.timer_of_frame hframe ht
  obtain ⟨s₀, hs₀, hname, -⟩ := Activity.subscription_of_frame hframe₀ hs
  rw [Activity.origin_eq_of_frame hframe] at hbo
  rw [Activity.origin_eq_of_frame hframe₀] at hdo
  -- what was idle before the command is so after it
  suffices hidle : r.inst.findUnconsumed? s₀.name = none by
    rw [← hname]
    exact (dispatch_consumes r c).findUnconsumed?_none hidle
  by_cases hbefore : a.isServed = true
  · exact hbeaten ha hbo ht₀ hbefore hd₀ hdo hs₀
  · have hfires : (r.dispatch c).1.inst.waitAt? n ≠ some a := by
      rintro hsame
      obtain rfl := Option.some.inj (hsame.symm.trans hb)
      exact hbefore hserved
    cases hwinner : race.winner with
    | some winner =>
        -- the race was won before, and by a branch with the id of the timer
        obtain ⟨race', hrace', hwon⟩ :=
          (kept_progresses.dispatch r c).winner hrace hwinner
        have hracing' := dispatch_racing hw.1 (hw.2 c List.mem_cons_self) hclean hracing
        have hbo' := hbo
        rw [← Activity.origin_eq_of_frame hframe] at hbo'
        have hcrown := hracing'.served hb hbo' hrace' hserved
        rw [hwon] at hcrown
        obtain ⟨m, x, hx, hxo, hxserved, hxid⟩ := hracing.won hrace hwinner
        rw [hcrown] at hxid
        cases hbody : x.body with
        | timer u => exact hbeaten hx hxo hbody hxserved hd₀ hdo hs₀
        | subscription u =>
            have hne := hw.1.elementId_ne (Instance.waitAt?_eq_some.mp hx).1 hbody
              (Instance.waitAt?_eq_some.mp ha).1 ht₀
            simp [Activity.elementId?, hbody, ht, ActivityBody.elementId?] at hxid
            exact absurd (hxid.trans hid.symm) hne
        | _ =>
            have hwait := (Instance.waitAt?_eq_some.mp hx).2
            simp [Activity.isWait, hbody, ActivityBody.isWait] at hwait
    | none =>
        have hwaiting : d₀.isWaiting = true := by
          rcases hracing.intact hd₀ with hwaiting | hserved₀ | hwithdrawn
          · exact hwaiting
          · have hcrown := hracing.served hd₀ hdo hrace hserved₀
            rw [hwinner] at hcrown
            simp [Activity.elementId?, hs₀, ActivityBody.elementId?] at hcrown
          · simpa [hwinner] using hracing.withdrawn hd₀ hdo hrace hwithdrawn
        have hopen : s₀.state.terminal = false := by
          simpa [Activity.isWaiting, hs₀, ActivityBody.isWaiting] using hwaiting
        have horder := horderly d₀ (List.mem_of_getElem? (Instance.waitAt?_eq_some.mp hd₀).1)
        exact (idle_of_fires hw hqueued hclean hattended hlast ha ht₀ hfires hd₀ hs₀
          (horder.isLeftOpen hs₀ hopen)).1 s₀ hs₀

/-- **A timer that fires in a run leaves no event for the subscriptions of its race**, if the
race is older than the run. -/
theorem Reaches.beaten {next : Work} (h : Reaches (r.activate, seeds r.inst) next)
    (hr : r.inst.Sound) (hactive : r.inst.state = .active)
    (hracing : r.inst.Racing fun _ => False) (horderly : ∀ a ∈ r.inst.activities, a.Orderly)
    {race : Race} (hrace : r.inst.raceAt? (some g) = some race) (hbeaten : Beaten g r.inst) :
    Work.Closed g next ∧ Beaten g next.1.inst := by
  have hgo : r.inst.state.terminal = false := by
    rw [hactive]
    rfl
  have hsound := seeds_sound hr
  have hqueued : r.activate.inst.Queued (seeds r.inst) :=
    (seeds_queued r.inst).of_slotAt fun _ _ => rfl
  have hready : Unstarted r.inst := by
    rintro hready
    rw [hactive] at hready
    cases hready
  induction h with
  | refl => exact ⟨fun id => seeds_brings _ _ g id, hbeaten⟩
  | @tail work last hreaches hnext ih =>
      cases hnext with
      | step r₁ c queue hc hclean =>
          obtain ⟨opened, hgrows⟩ := Reaches.grows hreaches
          obtain ⟨race₁, hrace₁⟩ := hgrows.raceAt? hrace
          have hwork := Reaches.sound hreaches hsound
          have hqueue := Reaches.queued hreaches hsound hqueued
          have hsublist := Reaches.resumes_sublist hreaches
          rw [resumes_seeds hactive] at hsublist
          have hlast : r₁.inst.TimersLast (resumes (c :: queue)) := by
            refine hgrows.timersLast (fun n hn => ?_)
              (r.inst.timersLast_continuations.sublist hsublist)
            obtain ⟨a, ha, -⟩ := Instance.mem_continuations.mp (hsublist.subset hn)
            exact (List.getElem?_eq_some_iff.mp ha).1
          exact ⟨(dispatch_closed hwork hqueue hrace₁ ih.1).1,
            dispatch_beaten hwork hqueue hclean
              (Reaches.attended hreaches hsound hqueued (seeds_attended hgo hready))
              (Reaches.racing hreaches hsound (seeds_racing hgo (.inr hracing)))
              ((kept_progresses.reaches hreaches).orderly horderly) hlast hrace₁ ih.1 ih.2⟩

end Race

/-! ## At its turn -/

/-- Served waits are kept by all that a run does. -/
theorem Reaches.servedKept {work next : Work} (h : Reaches work next) :
    Instance.ServedKept work.1.inst next.1.inst := by
  induction h with
  | refl => exact .of_activities rfl
  | tail _ hnext ih =>
      cases hnext with
      | step r c queue => exact ih.trans (dispatch_servedKept r c)

/-- **A subscription that is looked at while its race is open takes an event that is there**,
unless the command fails. -/
theorem resume_serves {r : Run} (hr : r.inst.Sound) {k : Nat} {a : Activity} {s : Subscription}
    (ha : r.activity? k = some a) (hs : a.body = .subscription s)
    (hopen : s.state.terminal = false) (hrace : r.inst.raceLost a.origin s.elementId = false)
    (hfind : (r.inst.findUnconsumed? s.name).isSome = true) {origin : Option Nat}
    (hclean : ∀ c ∈ (r.dispatch (.resume k origin)).2, c.isFailure = false) :
    ∃ b, (r.dispatch (.resume k origin)).1.activity? k = some b ∧ b.isServed = true := by
  have hslot : a.slot? = some (.subscription s.elementId) :=
    Activity.slot?_eq_subscription.mpr ⟨s, hs, hopen, rfl⟩
  obtain ⟨f, hf, hfits, -⟩ := hr.fits ha
  obtain ⟨f', hf', htakes⟩ := hr.takesUp ha hslot (by simp [Activity.gateway?, hs])
  obtain rfl := Option.some.inj (hf.symm.trans hf')
  rw [hs] at htakes hfits
  rw [dispatch_resume ha hf] at hclean ⊢
  have hwait := isWaiting_subscription hs hopen
  cases htakes with
  | @subscription _ ref hkind hevent _ hlookup =>
      cases hfits with
      | subscription _ _ _ _ _ hid =>
          rw [hid] at hrace
          obtain ⟨position, hposition⟩ := Option.isSome_iff_exists.mp hfind
          obtain ⟨⟨caught, hcaught, -⟩, -⟩ := Instance.findUnconsumed?_eq_some.mp hposition
          have horigin : r.originOf k = a.origin := by simp [originOf, ha]
          have hsub : (r.activity? k).bind Activity.subscription? = some s := by
            simp [ha, Activity.subscription?, hs]
          cases hreceive : r.receive f position caught with
          | mk r₁ error? =>
              cases error? with
              | some error =>
                  exfalso
                  simp [visit, handle, hkind, catchEvent, catchBody, hevent, messageCatch,
                    openSubscription?, hlookup, horigin, hrace, hsub, hposition, hcaught,
                    hreceive, Command.isFailure] at hclean
              | none =>
                  have ha₁ : r₁.activity? k = some a := by
                    rw [activity?, receive_activities hreceive]
                    exact ha
                  have hserve : (r₁.modifyActivity k fun a => a.advance .completed) =
                      r₁.modifyActivity k Activity.serve :=
                    modifyActivity_congr ha₁ (by simp [Activity.serve, hs])
                  refine ⟨a.serve, ?_, Activity.isServed_serve hwait⟩
                  have hout : (r.visit a.element f origin none).1.inst =
                      (r₁.serveWait k a.origin f.id).inst := by
                    simp [visit, handle, hkind, catchEvent, catchBody, hevent, messageCatch,
                      openSubscription?, hlookup, horigin, hrace, hsub, hposition, hcaught,
                      hreceive, hserve, proceed, serveWait, reportElement, report]
                  rw [activity?, hout]
                  exact activity?_serveWait_self ha₁ hwait a.origin f.id

/-- What a run without a failure does after one of its commands. -/
theorem Traced.reaches_after {work next : Work} {log : List Dispatch}
    (h : Traced work log next) (hqueue : ∀ c ∈ work.2, c.isFailure = false)
    (hnext : ∀ c ∈ next.2, c.isFailure = false) {d : Dispatch} (hd : d ∈ log) :
    (∀ c ∈ d.follow, c.isFailure = false) ∧ ∃ queue, Reaches work (d.before, d.command :: queue) ∧
      Reaches (d.after, queue ++ d.follow) next := by
  induction h with
  | start => cases hd
  | @step log r c queue h hc ih =>
      have hcs : ∀ c' ∈ (r.dispatch c).2, c'.isFailure = false :=
        fun c' hc' => hnext c' (mem_enqueue.mpr (.inr hc'))
      rcases h.reaches hqueue with ⟨hreaches, hclean⟩ | ⟨error, rest, x, hhead, -⟩
      · rw [enqueue_of_no_failure hcs]
        rcases List.mem_append.mp hd with hd | hd
        · obtain ⟨hfollow, queue', hbefore, hafter⟩ := ih hclean hd
          exact ⟨hfollow, queue', hbefore, hafter.tail (.step r c queue hc hcs)⟩
        · obtain rfl := List.mem_singleton.mp hd
          exact ⟨hcs, queue, hreaches, .refl⟩
      · obtain ⟨rfl, -⟩ := List.cons.inj hhead
        cases hc

/-- A run that does not fail its instance ends when its queue has run empty. -/
theorem start?_drained {r r' : Run} {fuel : Nat} {error? : Option EngineError}
    (hgo : r.inst.state.terminal = false) (h : r.start? fuel = some (r', error?))
    (hstate : r'.inst.state ≠ .failed) :
    ∃ r₁, Traced (r.activate, seeds r.inst) (r.startTrace fuel) (r₁, []) ∧
      Reaches (r.activate, seeds r.inst) (r₁, []) ∧ r'.inst = r₁.inst := by
  obtain ⟨r₁, rest, htrace, ⟨rfl, rfl, -⟩ | ⟨error, left, -, rfl, -⟩⟩ := start?_traced hgo h
  · refine ⟨r₁, htrace, ?_, inst_finish r₁⟩
    rcases htrace.reaches (seeds_no_failure r.inst) with ⟨hreaches, -⟩ | ⟨_, _, _, hhead, -⟩
    · exact hreaches
    · cases hhead
  · exact absurd rfl hstate

end Run

namespace Activity

/-- A timer that was waiting and is withdrawn is cancelled, and nothing else about it is new. -/
theorem eq_of_isWithdrawn {a b : Activity} (h : b.frame = a.frame) {t : Timer}
    (ht : a.body = .timer t) (hwithdrawn : b.isWithdrawn = true) :
    b = { a with body := .timer { t with state := .cancelled } } := by
  obtain ⟨key, element, origin, body⟩ := a
  obtain ⟨key', element', origin', body'⟩ := b
  obtain rfl : body = .timer t := ht
  cases body' with
  | timer u =>
      obtain ⟨instanceKey, definitionKey, elementId, state, createdAt, dueAt, duration⟩ := u
      simp_all [frame, ActivityBody.frame, isWithdrawn, ActivityBody.isWithdrawn]
  | _ => simp_all [frame, ActivityBody.frame]

/-- A subscription that is served is completed, and nothing else about it is new. -/
theorem eq_of_isServed {a b : Activity} (h : b.frame = a.frame) {s : Subscription}
    (hs : a.body = .subscription s) (hserved : b.isServed = true) :
    b = { a with body := .subscription { s with state := .completed } } := by
  obtain ⟨key, element, origin, body⟩ := a
  obtain ⟨key', element', origin', body'⟩ := b
  obtain rfl : body = .subscription s := hs
  cases body' with
  | subscription u =>
      obtain ⟨instanceKey, definitionKey, elementId, name, state, createdAt⟩ := u
      simp_all [frame, ActivityBody.frame, isServed, ActivityBody.isServed]
  | _ => simp_all [frame, ActivityBody.frame]

end Activity

namespace Instance.Racing

variable {i : Instance} {g : Nat} {race : Race}

/-- While a timer of a race waits nothing has been served for the race. -/
theorem beaten_of_created (h : i.Racing fun _ => False) (hrace : i.raceAt? (some g) = some race)
    {n : Nat} {a : Activity} {t : Timer} (ha : i.activities[n]? = some a)
    (ho : a.origin = some g) (ht : a.body = .timer t) (hcreated : t.state = .created) :
    Run.Beaten g i := by
  intro m b u hb hbo hu hserved
  have hcrown := h.served hb hbo hrace hserved
  have hwaiting : a.isWaiting = true := Run.isWaiting_timer ht hcreated
  have ha' : i.waitAt? n = some a :=
    Instance.waitAt?_eq_some.mpr ⟨ha, Activity.isWait_of_isWaiting hwaiting⟩
  have hopen := h.waiting ha' ho hrace hwaiting
  rw [hcrown, Activity.isSome_elementId? (Activity.isWait_of_isServed hserved)] at hopen
  exact (hopen rfl).elim

/-- **A race that a subscription has won** has no timer left: it was not the timer that was
served, and none of its waits is open any more. -/
theorem timer_isWithdrawn (h : i.Racing fun _ => False) (hi : i.Sound)
    (hrace : i.raceAt? (some g) = some race) {k n : Nat} {a b : Activity} {s : Subscription}
    {t : Timer} (ha : i.activities[k]? = some a) (hs : a.body = .subscription s)
    (hwon : race.winner = some s.elementId) (hb : i.waitAt? n = some b) (hbo : b.origin = some g)
    (ht : b.body = .timer t) : b.isWithdrawn = true := by
  rcases h.intact hb with hwaiting | hserved | hwithdrawn
  · exact (h.waiting hb hbo hrace hwaiting (by simp [hwon])).elim
  · have hcrown := h.served hb hbo hrace hserved
    rw [hwon] at hcrown
    have hsame : s.elementId = t.elementId := by
      simpa [Activity.elementId?, ht, ActivityBody.elementId?] using hcrown
    exact absurd hsame (hi.elementId_ne ha hs (Instance.waitAt?_eq_some.mp hb).1 ht)
  · exact hwithdrawn

end Instance.Racing

namespace Engine

/-- **A message that is already published beats the timer.**  An active instance is run, and the
run does not fail it.  If a timer of a race that was waiting when the run started has fired, then
no event is left at the end of the run for any subscription of the race.  And if a subscription
of the race can be served when the run comes to look at it again, then it wins the race, and
every timer that was waiting is cancelled, however long it has been due. -/
theorem message_beats_timer {starts : KeySequence → Prop} {e : Engine} (h : Reachable starts e)
    {i : Instance} (hi : i ∈ e.instances) (hactive : i.state = .active) {g : Nat} {a : Activity}
    {race : Race} (ha : i.activities[g]? = some a) (hrace : a.body = .race race) {fuel : Nat}
    {r' : Run} {error? : Option EngineError} (hrun : (e.lend i).start? fuel = some (r', error?))
    (hstate : r'.inst.state ≠ .failed) :
    (∀ (n : Nat) (b b' : Activity) (t t' : Timer), i.activities[n]? = some b →
      b.origin = some g → b.body = .timer t → t.state = .created →
      r'.inst.activities[n]? = some b' → b'.body = .timer t' → t'.state = .triggered →
        ∀ d ∈ r'.inst.activities, ∀ s : Subscription, d.origin = some g →
          d.body = .subscription s →
            ∀ c ∈ r'.inst.caught, c.consumed = false → c.name ≠ s.name) ∧
    ∀ d ∈ (e.lend i).startTrace fuel, ∀ (k : Nat) (b : Activity) (s : Subscription),
      d.command.resumed? = some k →
      d.before.activity? k = some b → b.origin = some g → b.body = .subscription s →
      s.state.terminal = false → d.before.inst.raceLost (some g) s.elementId = false →
      (d.before.inst.findUnconsumed? s.name).isSome = true →
        r'.inst.activities[k]? =
            some { b with body := .subscription { s with state := .completed } } ∧
          (∃ race', r'.inst.raceAt? (some g) = some race' ∧
            race'.winner = some s.elementId) ∧
          ∀ (n : Nat) (b : Activity) (t : Timer), i.activities[n]? = some b →
            b.origin = some g → b.body = .timer t → t.state = .created →
              r'.inst.activities[n]? =
                some { b with body := .timer { t with state := .cancelled } } := by
  have hr : (e.lend i).inst.Sound := (h.sound.instances i hi).1
  have hgo : (e.lend i).inst.state.terminal = false := by
    show i.state.terminal = false
    rw [hactive]
    rfl
  have horderly : ∀ a ∈ (e.lend i).inst.activities, a.Orderly := h.orderly i hi
  have hracing : (e.lend i).inst.Racing fun _ => False :=
    (h.racing i hi).resolve_left (by simp [hactive])
  have hracing' := (Run.start?_racing hrun hr (.inr hracing)).resolve_left hstate
  have hrace₀ : (e.lend i).inst.raceAt? (some g) = some race :=
    Instance.raceAt?_eq_some.mpr ⟨a, ha, hrace⟩
  obtain ⟨r₁, htrace, hreaches, hinst⟩ := Run.start?_drained hgo hrun hstate
  obtain ⟨opened, hgrows⟩ := Run.Reaches.grows hreaches
  rw [hinst] at hracing' ⊢
  constructor
  · intro n b b' t t' hb hbo ht hcreated hb' ht' hfired d hd s hdo hs c hc hfresh hname
    have hopen : Run.Beaten g (e.lend i).inst :=
      hracing.beaten_of_created hrace₀ hb hbo ht hcreated
    have hbeaten := (hreaches.beaten hr hactive hracing horderly hrace₀ hopen).2
    have hbo' : b'.origin = some g := by
      obtain ⟨x, hx, hframe⟩ := hgrows.activity? hb
      obtain rfl := Option.some.inj (hb'.symm.trans hx)
      rw [Activity.origin_eq_of_frame hframe, hbo]
    have hserved : b'.isServed = true := by
      simp [Activity.isServed, ht', ActivityBody.isServed, hfired]
    obtain ⟨k, hk⟩ := List.getElem?_of_mem hd
    have hwait : d.isWait = true := by simp [Activity.isWait, hs, ActivityBody.isWait]
    have hnone := hbeaten
      (Instance.waitAt?_eq_some.mpr ⟨hb', Activity.isWait_of_isServed hserved⟩) hbo' ht' hserved
      (Instance.waitAt?_eq_some.mpr ⟨hk, hwait⟩) hdo hs
    simpa [hname, hfresh] using List.findIdx?_eq_none_iff.mp hnone c hc
  · intro d hd k b s hk hb hbo hs hopen hlost hfind
    obtain ⟨hfollow, queue, hbefore, hafter⟩ :=
      htrace.reaches_after (Run.seeds_no_failure (e.lend i).inst) (by simp) hd
    obtain ⟨before, command⟩ := d
    obtain ⟨origin, rfl⟩ : ∃ origin, command = .resume k origin := by
      cases command with
      | resume m origin =>
          obtain rfl := Option.some.inj hk
          exact ⟨origin, rfl⟩
      | _ => cases hk
    have hsound := Run.Reaches.sound hbefore (Run.seeds_sound hr)
    obtain ⟨x, hx, hserved⟩ :=
      Run.resume_serves hsound.1 hb hs hopen (by rwa [hbo]) hfind hfollow
    have hx' : r₁.inst.activities[k]? = some x := hafter.servedKept hx hserved
    have hframe : x.frame = b.frame := by
      obtain ⟨_, hgrows⟩ := Run.dispatch_grows before (.resume k origin)
      obtain ⟨y, hy, hframe⟩ := hgrows.activity? hb
      obtain rfl := Option.some.inj (hx.symm.trans hy)
      exact hframe
    obtain rfl := Activity.eq_of_isServed hframe hs hserved
    -- at the end the race is resolved, with the subscription as its winner
    obtain ⟨race', hrace'⟩ := hgrows.raceAt? hrace₀
    have hwinner : race'.winner = some s.elementId :=
      hracing'.served (Instance.waitAt?_eq_some.mpr ⟨hx', rfl⟩) hbo hrace' hserved
    refine ⟨hx', ⟨race', hrace', hwinner⟩, fun n y t hy hyo ht hcreated => ?_⟩
    obtain ⟨z, hz, hframe'⟩ := hgrows.activity? hy
    have hwait : z.isWait = true := by
      rw [Activity.isWait_eq_of_frame hframe']
      exact Activity.isWait_of_isWaiting (Run.isWaiting_timer ht hcreated)
    have hzo : z.origin = some g := (Activity.origin_eq_of_frame hframe').trans hyo
    obtain ⟨u, hu, -⟩ := Activity.timer_of_frame hframe'.symm ht
    have hsound' := Run.Reaches.sound hreaches (Run.seeds_sound hr)
    have hwithdrawn := hracing'.timer_isWithdrawn hsound'.1 hrace' hx' rfl hwinner
      (Instance.waitAt?_eq_some.mpr ⟨hz, hwait⟩) hzo hu
    exact hz.trans (congrArg some (Activity.eq_of_isWithdrawn hframe' ht hwithdrawn))

/-- The source of a process with two races of a message against a timer. -/
private def deadlineSource : List String :=
  ["<process id='p'>", "<startEvent id='s'/>", "<eventBasedGateway id='g'/>",
   "<eventBasedGateway id='h'/>", "<intermediateCatchEvent id='a' name='yes'>",
   "<messageEventDefinition/>", "</intermediateCatchEvent>",
   "<intermediateCatchEvent id='t'>", "<timerEventDefinition>",
   "<timeDuration>PT1S</timeDuration>", "</timerEventDefinition>", "</intermediateCatchEvent>",
   "<intermediateCatchEvent id='b' name='no'>", "<messageEventDefinition/>",
   "</intermediateCatchEvent>", "<intermediateCatchEvent id='u'>", "<timerEventDefinition>",
   "<timeDuration>PT1S</timeDuration>", "</timerEventDefinition>", "</intermediateCatchEvent>",
   "<sequenceFlow id='1' ", "sourceRef='s' targetRef='g'/>",
   "<sequenceFlow id='2' ", "sourceRef='s' targetRef='h'/>",
   "<sequenceFlow id='3' ", "sourceRef='g' targetRef='a'/>",
   "<sequenceFlow id='4' ", "sourceRef='g' targetRef='t'/>",
   "<sequenceFlow id='5' ", "sourceRef='h' targetRef='b'/>",
   "<sequenceFlow id='6' ", "sourceRef='h' targetRef='u'/>", "</process>"]

private def deadlineDiagram : Diagram :=
  { id := "p", name := ""
    elements :=
      [{ Element.bare "s" "" .startEvent with outgoing := ["1", "2"] },
       { Element.bare "g" "" .eventBasedGateway with incoming := ["1"], outgoing := ["3", "4"] },
       { Element.bare "h" "" .eventBasedGateway with incoming := ["2"], outgoing := ["5", "6"] },
       { Element.bare "a" "yes" .catchEvent with
          incoming := ["3"], event := some (.message none) },
       { Element.bare "t" "" .catchEvent with
          incoming := ["4"], event := some (.timer (some "PT1S")) },
       { Element.bare "b" "no" .catchEvent with
          incoming := ["5"], event := some (.message none) },
       { Element.bare "u" "" .catchEvent with
          incoming := ["6"], event := some (.timer (some "PT1S")) }]
    flows := [⟨"1", "", "s", "g", []⟩, ⟨"2", "", "s", "h", []⟩, ⟨"3", "", "g", "a", []⟩,
      ⟨"4", "", "g", "t", []⟩, ⟨"5", "", "h", "b", []⟩, ⟨"6", "", "h", "u", []⟩]
    messages := [] }

private theorem ofMarkup_deadlineSource :
    Diagram.ofMarkup (String.join deadlineSource) = .ok deadlineDiagram :=
  ofMarkup_join (by decide +kernel)

/-- The timer of an activity in a certain state. -/
private def timerIn (state : TimerState) (g : Nat) (a : Activity) : Bool :=
  a.origin == some g && a.timer?.any fun t => t.state == state

private theorem exists_of_timerIn {state : TimerState} {g : Nat} {xs : List Activity} {n : Nat}
    (h : xs[n]?.any (timerIn state g) = true) :
    ∃ b t, xs[n]? = some b ∧ b.origin = some g ∧ b.body = .timer t ∧ t.state = state := by
  obtain ⟨b, hb, htest⟩ := (Option.any_eq_true _ _).mp h
  simp only [timerIn, Bool.and_eq_true, beq_iff_eq] at htest
  obtain ⟨t, ht, hstate⟩ := (Option.any_eq_true _ _).mp htest.2
  exact ⟨b, t, hb, htest.1, Activity.timer?_eq_some.mp ht, by simpa using hstate⟩

/-- Two timers are overdue.  For one of the races a message has been published: it wins, and its
timer is cancelled.  For the other race there is only a message of another name, and the timer
wins. -/
theorem one_of_two_overdue_timers_is_beaten :
    ∃ e, Reachable (· = .default) e ∧ ∃ i ∈ e.instances, i.state = .active ∧
      ∃ r', (e.lend i).start? 100 = some (r', none) ∧ r'.inst.state ≠ .failed ∧
        (∃ b t, i.activities[4]? = some b ∧ b.body = .timer t ∧ t.state = .created ∧
          r'.inst.activities[4]? =
            some { b with body := .timer { t with state := .cancelled } }) ∧
        ∃ b t, r'.inst.activities[6]? = some b ∧ b.body = .timer t ∧ t.state = .triggered ∧
          (r'.inst.caught.map fun c => (c.name, c.consumed)) = [("yes", true), ("other", false)] ∧
          ∃ d ∈ r'.inst.activities, ∃ s : Subscription, d.origin = some 2 ∧
            d.body = .subscription s ∧ s.name = "no" ∧
            ∀ c ∈ r'.inst.caught, c.consumed = false → c.name ≠ s.name := by
  obtain ⟨e, hreachable, htest⟩ := exists_reachable ofMarkup_deadlineSource 100
    [.create 1 [], .run 2, .publish 2 "yes" [], .publish 2 "other" [], .advanceClock 2000]
    (fun e => e.instances[0]?.any fun i => i.state == .active &&
      (i.activities[1]?.any fun a => a.body == .race ⟨.completed, none⟩) &&
      (i.activities[2]?.any fun a => a.body == .race ⟨.completed, none⟩) &&
      i.activities[4]?.any (timerIn .created 1) && i.activities[6]?.any (timerIn .created 2) &&
      (((e.lend i).startTrace 100).any fun d => d.command.resumed? == some 3 &&
        (d.before.activity? 3).any fun b => b.origin == some 1 && b.subscription?.any fun s =>
          !s.state.terminal && !d.before.inst.raceLost (some 1) s.elementId &&
            (d.before.inst.findUnconsumed? s.name).isSome) &&
      ((e.lend i).start? 100).any fun out => out.2.isNone && out.1.inst.state != .failed &&
        out.1.inst.activities[6]?.any (timerIn .triggered 2) &&
        (out.1.inst.caught.map fun c => (c.name, c.consumed)) ==
          [("yes", true), ("other", false)] &&
        out.1.inst.activities[5]?.any fun b => b.origin == some 2 &&
          b.subscription?.any fun s => s.name == "no")
    (by decide +kernel)
  obtain ⟨i, hi, htest⟩ := (Option.any_eq_true _ _).mp htest
  simp only [Bool.and_eq_true, beq_iff_eq] at htest
  obtain ⟨⟨⟨⟨⟨⟨hactive, hfirst⟩, hsecond⟩, hcreated⟩, hcreated'⟩, hturn⟩, hrun⟩ := htest
  obtain ⟨a, ha, hrace⟩ := (Option.any_eq_true _ _).mp hfirst
  obtain ⟨a', ha', hrace'⟩ := (Option.any_eq_true _ _).mp hsecond
  obtain ⟨b, t, hb, hbo, ht, htcreated⟩ := exists_of_timerIn hcreated
  obtain ⟨u, v, hu, huo, hv, hvcreated⟩ := exists_of_timerIn hcreated'
  obtain ⟨⟨r', error?⟩, hrun, htest⟩ := (Option.any_eq_true _ _).mp hrun
  simp only [Bool.and_eq_true, beq_iff_eq, bne_iff_ne, ne_eq, Option.isNone_iff_eq_none] at htest
  obtain ⟨⟨⟨⟨rfl, hstate⟩, hfired⟩, hcaught⟩, hother⟩ := htest
  obtain ⟨u', v', hu', hu'o, hv', hvfired⟩ := exists_of_timerIn hfired
  obtain ⟨d, hd, htest⟩ := (Option.any_eq_true _ _).mp hother
  simp only [Bool.and_eq_true, beq_iff_eq] at htest
  obtain ⟨s, hs, hname⟩ := (Option.any_eq_true _ _).mp htest.2
  obtain ⟨x, hx, hturn⟩ := List.any_eq_true.mp hturn
  simp only [Bool.and_eq_true, beq_iff_eq] at hturn
  obtain ⟨y, hy, hturn'⟩ := (Option.any_eq_true _ _).mp hturn.2
  simp only [Bool.and_eq_true, beq_iff_eq] at hturn'
  obtain ⟨z, hz, hopen⟩ := (Option.any_eq_true _ _).mp hturn'.2
  simp only [Bool.and_eq_true, Bool.not_eq_true'] at hopen
  have hmem := List.mem_of_getElem? hi
  have hbeats := (message_beats_timer hreachable hmem hactive ha (beq_iff_eq.mp hrace) hrun
    hstate).2 x hx 3 y z hturn.1 hy hturn'.1 (Activity.subscription?_eq_some.mp hz)
    hopen.1.1 hopen.1.2 hopen.2
  have hloses := (message_beats_timer hreachable hmem hactive ha' (beq_iff_eq.mp hrace') hrun
    hstate).1 6 u u' v v' hu huo hv hvcreated hu' hv' hvfired d (List.mem_of_getElem? hd) s
    htest.1 (Activity.subscription?_eq_some.mp hs)
  exact ⟨e, hreachable, i, hmem, hactive, r', hrun, hstate,
    ⟨b, t, hb, ht, htcreated, hbeats.2.2 4 b t hb hbo ht htcreated⟩,
    u', v', hu', hv', hvfired, hcaught, d, List.mem_of_getElem? hd, s, htest.1,
    Activity.subscription?_eq_some.mp hs, beq_iff_eq.mp hname, hloses⟩

end Engine

end ProcessEngine
