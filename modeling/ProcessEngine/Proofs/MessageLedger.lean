import Mathlib.Data.List.Perm.Basic
import ProcessEngine.Proofs.InstanceHistory

/-!
# What becomes of published events

An event that is published to an instance stays in its list of caught events
for good.  It is consumed by a subscription to its name that is completed with
it, or that fails because its output mappings do, and a subscription takes the
first event of its name that is left.

`Instance.Ledger` keeps the account between the events of an instance, its
subscriptions and its history.

Main statement: `messages_consumed_once`, at every moment of every history.
-/

namespace ProcessEngine

/-- Changing one entry of a list changes a count by that entry. -/
theorem countP_modify {α : Type} {p : α → Bool} {xs : List α} {n : Nat} {a : α} {f : α → α}
    (h : xs[n]? = some a) :
    (xs.modify n f).countP p + (if p a then 1 else 0) =
      xs.countP p + if p (f a) then 1 else 0 := by
  induction xs generalizing n with
  | nil => cases h
  | cons x rest ih =>
      cases n with
      | zero =>
          obtain rfl : x = a := by simpa using h
          simp only [List.modify_zero_cons, List.countP_cons]
          omega
      | succ n =>
          have hrest := ih (n := n) (by simpa using h)
          simp only [List.modify_succ_cons, List.countP_cons]
          omega

/-- Fewer entries pass a test where each that does stands for one that did. -/
theorem countP_le_of_getElem? {α : Type} {p : α → Bool} {xs ys : List α}
    (h : ∀ (n : Nat) b, ys[n]? = some b → p b = true → ∃ a, xs[n]? = some a ∧ p a = true) :
    ys.countP p ≤ xs.countP p := by
  induction ys generalizing xs with
  | nil => simp
  | cons y rest ih =>
      cases xs with
      | nil =>
          have hnone : (y :: rest).countP p = 0 := by
            rw [List.countP_eq_zero]
            intro b hb hpass
            obtain ⟨n, hn⟩ := List.getElem?_of_mem hb
            obtain ⟨a, ha, -⟩ := h n b hn hpass
            cases ha
          omega
      | cons x others =>
          have hrest : rest.countP p ≤ others.countP p :=
            ih fun n b hb hpass => h (n + 1) b (by simpa using hb) hpass
          simp only [List.countP_cons]
          cases hy : p y with
          | false =>
              simp only [Bool.false_eq_true, if_false]
              omega
          | true =>
              obtain ⟨a, ha, hpass⟩ := h 0 y rfl hy
              obtain rfl : x = a := by simpa using ha
              simp only [hpass, if_true]
              omega

/-- If one of those that did pass does not any more, there are fewer indeed. -/
theorem countP_lt_of_getElem? {α : Type} {p : α → Bool} {xs ys : List α} {k : Nat} {a : α}
    (h : ∀ (n : Nat) b, ys[n]? = some b → p b = true → ∃ a, xs[n]? = some a ∧ p a = true)
    (ha : xs[k]? = some a) (hpass : p a = true) (hgone : ∀ b, ys[k]? = some b → p b = false) :
    ys.countP p < xs.countP p := by
  obtain ⟨hk, rfl⟩ := List.getElem?_eq_some_iff.mp ha
  have hothers : (ys.eraseIdx k).countP p ≤ (xs.eraseIdx k).countP p := by
    refine countP_le_of_getElem? fun n b hb hp => ?_
    rw [List.getElem?_eraseIdx] at hb ⊢
    split at hb
    · rename_i hn
      simpa only [if_pos hn] using h n b hb hp
    · rename_i hn
      simpa only [if_neg hn] using h (n + 1) b hb hp
  have hxs := (List.getElem_cons_eraseIdx_perm hk).countP_eq p
  rw [List.countP_cons, if_pos hpass] at hxs
  have hys : ys.countP p = (ys.eraseIdx k).countP p := by
    by_cases hk : k < ys.length
    · have hperm := (List.getElem_cons_eraseIdx_perm hk).countP_eq p
      rw [List.countP_cons, hgone _ (List.getElem?_eq_getElem hk)] at hperm
      simpa using hperm.symm
    · rw [List.eraseIdx_of_length_le (Nat.not_lt.mp hk)]
  omega

/-! ## Used up by subscriptions -/

namespace Activity

/-- A subscription that has used up an event. -/
def hasConsumed (a : Activity) : Bool :=
  a.subscription?.any fun s => s.state == .completed || s.state == .failed

/-- A subscription that has used up an event of a name that passes a test. -/
def hasConsumedOf (p : String → Bool) (a : Activity) : Bool :=
  a.subscription?.any fun s => p s.name && (s.state == .completed || s.state == .failed)

/-- Only subscriptions use up events. -/
theorem hasConsumed_of_body {a : Activity} (h : ∀ s, a.body ≠ .subscription s) :
    a.hasConsumed = false := by
  unfold hasConsumed subscription?
  cases hb : a.body with
  | subscription s => exact absurd hb (h s)
  | _ => rfl

theorem hasConsumed_of_isWaiting {a : Activity} (h : a.isWaiting = true) :
    a.hasConsumed = false := by
  unfold isWaiting at h
  unfold hasConsumed subscription?
  cases hb : a.body with
  | subscription s =>
      cases hs : s.state <;>
        simp_all [ActivityBody.isWaiting, ActivityState.terminal, ActivityState.rank]
  | _ => rfl

theorem hasConsumed_of_isWithdrawn {a : Activity} (h : a.isWithdrawn = true) :
    a.hasConsumed = false := by
  unfold isWithdrawn at h
  unfold hasConsumed subscription?
  cases hb : a.body <;> simp_all [ActivityBody.isWithdrawn]

theorem hasConsumed_winRace (a : Activity) (id : String) :
    (a.winRace id).hasConsumed = a.hasConsumed := by
  obtain ⟨key, element, origin, body⟩ := a
  cases body <;> rfl

theorem hasConsumed_settle (a : Activity) : a.settle.hasConsumed = a.hasConsumed := by
  cases hw : a.isWaiting with
  | true => rw [hasConsumed_of_isWithdrawn (isWithdrawn_settle hw), hasConsumed_of_isWaiting hw]
  | false => rw [settle_of_not_isWaiting hw]

theorem hasConsumedOf_of_hasConsumed {p : String → Bool} {a : Activity}
    (h : a.hasConsumed = false) : a.hasConsumedOf p = false := by
  unfold hasConsumed at h
  unfold hasConsumedOf
  cases hs : a.subscription? with
  | none => rfl
  | some s => simp_all

/-- The name of a subscription is fixed at its creation. -/
theorem hasConsumedOf_eq_of_frame {p : String → Bool} {a b : Activity} (hframe : b.frame = a.frame)
    (h : b.hasConsumed = a.hasConsumed) : b.hasConsumedOf p = a.hasConsumedOf p := by
  have hbody : b.body.frame = a.body.frame := congrArg body hframe
  unfold hasConsumed subscription? at h
  unfold hasConsumedOf subscription?
  cases ha : a.body <;> cases hb : b.body <;> simp_all [ActivityBody.frame]

/-- A subscription that waits can be brought to any final state. -/
theorem advance_subscription {a : Activity} {s : Subscription} {next : ActivityState}
    (hs : a.body = .subscription s) (hwait : s.state.terminal = false)
    (hn : next.terminal = true) :
    a.advance next = { a with body := .subscription { s with state := next } } := by
  rw [advance_final a (by rw [hs]; rfl) hn]
  simp [state, hs, ActivityBody.state, hwait, ActivityBody.withState]

end Activity

namespace Instance

/-- There are as many consumed events as subscriptions that used one up. -/
def Balanced (i : Instance) : Prop :=
  i.caught.countP CaughtEvent.consumed = i.activities.countP Activity.hasConsumed

/-- There are as many consumed events as subscriptions that used one up, among
the names that pass a test. -/
def BalancedOf (p : String → Bool) (i : Instance) : Prop :=
  i.caught.countP (fun c => p c.name && c.consumed) = i.activities.countP (Activity.hasConsumedOf p)

variable {p : String → Bool} {i : Instance} {n : Nat} {a : Activity} {f : Activity → Activity}

/-- A change by which no event is used up. -/
theorem BalancedOf.modifyActivity (h : i.BalancedOf p) (ha : i.activities[n]? = some a)
    (hframe : (f a).frame = a.frame) (hsame : (f a).hasConsumed = a.hasConsumed) :
    (i.modifyActivity n f).BalancedOf p := by
  have hcount := countP_modify (p := Activity.hasConsumedOf p) (f := f) ha
  rw [Activity.hasConsumedOf_eq_of_frame hframe hsame] at hcount
  exact Eq.trans h (Nat.add_right_cancel hcount).symm

/-- An event is consumed, and a subscription to its name has used it up. -/
theorem BalancedOf.consume (h : i.BalancedOf p) {position : Nat} {caught : CaughtEvent}
    (vars : Variables) (hcaught : i.caught[position]? = some caught)
    (hfresh : caught.consumed = false) (ha : i.activities[n]? = some a) {s : Subscription}
    (hs : a.body = .subscription s) (hname : caught.name = s.name)
    (hopen : s.state.terminal = false) {next : ActivityState}
    (hnext : next = .completed ∨ next = .failed)
    (hused : f a = { a with body := .subscription { s with state := next } }) :
    (({ i.consume position with vars } : Instance).modifyActivity n f).BalancedOf p := by
  have hactivities := countP_modify (p := Activity.hasConsumedOf p) (f := f) ha
  have hevents := countP_modify (p := fun c : CaughtEvent => p c.name && c.consumed)
    (f := fun c : CaughtEvent => { c with consumed := true }) hcaught
  have hbefore : a.hasConsumedOf p = false :=
    Activity.hasConsumedOf_of_hasConsumed
      (Activity.hasConsumed_of_isWaiting (Run.isWaiting_subscription hs hopen))
  have hafter : (f a).hasConsumedOf p = p caught.name := by
    rcases hnext with rfl | rfl <;>
      simp [hused, Activity.hasConsumedOf, Activity.subscription?, hname]
  simp only [hbefore, hafter, hfresh, Bool.and_false, Bool.and_true, Bool.false_eq_true,
    if_false] at hactivities hevents
  unfold BalancedOf at h ⊢
  show (i.caught.modify position fun c => { c with consumed := true }).countP _ =
    (i.activities.modify n f).countP _
  omega

theorem BalancedOf.winRace (h : i.BalancedOf p) (origin : Option Nat) (id : String) :
    (i.winRace origin id).BalancedOf p := by
  cases origin with
  | none => exact h
  | some g =>
      cases ha : i.activities[g]? with
      | some a => exact h.modifyActivity ha (a.frame_winRace id) (a.hasConsumed_winRace id)
      | none =>
          have hsame : i.activities.modify g (fun a => a.winRace id) = i.activities :=
            List.modify_eq_self (List.getElem?_eq_none_iff.mp ha)
          unfold BalancedOf
          simp only [Instance.winRace, Instance.modifyActivity, hsame]
          exact h

theorem BalancedOf.settleRace (h : i.BalancedOf p) (gateway : Nat) :
    (i.settleRace gateway).BalancedOf p := by
  unfold Instance.settleRace
  split
  · exact h
  · refine Eq.trans h ?_
    simp only [List.countP_map]
    congr 1
    funext a
    simp only [Function.comp_apply]
    split
    · exact (Activity.hasConsumedOf_eq_of_frame a.frame_settle a.hasConsumed_settle).symm
    · rfl

/-- A test that all names pass is none. -/
theorem BalancedOf.balanced (h : i.BalancedOf fun _ => true) : i.Balanced := by
  unfold BalancedOf Activity.hasConsumedOf at h
  unfold Balanced Activity.hasConsumed
  simpa using h

/-! ## One event after another -/

/-- At most one event is consumed: the first of a name that was not. -/
inductive Consumes (i j : Instance) : Prop
  | nothing (h : j.caught = i.caught)
  | event {name : String} {position : Nat} (hfind : i.findUnconsumed? name = some position)
      (h : j.caught = (i.consume position).caught)

/-- Some events are consumed, one after another. -/
abbrev ConsumesAll : Instance → Instance → Prop := Relation.ReflTransGen Consumes

/-- The first event of a name that is not consumed. -/
theorem findUnconsumed?_eq_some {i : Instance} {name : String} {position : Nat} :
    i.findUnconsumed? name = some position ↔
      (∃ c, i.caught[position]? = some c ∧ c.consumed = false ∧ c.name = name) ∧
        ∀ m c, m < position → i.caught[m]? = some c → c.name = name → c.consumed = true := by
  unfold findUnconsumed?
  rw [List.findIdx?_eq_some_iff_getElem]
  constructor
  · rintro ⟨hlt, htest, hbefore⟩
    refine ⟨⟨_, List.getElem?_eq_getElem hlt, by simpa using htest⟩, fun m c hm hc hname => ?_⟩
    obtain ⟨hm', rfl⟩ := List.getElem?_eq_some_iff.mp hc
    have hnot := hbefore m hm
    simpa [hname] using hnot
  · rintro ⟨⟨c, hc, hfresh, hname⟩, hbefore⟩
    obtain ⟨hlt, rfl⟩ := List.getElem?_eq_some_iff.mp hc
    refine ⟨hlt, by simp [hfresh, hname], fun m hm => ?_⟩
    have hm' : m < i.caught.length := by omega
    have hused := hbefore m i.caught[m] hm (List.getElem?_eq_getElem hm')
    simp only [Bool.not_eq_true, Bool.and_eq_false_iff, Bool.not_eq_false', beq_eq_false_iff_ne]
    by_cases hm : i.caught[m].name = name
    · exact .inl (hused hm)
    · exact .inr hm

/-- No consumed event comes after one of its name that is not consumed. -/
def InOrder (i : Instance) : Prop :=
  ∀ ⦃m k : Nat⦄ ⦃c d : CaughtEvent⦄, i.caught[m]? = some c → i.caught[k]? = some d → m < k →
    c.name = d.name → d.consumed = true → c.consumed = true

theorem caught_consume {i : Instance} {position k : Nat} {d : CaughtEvent}
    (h : (i.consume position).caught[k]? = some d) :
    ∃ c, i.caught[k]? = some c ∧ d.name = c.name ∧
      d.consumed = if position = k then true else c.consumed := by
  simp only [consume, List.getElem?_modify, Option.map_eq_map, Option.map_eq_some_iff] at h
  obtain ⟨c, hc, rfl⟩ := h
  refine ⟨c, hc, ?_, ?_⟩ <;> split <;> rfl

theorem Consumes.inOrder {j : Instance} (h : Consumes i j) (hi : i.InOrder) : j.InOrder := by
  intro m k c d hc hd hmk hname hconsumed
  cases h with
  | nothing h =>
      rw [h] at hc hd
      exact hi hc hd hmk hname hconsumed
  | @event name position hfind h =>
      rw [h] at hc hd
      obtain ⟨c', hc', hcn, hcc⟩ := caught_consume hc
      obtain ⟨d', hd', hdn, hdc⟩ := caught_consume hd
      obtain ⟨⟨x, hx, hfresh, hxname⟩, hbefore⟩ := findUnconsumed?_eq_some.mp hfind
      rw [hcc]
      split
      · rfl
      · by_cases hk : position = k
        · -- the one that is consumed is the first that was left
          subst hk
          obtain rfl : x = d' := Option.some.inj (hx.symm.trans hd')
          exact hbefore m c' hmk hc' (by rw [← hcn, hname, hdn, hxname])
        · rw [if_neg hk] at hdc
          exact hi hc' hd' hmk (by rw [← hcn, ← hdn, hname]) (hdc ▸ hconsumed)

end Instance

/-- An event as it was published. -/
def CaughtEvent.published (c : CaughtEvent) : CaughtEvent := { c with consumed := false }

namespace Instance

variable {i j : Instance}

/-- Nothing but its consumption changes about an event. -/
theorem Consumes.published (h : Consumes i j) :
    j.caught.map CaughtEvent.published = i.caught.map CaughtEvent.published := by
  cases h with
  | nothing h => rw [h]
  | @event name position hfind h =>
      rw [h]
      apply List.ext_getElem?
      intro k
      simp only [consume, List.getElem?_map, List.getElem?_modify]
      by_cases hk : position = k
      · cases i.caught[k]? <;> simp [hk, CaughtEvent.published]
      · cases i.caught[k]? <;> simp [hk]

/-- The event at a position is consumed. -/
def hasConsumedAt (i : Instance) (k : Nat) : Bool := i.caught[k]?.any CaughtEvent.consumed

/-- What is consumed remains so. -/
theorem Consumes.hasConsumedAt (h : Consumes i j) {k : Nat} (hk : i.hasConsumedAt k = true) :
    j.hasConsumedAt k = true := by
  unfold Instance.hasConsumedAt at hk ⊢
  cases h with
  | nothing h => rwa [h]
  | @event name position hfind h =>
      rw [h]
      obtain ⟨c, hc, hconsumed⟩ := (Option.any_eq_true _ _).mp hk
      simp only [consume, List.getElem?_modify, hc]
      by_cases hp : position = k <;> simp [hp, hconsumed]

/-- A name of which no event is left gets none. -/
theorem Consumes.findUnconsumed?_none (h : Consumes i j) {name : String}
    (hnone : i.findUnconsumed? name = none) : j.findUnconsumed? name = none := by
  unfold findUnconsumed? at hnone ⊢
  rw [List.findIdx?_eq_none_iff] at hnone ⊢
  cases h with
  | nothing h => rwa [h]
  | @event found position hfind h =>
      rw [h]
      intro d hd
      obtain ⟨k, hk⟩ := List.getElem?_of_mem hd
      obtain ⟨c, hc, hname, hconsumed⟩ := caught_consume hk
      have hused := hnone c (List.mem_of_getElem? hc)
      rw [hname, hconsumed]
      split
      · simp
      · exact hused

end Instance

namespace Run

section Moves

variable {element : Nat} {e : Element} {origin : Option Nat} {n : Nat} {r r' : Run}

theorem winRace_caught (i : Instance) (origin : Option Nat) (id : String) :
    (i.winRace origin id).caught = i.caught := by
  cases origin <;> rfl

theorem Move.consumes (h : Move element e origin n r r') : Instance.Consumes r.inst r'.inst := by
  cases h with
  | outputs h =>
      unfold writeOutputs at h
      split at h <;> cases h
      exact .nothing rfl
  | opened hbody hopen =>
      obtain ⟨-, -, rfl⟩ := open?_eq_some hopen
      exact .nothing rfl
  | message _ _ _ _ _ _ hfind _ hreceive =>
      obtain ⟨vars, rfl⟩ := receive_eq hreceive
      exact .event hfind (winRace_caught _ _ _)
  | trigger => exact .nothing (winRace_caught _ _ _)
  | _ => exact .nothing rfl

theorem Moves.consumes (h : Moves element e origin n r r') :
    Instance.ConsumesAll r.inst r'.inst := by
  induction h with
  | refl => exact .refl
  | tail _ hmove ih => exact ih.tail hmove.consumes

theorem Breaks.consumes (h : Breaks e n r r') : Instance.Consumes r.inst r'.inst := by
  cases h with
  | idle => exact .nothing rfl
  | fail => exact .nothing rfl
  | spoil _ _ _ _ _ hfind _ hreceive =>
      obtain ⟨vars, rfl⟩ := receive_eq hreceive
      exact .event hfind rfl

theorem Visits.consumes {out : Run × List Command} (h : Visits element e origin r out) :
    Instance.ConsumesAll r.inst out.1.inst := by
  cases h with
  | failed n error h hbreak => exact h.consumes.tail hbreak.consumes
  | visited h => exact h.consumes

/-- **A command consumes events one by one**, each the first of its name that
is left. -/
theorem dispatch_consumes (r : Run) (c : Command) :
    Instance.ConsumesAll r.inst (r.dispatch c).1.inst := by
  have h := dispatch_spec r c
  generalize r.dispatch c = out at h
  cases h with
  | idle => exact .refl
  | flows => exact .refl
  | stuck => exact .refl
  | enter _ h => exact h.consumes
  | resume _ _ h => exact h.consumes
  | settle gateway =>
      refine .single (.nothing ?_)
      show (r.inst.settleRace gateway).caught = _
      unfold Instance.settleRace
      split <;> rfl

/-! ## The balance of a visit -/

variable {p : String → Bool}

/-- What is found bears the name that was asked for and was not consumed. -/
theorem fresh_of_findUnconsumed? {i : Instance} {name : String} {position : Nat}
    {caught : CaughtEvent} (hfind : i.findUnconsumed? name = some position)
    (hcaught : i.caught[position]? = some caught) :
    caught.consumed = false ∧ caught.name = name := by
  obtain ⟨⟨c, hc, hfresh, hname⟩, -⟩ := Instance.findUnconsumed?_eq_some.mp hfind
  obtain rfl : c = caught := Option.some.inj (hc.symm.trans hcaught)
  exact ⟨hfresh, hname⟩

/-- **A move consumes an event with the subscription that it completes**, and
none otherwise. -/
theorem Move.balancedOf (h : Move element e origin n r r') (hr : r.inst.BalancedOf p) :
    r'.inst.BalancedOf p := by
  -- jobs, gateways and timers stay what they are, so they use up nothing
  have hother : ∀ {a b : Activity}, (∀ s, a.body.frame ≠ .subscription s) → b.frame = a.frame →
      b.hasConsumed = a.hasConsumed := by
    intro a b hbody hframe
    have hframe' : b.body.frame = a.body.frame := congrArg Activity.body hframe
    rw [Activity.hasConsumed_of_body fun s hs => hbody _ (by rw [← hframe', hs]; rfl),
      Activity.hasConsumed_of_body fun s hs => hbody _ (by rw [hs]; rfl)]
  cases h with
  | report => exact hr
  | call => exact hr
  | outputs h =>
      unfold writeOutputs at h
      split at h <;> cases h
      exact hr
  | opened hbody hopen =>
      obtain ⟨-, -, rfl⟩ := open?_eq_some hopen
      refine Eq.trans hr ?_
      show _ = (r.inst.activities ++ [_]).countP _
      rw [List.countP_append, List.countP_singleton]
      cases hbody with
      | subscription => simp [Activity.hasConsumedOf, Activity.subscription?]
      | _ => rfl
  | complete => exact hr
  | finishJob vars ha hj =>
      exact Instance.BalancedOf.modifyActivity (i := { r.inst with vars }) hr ha
        (Activity.frame_advance _ _)
        (hother (by simp [hj, ActivityBody.frame]) (Activity.frame_advance _ _))
  | failJob reason ha hj =>
      exact hr.modifyActivity ha (by simp) (hother (by simp [hj, ActivityBody.frame]) (by simp))
  | arrive flow ha hg =>
      exact hr.modifyActivity ha (Activity.frame_recordInbound _ _)
        (hother (by simp [hg, ActivityBody.frame]) (Activity.frame_recordInbound _ _))
  | fire ha hg =>
      exact hr.modifyActivity ha (Activity.frame_advance _ _)
        (hother (by simp [hg, ActivityBody.frame]) (Activity.frame_advance _ _))
  | withdraw _ ha =>
      exact hr.modifyActivity ha (Activity.frame_settle _) (Activity.hasConsumed_settle _)
  | @message r₁ a s position caught _ ha hs hwait _ _ hfind hcaught hreceive =>
      obtain ⟨hfresh, hname⟩ := fresh_of_findUnconsumed? hfind hcaught
      have hused : a.serve = { a with body := .subscription { s with state := .completed } } := by
        simp only [Activity.serve, hs]
        exact Activity.advance_subscription hs hwait rfl
      obtain ⟨vars, rfl⟩ := receive_eq hreceive
      exact (hr.consume vars hcaught hfresh ha hs hname hwait (.inl rfl) hused).winRace _ _
  | @trigger a t _ ha ht hwait =>
      exact (hr.modifyActivity ha a.frame_serve
        (hother (by simp [ht, ActivityBody.frame]) a.frame_serve)).winRace _ _

theorem Moves.balancedOf (h : Moves element e origin n r r') (hr : r.inst.BalancedOf p) :
    r'.inst.BalancedOf p := by
  induction h with
  | refl => exact hr
  | tail _ hmove ih => exact hmove.balancedOf ih

theorem Breaks.balancedOf (h : Breaks e n r r') (hr : r.inst.BalancedOf p) :
    r'.inst.BalancedOf p := by
  cases h with
  | idle => exact hr
  | fail => exact hr
  | spoil ha hs hwait _ _ hfind hcaught hreceive =>
      obtain ⟨hfresh, hname⟩ := fresh_of_findUnconsumed? hfind hcaught
      obtain ⟨vars, rfl⟩ := receive_eq hreceive
      exact hr.consume vars hcaught hfresh ha hs hname hwait (.inr rfl)
        (Activity.advance_subscription hs hwait rfl)

theorem Visits.balancedOf {out : Run × List Command} (h : Visits element e origin r out)
    (hr : r.inst.BalancedOf p) : out.1.inst.BalancedOf p := by
  cases h with
  | failed n error h hbreak => exact hbreak.balancedOf (h.balancedOf hr)
  | visited h => exact h.balancedOf hr

end Moves

theorem dispatch_balancedOf {p : String → Bool} {r : Run} (c : Command)
    (hr : r.inst.BalancedOf p) : (r.dispatch c).1.inst.BalancedOf p := by
  have h := dispatch_spec r c
  generalize r.dispatch c = out at h
  cases h with
  | idle => exact hr
  | flows => exact hr
  | stuck => exact hr
  | enter _ h => exact h.balancedOf hr
  | resume _ _ h => exact h.balancedOf hr
  | settle gateway => exact hr.settleRace gateway

end Run

/-! ## The ledger -/

/-- A command consumes the event at a position. -/
def Dispatch.consumes (k : Nat) (d : Dispatch) : Bool :=
  !d.before.inst.hasConsumedAt k && d.after.inst.hasConsumedAt k

/-- The account between the events of an instance, its subscriptions and its
history: the events are those that were published, and every consumed event was
consumed once, in its turn, by a subscription of its own. -/
structure Instance.Ledger (i : Instance) (log : List HistoryEntry) : Prop where
  balanced : ∀ p, i.BalancedOf p
  inOrder : i.InOrder
  published : i.caught.map CaughtEvent.published = log.filterMap HistoryEntry.event?
  once : ∀ k, (log.filterMap HistoryEntry.dispatch?).countP (Dispatch.consumes k) =
    (i.hasConsumedAt k).toNat

namespace Instance

variable {i : Instance} {log : List HistoryEntry}

theorem ledger_fresh (key : Int) (d : Definition) (vars : Variables) (now : Instant) :
    (fresh key d vars now).Ledger [] where
  balanced _ := rfl
  inOrder m k c d hc := by cases hc
  published := rfl
  once _ := rfl

theorem Ledger.event (h : i.Ledger log) {c : CaughtEvent} (hc : c.consumed = false) :
    (i.recordEvent c).Ledger (log ++ [.published c]) where
  balanced p := by
    refine Eq.trans ?_ (h.balanced p)
    show (i.caught ++ [c]).countP _ = _
    simp [List.countP_append, hc]
  inOrder m k d e hd he hmk hname hconsumed := by
    have hk : k < i.caught.length := by
      by_contra hk
      have he : (i.caught ++ [c])[k]? = some e := he
      rw [List.getElem?_append_right (by omega)] at he
      obtain rfl := List.mem_singleton.mp (List.mem_of_getElem? he)
      rw [hc] at hconsumed
      cases hconsumed
    have hd : (i.caught ++ [c])[m]? = some d := hd
    have he : (i.caught ++ [c])[k]? = some e := he
    rw [List.getElem?_append_left (by omega)] at hd
    rw [List.getElem?_append_left hk] at he
    exact h.inOrder hd he hmk hname hconsumed
  published := by
    have hpublished : c.published = c := by
      cases c
      cases hc
      rfl
    simp [recordEvent, h.published, HistoryEntry.event?, hpublished]
  once k := by
    have hsame : (i.recordEvent c).hasConsumedAt k = i.hasConsumedAt k := by
      unfold hasConsumedAt recordEvent
      rw [List.getElem?_append]
      split
      · rfl
      · rename_i hk
        rw [List.getElem?_eq_none (Nat.not_lt.mp hk)]
        cases hn : k - i.caught.length <;> simp [hc]
    rw [hsame, ← h.once k, List.filterMap_append]
    simp [HistoryEntry.dispatch?]

/-- Activities may move to other elements. -/
theorem Ledger.relinked (h : i.Ledger log) : i.relinked.Ledger log where
  balanced p := by
    refine Eq.trans (h.balanced p) ?_
    simp only [Instance.relinked, List.countP_map]
    rfl
  inOrder := h.inOrder
  published := h.published
  once := h.once

theorem ConsumesAll.published {j : Instance} (h : ConsumesAll i j) :
    j.caught.map CaughtEvent.published = i.caught.map CaughtEvent.published := by
  induction h with
  | refl => rfl
  | tail _ hstep ih => rw [hstep.published, ih]

theorem ConsumesAll.inOrder {j : Instance} (h : ConsumesAll i j) (hi : i.InOrder) :
    j.InOrder := by
  induction h with
  | refl => exact hi
  | tail _ hstep ih => exact hstep.inOrder ih

theorem ConsumesAll.hasConsumedAt {j : Instance} (h : ConsumesAll i j) {k : Nat}
    (hk : i.hasConsumedAt k = true) : j.hasConsumedAt k = true := by
  induction h with
  | refl => exact hk
  | tail _ hstep ih => exact hstep.hasConsumedAt ih

theorem ConsumesAll.findUnconsumed?_none {j : Instance} (h : ConsumesAll i j) {name : String}
    (hnone : i.findUnconsumed? name = none) : j.findUnconsumed? name = none := by
  induction h with
  | refl => exact hnone
  | tail _ hstep ih => exact hstep.findUnconsumed?_none ih

end Instance

theorem Instance.Ledger.dispatch {d : Dispatch} {log : List HistoryEntry}
    (h : d.before.inst.Ledger log) : d.after.inst.Ledger (log ++ [.dispatched d]) where
  balanced p := Run.dispatch_balancedOf d.command (h.balanced p)
  inOrder := (Run.dispatch_consumes d.before d.command).inOrder h.inOrder
  published := by
    have hsame := (Run.dispatch_consumes d.before d.command).published
    rw [Dispatch.after, hsame, h.published]
    simp [HistoryEntry.event?]
  once k := by
    have hkeeps : d.before.inst.hasConsumedAt k = true → d.after.inst.hasConsumedAt k = true :=
      (Run.dispatch_consumes d.before d.command).hasConsumedAt
    rw [List.filterMap_append, List.countP_append, h.once k]
    show _ + [d].countP (Dispatch.consumes k) = _
    rw [List.countP_singleton, Dispatch.consumes]
    by_cases hbefore : d.before.inst.hasConsumedAt k = true
    · simp [hbefore, hkeeps hbefore]
    · by_cases hafter : d.after.inst.hasConsumedAt k = true <;> simp [hbefore, hafter]

namespace Engine

theorem lasting_ledger : Lasting Instance.Ledger where
  fresh := Instance.ledger_fresh
  event _ hc hP := hP.event hc
  state _ hP := ⟨hP.balanced, hP.inOrder, hP.published, hP.once⟩
  step _ hP := hP.dispatch
  relinked _ hP := hP.relinked

/-- **Messages are consumed once each, in the order of their publication.**
For every name there are as many consumed events as completed and failed
subscriptions, so a subscription that waits or was withdrawn has consumed
nothing; no consumed event comes after one that is left.  An event is consumed
by one command of the history if it is consumed at all, and the events are
those that were published, none of them lost or altered. -/
theorem messages_consumed_once {starts : KeySequence → Prop} {n : Nat} {i : Instance}
    {log : List HistoryEntry} (h : Moment starts n i log) (name : String) :
    i.caught.countP (fun c => c.name == name && c.consumed) =
        i.activities.countP (fun a => a.subscription?.any fun s =>
          s.name == name && (s.state == .completed || s.state == .failed)) ∧
      (∀ (m k : Nat) (c d : CaughtEvent), i.caught[m]? = some c → i.caught[k]? = some d → m < k →
        c.name = name → d.name = name → d.consumed = true → c.consumed = true) ∧
      (∀ k, (log.filterMap HistoryEntry.dispatch?).countP (Dispatch.consumes k) =
        (i.hasConsumedAt k).toNat) ∧
      i.caught.map CaughtEvent.published = log.filterMap HistoryEntry.event? := by
  have hledger := h.keeps lasting_ledger
  refine ⟨hledger.balanced (· == name), ?_, hledger.once, hledger.published⟩
  intro m k c d hc hd hmk hcname hdname hconsumed
  exact hledger.inOrder hc hd hmk (hcname.trans hdname.symm) hconsumed

/-- The source of a process that waits for a message. -/
private def mailSource : List String :=
  ["<process id='p'>", "<startEvent id='s'/>",
   "<intermediateCatchEvent id='c' name='m'>", "<messageEventDefinition/>",
   "</intermediateCatchEvent>", "<sequenceFlow id='1' ", "sourceRef='s' targetRef='c'/>",
   "</process>"]

private def mailDiagram : Diagram :=
  { id := "p", name := ""
    elements :=
      [{ Element.bare "s" "" .startEvent with outgoing := ["1"] },
       { Element.bare "c" "m" .catchEvent with incoming := ["1"], event := some (.message none) }]
    flows := [⟨"1", "", "s", "c", []⟩]
    messages := [] }

private theorem ofMarkup_mailSource :
    Diagram.ofMarkup (String.join mailSource) = .ok mailDiagram :=
  ofMarkup_join (by decide +kernel)

/-- Of two messages of one name the first is consumed, by one command. -/
theorem first_message_consumed_once :
    ∃ i log, Moment (· = .default) 0 i log ∧
      i.caught.map (fun c => (c.name, c.consumed)) = [("m", true), ("m", false)] ∧
      (i.activities.countP fun a => a.subscription?.any fun s =>
        s.name == "m" && (s.state == .completed || s.state == .failed)) = 1 ∧
      (log.filterMap HistoryEntry.dispatch?).countP (Dispatch.consumes 0) = 1 := by
  obtain ⟨e, hreachable, htest⟩ := exists_reachable ofMarkup_mailSource 100
    [.create 1 [], .publish 2 "m" [], .publish 2 "m" [], .run 2]
    (fun e => e.instances[0]?.any fun i =>
      i.caught.map (fun c => (c.name, c.consumed)) == [("m", true), ("m", false)] &&
        i.caught.countP (fun c => c.name == "m" && c.consumed) == 1 && i.hasConsumedAt 0)
    (by decide +kernel)
  obtain ⟨i, hi, htest⟩ := (Option.any_eq_true _ _).mp htest
  simp only [Bool.and_eq_true, beq_iff_eq] at htest
  obtain ⟨⟨hcaught, hcount⟩, hfirst⟩ := htest
  obtain ⟨log, hlog⟩ := hreachable.history 0
  have hmoment : Moment (· = .default) 0 i log := .stored hlog hi
  obtain ⟨hbalance, -, honce, -⟩ := messages_consumed_once hmoment "m"
  refine ⟨i, log, hmoment, hcaught, hbalance ▸ hcount, ?_⟩
  rw [honce 0, hfirst]
  rfl

end Engine

end ProcessEngine
