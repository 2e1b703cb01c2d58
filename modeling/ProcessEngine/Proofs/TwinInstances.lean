import ProcessEngine.Instance.Basic

/-!
# Twin instances

Two instances are twins if they differ in nothing but the keys of their
activities, the times at which events were published to them, and the order of
events of different names.  All that a run asks of an instance is answered alike
by twins: positions and bodies of activities, and for each name the first event
that is not yet consumed.  And what a run changes in twins leaves twins.

Main statements: `Twin.findUnconsumed?` and `Twin.consume`, by which messages
reach twins alike although they lie at other positions.
-/

namespace ProcessEngine

namespace Activity

/-- The activity without its key. -/
def keyless (a : Activity) : Activity := { a with key := 0 }

@[simp] theorem keyless_advance (s : ActivityState) (a : Activity) :
    (a.advance s).keyless = a.keyless.advance s := by
  show _ = (if !a.body.isTimer && a.state.mayBecome s then
    some { a.keyless with body := a.body.withState s } else none).getD a.keyless
  unfold advance advance?
  split <;> rfl

@[simp] theorem keyless_setTimer (s : TimerState) (a : Activity) :
    (a.setTimer s).keyless = a.keyless.setTimer s := by
  obtain ⟨key, element, origin, body⟩ := a
  unfold setTimer setTimer? keyless
  cases body with
  | timer t =>
      dsimp only
      split <;> rfl
  | _ => rfl

@[simp] theorem keyless_recordInbound (flow : String) (a : Activity) :
    (a.recordInbound flow).keyless = a.keyless.recordInbound flow := by
  obtain ⟨key, element, origin, body⟩ := a
  cases body <;> rfl

@[simp] theorem keyless_winRace (branch : String) (a : Activity) :
    (a.winRace branch).keyless = a.keyless.winRace branch := by
  obtain ⟨key, element, origin, body⟩ := a
  cases body <;> rfl

@[simp] theorem keyless_setFailure (reason : String) (a : Activity) :
    (a.setFailure reason).keyless = a.keyless.setFailure reason := by
  obtain ⟨key, element, origin, body⟩ := a
  cases body <;> rfl

@[simp] theorem keyless_settle (a : Activity) : a.settle.keyless = a.keyless.settle := by
  obtain ⟨key, element, origin, body⟩ := a
  cases body with
  | subscription s => exact keyless_advance .withdrawn ⟨key, element, origin, .subscription s⟩
  | timer t => exact keyless_setTimer .cancelled ⟨key, element, origin, .timer t⟩
  | _ => rfl

end Activity

/-! ## Events by name -/

/-- The events of a name in the order of their arrival: the variables of each, and
whether it is consumed. -/
def mailOf (name : String) (events : List CaughtEvent) : List (Variables × Bool) :=
  (events.filter fun c => c.name == name).map fun c => (c.vars, c.consumed)

theorem mailOf_append (name : String) (events more : List CaughtEvent) :
    mailOf name (events ++ more) = mailOf name events ++ mailOf name more := by
  rw [mailOf, List.filter_append, List.map_append]
  rfl

/-- The events of a name with the first one consumed that was not. -/
def consumeFirst : List (Variables × Bool) → List (Variables × Bool)
  | [] => []
  | (vars, true) :: mail => (vars, true) :: consumeFirst mail
  | (vars, false) :: mail => (vars, true) :: mail

/-- The first event of a name that is not consumed is the first such one among
the events of the name. -/
theorem find?_mailOf (name : String) (events : List CaughtEvent) :
    (events.find? fun c => !c.consumed && c.name == name).map CaughtEvent.vars =
      ((mailOf name events).find? fun mail => !mail.2).map Prod.fst := by
  rw [mailOf, List.find?_map, List.find?_filter, Option.map_map]
  congr 2
  funext c
  rw [Function.comp_apply, Bool.decide_and, Bool.decide_eq_true, Bool.decide_eq_true, Bool.and_comm]

/-- To consume an event concerns its name only. -/
theorem mailOf_modify {name : String} {events : List CaughtEvent} {position : Nat}
    (h : events.findIdx? (fun c => !c.consumed && c.name == name) = some position)
    (other : String) :
    mailOf other (events.modify position fun c => { c with consumed := true }) =
      if other = name then consumeFirst (mailOf other events) else mailOf other events := by
  induction events generalizing position with
  | nil => cases h
  | cons c cs ih =>
      rw [List.findIdx?_cons] at h
      by_cases hc : (!c.consumed && c.name == name) = true
      · rw [if_pos hc] at h
        obtain rfl := Option.some.inj h
        simp only [Bool.and_eq_true, Bool.not_eq_true', beq_iff_eq] at hc
        obtain ⟨hfresh, rfl⟩ := hc
        by_cases hname : c.name = other
        · simp [mailOf, hname, consumeFirst, hfresh]
        · have hother : ¬ other = c.name := fun heq => hname heq.symm
          simp [mailOf, hname, hother]
      · rw [if_neg hc] at h
        obtain ⟨before, hbefore, rfl⟩ := Option.map_eq_some_iff.mp h
        have hrest := ih hbefore
        by_cases hname : c.name = other
        · -- the event at the front is passed over: it is consumed, or of another name
          by_cases hsame : other = name
          · have hused : c.consumed = true := by
              simpa [hname, hsame] using hc
            rw [if_pos hsame] at hrest ⊢
            simp only [mailOf, List.modify_succ_cons, List.filter_cons, hname, beq_self_eq_true,
              if_true, List.map_cons, hused, consumeFirst] at hrest ⊢
            rw [hrest]
          · rw [if_neg hsame] at hrest ⊢
            simp only [mailOf, List.modify_succ_cons, List.filter_cons, hname, beq_self_eq_true,
              if_true, List.map_cons] at hrest ⊢
            rw [hrest]
        · have hskip : (c.name == other) = false := by simpa using hname
          simp only [mailOf, List.modify_succ_cons, List.filter_cons, hskip, Bool.false_eq_true,
            if_false] at hrest ⊢
          exact hrest

namespace Instance

/-- Instances that differ only in the keys of their activities, the times of
events, and the order of events of different names. -/
structure Twin (i j : Instance) : Prop where
  key : i.key = j.key
  definition : i.definition = j.definition
  vars : i.vars = j.vars
  createdAt : i.createdAt = j.createdAt
  state : i.state = j.state
  mail : ∀ name, mailOf name i.caught = mailOf name j.caught
  activities : i.activities.map Activity.keyless = j.activities.map Activity.keyless

namespace Twin

variable {i j : Instance}

theorem diagram (h : i.Twin j) : i.diagram = j.diagram := by
  rw [Instance.diagram, h.definition]
  rfl

/-! ## Looking up -/

theorem length (h : i.Twin j) : i.activities.length = j.activities.length := by
  simpa using congrArg List.length h.activities

theorem getElem? (h : i.Twin j) (n : Nat) :
    i.activities[n]?.map Activity.keyless = j.activities[n]?.map Activity.keyless := by
  rw [← List.getElem?_map, ← List.getElem?_map, h.activities]

section LookUp

variable {α : Type} {p : Activity → Bool} {g : Activity → Option α}

theorem findIdx? (h : i.Twin j) (hp : ∀ a, p a.keyless = p a) :
    i.activities.findIdx? p = j.activities.findIdx? p := by
  have hcomp : p ∘ Activity.keyless = p := funext hp
  have hmap : ∀ activities : List Activity,
      (activities.map Activity.keyless).findIdx? p = activities.findIdx? p := by
    intro activities
    rw [List.findIdx?_map, hcomp]
  rw [← hmap, h.activities, hmap]

theorem any (h : i.Twin j) (hp : ∀ a, p a.keyless = p a) :
    i.activities.any p = j.activities.any p := by
  have hmap : ∀ activities : List Activity,
      (activities.map Activity.keyless).any p = activities.any p := by
    intro activities
    rw [List.any_map]
    exact congrArg activities.any (funext hp)
  rw [← hmap, h.activities, hmap]

theorem bind (h : i.Twin j) (hg : ∀ a, g a.keyless = g a) (n : Nat) :
    i.activities[n]?.bind g = j.activities[n]?.bind g := by
  have hmap : ∀ a? : Option Activity, (a?.map Activity.keyless).bind g = a?.bind g := by
    intro a?
    cases a? with
    | none => rfl
    | some a => exact hg a
  rw [← hmap, h.getElem?, hmap]

theorem positions (h : i.Twin j) (hp : ∀ a, p a.keyless = p a) :
    i.positions p = j.positions p := by
  unfold Instance.positions
  rw [h.length]
  refine List.filter_congr fun n _ => ?_
  have hmap : ∀ a? : Option Activity, (a?.map Activity.keyless).any p = a?.any p := by
    intro a?
    cases a? with
    | none => rfl
    | some a => exact hp a
  rw [← hmap, h.getElem?, hmap]

end LookUp

theorem findOpenJob? (h : i.Twin j) (id : String) : i.findOpenJob? id = j.findOpenJob? id :=
  h.findIdx? fun _ => rfl

theorem findOpenSubscription? (h : i.Twin j) (id : String) :
    i.findOpenSubscription? id = j.findOpenSubscription? id :=
  h.findIdx? fun _ => rfl

theorem findCreatedTimer? (h : i.Twin j) (id : String) :
    i.findCreatedTimer? id = j.findCreatedTimer? id :=
  h.findIdx? fun _ => rfl

theorem findActiveGateway? (h : i.Twin j) (element : Nat) :
    i.findActiveGateway? element = j.findActiveGateway? element :=
  h.findIdx? fun _ => rfl

theorem hasPendingEvents (h : i.Twin j) : i.hasPendingEvents = j.hasPendingEvents :=
  h.any fun _ => rfl

theorem continuations (h : i.Twin j) : i.continuations = j.continuations := by
  unfold Instance.continuations
  rw [h.positions, h.positions, h.positions] <;> exact fun _ => rfl

theorem raceAt? (h : i.Twin j) (origin : Option Nat) : i.raceAt? origin = j.raceAt? origin := by
  cases origin with
  | none => rfl
  | some n => exact h.bind (fun _ => rfl) n

theorem raceLost (h : i.Twin j) (origin : Option Nat) (branch : String) :
    i.raceLost origin branch = j.raceLost origin branch := by
  rw [Instance.raceLost, h.raceAt?]
  rfl

/-- Twins have an event of a name to consume, or both have none; it has the same
variables in both, though it may lie elsewhere. -/
theorem findUnconsumed? (h : i.Twin j) (name : String) :
    (i.findUnconsumed? name = none ∧ j.findUnconsumed? name = none) ∨
      ∃ p q c d, i.findUnconsumed? name = some p ∧ j.findUnconsumed? name = some q ∧
        i.caught[p]? = some c ∧ j.caught[q]? = some d ∧ c.vars = d.vars := by
  have hfind : ∀ k : Instance,
      ((k.findUnconsumed? name).bind fun n => k.caught[n]?).map CaughtEvent.vars =
        ((mailOf name k.caught).find? fun mail => !mail.2).map Prod.fst := by
    intro k
    rw [← find?_mailOf, List.find?_eq_bind_findIdx?_getElem?]
    rfl
  have hat : ∀ (k : Instance) n, k.findUnconsumed? name = some n → ∃ c, k.caught[n]? = some c := by
    intro k n hn
    exact ⟨_, List.getElem?_eq_getElem (List.findIdx?_eq_some_iff_getElem.mp hn).1⟩
  have hsame : ((i.findUnconsumed? name).bind fun n => i.caught[n]?).map CaughtEvent.vars =
      ((j.findUnconsumed? name).bind fun n => j.caught[n]?).map CaughtEvent.vars := by
    rw [hfind, hfind, h.mail]
  cases hi : i.findUnconsumed? name with
  | none =>
      cases hj : j.findUnconsumed? name with
      | none => exact .inl ⟨rfl, rfl⟩
      | some q =>
          obtain ⟨d, hd⟩ := hat j q hj
          simp [hi, hj, hd] at hsame
  | some p =>
      obtain ⟨c, hc⟩ := hat i p hi
      cases hj : j.findUnconsumed? name with
      | none => simp [hi, hj, hc] at hsame
      | some q =>
          obtain ⟨d, hd⟩ := hat j q hj
          have hvars : c.vars = d.vars := by simpa [hi, hj, hc, hd] using hsame
          exact .inr ⟨p, q, c, d, rfl, rfl, hc, hd, hvars⟩

/-! ## Changing -/

theorem push (h : i.Twin j) {a b : Activity} (hab : a.keyless = b.keyless) :
    (i.push a).Twin (j.push b) where
  key := h.key
  definition := h.definition
  vars := h.vars
  createdAt := h.createdAt
  state := h.state
  mail := h.mail
  activities := by simp [Instance.push, h.activities, hab]

theorem modifyActivity (h : i.Twin j) (n : Nat) {f : Activity → Activity}
    (hf : ∀ a, (f a).keyless = f a.keyless) :
    (i.modifyActivity n f).Twin (j.modifyActivity n f) where
  key := h.key
  definition := h.definition
  vars := h.vars
  createdAt := h.createdAt
  state := h.state
  mail := h.mail
  activities := by
    have hmap : ∀ activities : List Activity, (activities.modify n f).map Activity.keyless =
        (activities.map Activity.keyless).modify n f := by
      intro activities
      refine List.ext_getElem? fun m => ?_
      rw [List.getElem?_map, List.getElem?_modify, List.getElem?_modify, List.getElem?_map]
      cases activities[m]? with
      | none => rfl
      | some a =>
          by_cases hm : n = m
          · simp [hm, hf]
          · simp [hm]
    show (i.activities.modify n f).map _ = (j.activities.modify n f).map _
    rw [hmap, hmap, h.activities]

theorem winRace (h : i.Twin j) (origin : Option Nat) (branch : String) :
    (i.winRace origin branch).Twin (j.winRace origin branch) := by
  cases origin with
  | none => exact h
  | some n => exact h.modifyActivity n (Activity.keyless_winRace branch)

theorem settleRace (h : i.Twin j) (gateway : Nat) :
    (i.settleRace gateway).Twin (j.settleRace gateway) := by
  unfold Instance.settleRace
  rw [h.raceAt?]
  split
  · exact h
  · refine ⟨h.key, h.definition, h.vars, h.createdAt, h.state, h.mail, ?_⟩
    have hmap : ∀ activities : List Activity,
        (activities.map fun a => if a.origin = some gateway then a.settle else a).map
            Activity.keyless =
          (activities.map Activity.keyless).map fun a =>
            if a.origin = some gateway then a.settle else a := by
      intro activities
      rw [List.map_map, List.map_map]
      refine List.map_congr_left fun a _ => ?_
      by_cases ha : a.origin = some gateway
      · have hkeyless : a.keyless.origin = some gateway := ha
        simp [ha, hkeyless]
      · have hkeyless : ¬ a.keyless.origin = some gateway := ha
        simp [ha, hkeyless]
    rw [hmap, hmap, h.activities]

theorem withVars (h : i.Twin j) (vars : Variables) :
    ({ i with vars } : Instance).Twin { j with vars } :=
  ⟨h.key, h.definition, rfl, h.createdAt, h.state, h.mail, h.activities⟩

theorem withState (h : i.Twin j) (state : InstanceState) :
    ({ i with state } : Instance).Twin { j with state } :=
  ⟨h.key, h.definition, h.vars, h.createdAt, rfl, h.mail, h.activities⟩

/-- The same event is consumed in twins. -/
theorem consume (h : i.Twin j) {name : String} {p q : Nat}
    (hp : i.findUnconsumed? name = some p) (hq : j.findUnconsumed? name = some q) :
    (i.consume p).Twin (j.consume q) where
  key := h.key
  definition := h.definition
  vars := h.vars
  createdAt := h.createdAt
  state := h.state
  mail other := by
    show mailOf other (i.caught.modify p _) = mailOf other (j.caught.modify q _)
    rw [mailOf_modify hp, mailOf_modify hq, h.mail]
  activities := h.activities

end Twin

end Instance

end ProcessEngine
