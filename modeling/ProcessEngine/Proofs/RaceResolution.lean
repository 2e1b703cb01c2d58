import ProcessEngine.Proofs.EngineReachability

/-!
# How races are resolved

Behind an event-based gateway its catch events race, and the gateway's activity
keeps the element id of the winner.  A branch that is served makes itself the
winner and queues the command that closes the others.  A branch that is opened
late queues the command as well, so while there is a winner, no branch waits
without a `settleRace` command of its gateway in the queue.

`Instance.Racing announced` states this for the gateways that are announced in
the queue.  Every command keeps it, and when the queue has run empty, nothing
is announced any more: the races of the instance are resolved.

Main statement: `races_resolved`, for all instances that have not failed.
-/

namespace ProcessEngine

namespace Instance

/-- The wait at a position. -/
def waitAt? (i : Instance) (n : Nat) : Option Activity :=
  i.activities[n]?.filter Activity.isWait

/-- The waits behind an event-based gateway. -/
def branches (i : Instance) (g : Nat) : List Activity :=
  i.activities.filter fun a => a.isWait && a.origin == some g

/-- Nothing about waits and races is different. -/
structure SameRaces (i j : Instance) : Prop where
  waits : ∀ n, j.waitAt? n = i.waitAt? n
  races : ∀ g, j.raceAt? (some g) = i.raceAt? (some g)

/-- All races are on course: served branches bear the id of the winner, losing
branches were withdrawn only after there was a winner, and a winner's race is
announced as long as a branch of it waits. -/
structure Racing (i : Instance) (announced : Nat → Prop) : Prop where
  intact : ∀ ⦃n : Nat⦄ ⦃b : Activity⦄, i.waitAt? n = some b →
    b.isWaiting = true ∨ b.isServed = true ∨ b.isWithdrawn = true
  served : ∀ ⦃n g : Nat⦄ ⦃b : Activity⦄ ⦃race : Race⦄, i.waitAt? n = some b →
    b.origin = some g → i.raceAt? (some g) = some race → b.isServed = true →
    race.winner = b.elementId?
  withdrawn : ∀ ⦃n g : Nat⦄ ⦃b : Activity⦄ ⦃race : Race⦄, i.waitAt? n = some b →
    b.origin = some g → i.raceAt? (some g) = some race → b.isWithdrawn = true →
    race.winner.isSome = true
  waiting : ∀ ⦃n g : Nat⦄ ⦃b : Activity⦄ ⦃race : Race⦄, i.waitAt? n = some b →
    b.origin = some g → i.raceAt? (some g) = some race → b.isWaiting = true →
    race.winner.isSome = true → announced g
  won : ∀ ⦃g : Nat⦄ ⦃race : Race⦄ ⦃winner : String⦄, i.raceAt? (some g) = some race →
    race.winner = some winner →
    ∃ n b, i.waitAt? n = some b ∧ b.origin = some g ∧ b.isServed = true ∧
      b.elementId? = some winner

/-! ## Looking at waits and races -/

theorem waitAt?_eq_some {i : Instance} {n : Nat} {b : Activity} :
    i.waitAt? n = some b ↔ i.activities[n]? = some b ∧ b.isWait = true := by
  simp [waitAt?, Option.filter_eq_some_iff]

theorem raceAt?_eq_some {i : Instance} {g : Nat} {race : Race} :
    i.raceAt? (some g) = some race ↔ ∃ a, i.activities[g]? = some a ∧ a.body = .race race := by
  simp only [raceAt?, Option.bind_some, Option.bind_eq_some_iff]
  constructor
  · rintro ⟨a, ha, hrace⟩
    refine ⟨a, ha, ?_⟩
    unfold Activity.race? at hrace
    split at hrace
    · rename_i hb
      cases hrace
      exact hb
    · cases hrace
  · rintro ⟨a, ha, hb⟩
    exact ⟨a, ha, by simp [Activity.race?, hb]⟩

theorem SameRaces.of_activities {i j : Instance} (h : j.activities = i.activities) :
    SameRaces i j := by
  constructor
  · intro n
    rw [waitAt?, h, waitAt?]
  · intro g
    simp only [raceAt?, h]

/-- Races on course stay so where nothing about them is different. -/
theorem Racing.same {i j : Instance} {announced : Nat → Prop} (h : i.Racing announced)
    (hsame : SameRaces i j) : j.Racing announced where
  intact n b hb := h.intact (hsame.waits n ▸ hb)
  served n g b race hb ho hrace := h.served (hsame.waits n ▸ hb) ho (hsame.races g ▸ hrace)
  withdrawn n g b race hb ho hrace :=
    h.withdrawn (hsame.waits n ▸ hb) ho (hsame.races g ▸ hrace)
  waiting n g b race hb ho hrace := h.waiting (hsame.waits n ▸ hb) ho (hsame.races g ▸ hrace)
  won g race winner hrace hwinner := by
    obtain ⟨n, b, hb, hrest⟩ := h.won (hsame.races g ▸ hrace) hwinner
    exact ⟨n, b, (hsame.waits n).trans hb, hrest⟩

/-- More may be announced than is needed. -/
theorem Racing.mono {i : Instance} {announced announced' : Nat → Prop} (h : i.Racing announced)
    (hall : ∀ g, announced g → announced' g) : i.Racing announced' where
  intact := h.intact
  served := h.served
  withdrawn := h.withdrawn
  waiting _ g _ _ hb ho hrace hwait hwon := hall g (h.waiting hb ho hrace hwait hwon)
  won := h.won

theorem waitAt?_modifyActivity_ne (i : Instance) {m n : Nat} (h : m ≠ n)
    (f : Activity → Activity) : (i.modifyActivity n f).waitAt? m = i.waitAt? m := by
  simp [waitAt?, modifyActivity, Ne.symm h]

theorem raceAt?_modifyActivity_ne (i : Instance) {g n : Nat} (h : g ≠ n)
    (f : Activity → Activity) : (i.modifyActivity n f).raceAt? (some g) = i.raceAt? (some g) := by
  simp [raceAt?, modifyActivity, Ne.symm h]

/-- A change to what is neither a wait nor a race. -/
theorem sameRaces_modifyActivity {i : Instance} {n : Nat} {a : Activity}
    {f : Activity → Activity} (ha : i.activities[n]? = some a)
    (hwait : a.isWait = false) (hrace : a.race? = none) (hwait' : (f a).isWait = false)
    (hrace' : (f a).race? = none) : SameRaces i (i.modifyActivity n f) := by
  constructor
  · intro m
    by_cases hm : m = n
    · subst hm
      simp [waitAt?, modifyActivity, ha, hwait, hwait', Option.filter]
    · exact i.waitAt?_modifyActivity_ne hm f
  · intro g
    by_cases hg : g = n
    · subst hg
      simp [raceAt?, modifyActivity, ha, hrace, hrace']
    · exact i.raceAt?_modifyActivity_ne hg f

theorem race?_of_isWait {a : Activity} (h : a.isWait = true) : a.race? = none := by
  unfold Activity.race?
  split
  · rename_i hbody
    simp [Activity.isWait, hbody, ActivityBody.isWait] at h
  · rfl

/-- A change to a wait that leaves it a wait. -/
theorem raceAt?_modifyActivity_of_isWait {i : Instance} {n : Nat} {a : Activity}
    {f : Activity → Activity} (ha : i.activities[n]? = some a) (hwait : a.isWait = true)
    (hwait' : (f a).isWait = true) (g : Nat) :
    (i.modifyActivity n f).raceAt? (some g) = i.raceAt? (some g) := by
  by_cases hg : g = n
  · subst hg
    simp [raceAt?, modifyActivity, ha, race?_of_isWait hwait, race?_of_isWait hwait']
  · exact i.raceAt?_modifyActivity_ne hg f

theorem waitAt?_winRace (i : Instance) (origin : Option Nat) (id : String) (m : Nat) :
    (i.winRace origin id).waitAt? m = i.waitAt? m := by
  cases origin with
  | none => rfl
  | some n =>
      by_cases hm : m = n
      · subst hm
        simp only [waitAt?, winRace, modifyActivity, List.getElem?_modify_eq, Option.map_eq_map]
        cases i.activities[m]? with
        | none => rfl
        | some a =>
            cases hb : a.body <;>
              simp [Activity.winRace, hb, Activity.isWait, ActivityBody.isWait, Option.filter]
      · exact i.waitAt?_modifyActivity_ne hm _

theorem raceAt?_winRace (i : Instance) (origin : Option Nat) (id : String) (g : Nat) :
    (i.winRace origin id).raceAt? (some g) =
      if origin = some g then
        (i.raceAt? (some g)).map fun race => { race with winner := some (race.winner.getD id) }
      else i.raceAt? (some g) := by
  cases origin with
  | none => rfl
  | some n =>
      by_cases hg : g = n
      · subst hg
        simp only [raceAt?, winRace, modifyActivity, List.getElem?_modify_eq, Option.map_eq_map,
          Option.bind_some, if_true]
        cases i.activities[g]? with
        | none => rfl
        | some a => cases hb : a.body <;> simp [Activity.winRace, hb, Activity.race?]
      · rw [if_neg (by simpa using Ne.symm hg)]
        exact i.raceAt?_modifyActivity_ne hg _

/-! ## What keeps races on course -/

/-- Whether a race is lost, in terms of its winner. -/
theorem raceLost_some (i : Instance) (g : Nat) (id : String) :
    i.raceLost (some g) id = (i.raceAt? (some g)).any fun race =>
      race.winner.any fun winner => winner != id := by
  unfold raceLost
  cases i.raceAt? (some g) <;> rfl

/-- The waits after something is appended. -/
theorem waitAt?_push_cases {i : Instance} {a b : Activity} {n : Nat}
    (hb : (i.push a).waitAt? n = some b) :
    i.waitAt? n = some b ∨ (b = a ∧ a.isWait = true) := by
  obtain ⟨hb, hwait⟩ := waitAt?_eq_some.mp hb
  simp only [Instance.push] at hb
  by_cases hn : n < i.activities.length
  · rw [List.getElem?_append_left hn] at hb
    exact .inl (waitAt?_eq_some.mpr ⟨hb, hwait⟩)
  · rw [List.getElem?_append_right (by omega)] at hb
    obtain rfl : b = a := by simpa using List.mem_of_getElem? hb
    exact .inr ⟨rfl, hwait⟩

/-- What waited still does after something is appended. -/
theorem waitAt?_push {i : Instance} {n : Nat} {b : Activity} (hb : i.waitAt? n = some b)
    (a : Activity) : (i.push a).waitAt? n = some b := by
  obtain ⟨hb, hwait⟩ := waitAt?_eq_some.mp hb
  refine waitAt?_eq_some.mpr ⟨?_, hwait⟩
  simp only [Instance.push]
  rw [List.getElem?_append_left (List.getElem?_eq_some_iff.mp hb).1, hb]

/-- The races after something is appended. -/
theorem raceAt?_push_cases {i : Instance} {a : Activity} {g : Nat} {race : Race}
    (hr : (i.push a).raceAt? (some g) = some race) :
    i.raceAt? (some g) = some race ∨ (i.activities.length ≤ g ∧ a.body = .race race) := by
  by_cases hg : g < i.activities.length
  · refine .inl ?_
    simpa only [raceAt?, Instance.push, Option.bind_some, List.getElem?_append_left hg] using hr
  · obtain ⟨c, hc, hbody⟩ := raceAt?_eq_some.mp hr
    simp only [Instance.push] at hc
    rw [List.getElem?_append_right (by omega)] at hc
    obtain rfl : c = a := by simpa using List.mem_of_getElem? hc
    exact .inr ⟨by omega, hbody⟩

/-- **A new branch waits, and a new race has no winner.** -/
theorem Racing.push {i : Instance} {announced : Nat → Prop} {a : Activity}
    (h : i.Racing announced)
    (hi : ∀ ⦃n : Nat⦄ ⦃b : Activity⦄ ⦃g : Nat⦄, i.activities[n]? = some b → b.origin = some g →
      g < n)
    (hwait : a.isWait = true → a.isWaiting = true)
    (hrace : ∀ race, a.body = .race race → race.winner = none)
    (hannounced : a.isWait = true → ∀ g, a.origin = some g → announced g) :
    (i.push a).Racing announced := by
  -- the race of an old branch is an old one
  have hold : ∀ {n b g race}, i.waitAt? n = some b → b.origin = some g →
      (i.push a).raceAt? (some g) = some race → i.raceAt? (some g) = some race := by
    intro n b g race hb ho hr
    have hb := (waitAt?_eq_some.mp hb).1
    have hg := Nat.lt_trans (hi hb ho) (List.getElem?_eq_some_iff.mp hb).1
    exact (raceAt?_push_cases hr).resolve_right fun ⟨hle, _⟩ => Nat.not_lt.mpr hle hg
  refine ⟨?_, ?_, ?_, ?_, ?_⟩
  · intro n b hb
    rcases waitAt?_push_cases hb with hb | ⟨rfl, hw⟩
    · exact h.intact hb
    · exact .inl (hwait hw)
  · intro n g b race hb ho hr hserved
    rcases waitAt?_push_cases hb with hb | ⟨rfl, hw⟩
    · exact h.served hb ho (hold hb ho hr) hserved
    · rw [Activity.isServed_of_isWaiting (hwait hw)] at hserved
      cases hserved
  · intro n g b race hb ho hr hwithdrawn
    rcases waitAt?_push_cases hb with hb | ⟨rfl, hw⟩
    · exact h.withdrawn hb ho (hold hb ho hr) hwithdrawn
    · rw [Activity.isWithdrawn_of_isWaiting (hwait hw)] at hwithdrawn
      cases hwithdrawn
  · intro n g b race hb ho hr hw hwon
    rcases waitAt?_push_cases hb with hb | ⟨rfl, hw'⟩
    · exact h.waiting hb ho (hold hb ho hr) hw hwon
    · exact hannounced hw' g ho
  · intro g race winner hr hwinner
    rcases raceAt?_push_cases hr with hr | ⟨_, hbody⟩
    · obtain ⟨n, b, hb, hrest⟩ := h.won hr hwinner
      exact ⟨n, b, waitAt?_push hb a, hrest⟩
    · rw [hrace race hbody] at hwinner
      cases hwinner

/-! ## Withdrawing branches -/

/-- The races are the same in `j`, and only branches of races that are won
were withdrawn since `i`. -/
structure Withdraws (i j : Instance) : Prop where
  races : ∀ g, j.raceAt? (some g) = i.raceAt? (some g)
  waits : ∀ ⦃n : Nat⦄ ⦃b : Activity⦄, j.waitAt? n = some b → i.waitAt? n = some b ∨
    (b.isWithdrawn = true ∧ ∀ g race, b.origin = some g → i.raceAt? (some g) = some race →
      race.winner.isSome = true)
  served : ∀ ⦃n : Nat⦄ ⦃b : Activity⦄, i.waitAt? n = some b → b.isServed = true →
    j.waitAt? n = some b

/-- **Branches of races that are won may be withdrawn.** -/
theorem Racing.withdraws {i j : Instance} {announced : Nat → Prop} (h : i.Racing announced)
    (hij : Withdraws i j) : j.Racing announced := by
  refine ⟨?_, ?_, ?_, ?_, ?_⟩
  · intro n b hb
    rcases hij.waits hb with hb | ⟨hwithdrawn, _⟩
    · exact h.intact hb
    · exact .inr (.inr hwithdrawn)
  · intro n g b race hb ho hr hserved
    rw [hij.races] at hr
    rcases hij.waits hb with hb | ⟨hwithdrawn, _⟩
    · exact h.served hb ho hr hserved
    · rw [Activity.isWithdrawn_of_isServed hserved] at hwithdrawn
      cases hwithdrawn
  · intro n g b race hb ho hr hwithdrawn
    rw [hij.races] at hr
    rcases hij.waits hb with hb | ⟨_, hwon⟩
    · exact h.withdrawn hb ho hr hwithdrawn
    · exact hwon g race ho hr
  · intro n g b race hb ho hr hwait hwon
    rw [hij.races] at hr
    rcases hij.waits hb with hb | ⟨hwithdrawn, _⟩
    · exact h.waiting hb ho hr hwait hwon
    · rw [Activity.isWithdrawn_of_isWaiting hwait] at hwithdrawn
      cases hwithdrawn
  · intro g race winner hr hwinner
    rw [hij.races] at hr
    obtain ⟨n, b, hb, ho, hserved, hid⟩ := h.won hr hwinner
    exact ⟨n, b, hij.served hb hserved, ho, hserved, hid⟩

/-- The waits after a change to one of them. -/
theorem waitAt?_modifyActivity_cases {i : Instance} {m n : Nat} {a b : Activity}
    {f : Activity → Activity} (ha : i.activities[n]? = some a)
    (hb : (i.modifyActivity n f).waitAt? m = some b) :
    (m ≠ n ∧ i.waitAt? m = some b) ∨ (m = n ∧ b = f a) := by
  by_cases hm : m = n
  · subst hm
    have hself := (waitAt?_eq_some.mp hb).1
    simp only [modifyActivity, List.getElem?_modify_eq, ha, Option.map_eq_map, Option.map_some,
      Option.some.injEq] at hself
    exact .inr ⟨rfl, hself.symm⟩
  · exact .inl ⟨hm, by rwa [i.waitAt?_modifyActivity_ne hm] at hb⟩

section AtWait

variable {i : Instance} {announced : Nat → Prop} {n : Nat} {a : Activity}

/-- A branch that was served is not the one that still waits. -/
theorem ne_of_isServed (ha : i.activities[n]? = some a) (hwait : a.isWaiting = true) {m : Nat}
    {b : Activity} (hb : i.waitAt? m = some b) (hserved : b.isServed = true) : m ≠ n := by
  rintro rfl
  obtain rfl : a = b := Option.some.inj (ha.symm.trans (waitAt?_eq_some.mp hb).1)
  rw [Activity.isServed_of_isWaiting hwait] at hserved
  cases hserved

/-- **A branch of a race that is lost is withdrawn.** -/
theorem withdraws_settle (ha : i.activities[n]? = some a) (hwait : a.isWaiting = true)
    {id : String} (hlost : i.raceLost a.origin id = true) :
    Withdraws i (i.modifyActivity n Activity.settle) := by
  have hwithdrawn := Activity.isWithdrawn_settle hwait
  refine ⟨raceAt?_modifyActivity_of_isWait ha (Activity.isWait_of_isWaiting hwait)
    (Activity.isWait_of_isWithdrawn hwithdrawn), ?_, ?_⟩
  · intro m b hb
    rcases waitAt?_modifyActivity_cases ha hb with ⟨_, hold⟩ | ⟨_, rfl⟩
    · exact .inl hold
    · refine .inr ⟨hwithdrawn, fun g race ho hr => ?_⟩
      rw [Activity.origin_eq_of_frame a.frame_settle] at ho
      rw [ho, raceLost_some, hr, Option.any_some] at hlost
      cases hwinner : race.winner with
      | none => simp [hwinner] at hlost
      | some winner => rfl
  · intro m b hb hserved
    rwa [i.waitAt?_modifyActivity_ne (ne_of_isServed ha hwait hb hserved)]

/-- The races once a branch has won its own: the one behind it is won for its
element id. -/
theorem raceAt?_winRace_cases {origin : Option Nat} {id : String} {g : Nat} {race : Race}
    (hopen : i.raceLost origin id = false)
    (hr : (i.winRace origin id).raceAt? (some g) = some race) :
    (origin ≠ some g ∧ i.raceAt? (some g) = some race) ∨
      (origin = some g ∧ race.winner = some id ∧ ∃ before, i.raceAt? (some g) = some before ∧
        ∀ winner, before.winner = some winner → winner = id) := by
  rw [raceAt?_winRace] at hr
  split at hr
  · rename_i ho
    obtain ⟨before, hbefore, rfl⟩ := Option.map_eq_some_iff.mp hr
    rw [ho, raceLost_some, hbefore, Option.any_some] at hopen
    have hbeforehand : ∀ winner, before.winner = some winner → winner = id := by
      intro winner hwinner
      simpa [hwinner] using hopen
    refine .inr ⟨ho, ?_, before, hbefore, hbeforehand⟩
    cases hwinner : before.winner with
    | none => rfl
    | some winner => simp [hbeforehand winner hwinner]
  · rename_i ho
    exact .inl ⟨ho, hr⟩

/-- **A branch that is served wins its race**, or the one with its element id
has won it already. -/
theorem Racing.serve (h : i.Racing announced) (ha : i.activities[n]? = some a)
    (hwait : a.isWaiting = true) {id : String} (hid : a.elementId? = some id)
    (hrace : i.raceLost a.origin id = false)
    (hannounced : ∀ g, a.origin = some g → announced g) :
    ((i.modifyActivity n Activity.serve).winRace a.origin id).Racing announced := by
  have hserve := Activity.isServed_serve hwait
  have hself : (i.modifyActivity n Activity.serve).activities[n]? = some a.serve := by
    simp [modifyActivity, ha]
  have horigin : a.serve.origin = a.origin := Activity.origin_eq_of_frame a.frame_serve
  have hid' : a.serve.elementId? = some id := by
    rw [Activity.elementId?_eq_of_frame a.frame_serve, hid]
  have hraces : ∀ g, (i.modifyActivity n Activity.serve).raceAt? (some g) = i.raceAt? (some g) :=
    raceAt?_modifyActivity_of_isWait ha (Activity.isWait_of_isWaiting hwait)
      (Activity.isWait_of_isServed hserve)
  have hopen : (i.modifyActivity n Activity.serve).raceLost a.origin id = false := by
    cases ho : a.origin with
    | none => rfl
    | some g => rwa [raceLost_some, hraces, ← raceLost_some, ← ho]
  have hwaits : ∀ {m b}, ((i.modifyActivity n Activity.serve).winRace a.origin id).waitAt? m =
      some b → (m ≠ n ∧ i.waitAt? m = some b) ∨ (m = n ∧ b = a.serve) := by
    intro m b hb
    rw [waitAt?_winRace] at hb
    exact waitAt?_modifyActivity_cases ha hb
  refine ⟨?_, ?_, ?_, ?_, ?_⟩
  · intro m b hb
    rcases hwaits hb with ⟨_, hold⟩ | ⟨_, rfl⟩
    · exact h.intact hold
    · exact .inr (.inl hserve)
  · intro m g b race hb ho hr hserved
    rcases hwaits hb with ⟨_, hold⟩ | ⟨_, rfl⟩
    · rcases raceAt?_winRace_cases hopen hr with ⟨_, hr⟩ | ⟨_, hwinner, before, hbefore, hsame⟩
      · exact h.served hold ho (hraces g ▸ hr) hserved
      · -- a branch that was served before bears the id of the winner before
        have hold' := h.served hold ho (hraces g ▸ hbefore) hserved
        obtain ⟨w, hw⟩ := Option.isSome_iff_exists.mp
          (Activity.isSome_elementId? (waitAt?_eq_some.mp hold).2)
        rw [hwinner, hw, hsame w (hold'.trans hw)]
    · rcases raceAt?_winRace_cases hopen hr with ⟨ho', _⟩ | ⟨_, hwinner, _⟩
      · exact absurd (horigin.symm.trans ho) ho'
      · rw [hwinner, hid']
  · intro m g b race hb ho hr hw
    rcases hwaits hb with ⟨_, hold⟩ | ⟨_, rfl⟩
    · rcases raceAt?_winRace_cases hopen hr with ⟨_, hr⟩ | ⟨_, hwinner, _⟩
      · exact h.withdrawn hold ho (hraces g ▸ hr) hw
      · rw [hwinner]
        rfl
    · rw [Activity.isWithdrawn_of_isServed hserve] at hw
      cases hw
  · intro m g b race hb ho hr hw hwon
    rcases hwaits hb with ⟨_, hold⟩ | ⟨_, rfl⟩
    · rcases raceAt?_winRace_cases hopen hr with ⟨_, hr⟩ | ⟨ho', _⟩
      · exact h.waiting hold ho (hraces g ▸ hr) hw hwon
      · exact hannounced g ho'
    · rw [Activity.isServed_of_isWaiting hw] at hserve
      cases hserve
  · intro g race winner hr hwinner
    rcases raceAt?_winRace_cases hopen hr with ⟨_, hr⟩ | ⟨ho', hwinner', _⟩
    · obtain ⟨m, b, hb, ho, hserved, hbid⟩ := h.won (hraces g ▸ hr) hwinner
      refine ⟨m, b, ?_, ho, hserved, hbid⟩
      rwa [waitAt?_winRace, i.waitAt?_modifyActivity_ne (ne_of_isServed ha hwait hb hserved)]
    · obtain rfl : id = winner := Option.some.inj (hwinner'.symm.trans hwinner)
      refine ⟨n, a.serve, ?_, horigin.trans ho', hserve, hid'⟩
      rw [waitAt?_winRace]
      exact waitAt?_eq_some.mpr ⟨hself, Activity.isWait_of_isServed hserve⟩

end AtWait

/-- The activity after the race of a gateway is settled. -/
def settled (gateway : Nat) (a : Activity) : Activity :=
  if a.origin = some gateway then a.settle else a

theorem frame_settled (gateway : Nat) (a : Activity) : (settled gateway a).frame = a.frame := by
  unfold settled
  split <;> simp

/-- Settling has an effect on waits that wait, and only behind the gateway. -/
theorem settled_cases (gateway : Nat) (a : Activity) :
    settled gateway a = a ∧ (a.origin = some gateway → a.isWaiting = false) ∨
      a.origin = some gateway ∧ a.isWaiting = true ∧
        (settled gateway a).isWithdrawn = true := by
  unfold settled
  split
  · rename_i ho
    cases hw : a.isWaiting with
    | true => exact .inr ⟨ho, rfl, Activity.isWithdrawn_settle hw⟩
    | false => exact .inl ⟨Activity.settle_of_not_isWaiting hw, fun _ => rfl⟩
  · rename_i ho
    exact .inl ⟨rfl, fun h => absurd h ho⟩

theorem race?_settled (gateway : Nat) (a : Activity) : (settled gateway a).race? = a.race? := by
  rcases settled_cases gateway a with ⟨heq, _⟩ | ⟨_, hwaiting, hwithdrawn⟩
  · rw [heq]
  · rw [race?_of_isWait (Activity.isWait_of_isWaiting hwaiting),
      race?_of_isWait (Activity.isWait_of_isWithdrawn hwithdrawn)]

/-- The waits after all branches of a gateway are settled. -/
theorem waitAt?_map_settled (i : Instance) (gateway n : Nat) :
    ({ i with activities := i.activities.map (settled gateway) } : Instance).waitAt? n =
      (i.waitAt? n).map (settled gateway) := by
  simp only [waitAt?, List.getElem?_map]
  cases i.activities[n]? with
  | none => rfl
  | some a =>
      have hwait := Activity.isWait_eq_of_frame (frame_settled gateway a)
      by_cases ha : a.isWait = true <;> simp [Option.filter, hwait, ha]

/-- The races after all branches of a gateway are settled. -/
theorem raceAt?_map_settled (i : Instance) (gateway g : Nat) :
    ({ i with activities := i.activities.map (settled gateway) } : Instance).raceAt? (some g) =
      i.raceAt? (some g) := by
  simp only [raceAt?, Option.bind_some, List.getElem?_map]
  cases i.activities[g]? with
  | none => rfl
  | some a => exact race?_settled gateway a

/-- All branches of a race that is won are withdrawn at once. -/
theorem withdraws_map_settled {i : Instance} {gateway : Nat} {won : Race}
    (hwon : i.raceAt? (some gateway) = some won) (hwinner : won.winner.isSome = true) :
    Withdraws i { i with activities := i.activities.map (settled gateway) } := by
  refine ⟨i.raceAt?_map_settled gateway, ?_, ?_⟩
  · intro n b hb
    rw [waitAt?_map_settled] at hb
    obtain ⟨a, ha, rfl⟩ := Option.map_eq_some_iff.mp hb
    rcases settled_cases gateway a with ⟨heq, _⟩ | ⟨ho', _, hwithdrawn⟩
    · exact .inl (heq.symm ▸ ha)
    · refine .inr ⟨hwithdrawn, fun g race ho hr => ?_⟩
      rw [Activity.origin_eq_of_frame (frame_settled gateway a), ho'] at ho
      obtain rfl := Option.some.inj ho
      obtain rfl := Option.some.inj (hwon.symm.trans hr)
      exact hwinner
  · intro n b hb hserved
    rw [waitAt?_map_settled, hb, Option.map_some]
    rcases settled_cases gateway b with ⟨heq, _⟩ | ⟨_, hwaiting, _⟩
    · rw [heq]
    · rw [Activity.isServed_of_isWaiting hwaiting] at hserved
      cases hserved

/-- A race no branch of which waits need not be announced any longer. -/
theorem Racing.conclude {i : Instance} {announced : Nat → Prop} (h : i.Racing announced)
    {gateway : Nat} (hnone : ∀ n b race, i.waitAt? n = some b → b.origin = some gateway →
      i.raceAt? (some gateway) = some race → race.winner.isSome = true → b.isWaiting = false) :
    i.Racing fun g => announced g ∧ g ≠ gateway := by
  refine ⟨h.intact, h.served, h.withdrawn, fun n g b race hb ho hr hw hwon => ?_, h.won⟩
  refine ⟨h.waiting hb ho hr hw hwon, ?_⟩
  rintro rfl
  rw [hnone n b race hb ho hr hwon] at hw
  cases hw

/-- **Settling a race closes all its branches.** -/
theorem Racing.settle {i : Instance} {announced : Nat → Prop} (h : i.Racing announced)
    (gateway : Nat) :
    (i.settleRace gateway).Racing fun g => announced g ∧ g ≠ gateway := by
  unfold settleRace
  split
  · rename_i hnone
    refine h.conclude fun n b race _ _ hr hwon => ?_
    rw [hr, Option.bind_some] at hnone
    simp [hnone] at hwon
  · rename_i winner hsome
    obtain ⟨won, hwon, hwinner⟩ := Option.bind_eq_some_iff.mp hsome
    change ({ i with activities := i.activities.map (settled gateway) } : Instance).Racing _
    refine (h.withdraws (withdraws_map_settled hwon (by simp [hwinner]))).conclude ?_
    intro n b race hb ho _ _
    rw [waitAt?_map_settled] at hb
    obtain ⟨a, ha, rfl⟩ := Option.map_eq_some_iff.mp hb
    rcases settled_cases gateway a with ⟨heq, hopen⟩ | ⟨_, _, hwithdrawn⟩
    · rw [heq] at ho ⊢
      exact hopen ho
    · cases hwaiting : (settled gateway a).isWaiting with
      | false => rfl
      | true =>
          rw [Activity.isWithdrawn_of_isWaiting hwaiting] at hwithdrawn
          cases hwithdrawn

end Instance

namespace Run

open Instance

section Moves

variable {element : Nat} {e : Element} {origin : Option Nat} {n : Nat} {r r' : Run}
  {announced : Nat → Prop}

/-! ## Races under moves -/

/-- An activity with a job or a gateway takes no part in races. -/
theorem sameRaces_of_frame {a : Activity} {f : Activity → Activity}
    (ha : r.activity? n = some a) (hframe : (f a).frame = a.frame)
    (hbody : (∃ j, a.body = .job j) ∨ ∃ g, a.body = .gateway g) :
    SameRaces r.inst (r.modifyActivity n f).inst := by
  have hwait : a.isWait = false := by
    rcases hbody with ⟨j, hb⟩ | ⟨g, hb⟩ <;> simp [Activity.isWait, hb, ActivityBody.isWait]
  have hrace : ∀ b : Activity, b.frame = a.frame → b.race? = none := by
    intro b hb
    have hb' : b.body.frame = a.body.frame := congrArg Activity.body hb
    rcases hbody with ⟨j, hj⟩ | ⟨g, hg⟩ <;>
      cases hbb : b.body <;> simp_all [ActivityBody.frame, Activity.race?]
  exact sameRaces_modifyActivity ha hwait (hrace a rfl)
    (by rw [Activity.isWait_eq_of_frame hframe, hwait]) (hrace _ hframe)

/-- **A move keeps races on course** if the race that its activity takes part in
is announced. -/
theorem Move.racing (h : Move element e origin n r r') (hr : r.inst.Sound)
    (hannounced : e.kind = .catchEvent → ∀ g, r'.originOf n = some g → announced g)
    (hracing : r.inst.Racing announced) : r'.inst.Racing announced := by
  cases h with
  | report => exact hracing
  | call => exact hracing
  | outputs h => exact hracing.same (.of_activities (writeOutputs_activities h))
  | @opened r' body hbody hopen =>
      have hnew := activity?_open hopen
      obtain ⟨-, rfl, rfl⟩ := open?_eq_some hopen
      refine hracing.push hr.origin_lt ?_ ?_ ?_
      · intro hwait
        cases hbody <;> first | rfl | cases hwait
      · intro race hrace
        cases hbody <;> cases hrace
        rfl
      · intro hwait g ho
        refine hannounced ?_ g (by rw [originOf, hnew]; exact ho)
        cases hbody with
        | timer hkind => exact hkind
        | subscription hkind => exact hkind
        | _ => cases hwait
  | complete => exact hracing.same (.of_activities rfl)
  | finishJob vars ha hj =>
      have hvars : (r.modify fun i => { i with vars }).inst.Racing announced :=
        hracing.same (.of_activities rfl)
      exact hvars.same (sameRaces_of_frame ha (Activity.frame_advance _ _) (.inl ⟨_, hj⟩))
  | failJob reason ha hj =>
      exact hracing.same (sameRaces_of_frame ha (by simp) (.inl ⟨_, hj⟩))
  | arrive flow ha hg =>
      exact hracing.same (sameRaces_of_frame ha (Activity.frame_recordInbound _ _) (.inr ⟨_, hg⟩))
  | fire ha hg =>
      exact hracing.same (sameRaces_of_frame ha (Activity.frame_advance _ _) (.inr ⟨_, hg⟩))
  | withdraw _ ha hwait _ hlost => exact hracing.withdraws (withdraws_settle ha hwait hlost)
  | @message r₁ a s position caught hkind ha hs hwait hid hrace _ _ hreceive =>
      have hactivities := receive_activities hreceive
      have ha₁ : r₁.inst.activities[n]? = some a := by rw [hactivities]; exact ha
      have hwaiting := isWaiting_subscription hs hwait
      refine (hracing.same (.of_activities hactivities)).serve ha₁ hwaiting ?_ ?_ ?_
      · simp [Activity.elementId?, hs, ActivityBody.elementId?, hid]
      · simpa only [raceLost, Instance.raceAt?, hactivities] using hrace
      · intro g ho
        refine hannounced hkind g ?_
        rw [originOf, activity?_serveWait_self ha₁ hwaiting]
        exact (Activity.origin_eq_of_frame a.frame_serve).trans ho
  | @trigger a t hkind ha ht hwait hid hrace =>
      have hwaiting := isWaiting_timer ht hwait
      refine hracing.serve ha hwaiting ?_ hrace ?_
      · simp [Activity.elementId?, ht, ActivityBody.elementId?, hid]
      · intro g ho
        refine hannounced hkind g ?_
        rw [originOf, activity?_serveWait_self ha hwaiting]
        exact (Activity.origin_eq_of_frame a.frame_serve).trans ho

theorem Moves.racing (h : Moves element e origin n r r') (hr : r.inst.Sound)
    (hwelcome : Welcome element e origin r)
    (hannounced : e.kind = .catchEvent → ∀ g, r'.originOf n = some g → announced g)
    (hracing : r.inst.Racing announced) : r'.inst.Racing announced := by
  induction h with
  | refl => exact hracing
  | @tail b c hmoves hmove ih =>
      obtain ⟨_, hstep⟩ := hmove.exists_grows
      exact hmove.racing (Moves.sound hmoves hr hwelcome) hannounced
        (ih fun hkind g ho => hannounced hkind g (hstep.originOf ho))

/-- **A visit announces the race that its activity takes part in.** -/
theorem Visits.racing {out : Run × List Command} (h : Visits element e origin r out)
    (hr : r.inst.Sound) (hwelcome : Welcome element e origin r)
    (hracing : r.inst.Racing announced) (hclean : ∀ c ∈ out.2, c.isFailure = false) :
    out.1.inst.Racing fun g => announced g ∨ .settleRace g ∈ out.2 := by
  cases h with
  | failed n error => cases hclean _ List.mem_cons_self
  | @visited r' n a extra flows h hfrom ha hadds hflows =>
      have hmoved : r'.inst.Racing fun g =>
          announced g ∨ (e.kind = .catchEvent ∧ r'.originOf n = some g) :=
        h.racing hr hwelcome (fun hkind g ho => .inr ⟨hkind, ho⟩)
          (hracing.mono fun g hg => .inl hg)
      refine ⟨hmoved.intact, hmoved.served, hmoved.withdrawn,
        fun m g b race hb ho hrace hwait hwon => ?_, hmoved.won⟩
      refine (hmoved.waiting hb ho hrace hwait hwon).imp id fun ⟨hkind, hg⟩ => ?_
      refine List.mem_append_left _ ?_
      cases hadds with
      | nothing hother => exact absurd hkind hother
      | race => simp [raceCommands, hg, hrace]
      | jump hother => simp [hkind] at hother

end Moves

/-! ## Races under runs -/

/-- The races of a run with its queue are on course. -/
def Work.Racing (work : Work) : Prop :=
  work.1.inst.Racing fun g => .settleRace g ∈ work.2

theorem dispatch_racing {r : Run} {c : Command} {queue : List Command} (hr : r.inst.Sound)
    (hc : c.Fits r.inst) (hclean : ∀ c' ∈ (r.dispatch c).2, c'.isFailure = false)
    (hracing : Work.Racing (r, c :: queue)) :
    Work.Racing ((r.dispatch c).1, queue ++ (r.dispatch c).2) := by
  have h := dispatch_spec r c
  generalize r.dispatch c = out at h hclean
  -- only a settle command takes an announcement with it when it leaves the queue
  have hkept : (∀ g, c ≠ .settleRace g) → r.inst.Racing fun g => .settleRace g ∈ queue := by
    intro hother
    refine hracing.mono fun g hg => ?_
    exact (List.mem_cons.mp hg).resolve_left fun heq => hother g heq.symm
  have hshown : ∀ {i : Instance} {cs : List Command},
      (i.Racing fun g => .settleRace g ∈ queue ∨ .settleRace g ∈ cs) →
        i.Racing fun g => .settleRace g ∈ queue ++ cs :=
    fun h => h.mono fun g hg => List.mem_append.mpr hg
  cases h with
  | idle hother => exact (hkept hother).mono fun g hg => List.mem_append_left _ hg
  | flows audit => exact (hkept (by simp)).mono fun g hg => List.mem_append_left _ hg
  | stuck error => exact (hkept (by simp)).mono fun g hg => List.mem_append_left _ hg
  | enter he h => exact hshown (h.racing hr (welcome_enter hc he) (hkept (by simp)) hclean)
  | resume ha he h =>
      exact hshown (h.racing hr (welcome_resume hr hc ha he) (hkept (by simp)) hclean)
  | settle gateway =>
      refine (hracing.settle gateway).mono fun g ⟨hg, hne⟩ => List.mem_append_left _ ?_
      exact (List.mem_cons.mp hg).resolve_left fun heq => hne (by simpa using heq)

theorem Reaches.racing {work next : Work} (h : Reaches work next) (hw : Work.Sound work)
    (hracing : Work.Racing work) : Work.Racing next :=
  h.keeps (fun hsound hclean => dispatch_racing hsound.1 (hsound.2 _ List.mem_cons_self) hclean)
    hw hracing

/-- A run starts with its races on course. -/
theorem seeds_racing {r : Run} (hgo : r.inst.state.terminal = false)
    (hracing : r.inst.state = .failed ∨ r.inst.Racing fun _ => False) :
    Work.Racing (r.activate, seeds r.inst) := by
  rcases hracing with hfailed | hracing
  · simp [hfailed, InstanceState.terminal] at hgo
  · have hactive : r.activate.inst.Racing fun _ => False := hracing.same (.of_activities rfl)
    exact hactive.mono fun g hg => hg.elim

/-- A run that does not fail leaves no race open. -/
theorem start?_racing {fuel : Nat} {r r' : Run} {error? : Option EngineError}
    (h : r.start? fuel = some (r', error?)) (hr : r.inst.Sound)
    (hracing : r.inst.state = .failed ∨ r.inst.Racing fun _ => False) :
    r'.inst.state = .failed ∨ r'.inst.Racing fun _ => False := by
  rcases start?_cases h with ⟨_, rfl, _⟩ | ⟨hgo, hends⟩
  · exact hracing
  · cases hends with
    | empty hreaches =>
        have hlast := hreaches.racing (seeds_sound hr) (seeds_racing hgo hracing)
        rw [inst_finish]
        exact .inr (hlast.mono fun g hg => by cases hg)
    | failed => exact .inl rfl

end Run

/-- Relinking leaves waits and races as they are. -/
theorem Instance.Sound.sameRaces_relinked {i : Instance} (hi : i.Sound) :
    i.SameRaces i.relinked := by
  have hsame : ∀ {n a}, i.activities[n]? = some a → a.body.isElement = false →
      i.relinkedActivity a = a := fun ha => (hi.fits ha).relinkedActivity
  constructor
  · intro n
    simp only [Instance.waitAt?, Instance.relinked, List.getElem?_map]
    cases ha : i.activities[n]? with
    | none => rfl
    | some a =>
        cases hbody : a.body.isElement with
        | false => rw [Option.map_some, hsame ha hbody]
        | true =>
            cases hb : a.body <;> simp [hb, ActivityBody.isElement] at hbody
            simp [Option.filter, Activity.isWait, Instance.relinkedActivity, hb,
              ActivityBody.isWait]
  · intro g
    simp only [Instance.raceAt?, Instance.relinked, Option.bind_some, List.getElem?_map]
    cases ha : i.activities[g]? with
    | none => rfl
    | some a => rfl

/-! ## Resolved races -/

/-- A race in its final order: without a winner no branch has been served or
withdrawn; with a winner, some branch with its element id has been served, all
served branches carry that id, and every other branch has been withdrawn. -/
def Race.Resolved (race : Race) (branches : List Activity) : Prop :=
  match race.winner with
  | none => ∀ b ∈ branches, b.isServed = false ∧ b.isWithdrawn = false
  | some winner =>
    (∃ b ∈ branches, b.isServed = true ∧ b.elementId? = some winner) ∧
      ∀ b ∈ branches, (b.isServed = true ∧ b.elementId? = some winner) ∨ b.isWithdrawn = true

theorem Instance.mem_branches {i : Instance} {g : Nat} {b : Activity} :
    b ∈ i.branches g ↔ ∃ n, i.waitAt? n = some b ∧ b.origin = some g := by
  simp only [Instance.branches, List.mem_filter, Bool.and_eq_true, beq_iff_eq,
    Instance.waitAt?_eq_some]
  constructor
  · rintro ⟨hb, hwait, ho⟩
    obtain ⟨n, hn⟩ := List.getElem?_of_mem hb
    exact ⟨n, ⟨hn, hwait⟩, ho⟩
  · rintro ⟨n, ⟨hn, hwait⟩, ho⟩
    exact ⟨List.mem_of_getElem? hn, hwait, ho⟩

/-- The races of stored instances are on course, with nothing to announce. -/
theorem Engine.Reachable.racing {starts : KeySequence → Prop} {e : Engine}
    (h : Engine.Reachable starts e) :
    ∀ i ∈ e.instances, i.state = .failed ∨ i.Racing fun _ => False := by
  refine h.forall_instances (P := fun i => i.state = .failed ∨ i.Racing fun _ => False)
    ?_ ?_ ?_ ?_
  · intro key d vars now
    refine .inr ⟨?_, ?_, ?_, ?_, ?_⟩ <;>
      simp [Instance.waitAt?, Instance.fresh, Instance.raceAt?]
  · exact fun i c _ hP => hP.imp id fun hracing => hracing.same (.of_activities rfl)
  · exact fun hr hP hrun => Run.start?_racing hrun hr hP
  · exact fun i hi hP => hP.imp id fun hracing => hracing.same hi.sameRaces_relinked

/-- **Races are resolved.**  Whatever an engine has been asked to do, each
event-based gateway activity of an instance that has not failed is in its final
order whenever no run is under way. -/
theorem Engine.races_resolved {starts : KeySequence → Prop} {e : Engine}
    (h : Engine.Reachable starts e) {i : Instance} (hi : i ∈ e.instances)
    (hstate : i.state ≠ .failed) {g : Nat} {a : Activity} {race : Race}
    (ha : i.activities[g]? = some a) (hrace : a.body = .race race) :
    race.Resolved (i.branches g) := by
  have hracing := (h.racing i hi).resolve_left hstate
  have hrace : i.raceAt? (some g) = some race := Instance.raceAt?_eq_some.mpr ⟨a, ha, hrace⟩
  unfold Race.Resolved
  split
  · rename_i hnone
    intro b hb
    obtain ⟨n, hn, ho⟩ := Instance.mem_branches.mp hb
    constructor
    · by_contra hserved
      have hwinner := hracing.served hn ho hrace (by simpa using hserved)
      have hid := Activity.isSome_elementId? (Instance.waitAt?_eq_some.mp hn).2
      simp [← hwinner, hnone] at hid
    · by_contra hwithdrawn
      have hwinner := hracing.withdrawn hn ho hrace (by simpa using hwithdrawn)
      simp [hnone] at hwinner
  · rename_i winner hsome
    refine ⟨?_, fun b hb => ?_⟩
    · obtain ⟨n, b, hn, ho, hserved, hid⟩ := hracing.won hrace hsome
      exact ⟨b, Instance.mem_branches.mpr ⟨n, hn, ho⟩, hserved, hid⟩
    · obtain ⟨n, hn, ho⟩ := Instance.mem_branches.mp hb
      rcases hracing.intact hn with hwait | hserved | hwithdrawn
      · exact (hracing.waiting hn ho hrace hwait (by simp [hsome])).elim
      · exact .inl ⟨hserved, by rw [← hracing.served hn ho hrace hserved, hsome]⟩
      · exact .inr hwithdrawn

/-- The source of a process in which two messages race. -/
def raceSource : List String :=
  ["<process id='p'>", "<startEvent id='s'/>", "<eventBasedGateway id='g'/>",
   "<intermediateCatchEvent id='a' name='yes'>", "<messageEventDefinition/>",
   "</intermediateCatchEvent>", "<intermediateCatchEvent id='b' name='no'>",
   "<messageEventDefinition/>", "</intermediateCatchEvent>",
   "<sequenceFlow id='1' ", "sourceRef='s' targetRef='g'/>",
   "<sequenceFlow id='2' ", "sourceRef='g' targetRef='a'/>",
   "<sequenceFlow id='3' ", "sourceRef='g' targetRef='b'/>", "</process>"]

/-- Two messages race behind a gateway. -/
def raceDiagram : Diagram :=
  { id := "p", name := ""
    elements :=
      [{ Element.bare "s" "" .startEvent with outgoing := ["1"] },
       { Element.bare "g" "" .eventBasedGateway with incoming := ["1"], outgoing := ["2", "3"] },
       { Element.bare "a" "yes" .catchEvent with
          incoming := ["2"], event := some (.message none) },
       { Element.bare "b" "no" .catchEvent with
          incoming := ["3"], event := some (.message none) }]
    flows := [⟨"1", "", "s", "g", []⟩, ⟨"2", "", "g", "a", []⟩, ⟨"3", "", "g", "b", []⟩]
    messages := [] }

theorem ofMarkup_raceSource :
    Diagram.ofMarkup (String.join raceSource) = .ok raceDiagram :=
  Engine.ofMarkup_join (by decide +kernel)

/-- The second of two messages wins the race, and the first is withdrawn. -/
theorem Engine.race_of_messages_resolved :
    ∃ e, Engine.Reachable (· = .default) e ∧ ∃ i ∈ e.instances, i.state ≠ .failed ∧
      ∃ a race, i.activities[1]? = some a ∧ a.body = .race race ∧ race.winner = some "b" ∧
        (i.branches 1).length = 2 ∧ race.Resolved (i.branches 1) := by
  obtain ⟨e, hreachable, htest⟩ := Engine.exists_reachable ofMarkup_raceSource 100
    [.create 1 [], .publish 2 "no" [], .run 2]
    (fun e => e.instances[0]?.any fun i => i.state != .failed && (i.branches 1).length == 2 &&
      i.activities[1]?.any fun a => a.body == .race ⟨.completed, some "b"⟩) (by decide +kernel)
  obtain ⟨i, hi, htest⟩ := (Option.any_eq_true _ _).mp htest
  obtain ⟨⟨hstate, hbranches⟩, a, ha, hrace⟩ := by
    simpa [Option.any_eq_true] using htest
  have hmem := List.mem_of_getElem? hi
  exact ⟨e, hreachable, i, hmem, hstate, a, _, ha, hrace, rfl, hbranches,
    Engine.races_resolved hreachable hmem hstate ha hrace⟩

end ProcessEngine
