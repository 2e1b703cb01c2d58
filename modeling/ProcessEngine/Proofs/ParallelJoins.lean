import Mathlib.Data.List.Forall2
import ProcessEngine.Proofs.ArrivalSegments
import ProcessEngine.Proofs.ResumedRuns

/-!
# Parallel joins

A parallel gateway is reached by flows only, and its activities are changed by
nothing but the commands that reach it.  So what they hold is told by the flows
that have arrived, in the order of the history: one activity for each segment of
the arrivals, and flow goes on with the arrivals that close a segment.

A flow arrives unless there is no key left for the activity that it needs.

Main statement: `joins_fire_by_segments`, at every moment of every history.
-/

namespace ProcessEngine

/-! ## The gateways of an element -/

/-- The gateway that an activity of an element holds. -/
def Activity.gatewayAt? (k : Nat) (a : Activity) : Option Gateway :=
  if a.element = k then a.gateway? else none

/-- The gateways of an element, in the order of the arena. -/
def Instance.gatewaysAt (i : Instance) (k : Nat) : List Gateway :=
  i.activities.filterMap (Activity.gatewayAt? k)

theorem Activity.gatewayAt?_eq_some {k : Nat} {a : Activity} {g : Gateway} :
    a.gatewayAt? k = some g ↔ a.element = k ∧ a.body = .gateway g := by
  unfold gatewayAt? gateway?
  split
  · cases hb : a.body <;> simp_all
  · simp_all

/-- An activity without a gateway at an element never has one there. -/
theorem Activity.gatewayAt?_eq_none_of_frame {k : Nat} {a b : Activity} (h : b.frame = a.frame)
    (ha : a.gatewayAt? k = none) : b.gatewayAt? k = none := by
  unfold gatewayAt? at ha ⊢
  rw [element_eq_of_frame h]
  split
  · rename_i hat
    rw [if_pos hat] at ha
    exact gateway?_eq_none_of_frame h ha
  · rfl

/-- A change of one entry that a selection does not see. -/
theorem filterMap_modify_same {α β : Type} {p : α → Option β} {xs : List α} {n : Nat}
    {f : α → α} (h : ∀ a, xs[n]? = some a → p (f a) = p a) :
    (xs.modify n f).filterMap p = xs.filterMap p := by
  induction xs generalizing n with
  | nil => simp
  | cons x rest ih =>
      cases n with
      | zero =>
          have hx := h x rfl
          simp [List.filterMap_cons, hx]
      | succ n => simp [List.filterMap_cons, ih fun a ha => h a (by simpa using ha)]

/-- A change of the entry that is selected last. -/
theorem filterMap_modify_last {α β : Type} {p : α → Option β} {xs : List α} {n : Nat}
    {f : α → α} {a : α} {z z' : β} {zs : List β} (ha : xs[n]? = some a) (hz : p a = some z)
    (hz' : p (f a) = some z') (hxs : xs.filterMap p = zs ++ [z]) (hlast : z ∉ zs) :
    (xs.modify n f).filterMap p = zs ++ [z'] := by
  induction xs generalizing n zs with
  | nil => cases ha
  | cons x rest ih =>
      cases n with
      | zero =>
          obtain rfl : x = a := by simpa using ha
          rw [List.filterMap_cons, hz] at hxs
          cases zs with
          | nil =>
              have hrest : rest.filterMap p = [] := by simpa using hxs
              simp [hz', hrest]
          | cons y zs =>
              obtain ⟨rfl, -⟩ := List.cons.inj hxs
              exact absurd List.mem_cons_self hlast
      | succ n =>
          have ha : rest[n]? = some a := by simpa using ha
          rw [List.modify_succ_cons, List.filterMap_cons]
          rw [List.filterMap_cons] at hxs
          cases hx : p x with
          | none =>
              rw [hx] at hxs
              exact ih ha hxs hlast
          | some y =>
              rw [hx] at hxs
              cases zs with
              | nil =>
                  -- then nothing is selected behind, but the entry is
                  have hrest : rest.filterMap p = [] := (List.cons.inj hxs).2
                  have hmem : z ∈ rest.filterMap p :=
                    List.mem_filterMap.mpr ⟨a, List.mem_of_getElem? ha, hz⟩
                  rw [hrest] at hmem
                  cases hmem
              | cons y' zs =>
                  obtain ⟨rfl, hrest⟩ := List.cons.inj hxs
                  simp only [List.cons_append, List.cons.injEq, true_and]
                  exact ih ha hrest fun hmem => hlast (List.mem_cons_of_mem _ hmem)

namespace Instance

variable {i : Instance} {k n : Nat} {a : Activity} {f : Activity → Activity}

theorem gatewaysAt_modify_same (ha : i.activities[n]? = some a)
    (h : (f a).gatewayAt? k = a.gatewayAt? k) :
    (i.modifyActivity n f).gatewaysAt k = i.gatewaysAt k :=
  filterMap_modify_same fun b hb => by
    obtain rfl : a = b := Option.some.inj (ha.symm.trans hb)
    exact h

/-- What is no gateway remains none. -/
theorem gatewaysAt_modify_of_frame (ha : i.activities[n]? = some a)
    (hframe : (f a).frame = a.frame) (hnone : a.gatewayAt? k = none) :
    (i.modifyActivity n f).gatewaysAt k = i.gatewaysAt k :=
  gatewaysAt_modify_same ha (by rw [hnone, Activity.gatewayAt?_eq_none_of_frame hframe hnone])

theorem gatewaysAt_winRace (i : Instance) (origin : Option Nat) (id : String) (k : Nat) :
    (i.winRace origin id).gatewaysAt k = i.gatewaysAt k := by
  cases origin with
  | none => rfl
  | some n =>
      refine filterMap_modify_same fun a _ => ?_
      obtain ⟨key, element, origin, body⟩ := a
      cases body <;> rfl

theorem gatewaysAt_settleRace (i : Instance) (gateway k : Nat) :
    (i.settleRace gateway).gatewaysAt k = i.gatewaysAt k := by
  unfold settleRace
  split
  · rfl
  · unfold gatewaysAt
    rw [List.filterMap_map]
    congr 1
    funext a
    simp only [Function.comp_apply]
    split
    · cases hnone : a.gatewayAt? k with
      | none => exact Activity.gatewayAt?_eq_none_of_frame a.frame_settle hnone
      | some g =>
          have hsame : a.settle = a := by
            simp [Activity.settle, (Activity.gatewayAt?_eq_some.mp hnone).2]
          rw [hsame, hnone]
    · rfl

/-- Gateways find themselves where they were. -/
theorem Sound.gatewaysAt_relinked (hi : i.Sound) (k : Nat) :
    i.relinked.gatewaysAt k = i.gatewaysAt k := by
  unfold gatewaysAt Instance.relinked
  rw [List.filterMap_map]
  refine List.filterMap_congr fun a ha => ?_
  obtain ⟨n, hn⟩ := List.getElem?_of_mem ha
  simp only [Function.comp_apply]
  cases hbody : a.body.isElement with
  | false => rw [(hi.fits hn).relinkedActivity hbody]
  | true =>
      have hnone : ∀ b : Activity, b.body = a.body → b.gatewayAt? k = none := by
        intro b hb
        unfold Activity.gatewayAt? Activity.gateway?
        rw [hb]
        cases ha : a.body <;> simp_all [ActivityBody.isElement]
      rw [hnone (i.relinkedActivity a) rfl, hnone a rfl]

end Instance

/-! ## What leaves gateways alone -/

namespace Run

section Moves

variable {k element : Nat} {e : Element} {origin : Option Nat} {n : Nat} {r r' : Run}
  {out : Run × List Command}

/-- What a visit opens is a gateway at an element only if it visits this
element. -/
theorem Opens.gatewayAt? {body : ActivityBody} (h : Opens r element e body)
    (hother : element ≠ k ∨ e.kind ≠ .parallelGateway) (key : Int) (origin : Option Nat) :
    (Activity.mk key element origin body).gatewayAt? k = none := by
  unfold Activity.gatewayAt? Activity.gateway?
  split
  · rename_i hat
    cases h with
    | gateway hkind => exact absurd hkind (hother.resolve_left (by simpa using hat))
    | _ => rfl
  · rfl

theorem receive_gatewaysAt {r₁ : Run} {position : Nat} {caught : CaughtEvent}
    {error? : Option ExprError} (h : r.receive e position caught = (r₁, error?)) (k : Nat) :
    r₁.inst.gatewaysAt k = r.inst.gatewaysAt k := by
  unfold Instance.gatewaysAt
  rw [receive_activities h]

/-- **A visit of anything else leaves the gateways of an element alone.** -/
theorem Move.gatewaysAt (h : Move element e origin n r r')
    (hother : element ≠ k ∨ e.kind ≠ .parallelGateway) :
    r'.inst.gatewaysAt k = r.inst.gatewaysAt k := by
  -- jobs and waits are no gateways
  have hplain : ∀ {a : Activity}, (∀ g, a.body ≠ .gateway g) → a.gatewayAt? k = none := by
    intro a ha
    rw [Option.eq_none_iff_forall_ne_some]
    exact fun g hg => ha g (Activity.gatewayAt?_eq_some.mp hg).2
  -- and a gateway is changed by a visit of its own element only
  have haway : ∀ {a : Activity}, e.kind = .parallelGateway → a.element = element →
      a.gatewayAt? k = none := by
    intro a hkind hat
    rw [Activity.gatewayAt?, hat, if_neg (hother.resolve_right (by simp [hkind]))]
  cases h with
  | report => rfl
  | call => rfl
  | outputs h =>
      unfold Instance.gatewaysAt
      rw [writeOutputs_activities h]
  | opened hbody hopen =>
      obtain ⟨-, -, rfl⟩ := open?_eq_some hopen
      simp [Instance.gatewaysAt, Instance.push, hbody.gatewayAt? hother]
  | complete => rfl
  | finishJob vars ha hj =>
      exact Instance.gatewaysAt_modify_of_frame (i := { r.inst with vars }) ha
        (Activity.frame_advance _ _) (hplain (by simp [hj]))
  | failJob reason ha hj =>
      exact Instance.gatewaysAt_modify_of_frame ha (by simp) (hplain (by simp [hj]))
  | arrive flow ha hg _ hkind hat =>
      exact Instance.gatewaysAt_modify_of_frame ha (Activity.frame_recordInbound _ _)
        (haway hkind hat)
  | fire ha hg _ _ hkind hat =>
      exact Instance.gatewaysAt_modify_of_frame ha (Activity.frame_advance _ _) (haway hkind hat)
  | withdraw _ ha hwait =>
      refine Instance.gatewaysAt_modify_of_frame ha (Activity.frame_settle _) (hplain ?_)
      rintro g hg
      simp [Activity.isWaiting, hg, ActivityBody.isWaiting] at hwait
  | @message r₁ a s position caught _ ha hs _ _ _ _ _ hreceive =>
      refine (Instance.gatewaysAt_winRace _ _ _ _).trans ?_
      rw [← receive_gatewaysAt hreceive k]
      refine Instance.gatewaysAt_modify_of_frame (a := a) ?_ a.frame_serve (hplain (by simp [hs]))
      rw [receive_activities hreceive]
      exact ha
  | trigger _ ha ht =>
      refine (Instance.gatewaysAt_winRace _ _ _ _).trans ?_
      exact Instance.gatewaysAt_modify_of_frame ha (Activity.frame_serve _) (hplain (by simp [ht]))

theorem Moves.gatewaysAt (h : Moves element e origin n r r')
    (hother : element ≠ k ∨ e.kind ≠ .parallelGateway) :
    r'.inst.gatewaysAt k = r.inst.gatewaysAt k := by
  induction h with
  | refl => rfl
  | tail _ hmove ih => rw [hmove.gatewaysAt hother, ih]

theorem Breaks.gatewaysAt (h : Breaks e n r r') (k : Nat) :
    r'.inst.gatewaysAt k = r.inst.gatewaysAt k := by
  cases h with
  | idle => rfl
  | fail => rfl
  | @spoil r₁ a s position caught error ha hs _ _ _ _ _ hreceive =>
      rw [← receive_gatewaysAt hreceive k]
      refine Instance.gatewaysAt_modify_of_frame (a := a) ?_ (a.frame_advance _) ?_
      · rw [receive_activities hreceive]
        exact ha
      · simp [Activity.gatewayAt?, Activity.gateway?, hs]

theorem Visits.gatewaysAt (h : Visits element e origin r out)
    (hother : element ≠ k ∨ e.kind ≠ .parallelGateway) :
    out.1.inst.gatewaysAt k = r.inst.gatewaysAt k := by
  cases h with
  | failed n error h hbreak => rw [hbreak.gatewaysAt k, h.gatewaysAt hother]
  | visited h => exact h.gatewaysAt hother

end Moves

end Run

/-- The flow by which a command reaches an element. -/
def Command.reaches? (k : Nat) : Command → Option String
  | enter element _ via => if element = k then via else none
  | _ => none

/-- **Only the commands that reach a gateway change what it holds.** -/
theorem Dispatch.Underway.gatewaysAt {d : Dispatch} (h : d.Underway) {k : Nat} {e : Element}
    (he : d.before.diagram.elements[k]? = some e) (hkind : e.kind = .parallelGateway)
    (haway : d.command.reaches? k = none) :
    d.after.inst.gatewaysAt k = d.before.inst.gatewaysAt k := by
  have hbyFlow := h.byFlow
  obtain ⟨hsound, hfits⟩ := h.sound
  obtain ⟨r, c⟩ := d
  show (r.dispatch c).1.inst.gatewaysAt k = r.inst.gatewaysAt k
  have hspec := Run.dispatch_spec r c
  generalize r.dispatch c = out at hspec
  cases hspec with
  | idle => rfl
  | flows => rfl
  | stuck => rfl
  | @enter element e' origin via _ he' h =>
      refine h.gatewaysAt (.inl fun hat => ?_)
      subst hat
      obtain rfl : e = e' := Option.some.inj (he.symm.trans he')
      cases via with
      | none => exact hbyFlow e he' hkind
      | some flow => simp [Command.reaches?] at haway
  | @resume n a e' origin _ ha he' h =>
      refine h.gatewaysAt (.inr fun hgateway => ?_)
      -- what fits a parallel gateway is one, and it is not looked at again
      obtain ⟨b, hb, hnone⟩ := hbyFlow
      obtain rfl : a = b := Option.some.inj (ha.symm.trans hb)
      obtain ⟨b, hb, -, hbody⟩ := hfits _ List.mem_cons_self
      obtain rfl : a = b := Option.some.inj (ha.symm.trans hb)
      obtain ⟨e'', he'', hbodyFits, -⟩ := hsound.fits ha
      obtain rfl : e' = e'' := Option.some.inj (he'.symm.trans he'')
      unfold Activity.gateway? at hnone
      generalize a.body = body at hbodyFits hbody hnone
      cases hbodyFits <;> simp_all [ActivityBody.isElement]
  | settle gateway => exact Instance.gatewaysAt_settleRace _ _ _

/-! ## What an arrival does -/

namespace Run

section Arrival

variable {k n : Nat} {e : Element} {origin : Option Nat} {flow : String} {r r₁ : Run}
  {a : Activity} {g : Gateway}

theorem modifyActivity_modifyActivity (r : Run) (n : Nat) (f g : Activity → Activity) :
    (r.modifyActivity n f).modifyActivity n g = r.modifyActivity n fun a => g (f a) := by
  simp [modifyActivity, modify, Instance.modifyActivity, List.modify_modify_eq, Function.comp_def]

/-- The gateway that an arrival finds or opens gathers the last segment. -/
theorem openGateway?_gathers {declared : List String} {ss ss' : List (List String)}
    (hgateways : r.inst.gatewaysAt k = ss.map (Gateway.ofSegment declared))
    (hext : Extends declared flow ss ss') (htake : r.openGateway? k origin = some (r₁, n)) :
    ∃ a before segment, r₁.activity? n = some a ∧
      a.gatewayAt? k = some (.gathering segment) ∧
      r₁.inst.gatewaysAt k = before.map (Gateway.ofSegment declared) ++ [.gathering segment] ∧
      (∀ s ∈ before, isClosed declared s = true) ∧ ss' = before ++ [segment ++ [flow]] := by
  -- no gateway of a closed segment still gathers
  have hdone : ∀ {before : List (List String)}, (∀ s ∈ before, isClosed declared s = true) →
      ∀ g ∈ before.map (Gateway.ofSegment declared), g.state ≠ .active := by
    intro before hbefore g hg
    obtain ⟨s, hs, rfl⟩ := List.mem_map.mp hg
    simp [(Gateway.state_ofSegment declared s).mpr (hbefore s hs)]
  unfold openGateway? at htake
  rw [Instance.findActiveGateway?_eq] at htake
  split at htake
  · rename_i m hfind
    cases htake
    obtain ⟨a, ha, hheld⟩ := Instance.slotAt_eq_some.mp (Instance.slotAt_of_findSlot? hfind)
    obtain ⟨g, hg, hactive, hat⟩ := Activity.slot?_eq_gateway.mp hheld
    have hga := Activity.gatewayAt?_eq_some.mpr ⟨hat, hg⟩
    have hmem : g ∈ ss.map (Gateway.ofSegment declared) := by
      rw [← hgateways]
      exact List.mem_filterMap.mpr ⟨a, List.mem_of_getElem? ha, hga⟩
    cases hext with
    | @grow before segment hbefore hopen hsome =>
        rw [List.map_append, List.map_singleton, Gateway.gathering_of_open hopen] at hmem hgateways
        obtain hmem | hmem := List.mem_append.mp hmem
        · exact absurd hactive (hdone hbefore g hmem)
        · obtain rfl := List.mem_singleton.mp hmem
          exact ⟨a, before, segment, ha, hga, hgateways, hbefore, rfl⟩
    | begin _ hbefore => exact absurd hactive (hdone hbefore g hmem)
  · rename_i hfree
    obtain ⟨-, hn, rfl⟩ := open?_eq_some htake
    have ha := activity?_open htake
    cases hext with
    | @grow before segment hbefore hopen hsome =>
        -- the open segment has a gateway that would have been found
        rw [List.map_append, List.map_singleton, Gateway.gathering_of_open hopen] at hgateways
        have hmem : Gateway.gathering segment ∈ r.inst.gatewaysAt k := by simp [hgateways]
        obtain ⟨a, ha, hga⟩ := List.mem_filterMap.mp hmem
        obtain ⟨hat, hg⟩ := Activity.gatewayAt?_eq_some.mp hga
        obtain ⟨m, hm⟩ := List.getElem?_of_mem ha
        refine absurd (Instance.slotAt_eq_some.mpr ⟨a, hm, ?_⟩)
          (Instance.slotAt_ne_of_findSlot? hfree m)
        exact Activity.slot?_eq_gateway.mpr ⟨_, hg, rfl, hat⟩
    | begin _ hbefore =>
        refine ⟨_, ss, [], ha, Activity.gatewayAt?_eq_some.mpr ⟨rfl, rfl⟩, ?_, hbefore, by simp⟩
        rw [← hgateways]
        simp [Instance.gatewaysAt, Instance.push, Activity.gatewayAt?, Activity.gateway?,
          Gateway.gathering]

theorem parallelGateway_arrival (e : Element) (flow : String)
    (htake : r.openGateway? k origin = some (r₁, n))
    (ha : r₁.activity? n = some a) (hg : a.body = .gateway g) (hactive : g.state = .active) :
    r.parallelGateway k e origin (some flow) =
      (r₁.modifyActivity n fun a => { a with body := .gateway (g.gather e.incoming flow) },
        .ok ⟨n, g.firesWith e.incoming flow, []⟩) := by
  have hrecord : (r₁.modifyActivity n fun a => a.recordInbound flow) =
      r₁.modifyActivity n fun a => { a with body := .gateway (g.record flow) } :=
    modifyActivity_congr ha (by simp [Activity.recordInbound, hg])
  have hstate : (g.record flow).state = .active := by
    unfold Gateway.record Gateway.record?
    split <;> exact hactive
  have hfires : (r₁.modifyActivity n fun a => { a with body := .gateway (g.record flow) }).gatewayFires
      e n = g.firesWith e.incoming flow := by
    rw [gatewayFires, activity?_modify_self, ha]
    rfl
  unfold parallelGateway
  simp only [htake, arrivedFlow?, hrecord, hfires, Gateway.gather]
  cases g.firesWith e.incoming flow with
  | true =>
      have hdone : ({ a with body := .gateway (g.record flow) } : Activity).advance .completed =
          { a with body := .gateway { g.record flow with state := .completed } } := by
        rw [Activity.advance_final _ rfl rfl]
        simp [Activity.state, ActivityBody.state, ActivityBody.withState, hstate,
          ActivityState.terminal, ActivityState.rank]
      simp only [if_true, modifyActivity_modifyActivity]
      rw [modifyActivity_congr (f := fun a =>
        ({ a with body := .gateway (g.record flow) } : Activity).advance .completed)
        (g := fun a => { a with body := .gateway { g.record flow with state := .completed } })
        ha hdone]
  | false => rfl

/-- What an arrival comes to where there is an activity for it. -/
theorem dispatch_arrival (flow : String) (he : r.diagram.elements[k]? = some e)
    (hkind : e.kind = .parallelGateway)
    (htake : (r.reportElement e .activated).openGateway? k origin = some (r₁, n))
    (ha : r₁.activity? n = some a) (hg : a.body = .gateway g) (hactive : g.state = .active) :
    r.dispatch (.enter k origin (some flow)) =
      (r₁.modifyActivity n fun a => { a with body := .gateway (g.gather e.incoming flow) }).proceed
        e ⟨n, g.firesWith e.incoming flow, []⟩ := by
  simp only [dispatch, he, visit, handle, hkind,
    parallelGateway_arrival e flow htake ha hg hactive]

/-- What an arrival comes to where there is none. -/
theorem dispatch_refused (flow : String) (he : r.diagram.elements[k]? = some e)
    (hkind : e.kind = .parallelGateway)
    (htake : (r.reportElement e .activated).openGateway? k origin = none) :
    r.dispatch (.enter k origin (some flow)) =
      (r.reportElement e .activated, [.fail .keysExhausted]) := by
  simp only [dispatch, he, visit, handle, hkind, parallelGateway, htake]

/-- Taking a gateway reports nothing. -/
theorem openGateway?_audit (htake : r.openGateway? k origin = some (r₁, n)) :
    r₁.audit = r.audit ∧ r₁.inst.key = r.inst.key ∧ r₁.inst.definition = r.inst.definition := by
  unfold openGateway? at htake
  split at htake
  · cases htake
    exact ⟨rfl, rfl, rfl⟩
  · obtain ⟨-, -, rfl⟩ := open?_eq_some htake
    exact ⟨rfl, rfl, rfl⟩

/-- There is none if no gateway gathers and no key is left. -/
theorem openGateway?_eq_none (h : r.openGateway? k origin = none) : r.keys.issue = none := by
  unfold openGateway? open? at h
  split at h
  · cases h
  · split at h
    · rename_i hnone
      exact hnone
    · cases h

end Arrival

end Run

/-! ## Arrivals in a history -/

namespace Dispatch

/-- The flow that arrives at an element with a command, unless the command
fails. -/
def arrival? (k : Nat) (d : Dispatch) : Option String :=
  if d.fails then none else d.command.reaches? k

/-- What follows from a command that reaches a gateway: the gateway waits, or it
is complete and flow goes on from it. -/
inductive GoesOn (k : Nat) (e : Element) (d : Dispatch) : Bool → Prop
  | waits (haudit : d.after.audit = d.before.audit ++ [d.before.inst.elementEvent e .activated])
      (hfollow : d.follow = []) : GoesOn k e d false
  | fires {n : Nat} {a : Activity} {g : Gateway} (ha : d.after.activity? n = some a)
      (hg : a.gatewayAt? k = some g) (hdone : g.state = .completed)
      (haudit : d.after.audit = d.before.audit ++
        [d.before.inst.elementEvent e .activated, d.before.inst.elementEvent e .completed])
      (hfollow : d.follow = if e.outgoing.isEmpty then [] else [.takeFlows n e.outgoing]) :
      GoesOn k e d true

theorem GoesOn.fails {k : Nat} {e : Element} {d : Dispatch} {goes : Bool}
    (h : d.GoesOn k e goes) : d.fails = false := by
  unfold Dispatch.fails
  cases h with
  | waits _ hfollow => rw [hfollow]; rfl
  | fires _ _ _ _ hfollow =>
      rw [hfollow]
      split <;> rfl

/-- A command is refused: there is no key for the activity that it needs. -/
def Refused (d : Dispatch) : Prop :=
  d.before.keys.issue = none ∧ d.follow = [.fail .keysExhausted]

theorem Refused.fails {d : Dispatch} (h : d.Refused) : d.fails = true := by
  unfold Dispatch.fails
  rw [h.2]
  rfl

end Dispatch

/-- The commands with which flows have arrived at an element. -/
def joining (k : Nat) (log : List HistoryEntry) : List Dispatch :=
  (log.filterMap HistoryEntry.dispatch?).filter fun d => (d.arrival? k).isSome

/-- The flows by which commands have reached an element, arrivals or not. -/
def reached (k : Nat) (log : List HistoryEntry) : List String :=
  (log.filterMap HistoryEntry.dispatch?).filterMap fun d => d.command.reaches? k

/-- The flows that have arrived at an element. -/
def arrivals (k : Nat) (log : List HistoryEntry) : List String :=
  (log.filterMap HistoryEntry.dispatch?).filterMap (Dispatch.arrival? k)

section Log

variable {k : Nat} {log : List HistoryEntry} {d : Dispatch}

theorem arrivals_of_arrival {flow : String} (h : d.arrival? k = some flow) :
    arrivals k (log ++ [.dispatched d]) = arrivals k log ++ [flow] := by
  simp [arrivals, HistoryEntry.dispatch?, h]

theorem joining_of_arrival {flow : String} (h : d.arrival? k = some flow) :
    joining k (log ++ [.dispatched d]) = joining k log ++ [d] := by
  simp [joining, HistoryEntry.dispatch?, h]

theorem arrivals_of_none (h : d.arrival? k = none) :
    arrivals k (log ++ [.dispatched d]) = arrivals k log := by
  simp [arrivals, HistoryEntry.dispatch?, h]

theorem joining_of_none (h : d.arrival? k = none) :
    joining k (log ++ [.dispatched d]) = joining k log := by
  simp [joining, HistoryEntry.dispatch?, h]

end Log

/-- The gateways of an element and the commands that reach it are told by the
flows that have arrived. -/
structure Instance.Joined (k : Nat) (e : Element) (i : Instance) (log : List HistoryEntry) :
    Prop where
  gateways : i.gatewaysAt k =
    (segments e.incoming (arrivals k log)).map (Gateway.ofSegment e.incoming)
  goesOn : List.Forall₂ (Dispatch.GoesOn k e) (joining k log)
    (closings e.incoming (arrivals k log))
  refused : ∀ d, .dispatched d ∈ log → ∀ origin via, d.command = .enter k origin via →
    (d.arrival? k).isSome = true ∨ d.Refused

namespace Instance

variable {k : Nat} {e : Element}

theorem joined_nil (k : Nat) (e : Element) (i : Instance) (h : i.activities = []) :
    i.Joined k e [] where
  gateways := by simp [gatewaysAt, h, arrivals, segments, cut]
  goesOn := .nil
  refused _ hd := by cases hd

/-- A history that no command is added to. -/
theorem Joined.of_gatewaysAt {i j : Instance} {log : List HistoryEntry} (h : i.Joined k e log)
    (hsame : j.gatewaysAt k = i.gatewaysAt k) : j.Joined k e log where
  gateways := hsame.trans h.gateways
  goesOn := h.goesOn
  refused := h.refused

theorem Joined.published {i : Instance} {log : List HistoryEntry} (h : i.Joined k e log)
    (c : CaughtEvent) : (i.recordEvent c).Joined k e (log ++ [.published c]) := by
  have hlog : (log ++ [HistoryEntry.published c]).filterMap HistoryEntry.dispatch? =
      log.filterMap HistoryEntry.dispatch? := by simp [HistoryEntry.dispatch?]
  refine ⟨?_, ?_, fun d hd => h.refused d (by simpa using hd)⟩
  · rw [arrivals, hlog]
    exact h.gateways
  · rw [arrivals, joining, hlog]
    exact h.goesOn

end Instance

section Step

variable {k : Nat} {e : Element} {d : Dispatch} {log : List HistoryEntry}

/-- A command that lets no flow arrive. -/
theorem Instance.Joined.skip (h : d.before.inst.Joined k e log) (hnone : d.arrival? k = none)
    (hsame : d.after.inst.gatewaysAt k = d.before.inst.gatewaysAt k)
    (hrefused : ∀ origin via, d.command = .enter k origin via → d.Refused) :
    d.after.inst.Joined k e (log ++ [.dispatched d]) where
  gateways := by rw [arrivals_of_none hnone, hsame, h.gateways]
  goesOn := by
    rw [arrivals_of_none hnone, joining_of_none hnone]
    exact h.goesOn
  refused d' hd' origin via hc := by
    rcases List.mem_append.mp hd' with hd' | hd'
    · exact h.refused d' hd' origin via hc
    · obtain rfl : d' = d := by simpa using hd'
      exact .inr (hrefused origin via hc)

/-- **An arrival extends the segments, and its gateway goes on if it closes
one.** -/
theorem Instance.Joined.arrive (h : d.before.inst.Joined k e log)
    (he : d.before.diagram.elements[k]? = some e) (hkind : e.kind = .parallelGateway)
    {origin : Option Nat} {flow : String} (hc : d.command = .enter k origin (some flow))
    {r₁ : Run} {n : Nat}
    (htake : (d.before.reportElement e .activated).openGateway? k origin = some (r₁, n)) :
    d.after.inst.Joined k e (log ++ [.dispatched d]) := by
  have hext := segments_extends e.incoming (arrivals k log) flow
  obtain ⟨a, before, segment, ha, hga, hgateways, hbefore, hss'⟩ :=
    Run.openGateway?_gathers (r := d.before.reportElement e .activated) h.gateways hext htake
  obtain ⟨hat, hg⟩ := Activity.gatewayAt?_eq_some.mp hga
  have hout := Run.dispatch_arrival flow he hkind htake ha hg rfl
  rw [← hc, Gateway.gather_gathering, Gateway.firesWith_gathering] at hout
  have hinst : d.after.inst = r₁.inst.modifyActivity n fun a =>
      { a with body := .gateway (.ofSegment e.incoming (segment ++ [flow])) } := by
    rw [Dispatch.after, hout]
    unfold Run.proceed
    split <;> rfl
  have hgoes : d.GoesOn k e (isClosed e.incoming (segment ++ [flow])) := by
    obtain ⟨haudit, hkey, hdefinition⟩ := Run.openGateway?_audit htake
    cases hclosed : isClosed e.incoming (segment ++ [flow]) with
    | false =>
        rw [hclosed] at hout
        refine .waits ?_ (congrArg Prod.snd hout)
        rw [Dispatch.after, hout]
        exact haudit
    | true =>
        have hafter : d.after.activity? n = some
            { a with body := .gateway (.ofSegment e.incoming (segment ++ [flow])) } := by
          rw [Run.activity?, hinst]
          exact (Run.activity?_modify_self r₁ n _).trans (by rw [ha]; rfl)
        rw [hclosed] at hout
        refine .fires hafter (Activity.gatewayAt?_eq_some.mpr ⟨hat, rfl⟩)
          ((Gateway.state_ofSegment _ _).mpr hclosed) ?_ (congrArg Prod.snd hout)
        rw [Dispatch.after, hout]
        simp [Run.proceed, Run.reportElement, Run.report, haudit, Run.modifyActivity, Run.modify,
          Instance.modifyActivity, Instance.elementEvent, hkey, hdefinition]
  have harrival : d.arrival? k = some flow := by
    rw [Dispatch.arrival?, hgoes.fails, hc]
    simp [Command.reaches?]
  refine ⟨?_, ?_, fun d' hd' origin' via hc' => ?_⟩
  · rw [arrivals_of_arrival harrival, hss', hinst, List.map_append, List.map_singleton]
    refine filterMap_modify_last ha hga ?_ hgateways fun hmem => ?_
    · exact Activity.gatewayAt?_eq_some.mpr ⟨hat, rfl⟩
    · -- a closed segment has a gateway that is complete
      obtain ⟨s, hs, hsame⟩ := List.mem_map.mp hmem
      have hdone := (Gateway.state_ofSegment e.incoming s).mpr (hbefore s hs)
      rw [hsame] at hdone
      cases hdone
  · have hlast : (segments e.incoming (arrivals k log ++ [flow])).getLast? =
        some (segment ++ [flow]) := by simp [hss']
    rw [arrivals_of_arrival harrival, joining_of_arrival harrival, closings, hext.closings hlast]
    exact List.rel_append h.goesOn (.cons hgoes .nil)
  · rcases List.mem_append.mp hd' with hd' | hd'
    · exact h.refused d' hd' origin' via hc'
    · obtain rfl : d' = d := by simpa using hd'
      exact .inl (by rw [harrival]; rfl)

/-- **Every command keeps the account of a parallel gateway.** -/
theorem Instance.Joined.dispatch (h : d.before.inst.Joined k e log) (hd : d.Underway)
    (he : d.before.diagram.elements[k]? = some e) (hkind : e.kind = .parallelGateway) :
    d.after.inst.Joined k e (log ++ [.dispatched d]) := by
  cases hreach : d.command.reaches? k with
  | none =>
      refine h.skip (by simp [Dispatch.arrival?, hreach]) (hd.gatewaysAt he hkind hreach) ?_
      intro origin via hc
      have hbyFlow := hd.byFlow
      rw [hc] at hreach hbyFlow
      cases via with
      | none => exact absurd hkind (hbyFlow e he)
      | some flow => simp [Command.reaches?] at hreach
  | some flow =>
      obtain ⟨origin, hc⟩ : ∃ origin, d.command = .enter k origin (some flow) := by
        unfold Command.reaches? at hreach
        split at hreach
        · split at hreach
          · rename_i hc hat
            subst hat
            rw [hreach] at hc
            exact ⟨_, hc⟩
          · cases hreach
        · cases hreach
      cases htake : (d.before.reportElement e .activated).openGateway? k origin with
      | some taken => exact h.arrive he hkind hc htake
      | none =>
          have hout := Run.dispatch_refused flow he hkind htake
          rw [← hc] at hout
          have hkeys : d.before.keys.issue = none :=
            Run.openGateway?_eq_none (r := d.before.reportElement e .activated) htake
          have hrefused : d.Refused := ⟨hkeys, congrArg Prod.snd hout⟩
          refine h.skip (by simp [Dispatch.arrival?, hrefused.fails]) ?_ fun _ _ _ => hrefused
          rw [Dispatch.after, hout]
          rfl

end Step

namespace Engine

theorem lasting_joined : Lasting fun i log =>
    ∀ k e, i.diagram.elements[k]? = some e → e.kind = .parallelGateway → i.Joined k e log where
  fresh _ _ _ _ k e _ _ := Instance.joined_nil k e _ rfl
  event c _ hP k e he hkind := (hP k e he hkind).published c
  state _ hP k e he hkind := (hP k e he hkind).of_gatewaysAt rfl
  step {d} _ hd hP k e he hkind := by
    obtain ⟨opened, hgrows⟩ := Run.dispatch_grows d.before d.command
    have he : d.before.inst.diagram.elements[k]? = some e := by
      rw [← hgrows.diagram]
      exact he
    exact (hP k e he hkind).dispatch hd he hkind
  relinked hi hP k e he hkind := (hP k e he hkind).of_gatewaysAt (hi.gatewaysAt_relinked k)

/-- **Parallel joins fire by segments of their arrivals.**  Cut the flows that
have arrived at a parallel gateway so that a segment ends as soon as every
incoming flow is in it.  The element has one activity for each segment, in their
order; it holds the flows of the segment once each in the order of their first
arrival, and it is completed if the segment is closed and active otherwise.  Flow
goes on from it with the arrival that closes its segment and with no other.  A
flow that reaches the gateway has arrived, unless it needs a new activity when
there is no key left, which fails the instance.

So the gateway goes on at most as often as each of its incoming flows arrives,
and if each of them arrives once, it goes on once, with the last of them. -/
theorem joins_fire_by_segments {starts : KeySequence → Prop} {n : Nat} {i : Instance}
    {log : List HistoryEntry} (h : Moment starts n i log) {k : Nat} {e : Element}
    (he : i.diagram.elements[k]? = some e) (hkind : e.kind = .parallelGateway) :
    i.gatewaysAt k = (segments e.incoming (arrivals k log)).map (Gateway.ofSegment e.incoming) ∧
      List.Forall₂ (Dispatch.GoesOn k e) (joining k log)
        (closings e.incoming (arrivals k log)) ∧
      (∀ d, .dispatched d ∈ log → ∀ origin via, d.command = .enter k origin via →
        (d.arrival? k).isSome = true ∨ d.Refused) ∧
      (∀ flow ∈ e.incoming, (closings e.incoming (arrivals k log)).count true ≤
        (arrivals k log).count flow) ∧
      (arrivals k log ≠ [] → (arrivals k log).Nodup →
        (∀ flow, flow ∈ arrivals k log ↔ flow ∈ e.incoming) →
          i.gatewaysAt k = [⟨.completed, true, arrivals k log⟩] ∧
          closings e.incoming (arrivals k log) =
            List.replicate ((arrivals k log).length - 1) false ++ [true]) := by
  have hjoined := h.keeps lasting_joined k e he hkind
  refine ⟨hjoined.gateways, hjoined.goesOn, hjoined.refused, fun flow hflow => ?_,
    fun hsome hnodup hall => ?_⟩
  · rw [count_closings]
    have hle := countP_isClosed_le (segments e.incoming (arrivals k log)) hflow
    rwa [flatten_segments] at hle
  · have hone := segments_eq_singleton hsome hnodup hall
    have hclosed : isClosed e.incoming (arrivals k log) = true :=
      List.all_eq_true.mpr fun flow hflow => decide_eq_true ((hall flow).mpr hflow)
    refine ⟨?_, ?_⟩
    · rw [hjoined.gateways, hone]
      simp [Gateway.ofSegment, hclosed, eraseDups_of_nodup hnodup]
    · rw [closings, hone]
      simp [closingsOf, hclosed]

/-- The source of a process with two flows that join. -/
private def joinSource : List String :=
  ["<process id='p'>", "<startEvent id='s'/>", "<parallelGateway id='g'/>",
   "<sequenceFlow id='1' ", "sourceRef='s' targetRef='g'/>",
   "<sequenceFlow id='2' ", "sourceRef='s' targetRef='g'/>", "</process>"]

private def joinGateway : Element :=
  { Element.bare "g" "" .parallelGateway with incoming := ["1", "2"] }

private def joinDiagram : Diagram :=
  { id := "p", name := ""
    elements := [{ Element.bare "s" "" .startEvent with outgoing := ["1", "2"] }, joinGateway]
    flows := [⟨"1", "", "s", "g", []⟩, ⟨"2", "", "s", "g", []⟩]
    messages := [] }

private theorem ofMarkup_joinSource :
    Diagram.ofMarkup (String.join joinSource) = .ok joinDiagram :=
  ofMarkup_join (by decide +kernel)

/-- Two flows arrive, and the gateway goes on with the second. -/
theorem two_flows_join_once :
    ∃ i log, Moment (· = .default) 0 i log ∧ i.diagram.elements[1]? = some joinGateway ∧
      arrivals 1 log = ["1", "2"] ∧ i.gatewaysAt 1 = [⟨.completed, true, ["1", "2"]⟩] ∧
      List.Forall₂ (Dispatch.GoesOn 1 joinGateway) (joining 1 log) [false, true] := by
  have hkeys : KeySequence.default.next < greatestKey := by decide
  obtain ⟨e, log, hlog, htest⟩ := exists_history ofMarkup_joinSource hkeys 100 0
    [.create 1 [], .run 2]
    (fun e log => arrivals 1 log == ["1", "2"] &&
      e.instances[0]?.any fun i => i.diagram.elements[1]? == some joinGateway) (by decide +kernel)
  simp only [Bool.and_eq_true, beq_iff_eq] at htest
  obtain ⟨harrivals, htest⟩ := htest
  obtain ⟨i, hi, htest⟩ := (Option.any_eq_true _ _).mp htest
  have he : i.diagram.elements[1]? = some joinGateway := by simpa using htest
  obtain ⟨-, hgoes, -, -, hone⟩ := joins_fire_by_segments (.stored hlog hi) he rfl
  rw [harrivals] at hgoes hone
  obtain ⟨hgateways, hclosings⟩ := hone (by decide) (by decide) fun flow => Iff.rfl
  rw [hclosings] at hgoes
  exact ⟨i, log, .stored hlog hi, he, harrivals, hgateways, hgoes⟩

/-- **A flow that is refused for want of a key reaches the gateway and leaves no
activity.**  With the flow counted among the arrivals there would be one. -/
theorem refused_flow_opens_nothing :
    ∃ i log, Moment (· = ⟨9223372036854775804⟩) 0 i log ∧
      i.diagram.elements[1]? = some joinGateway ∧ reached 1 log = ["1"] ∧
      i.gatewaysAt 1 = [] ∧
      i.gatewaysAt 1 ≠ (segments joinGateway.incoming (reached 1 log)).map
        (Gateway.ofSegment joinGateway.incoming) := by
  have hkeys : (⟨9223372036854775804⟩ : KeySequence).next < greatestKey := by decide
  obtain ⟨e, log, hlog, htest⟩ := exists_history ofMarkup_joinSource hkeys 100 0
    [.create 9223372036854775804 [], .run 9223372036854775805]
    (fun e log => reached 1 log == ["1"] && e.instances[0]?.any fun i =>
      i.diagram.elements[1]? == some joinGateway && i.gatewaysAt 1 == []) (by decide +kernel)
  simp only [Bool.and_eq_true, beq_iff_eq] at htest
  obtain ⟨hreached, htest⟩ := htest
  obtain ⟨i, hi, htest⟩ := (Option.any_eq_true _ _).mp htest
  simp only [Bool.and_eq_true, beq_iff_eq] at htest
  obtain ⟨he, hnone⟩ := htest
  refine ⟨i, log, .stored hlog hi, he, hreached, hnone, ?_⟩
  rw [hnone, hreached]
  decide

end Engine

end ProcessEngine
