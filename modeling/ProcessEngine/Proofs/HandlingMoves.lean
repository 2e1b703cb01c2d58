import ProcessEngine.Proofs.VisitMoves

/-!
# Handling as a chain of moves

Each handler of the interpreter takes an activity and works on it.  Here every
handler is shown to make only the moves of `Run.Move`, all of them on the
activity that its step names.

Main statement: `handle_spec`, by which each outcome of handling an element is
a chain of moves, with the activity that stands for the element and the
commands that the step adds.
-/

namespace ProcessEngine

namespace Run

/-! ## Handling an element -/

section Handling

variable {element : Nat} {e : Element} {origin : Option Nat} {r : Run}

/-- An activity that needs nothing but a state. -/
theorem openElement_works (hplain : e.slot? element = none)
    (hkind : e.kind ≠ .eventBasedGateway) {state : ActivityState} {continues : Bool}
    (hdone : continues = true → state = .completed) :
    Works element e origin r (r.openElement element origin state continues) := by
  unfold openElement
  split
  · exact .failed 0 .refl (.idle _)
  · rename_i r' n hopen
    exact .worked (.single (.opened (.element state hplain hkind) hopen))
      (.inl (open?_eq_some hopen).2.1) (activity?_open hopen) hdone
      fun _ => idle_of_not_isWait rfl

theorem eventBasedGateway_works (hkind : e.kind = .eventBasedGateway) :
    Works element e origin r (r.eventBasedGateway element origin) := by
  unfold eventBasedGateway
  split
  · exact .failed 0 .refl (.idle _)
  · rename_i r' n hopen
    exact .worked (.single (.opened (.race hkind) hopen)) (.inl (open?_eq_some hopen).2.1)
      (activity?_open hopen) (fun _ => rfl) fun _ => idle_of_not_isWait rfl

theorem endEvent_works (hkind : e.kind = .endEvent) :
    Works element e origin r (r.endEvent element e origin) := by
  have hplain : e.slot? element = none := by simp [Element.slot?, hkind]
  unfold endEvent openElement
  cases hopen : r.open? element origin (.element .completed) with
  | none => exact .failed 0 .refl (.idle _)
  | some opened =>
      obtain ⟨r₁, n⟩ := opened
      have hfirst : Moves element e origin n r (r₁.reportElement e .completed) :=
        (Relation.ReflTransGen.single
          (.opened (.element _ hplain (by simp [hkind])) hopen)).tail (.report r₁ .completed)
      have ha := activity?_open hopen
      obtain ⟨-, hn, hr₁⟩ := open?_eq_some hopen
      dsimp only
      split
      · exact .worked hfirst (.inl hn) ha (fun h => by cases h) fun _ => idle_of_not_isWait rfl
      · rename_i hbusy
        rw [not_or] at hbusy
        refine .worked (hfirst.tail (.complete hkind ha rfl ?_ hbusy.1 ?_)) (.inl hn) ha
          (fun h => by cases h) fun _ => idle_of_not_isWait rfl
        · simp [hn, hr₁, reportElement, report, Instance.push]
        · simpa using hbusy.2

theorem finishJob_works {r₁ : Run} {n : Nat} {a : Activity} {j : Job}
    (hmoves : Moves element e origin n r r₁)
    (hfrom : n = r.inst.activities.length ∨ ∃ a, r.activity? n = some a ∧ Reuses element e a)
    (ha : r₁.activity? n = some a) (hj : a.body = .job j) (hopen : j.state.terminal = false)
    (attempt : Attempt) : Works element e origin r (r₁.finishJob e n attempt) := by
  have hplain : ∀ {b : Activity}, b.frame = a.frame → b.isWait = false := by
    intro b hb
    rw [Activity.isWait_eq_of_frame hb, Activity.isWait, hj]
    rfl
  cases attempt with
  | «open» =>
      exact .worked hmoves hfrom ha (fun h => by cases h) fun _ => idle_of_not_isWait (hplain rfl)
  | completed vars =>
      have hn : ((r₁.modify fun i => { i with vars }).modifyActivity n
          fun a => a.advance .completed).activity? n = some (a.advance .completed) := by
        rw [activity?_modify_self]
        exact congrArg (Option.map _) ha
      refine .worked (hmoves.tail (.finishJob vars ha hj hopen)) hfrom hn (fun _ => ?_)
        fun _ => idle_of_not_isWait (hplain (a.frame_advance _))
      exact state_advance (by rw [hj]; rfl)
        (by simpa [Activity.state, hj, ActivityBody.state] using hopen) rfl
  | failed reason =>
      have hn : (r₁.failJob n reason).activity? n =
          some ((a.advance .failed).setFailure reason) := by
        rw [failJob, activity?_modify_self, ha]
        rfl
      exact .worked (hmoves.tail (.failJob reason ha hj hopen)) hfrom hn (fun h => by cases h)
        fun _ => idle_of_not_isWait (hplain (by simp))
  | broken error =>
      exact .failed n (hmoves.tail (.failJob error.message ha hj hopen)) (.fail _)

/-- Giving a job to a handler leaves a record of the call and nothing else. -/
theorem attempt_fst (r : Run) (e : Element) (position : Nat) (registration : Registration)
    (info : JobInfo) :
    (r.attempt e position registration info).1 = r ∨
      ∃ call, (r.attempt e position registration info).1 = r.recordCall call := by
  unfold attempt
  split
  · exact .inl rfl
  · exact .inr ⟨_, rfl⟩

theorem handleJob_works (hkind : e.kind = .serviceTask ∨ e.kind = .userTask) :
    Works element e origin r (r.handleJob element e origin) := by
  unfold handleJob
  split
  · exact .failed 0 .refl (.idle _)
  · rename_i r₁ n htake
    obtain ⟨a, j, htakes, hj, hopen⟩ := openJob?_takes hkind htake
    have hidle : Works element e origin r (r₁, .ok ⟨n, false, []⟩) :=
      .worked htakes.moves htakes.new_or_open htakes.activity? (fun h => by cases h)
        fun _ => idle_of_not_isWait (by rw [Activity.isWait, hj]; rfl)
    split
    · exact hidle
    · rename_i position _
      split
      · rename_i registration b _ _
        split
        · exact hidle
        · rename_i job _
          have hcall := attempt_fst r₁ e position registration (r₁.jobInfo e b.key job)
          generalize r₁.attempt e position registration (r₁.jobInfo e b.key job) = tried at hcall
          obtain ⟨r₂, attempt⟩ := tried
          rcases hcall with rfl | ⟨call, rfl⟩
          · exact finishJob_works htakes.moves htakes.new_or_open htakes.activity? hj hopen _
          · exact finishJob_works (htakes.moves.tail (.call r₁ call)) htakes.new_or_open
              htakes.activity? hj hopen _
      · exact hidle

/-- A gateway that still gathers fires if all its flows have arrived. -/
theorem gather_works {r₁ : Run} {n : Nat} {a : Activity} {g : Gateway}
    (hmoves : Moves element e origin n r r₁)
    (hfrom : n = r.inst.activities.length ∨ ∃ a, r.activity? n = some a ∧ Reuses element e a)
    (ha : r₁.activity? n = some a) (hg : a.body = .gateway g) (hactive : g.state = .active)
    (hkind : e.kind = .parallelGateway) (hat : a.element = element) :
    Works element e origin r
      (if r₁.gatewayFires e n then
        (r₁.modifyActivity n fun a => a.advance .completed, .ok ⟨n, true, []⟩)
      else (r₁, .ok ⟨n, false, []⟩)) := by
  have hplain : a.isWait = false := by
    rw [Activity.isWait, hg]
    rfl
  split
  · rename_i hfires
    have hall : g.allArrived e.incoming = true := by
      simp only [gatewayFires, ha, Option.bind_some, Activity.gateway?, hg, Option.any_some,
        Bool.and_eq_true] at hfires
      exact hfires.2
    have hn : (r₁.modifyActivity n fun a => a.advance .completed).activity? n =
        some (a.advance .completed) := by
      rw [activity?_modify_self, ha]
      rfl
    refine .worked (hmoves.tail (.fire ha hg hactive hall hkind hat)) hfrom hn (fun _ => ?_)
      fun _ => idle_of_not_isWait (by rwa [Activity.isWait_eq_of_frame (a.frame_advance _)])
    exact state_advance (by rw [hg]; rfl)
      (by simp [Activity.state, hg, ActivityBody.state, hactive, ActivityState.terminal,
        ActivityState.rank]) rfl
  · exact .worked hmoves hfrom ha (fun h => by cases h) fun _ => idle_of_not_isWait hplain

theorem parallelGateway_works (hkind : e.kind = .parallelGateway) (via : Option String) :
    Works element e origin r (r.parallelGateway element e origin via) := by
  unfold parallelGateway
  split
  · exact .failed 0 .refl (.idle _)
  · rename_i r₁ n htake
    obtain ⟨a, g, htakes, hg, hactive, hat⟩ := openGateway?_takes hkind htake
    dsimp only
    cases r₁.arrivedFlow? e origin via with
    | none =>
        exact gather_works htakes.moves htakes.new_or_open htakes.activity? hg hactive hkind hat
    | some flow =>
        have hn : (r₁.modifyActivity n fun a => a.recordInbound flow).activity? n =
            some (a.recordInbound flow) := by
          rw [activity?_modify_self, htakes.activity?]
          rfl
        have hbody : (a.recordInbound flow).body = .gateway (g.record flow) := by
          simp [Activity.recordInbound, hg]
        have hat' : (a.recordInbound flow).element = element := by
          rwa [Activity.element_eq_of_frame (a.frame_recordInbound flow)]
        refine gather_works
          (htakes.moves.tail (.arrive flow htakes.activity? hg hactive hkind hat))
          htakes.new_or_open hn hbody ?_ hkind hat'
        unfold Gateway.record Gateway.record?
        split <;> exact hactive

/-! ### Events -/

theorem isWaiting_subscription {a : Activity} {s : Subscription}
    (hs : a.body = .subscription s) (hopen : s.state.terminal = false) :
    a.isWaiting = true := by
  simp [Activity.isWaiting, hs, ActivityBody.isWaiting, hopen]

theorem isWaiting_timer {a : Activity} {t : Timer} (ht : a.body = .timer t)
    (hcreated : t.state = .created) : a.isWaiting = true := by
  simp [Activity.isWaiting, ht, ActivityBody.isWaiting, hcreated]

/-- Receiving an event consumes it and sets variables. -/
theorem receive_eq {r r₁ : Run} {e : Element} {position : Nat} {caught : CaughtEvent}
    {error? : Option ExprError} (h : r.receive e position caught = (r₁, error?)) :
    ∃ vars, r₁ = r.modify fun i => { i.consume position with vars } :=
  ⟨_, (congrArg Prod.fst h).symm⟩

/-- Receiving an event changes variables and events, and no activity. -/
theorem receive_activities {r r₁ : Run} {e : Element} {position : Nat}
    {caught : CaughtEvent} {error? : Option ExprError}
    (h : r.receive e position caught = (r₁, error?)) :
    r₁.inst.activities = r.inst.activities := by
  obtain ⟨vars, rfl⟩ := receive_eq h
  rfl

/-- The two ways of withdrawing a wait are one. -/
theorem modifyActivity_congr {r : Run} {n : Nat} {a : Activity}
    {f g : Activity → Activity} (ha : r.activity? n = some a) (h : f a = g a) :
    r.modifyActivity n f = r.modifyActivity n g := by
  have hlist : r.inst.activities.modify n f = r.inst.activities.modify n g := by
    apply List.ext_getElem?
    intro m
    rw [List.getElem?_modify, List.getElem?_modify]
    by_cases hm : n = m
    · subst hm
      have ha' : r.inst.activities[n]? = some a := ha
      simp [ha', h]
    · simp [hm]
  simp only [modifyActivity, modify, Instance.modifyActivity, hlist]

theorem messageCatch_works {ref : Option String} (hkind : e.kind = .catchEvent)
    (hevent : e.event = some (.message ref)) :
    Works element e origin r (r.messageCatch element e origin) := by
  unfold messageCatch
  split
  · exact .failed 0 .refl (.idle _)
  · rename_i r₁ n htake
    obtain ⟨a, s, htakes, hs, hopen, hid⟩ := openSubscription?_takes hkind hevent htake
    have ha := htakes.activity?
    have hwait := isWaiting_subscription hs hopen
    have horigin : r₁.originOf n = a.origin := by simp [originOf, ha]
    rw [horigin]
    dsimp only
    split
    · rename_i hlost
      have hsettle : (r₁.modifyActivity n fun a => a.advance .withdrawn) =
          r₁.modifyActivity n Activity.settle :=
        modifyActivity_congr ha (by simp [Activity.settle, hs])
      rw [hsettle]
      have hn : (r₁.modifyActivity n Activity.settle).activity? n = some a.settle := by
        rw [activity?_modify_self, ha]
        rfl
      refine .worked (htakes.moves.tail (.withdraw hkind ha hwait
        (by simp [Activity.elementId?, hs, ActivityBody.elementId?, hid]) hlost))
        htakes.new_or_open hn (fun h => by cases h) fun hsettled => ?_
      exact absurd (Activity.isWithdrawn_settle hwait)
        (by simp [Activity.isWithdrawn_of_isWaiting hsettled])
    · rename_i hrace
      have hsub : (r₁.activity? n).bind Activity.subscription? = some s := by
        simp [ha, Activity.subscription?, hs]
      rw [hsub]
      dsimp only
      split
      · rename_i hnone
        refine .worked htakes.moves htakes.new_or_open ha (fun h => by cases h) fun _ => ⟨?_, ?_⟩
        · rintro s' hs'
          obtain rfl : s = s' := by simpa [hs] using hs'
          exact hnone
        · simp [hs]
      · rename_i position hfind
        split
        · -- what is found is there
          rename_i hnone
          obtain ⟨hlt, -⟩ := List.findIdx?_eq_some_iff_getElem.mp hfind
          rw [List.getElem?_eq_getElem hlt] at hnone
          cases hnone
        · rename_i caught hcaught
          split
          · rename_i r₂ error hreceive
            exact .failed n htakes.moves
              (.spoil ha hs hopen hid (by simpa using hrace) hfind hcaught hreceive)
          · rename_i r₂ hreceive
            have ha₂ : r₂.activity? n = some a := by
              rw [activity?, receive_activities hreceive]
              exact ha
            have hserve : (r₂.modifyActivity n fun a => a.advance .completed) =
                r₂.modifyActivity n Activity.serve :=
              modifyActivity_congr ha₂ (by simp [Activity.serve, hs])
            rw [hserve]
            exact .worked (htakes.moves.tail
              (.message hkind ha hs hopen hid (by simpa using hrace) hfind hcaught hreceive))
              htakes.new_or_open (activity?_serveWait_self ha₂ hwait _ _)
              (fun _ => state_of_isServed (Activity.isServed_serve hwait))
              fun hserved => absurd (Activity.isServed_serve hwait)
                (by simp [Activity.isServed_of_isWaiting hserved])

theorem timerCatch_works {duration : Option String} (hkind : e.kind = .catchEvent)
    (hevent : e.event = some (.timer duration)) :
    Works element e origin r (r.timerCatch element e duration origin) := by
  unfold timerCatch
  split
  · exact .failed 0 .refl (.idle _)
  · rename_i r₁ n htake
    obtain ⟨a, t, htakes, ht, hcreated, hid⟩ := openTimer_takes hkind hevent htake
    have ha := htakes.activity?
    have hwait := isWaiting_timer ht hcreated
    have horigin : r₁.originOf n = a.origin := by simp [originOf, ha]
    rw [horigin]
    dsimp only
    split
    · rename_i hlost
      have hsettle : (r₁.modifyActivity n fun a => a.setTimer .cancelled) =
          r₁.modifyActivity n Activity.settle :=
        modifyActivity_congr ha (by simp [Activity.settle, ht])
      rw [hsettle]
      have hn : (r₁.modifyActivity n Activity.settle).activity? n = some a.settle := by
        rw [activity?_modify_self, ha]
        rfl
      refine .worked (htakes.moves.tail (.withdraw hkind ha hwait
        (by simp [Activity.elementId?, ht, ActivityBody.elementId?, hid]) hlost))
        htakes.new_or_open hn (fun h => by cases h) fun hsettled => ?_
      exact absurd (Activity.isWithdrawn_settle hwait)
        (by simp [Activity.isWithdrawn_of_isWaiting hsettled])
    · rename_i hrace
      have htimer : (r₁.activity? n).bind Activity.timer? = some t := by
        simp [ha, Activity.timer?, ht]
      rw [htimer]
      dsimp only
      split
      · rename_i hdue
        have hserve : (r₁.modifyActivity n fun a => a.setTimer .triggered) =
            r₁.modifyActivity n Activity.serve :=
          modifyActivity_congr ha (by simp [Activity.serve, ht])
        rw [hserve]
        exact .worked (htakes.moves.tail
          (.trigger hkind ha ht hcreated hid (by simpa using hrace) hdue))
          htakes.new_or_open (activity?_serveWait_self ha hwait _ _)
          (fun _ => state_of_isServed (Activity.isServed_serve hwait))
          fun hserved => absurd (Activity.isServed_serve hwait)
            (by simp [Activity.isServed_of_isWaiting hserved])
      · rename_i hearly
        refine .worked htakes.moves htakes.new_or_open ha (fun h => by cases h) fun _ => ⟨?_, ?_⟩
        · simp [ht]
        · rintro t' ht'
          obtain rfl : t = t' := by simpa [ht] using ht'
          simpa using hearly

/-- Writing outputs changes variables only. -/
theorem writeOutputs_activities {r r₁ : Run} {e : Element} (h : r.writeOutputs e = .ok r₁) :
    r₁.inst.activities = r.inst.activities := by
  unfold writeOutputs at h
  split at h <;> cases h
  rfl

theorem linkCatch_works {link : String} (hkind : e.kind = .catchEvent)
    (hevent : e.event = some (.link link)) :
    Works element e origin r (r.linkCatch element e origin) := by
  have hplain : e.slot? element = none := by simp [Element.slot?, hkind, hevent]
  unfold linkCatch openElement
  cases hopen : r.open? element origin (.element .completed) with
  | none => exact .failed 0 .refl (.idle _)
  | some opened =>
      obtain ⟨r₁, n⟩ := opened
      have hfirst : Moves element e origin n r r₁ :=
        .single (.opened (.element _ hplain (by simp [hkind])) hopen)
      have ha := activity?_open hopen
      dsimp only
      split
      · exact .failed n hfirst (.idle _)
      · rename_i r₂ hwrite
        refine .worked (hfirst.tail (.outputs hwrite)) (.inl (open?_eq_some hopen).2.1)
          (a := ⟨r.keys.next, element, origin, .element .completed⟩) ?_ (fun _ => rfl)
          fun _ => idle_of_not_isWait rfl
        rw [activity?, writeOutputs_activities hwrite]
        exact ha

theorem linkThrow_handles (hkind : e.kind = .throwEvent) (link : String) :
    Handles element e origin r (r.linkThrow element e link origin) := by
  have hplain : e.slot? element = none := by simp [Element.slot?, hkind]
  unfold linkThrow
  split
  · exact .failed 0 .refl (.idle _)
  · rename_i target htarget
    unfold openElement
    cases hopen : r.open? element origin (.element .completed) with
    | none => exact .failed 0 .refl (.idle _)
    | some opened =>
        obtain ⟨r₁, n⟩ := opened
        have hfirst : Moves element e origin n r r₁ :=
          .single (.opened (.element _ hplain (by simp [hkind])) hopen)
        have ha := activity?_open hopen
        obtain ⟨-, hn, hr₁⟩ := open?_eq_some hopen
        dsimp only
        split
        · exact .failed n hfirst (.idle _)
        · rename_i r₂ hwrite
          have hdiagram : r₂.diagram = r.diagram := by
            unfold writeOutputs at hwrite
            split at hwrite <;> cases hwrite
            rw [hr₁]
            rfl
          refine .handled ((hfirst.tail (.outputs hwrite)).tail (.report _ .completed))
            (.inl hn) (a := ⟨r.keys.next, element, origin, .element .completed⟩) ?_
            (fun h => by cases h) (.jump hkind (?_ : linkTarget? _ link = some target))
            fun _ => idle_of_not_isWait rfl
          · change r₂.inst.activities[n]? = _
            rw [writeOutputs_activities hwrite]
            exact ha
          · rw [← htarget]
            exact congrArg (fun d => linkTarget? d link) hdiagram

/-! ### All kinds -/

theorem catchBody_works (hkind : e.kind = .catchEvent) :
    Works element e origin r (r.catchBody element e origin) := by
  unfold catchBody
  split
  · rename_i hevent
    exact messageCatch_works hkind hevent
  · rename_i hevent
    exact timerCatch_works hkind hevent
  · rename_i hevent
    exact linkCatch_works hkind hevent
  · rename_i hevent
    exact openElement_works (by simp [Element.slot?, hkind, hevent]) (by simp [hkind])
      fun h => by cases h

/-- Only catch events add commands to the work on their activity. -/
theorem Works.handles {out : Handled} (hkind : e.kind ≠ .catchEvent)
    (h : Works element e origin r out) : Handles element e origin r out := by
  cases h with
  | failed n h hbreak => exact .failed n h hbreak
  | worked h hfrom ha hdone hrest => exact .handled h hfrom ha hdone (.nothing hkind) hrest

theorem catchEvent_handles (hkind : e.kind = .catchEvent) :
    Handles element e origin r (r.catchEvent element e origin) := by
  have h : Works element e origin r (r.catchBody element e origin) := catchBody_works hkind
  unfold catchEvent
  generalize r.catchBody element e origin = out at h
  cases h with
  | failed n h hbreak => exact .failed n h hbreak
  | worked h hfrom ha hdone hrest => exact .handled h hfrom ha hdone (.race hkind) hrest

theorem throwEvent_handles (hkind : e.kind = .throwEvent) :
    Handles element e origin r (r.throwEvent element e origin) := by
  unfold throwEvent
  split
  · exact linkThrow_handles hkind _
  · exact (openElement_works (by simp [Element.slot?, hkind]) (by simp [hkind])
      fun h => by cases h).handles (by simp [hkind])

/-- **Every way of handling an element is a chain of moves.** -/
theorem handle_spec (r : Run) (element : Nat) (e : Element) (origin : Option Nat)
    (via : Option String) : Handles element e origin r (r.handle element e origin via) := by
  unfold handle
  cases hkind : e.kind <;> dsimp only
  case startEvent | exclusiveGateway =>
    exact (openElement_works (by simp [Element.slot?, hkind]) (by simp [hkind])
      fun _ => rfl).handles (by simp [hkind])
  case endEvent => exact (endEvent_works hkind).handles (by simp [hkind])
  case serviceTask => exact (handleJob_works (.inl hkind)).handles (by simp [hkind])
  case userTask => exact (handleJob_works (.inr hkind)).handles (by simp [hkind])
  case parallelGateway => exact (parallelGateway_works hkind via).handles (by simp [hkind])
  case eventBasedGateway => exact (eventBasedGateway_works hkind).handles (by simp [hkind])
  case catchEvent => exact catchEvent_handles hkind
  case throwEvent => exact throwEvent_handles hkind

end Handling

end Run

end ProcessEngine
