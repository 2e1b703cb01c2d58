import ProcessEngine.Proofs.DrainSteps

/-!
# What a run adds to its instance

A run never takes an activity away and never changes its frame.  It puts new
activities behind the others, and each of them uses up the next key of the key
source.  `Run.Grows opened r r'` says this about two moments of a run, with the
frames of the activities that were opened in between.

Main statements: a visit opens at most one activity, and that one fits its
element (`Moves.grows`); everything that a run does is growth
(`start?_grows`).
-/

namespace ProcessEngine

namespace Instance

/-- What never changes about the activities, in their order. -/
def frames (i : Instance) : List Activity := i.activities.map Activity.frame

@[simp] theorem length_frames (i : Instance) : i.frames.length = i.activities.length := by
  simp [frames]

theorem frames_modifyActivity (i : Instance) (n : Nat) {f : Activity → Activity}
    (hf : ∀ a, (f a).frame = a.frame) : (i.modifyActivity n f).frames = i.frames := by
  apply List.ext_getElem?
  intro m
  simp only [frames, modifyActivity, List.getElem?_map, List.getElem?_modify]
  by_cases h : n = m
  · cases i.activities[m]? <;> simp [h, hf]
  · simp [h]

theorem frames_settleRace (i : Instance) (gateway : Nat) :
    (i.settleRace gateway).frames = i.frames := by
  unfold settleRace
  split
  · rfl
  · simp only [frames, List.map_map]
    apply List.map_congr_left
    intro a _
    simp only [Function.comp_apply]
    split <;> simp

/-- The frame at a position is that of the activity there. -/
theorem getElem?_frames {i : Instance} {n : Nat} {a : Activity} :
    i.frames[n]? = some a ↔ ∃ b, i.activities[n]? = some b ∧ b.frame = a := by
  simp [frames]

end Instance

/-! ## Bodies that fit -/

/-- What an activity holds agrees with its element and its instance.  A body
that is only a state says nothing about its element. -/
inductive ActivityBody.Fits (i : Instance) (e : Element) : ActivityBody → Prop
  | element (state : ActivityState) : Fits i e (.element state)
  | gateway (g : Gateway) (hkind : e.kind = .parallelGateway) : Fits i e (.gateway g)
  | race (race : Race) (hkind : e.kind = .eventBasedGateway) : Fits i e (.race race)
  | job (j : Job) (hkind : e.kind = .serviceTask ∨ e.kind = .userTask)
      (hinstance : j.instanceKey = i.key) (hid : j.elementId = e.id) : Fits i e (.job j)
  | timer (t : Timer) {duration : Option String} (hkind : e.kind = .catchEvent)
      (hevent : e.event = some (.timer duration))
      (hms : Run.timerMillis e duration = .ok t.duration)
      (hinstance : t.instanceKey = i.key) (hdefinition : t.definitionKey = i.definition.key)
      (hid : t.elementId = e.id) (hdue : t.dueAt = t.createdAt.addMillis t.duration) :
      Fits i e (.timer t)
  | subscription (s : Subscription) {ref : Option String} (hkind : e.kind = .catchEvent)
      (hevent : e.event = some (.message ref)) (hinstance : s.instanceKey = i.key)
      (hdefinition : s.definitionKey = i.definition.key) (hid : s.elementId = e.id)
      (hname : s.name = i.diagram.messageName e) : Fits i e (.subscription s)

namespace ActivityBody

/-- Fitting is a matter of the frame. -/
theorem Fits.of_frame {i j : Instance} {e : Element} {b c : ActivityBody}
    (h : b.Fits i e) (hframe : c.frame = b.frame) (hkey : j.key = i.key)
    (hdefinition : j.definition = i.definition) : c.Fits j e := by
  have hdiagram : j.diagram = i.diagram := congrArg Definition.diagram hdefinition
  cases h with
  | element state =>
      cases c <;> simp only [frame, reduceCtorEq] at hframe
      exact .element _
  | gateway g hkind =>
      cases c <;> simp only [frame, reduceCtorEq] at hframe
      exact .gateway _ hkind
  | race race hkind =>
      cases c <;> simp only [frame, reduceCtorEq] at hframe
      exact .race _ hkind
  | job k hkind hinstance hid =>
      cases c <;> simp only [frame, reduceCtorEq, job.injEq, Job.mk.injEq] at hframe
      exact .job _ hkind (by rw [hframe.1, hinstance, hkey]) (by rw [hframe.2.1, hid])
  | timer t hkind hevent hms hinstance hdef hid hdue =>
      cases c <;> simp only [frame, reduceCtorEq, timer.injEq, Timer.mk.injEq] at hframe
      rename_i u
      obtain ⟨h1, h2, h3, -, h4, h5, h6⟩ := hframe
      refine .timer _ hkind hevent ?_ ?_ ?_ ?_ ?_
      · rw [h6, hms]
      · rw [h1, hinstance, hkey]
      · rw [h2, hdef, hdefinition]
      · rw [h3, hid]
      · rw [h5, h4, h6, hdue]
  | subscription s hkind hevent hinstance hdef hid hname =>
      cases c <;>
        simp only [frame, reduceCtorEq, subscription.injEq, Subscription.mk.injEq] at hframe
      obtain ⟨h1, h2, h3, h4, -, -⟩ := hframe
      refine .subscription _ hkind hevent ?_ ?_ ?_ ?_
      · rw [h1, hinstance, hkey]
      · rw [h2, hdef, hdefinition]
      · rw [h3, hid]
      · rw [h4, hname, hdiagram]

/-- All other bodies stand at elements of their own kinds. -/
theorem Fits.not_plain {i : Instance} {e : Element} {b : ActivityBody} (h : b.Fits i e)
    (hb : b.isElement = false) : ¬ e.Plain := by
  rintro ⟨hslot, hrace⟩
  cases h with
  | element => cases hb
  | gateway g hkind => simpa [Element.slot?, hkind] using hslot 0
  | race race hkind => exact hrace hkind
  | job j hkind => rcases hkind with hkind | hkind <;> simpa [Element.slot?, hkind] using hslot 0
  | timer t hkind hevent => simpa [Element.slot?, hkind, hevent] using hslot 0
  | subscription s hkind hevent => simpa [Element.slot?, hkind, hevent] using hslot 0

end ActivityBody

namespace Run

/-- What a visit opens fits its element. -/
theorem Opens.fits {r : Run} {element : Nat} {e : Element} {body : ActivityBody}
    (h : Opens r element e body) : body.Fits r.inst e := by
  cases h with
  | element state => exact .element state
  | race hkind => exact .race _ hkind
  | gateway hkind => exact .gateway _ hkind
  | job hkind => exact .job _ hkind rfl rfl
  | timer hkind hevent hms => exact .timer _ hkind hevent hms rfl rfl rfl rfl
  | subscription hkind hevent => exact .subscription _ hkind hevent rfl rfl rfl rfl

/-! ## Growth -/

/-- The handlers that are registered, whatever calls they have had. -/
def handlers (r : Run) : List (TaskMatcher × Handler) :=
  r.registrations.map fun g => (g.accepts, g.handler)

/-- A call counts and does not register anything. -/
theorem handlers_recordCall (r : Run) (call : HandlerCall) :
    (r.recordCall call).handlers = r.handlers := by
  refine List.ext_getElem? fun n => ?_
  simp only [handlers, recordCall, List.getElem?_map, List.getElem?_modify]
  cases r.registrations[n]? with
  | none => rfl
  | some g => by_cases hn : call.registration = n <;> simp [hn]

/-- Between two moments of a run some activities are opened, under the keys
that come next, and the frames of all others stay.  So do the handlers. -/
structure Grows (opened : List Activity) (r r' : Run) : Prop where
  key : r'.inst.key = r.inst.key
  definition : r'.inst.definition = r.inst.definition
  createdAt : r'.inst.createdAt = r.inst.createdAt
  now : r'.now = r.now
  handlers : r'.handlers = r.handlers
  frames : r'.inst.frames = r.inst.frames ++ opened
  keys : r'.keys.next = r.keys.next + opened.length
  issued : opened.map Activity.key =
    (List.range opened.length).map fun k : Nat => r.keys.next + k
  room : opened = [] ∨ r'.keys.next ≤ greatestKey

theorem Grows.refl (r : Run) : Grows [] r r :=
  ⟨rfl, rfl, rfl, rfl, rfl, by simp, by simp, rfl, .inl rfl⟩

theorem Grows.trans {xs ys : List Activity} {r r₁ r₂ : Run} (h : Grows xs r r₁)
    (h' : Grows ys r₁ r₂) : Grows (xs ++ ys) r r₂ where
  key := h'.key.trans h.key
  definition := h'.definition.trans h.definition
  createdAt := h'.createdAt.trans h.createdAt
  now := h'.now.trans h.now
  handlers := h'.handlers.trans h.handlers
  frames := by rw [h'.frames, h.frames, List.append_assoc]
  keys := by rw [h'.keys, h.keys, List.length_append]; omega
  issued := by
    rw [List.map_append, h.issued, h'.issued, h.keys, List.length_append, List.range_add,
      List.map_append, List.map_map]
    congr 1
    apply List.map_congr_left
    intro k _
    simp only [Function.comp_apply]
    omega
  room := by
    have hkeys := h'.keys
    rcases h.room with rfl | hroom
    · simpa using h'.room
    · rcases h'.room with rfl | hroom'
      · simp only [List.length_nil] at hkeys
        exact .inr (by omega)
      · exact .inr hroom'

/-- A change that leaves identity, clock, handlers, keys and frames alone. -/
theorem Grows.of_frames {r r' : Run} (hkey : r'.inst.key = r.inst.key)
    (hdefinition : r'.inst.definition = r.inst.definition)
    (hcreated : r'.inst.createdAt = r.inst.createdAt) (hnow : r'.now = r.now)
    (hhandlers : r'.handlers = r.handlers) (hkeys : r'.keys = r.keys)
    (hframes : r'.inst.frames = r.inst.frames) : Grows [] r r' :=
  ⟨hkey, hdefinition, hcreated, hnow, hhandlers, by simpa using hframes, by simp [hkeys], rfl,
    .inl rfl⟩

section Consequences

variable {opened : List Activity} {r r' : Run}

theorem Grows.diagram (h : Grows opened r r') : r'.inst.diagram = r.inst.diagram :=
  congrArg Definition.diagram h.definition

theorem Grows.length (h : Grows opened r r') :
    r'.inst.activities.length = r.inst.activities.length + opened.length := by
  have hlength := congrArg List.length h.frames
  simpa using hlength

/-- An activity stays where it is, with its frame. -/
theorem Grows.activity? (h : Grows opened r r') {n : Nat} {a : Activity}
    (ha : r.activity? n = some a) : ∃ b, r'.activity? n = some b ∧ b.frame = a.frame := by
  have hframe : r.inst.frames[n]? = some a.frame := Instance.getElem?_frames.mpr ⟨a, ha, rfl⟩
  have hframe' : r'.inst.frames[n]? = some a.frame := by
    rw [h.frames, List.getElem?_append_left (List.getElem?_eq_some_iff.mp hframe).1]
    exact hframe
  exact Instance.getElem?_frames.mp hframe'

/-- An activity was there before, or it is one of those that were opened. -/
theorem Grows.cases_activity? (h : Grows opened r r') {n : Nat} {b : Activity}
    (hb : r'.activity? n = some b) :
    (∃ a, r.activity? n = some a ∧ b.frame = a.frame) ∨
      (r.inst.activities.length ≤ n ∧
        opened[n - r.inst.activities.length]? = some b.frame) := by
  have hframe : r'.inst.frames[n]? = some b.frame := Instance.getElem?_frames.mpr ⟨b, hb, rfl⟩
  rw [h.frames] at hframe
  by_cases hn : n < r.inst.frames.length
  · rw [List.getElem?_append_left hn] at hframe
    obtain ⟨a, ha, heq⟩ := Instance.getElem?_frames.mp hframe
    exact .inl ⟨a, ha, heq.symm⟩
  · rw [List.getElem?_append_right (by omega), Instance.length_frames] at hframe
    exact .inr ⟨by simpa using hn, hframe⟩

/-- An activity keeps its origin. -/
theorem Grows.originOf (h : Grows opened r r') {n g : Nat} (ho : r.originOf n = some g) :
    r'.originOf n = some g := by
  obtain ⟨a, ha, ho⟩ := Option.bind_eq_some_iff.mp ho
  obtain ⟨b, hb, hframe⟩ := h.activity? ha
  rw [Run.originOf, hb, Option.bind_some, Activity.origin_eq_of_frame hframe, ho]

theorem Grows.activity?_still (h : Grows [] r r') {n : Nat} {b : Activity}
    (hb : r'.activity? n = some b) : ∃ a, r.activity? n = some a ∧ b.frame = a.frame := by
  rcases h.cases_activity? hb with hold | ⟨_, hnew⟩
  · exact hold
  · cases hnew

end Consequences

/-! ## Moves grow -/

theorem modify_grows (r : Run) {f : Instance → Instance} (hkey : (f r.inst).key = r.inst.key)
    (hdefinition : (f r.inst).definition = r.inst.definition)
    (hcreated : (f r.inst).createdAt = r.inst.createdAt)
    (hframes : (f r.inst).frames = r.inst.frames) : Grows [] r (r.modify f) :=
  .of_frames hkey hdefinition hcreated rfl rfl rfl hframes

theorem modifyActivity_grows (r : Run) (n : Nat) {f : Activity → Activity}
    (hf : ∀ a, (f a).frame = a.frame) : Grows [] r (r.modifyActivity n f) :=
  r.modify_grows rfl rfl rfl (r.inst.frames_modifyActivity n hf)

theorem serveWait_grows (r : Run) (n : Nat) (origin : Option Nat) (id : String) :
    Grows [] r (r.serveWait n origin id) := by
  have hwin : Grows [] (r.modifyActivity n Activity.serve) (r.serveWait n origin id) := by
    cases origin with
    | none => exact .refl _
    | some g => exact modifyActivity_grows _ g fun a => a.frame_winRace id
  exact (r.modifyActivity_grows n Activity.frame_serve).trans hwin

theorem receive_grows {r r₁ : Run} {e : Element} {position : Nat} {caught : CaughtEvent}
    {error? : Option ExprError} (h : r.receive e position caught = (r₁, error?)) :
    Grows [] r r₁ := by
  obtain ⟨vars, rfl⟩ := receive_eq h
  exact r.modify_grows rfl rfl rfl rfl

theorem writeOutputs_grows {r r₁ : Run} {e : Element} (h : r.writeOutputs e = .ok r₁) :
    Grows [] r r₁ := by
  unfold writeOutputs at h
  split at h <;> cases h
  exact r.modify_grows rfl rfl rfl rfl

theorem open?_grows {r r' : Run} {element n : Nat} {origin : Option Nat} {body : ActivityBody}
    (h : r.open? element origin body = some (r', n)) :
    n = r.inst.activities.length ∧
      Grows [(Activity.mk r.keys.next element origin body).frame] r r' := by
  obtain ⟨hroom, rfl, rfl⟩ := open?_eq_some h
  refine ⟨rfl, rfl, rfl, rfl, rfl, rfl, ?_, by simp, by simp, .inr ?_⟩
  · simp [Instance.frames, Instance.push]
  · show r.keys.next + 1 ≤ greatestKey
    omega

theorem settleRace_grows (r : Run) (gateway : Nat) :
    Grows [] r (r.modify fun i => i.settleRace gateway) := by
  have hframes := r.inst.frames_settleRace gateway
  have hidentity : (r.inst.settleRace gateway).key = r.inst.key ∧
      (r.inst.settleRace gateway).definition = r.inst.definition ∧
      (r.inst.settleRace gateway).createdAt = r.inst.createdAt := by
    unfold Instance.settleRace
    split <;> exact ⟨rfl, rfl, rfl⟩
  exact .of_frames hidentity.1 hidentity.2.1 hidentity.2.2 rfl rfl rfl hframes

section Moves

variable {element : Nat} {e : Element} {origin : Option Nat} {n : Nat} {r r' : Run}

/-- A move opens the activity that the visit works on, or nothing. -/
theorem Move.grows (h : Move element e origin n r r') :
    Grows [] r r' ∨ n = r.inst.activities.length ∧ ∃ body, Opens r element e body ∧
      Grows [(Activity.mk r.keys.next element origin body).frame] r r' := by
  cases h with
  | report intent => exact .inl (.of_frames rfl rfl rfl rfl rfl rfl rfl)
  | call call =>
      exact .inl (.of_frames rfl rfl rfl rfl (r.handlers_recordCall call) rfl rfl)
  | outputs h => exact .inl (writeOutputs_grows h)
  | opened hbody hopen =>
      obtain ⟨hn, hgrows⟩ := open?_grows hopen
      exact .inr ⟨hn, _, hbody, hgrows⟩
  | complete => exact .inl (r.modify_grows rfl rfl rfl rfl)
  | finishJob vars =>
      have hvars : Grows [] r (r.modify fun i => { i with vars }) :=
        r.modify_grows rfl rfl rfl rfl
      exact .inl (hvars.trans (modifyActivity_grows _ n fun a => a.frame_advance _))
  | failJob reason => exact .inl (r.modifyActivity_grows n fun a => by simp)
  | arrive flow => exact .inl (r.modifyActivity_grows n fun a => a.frame_recordInbound flow)
  | fire => exact .inl (r.modifyActivity_grows n fun a => a.frame_advance _)
  | withdraw => exact .inl (r.modifyActivity_grows n Activity.frame_settle)
  | message _ _ _ _ _ _ _ _ hreceive =>
      exact .inl ((receive_grows hreceive).trans (serveWait_grows _ n _ _))
  | trigger => exact .inl (r.serveWait_grows n _ _)

theorem Breaks.grows (h : Breaks e n r r') : Grows [] r r' := by
  cases h with
  | idle => exact .refl r
  | fail => exact r.modify_grows rfl rfl rfl rfl
  | spoil _ _ _ _ _ _ _ hreceive =>
      exact (receive_grows hreceive).trans (modifyActivity_grows _ n fun a => a.frame_advance _)

/-- **A visit opens at most one activity**, for the element and from the origin
that are visited. -/
theorem Moves.grows (h : Moves element e origin n r r') :
    Grows [] r r' ∨ n = r.inst.activities.length ∧ ∃ body, body.Fits r.inst e ∧
      Grows [(Activity.mk r.keys.next element origin body).frame] r r' := by
  induction h with
  | refl => exact .inl (.refl r)
  | tail _ hmove ih =>
      rcases ih with hstill | ⟨hn, body, hfits, hgrows⟩
      · rcases hmove.grows with hmove | ⟨hn, body, hbody, hmove⟩
        · exact .inl (hstill.trans hmove)
        · refine .inr ⟨by simpa [hstill.length] using hn, body, ?_, ?_⟩
          · exact hbody.fits.of_frame rfl hstill.key.symm hstill.definition.symm
          · rw [show r.keys.next = _ by simpa using hstill.keys.symm]
            exact hstill.trans hmove
      · rcases hmove.grows with hmove | ⟨hn', _⟩
        · exact .inr ⟨hn, body, hfits, by simpa using hgrows.trans hmove⟩
        · -- the visit works on one position, which is taken by now
          have hlength := hgrows.length
          simp only [List.length_singleton] at hlength
          omega

theorem Move.exists_grows (h : Move element e origin n r r') : ∃ opened, Grows opened r r' := by
  rcases h.grows with hstill | ⟨_, _, _, hgrows⟩
  · exact ⟨_, hstill⟩
  · exact ⟨_, hgrows⟩

theorem Moves.exists_grows (h : Moves element e origin n r r') :
    ∃ opened, Grows opened r r' := by
  rcases h.grows with hstill | ⟨_, _, _, hgrows⟩
  · exact ⟨_, hstill⟩
  · exact ⟨_, hgrows⟩

theorem Visits.grows {out : Run × List Command} (h : Visits element e origin r out) :
    Grows [] r out.1 ∨ ∃ body, body.Fits r.inst e ∧
      Grows [(Activity.mk r.keys.next element origin body).frame] r out.1 := by
  cases h with
  | failed n error h hbreak =>
      rcases h.grows with hstill | ⟨_, body, hfits, hgrows⟩
      · exact .inl (hstill.trans hbreak.grows)
      · exact .inr ⟨body, hfits, by simpa using hgrows.trans hbreak.grows⟩
  | visited h =>
      rcases h.grows with hstill | ⟨_, body, hfits, hgrows⟩
      · exact .inl hstill
      · exact .inr ⟨body, hfits, hgrows⟩

theorem Visits.exists_grows {out : Run × List Command} (h : Visits element e origin r out) :
    ∃ opened, Grows opened r out.1 := by
  rcases h.grows with hstill | ⟨_, _, hgrows⟩
  · exact ⟨_, hstill⟩
  · exact ⟨_, hgrows⟩

/-- What a visit has opened stands at its element, comes from its origin and
fits. -/
theorem Visits.new_activity {out : Run × List Command} (h : Visits element e origin r out)
    {k : Nat} {a : Activity} (hk : r.inst.activities.length ≤ k)
    (ha : out.1.activity? k = some a) :
    k = r.inst.activities.length ∧ a.element = element ∧ a.origin = origin ∧
      a.body.Fits r.inst e := by
  rcases h.grows with hstill | ⟨body, hbody, hgrows⟩
  · obtain ⟨b, hb, _⟩ := hstill.activity?_still ha
    have hlt := (List.getElem?_eq_some_iff.mp hb).1
    omega
  · rcases hgrows.cases_activity? ha with ⟨b, hb, _⟩ | ⟨_, hnew⟩
    · have hlt := (List.getElem?_eq_some_iff.mp hb).1
      omega
    · have hframe : a.frame = (Activity.mk r.keys.next element origin body).frame :=
        List.mem_singleton.mp (List.mem_of_getElem? hnew)
      have hk' := (List.getElem?_eq_some_iff.mp hnew).1
      simp only [List.length_singleton] at hk'
      exact ⟨by omega, Activity.element_eq_of_frame hframe, Activity.origin_eq_of_frame hframe,
        hbody.of_frame (congrArg Activity.body hframe) rfl rfl⟩

end Moves

/-! ## Runs grow -/

theorem dispatch_grows (r : Run) (c : Command) :
    ∃ opened, Grows opened r (r.dispatch c).1 := by
  have h := dispatch_spec r c
  generalize r.dispatch c = out at h
  cases h with
  | idle => exact ⟨_, .refl r⟩
  | flows audit => exact ⟨[], .of_frames rfl rfl rfl rfl rfl rfl rfl⟩
  | stuck => exact ⟨_, .refl r⟩
  | enter _ h => exact h.exists_grows
  | resume _ _ h => exact h.exists_grows
  | settle gateway => exact ⟨_, r.settleRace_grows gateway⟩

theorem Reaches.grows {work next : Work} (h : Reaches work next) :
    ∃ opened, Grows opened work.1 next.1 := by
  induction h with
  | refl => exact ⟨_, .refl _⟩
  | tail _ hnext ih =>
      obtain ⟨xs, hbefore⟩ := ih
      cases hnext with
      | step r c queue =>
          obtain ⟨ys, hstep⟩ := dispatch_grows r c
          exact ⟨_, hbefore.trans hstep⟩

theorem report_grows (r : Run) (event : AuditEvent) : Grows [] r (r.report event) :=
  .of_frames rfl rfl rfl rfl rfl rfl rfl

theorem finish_grows (r : Run) : Grows [] r r.finish := by
  unfold finish
  split
  · exact r.report_grows _
  · exact .refl r

theorem abort_grows (r : Run) : Grows [] r r.abort :=
  .of_frames rfl rfl rfl rfl rfl rfl rfl

theorem activate_grows (r : Run) : Grows [] r r.activate :=
  r.modify_grows rfl rfl rfl rfl

theorem Ends.grows {work : Work} {r : Run} {error? : Option EngineError}
    (h : Ends work r error?) : ∃ opened, Grows opened work.1 r := by
  cases h with
  | @empty r h =>
      obtain ⟨opened, hgrows⟩ := h.grows
      exact ⟨_, hgrows.trans r.finish_grows⟩
  | @failed r c queue error h =>
      obtain ⟨xs, hgrows⟩ := h.grows
      obtain ⟨ys, hlast⟩ := dispatch_grows r c
      exact ⟨_, (hgrows.trans hlast).trans (abort_grows _)⟩

/-- **All that a run does is growth.** -/
theorem start?_grows {fuel : Nat} {r r' : Run} {error? : Option EngineError}
    (h : r.start? fuel = some (r', error?)) : ∃ opened, Grows opened r r' := by
  rcases start?_cases h with ⟨_, rfl, _⟩ | ⟨_, hends⟩
  · exact ⟨_, .refl _⟩
  · obtain ⟨opened, hgrows⟩ := hends.grows
    exact ⟨_, r.activate_grows.trans hgrows⟩

end Run

end ProcessEngine
