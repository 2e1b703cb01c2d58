import ProcessEngine.Proofs.RunGrowth

/-!
# Sound arenas

What an activity stores twice agrees: unless its body is only a state, it is of
the kind that its element asks for and carries the id of that element, and the
element is the first one with its id.  Origins lie before the activities that
name them, and no slot is held twice.

Main statements: a visit of an element whose slot is held opens nothing
(`Moves.still_of_held`), and every run keeps the arena of its instance sound
(`start?_sound`).
-/

namespace ProcessEngine

/-- A position at which a run may enter: that of an element which is the first
one with its id, or whose activities hold nothing but a state. -/
def Diagram.Enterable (d : Diagram) (n : Nat) : Prop :=
  ∃ e, d.elements[n]? = some e ∧ (e.Plain ∨ d.findElement? e.id = some n)

/-- An activity is at home at its element. -/
def Activity.Fits (i : Instance) (a : Activity) : Prop :=
  ∃ e, i.diagram.elements[a.element]? = some e ∧ a.body.Fits i e ∧
    (a.body.isElement = true ∨ i.diagram.findElement? e.id = some a.element)

/-- The arena of an instance is in order. -/
structure Instance.Sound (i : Instance) : Prop where
  fits : ∀ ⦃n : Nat⦄ ⦃a : Activity⦄, i.activities[n]? = some a → a.Fits i
  origin_lt : ∀ ⦃n : Nat⦄ ⦃a : Activity⦄ ⦃o : Nat⦄, i.activities[n]? = some a →
    a.origin = some o → o < n
  exclusive : i.Exclusive

namespace Run

section Slots

variable {element : Nat} {e : Element} {origin : Option Nat} {n : Nat} {r r' : Run}

/-! ## Slots under moves -/

theorem slotAt_serveWait_ne (r : Run) {m n : Nat} (h : m ≠ n) (origin : Option Nat)
    (id : String) : (r.serveWait n origin id).inst.slotAt m = r.inst.slotAt m := by
  unfold serveWait
  exact (Instance.slotAt_winRace _ origin id m).trans (Instance.slotAt_modifyActivity_ne _ h _)

theorem slotAt_of_serveWait {r : Run} {m n : Nat} {origin : Option Nat} {id : String}
    {slot : Slot} (h : (r.serveWait n origin id).inst.slotAt m = some slot) :
    r.inst.slotAt m = some slot := by
  unfold serveWait at h
  rw [show ((r.modifyActivity n Activity.serve).modify fun i => i.winRace origin id).inst.slotAt m
      = _ from Instance.slotAt_winRace _ origin id m] at h
  exact Instance.slotAt_of_modifyActivity (fun a slot => Activity.slot?_of_slot?_serve) h

theorem receive_slotAt {r r₁ : Run} {e : Element} {position : Nat} {caught : CaughtEvent}
    {error? : Option ExprError} (h : r.receive e position caught = (r₁, error?)) (m : Nat) :
    r₁.inst.slotAt m = r.inst.slotAt m := by
  unfold Instance.slotAt
  rw [receive_activities h]

/-- A move leaves all slots alone but that of its own activity. -/
theorem Move.slotAt_ne (h : Move element e origin n r r') {m : Nat} (hm : m ≠ n) :
    r'.inst.slotAt m = r.inst.slotAt m := by
  cases h with
  | report => rfl
  | call => rfl
  | outputs h =>
      unfold Instance.slotAt
      rw [writeOutputs_activities h]
  | opened hbody hopen =>
      obtain ⟨-, rfl, rfl⟩ := open?_eq_some hopen
      simp only [Instance.slotAt, Instance.push]
      rcases Nat.lt_or_gt_of_ne hm with hlt | hgt
      · rw [List.getElem?_append_left hlt]
      · rw [List.getElem?_eq_none (by simp; omega), List.getElem?_eq_none (by omega)]
  | complete => rfl
  | finishJob vars => exact Instance.slotAt_modifyActivity_ne _ hm _
  | failJob => exact Instance.slotAt_modifyActivity_ne _ hm _
  | arrive => exact Instance.slotAt_modifyActivity_ne _ hm _
  | fire => exact Instance.slotAt_modifyActivity_ne _ hm _
  | withdraw => exact Instance.slotAt_modifyActivity_ne _ hm _
  | message _ _ _ _ _ _ _ _ hreceive =>
      rw [slotAt_serveWait_ne _ hm, receive_slotAt hreceive]
  | trigger => exact slotAt_serveWait_ne _ hm _ _

/-- A slot is taken by a new activity only, and only where it is free. -/
theorem Move.slotAt_cases (h : Move element e origin n r r') {m : Nat} {slot : Slot}
    (hheld : r'.inst.slotAt m = some slot) :
    r.inst.slotAt m = some slot ∨
      (m = n ∧ n = r.inst.activities.length ∧ r.inst.findSlot? slot = none) := by
  by_cases hm : m = n
  · subst hm
    cases h with
    | report => exact .inl hheld
    | call => exact .inl hheld
    | outputs h =>
        unfold Instance.slotAt at hheld ⊢
        rw [writeOutputs_activities h] at hheld
        exact .inl hheld
    | opened hbody hopen =>
        refine .inr ⟨rfl, (open?_eq_some hopen).2.1, hbody.free ?_⟩
        obtain ⟨a, ha, hslot⟩ := Instance.slotAt_eq_some.mp hheld
        obtain rfl : _ = a := Option.some.inj ((activity?_open hopen).symm.trans ha)
        rwa [hbody.slot?] at hslot
    | complete => exact .inl hheld
    | finishJob vars =>
        refine .inl (Instance.slotAt_of_modifyActivity
          (fun a slot => Activity.slot?_of_slot?_advance rfl) hheld)
    | failJob =>
        refine .inl (Instance.slotAt_of_modifyActivity (fun a slot hslot => ?_) hheld)
        rw [Activity.slot?_setFailure] at hslot
        exact Activity.slot?_of_slot?_advance rfl hslot
    | arrive flow =>
        refine .inl (Instance.slotAt_of_modifyActivity (fun a slot hslot => ?_) hheld)
        rwa [Activity.slot?_recordInbound] at hslot
    | fire =>
        exact .inl (Instance.slotAt_of_modifyActivity
          (fun a slot => Activity.slot?_of_slot?_advance rfl) hheld)
    | withdraw =>
        exact .inl (Instance.slotAt_of_modifyActivity
          (fun a slot => Activity.slot?_of_slot?_settle) hheld)
    | message _ _ _ _ _ _ _ _ hreceive =>
        rw [← receive_slotAt hreceive]
        exact .inl (slotAt_of_serveWait hheld)
    | trigger => exact .inl (slotAt_of_serveWait hheld)
  · exact .inl (by rwa [h.slotAt_ne hm] at hheld)

/-- A slot that was given up is not held again by the same activity. -/
theorem Move.slotAt_of_lt (h : Move element e origin n r r') {m : Nat} {slot : Slot}
    (hm : m < r.inst.activities.length) (hheld : r'.inst.slotAt m = some slot) :
    r.inst.slotAt m = some slot := by
  rcases h.slotAt_cases hheld with hold | ⟨rfl, hnew, _⟩
  · exact hold
  · omega

theorem Move.exclusive (h : Move element e origin n r r') (hr : r.inst.Exclusive) :
    r'.inst.Exclusive := by
  intro m k slot hm hk
  rcases h.slotAt_cases hm with hm | ⟨rfl, -, hfree⟩
  · rcases h.slotAt_cases hk with hk | ⟨rfl, -, hfree⟩
    · exact hr hm hk
    · exact absurd hm (Instance.slotAt_ne_of_findSlot? hfree m)
  · rcases h.slotAt_cases hk with hk | ⟨rfl, _⟩
    · exact absurd hk (Instance.slotAt_ne_of_findSlot? hfree k)
    · rfl

theorem Moves.exclusive (h : Moves element e origin n r r') (hr : r.inst.Exclusive) :
    r'.inst.Exclusive := by
  induction h with
  | refl => exact hr
  | tail _ hmove ih => exact hmove.exclusive ih

theorem Breaks.slotAt (h : Breaks e n r r') {m : Nat} {slot : Slot}
    (hheld : r'.inst.slotAt m = some slot) : r.inst.slotAt m = some slot := by
  cases h with
  | idle => exact hheld
  | fail => exact hheld
  | spoil _ _ _ _ _ _ _ hreceive =>
      rw [← receive_slotAt hreceive]
      exact Instance.slotAt_of_modifyActivity
        (fun a slot => Activity.slot?_of_slot?_advance rfl) hheld

theorem Moves.slotAt_ne (h : Moves element e origin n r r') {m : Nat} (hm : m ≠ n) :
    r'.inst.slotAt m = r.inst.slotAt m := by
  induction h with
  | refl => rfl
  | tail _ hmove ih => exact (hmove.slotAt_ne hm).trans ih

/-- **Where the slot of an element is held, a visit opens nothing.** -/
theorem Moves.still_of_held (h : Moves element e origin n r r') {m : Nat} {slot : Slot}
    (hslot : e.slot? element = some slot) (hheld : r.inst.slotAt m = some slot) :
    Grows [] r r' := by
  obtain ⟨a, ha, _⟩ := Instance.slotAt_eq_some.mp hheld
  have hlt := (List.getElem?_eq_some_iff.mp ha).1
  by_cases hm : m = n
  · -- the visit works on an activity that is there already
    rcases h.grows with hstill | ⟨hn, _⟩
    · exact hstill
    · omega
  · have hboth : Grows [] r r' ∧ r'.inst.slotAt m = some slot := by
      induction h with
      | refl => exact ⟨.refl r, hheld⟩
      | tail _ hmove ih =>
          refine ⟨?_, by rw [hmove.slotAt_ne hm]; exact ih.2⟩
          rcases hmove.grows with hstill | ⟨_, body, hbody, _⟩
          · exact ih.1.trans hstill
          · exact absurd ih.2 (Instance.slotAt_ne_of_findSlot? (hbody.free hslot) m)
    exact hboth.1

/-- A visit of an element whose slot is held opens nothing. -/
theorem Visits.still_of_held {out : Run × List Command} (h : Visits element e origin r out)
    {m : Nat} {slot : Slot} (hslot : e.slot? element = some slot)
    (hheld : r.inst.slotAt m = some slot) : Grows [] r out.1 := by
  cases h with
  | failed n error h hbreak => exact (h.still_of_held hslot hheld).trans hbreak.grows
  | visited h => exact h.still_of_held hslot hheld

end Slots

end Run

/-! ## Soundness under growth -/

/-- Being at home is a matter of the frame. -/
theorem Activity.Fits.of_frame {i j : Instance} {a b : Activity} (h : a.Fits i)
    (hframe : b.frame = a.frame) (hkey : j.key = i.key)
    (hdefinition : j.definition = i.definition) : b.Fits j := by
  obtain ⟨e, he, hbody, hfirst⟩ := h
  have hdiagram : j.diagram = i.diagram := congrArg Definition.diagram hdefinition
  have helement := Activity.element_eq_of_frame hframe
  have hframe' : b.body.frame = a.body.frame := congrArg Activity.body hframe
  refine ⟨e, by rw [hdiagram, helement, he], hbody.of_frame hframe' hkey hdefinition, ?_⟩
  rwa [hdiagram, helement, ActivityBody.isElement_eq_of_frame hframe']

/-- A gateway, a race, a job or a wait that is at home may be entered again. -/
theorem Activity.Fits.enterable {i : Instance} {a : Activity} (h : a.Fits i)
    (hbody : a.body.isElement = false) : i.diagram.Enterable a.element := by
  obtain ⟨e, he, -, helement | hfirst⟩ := h
  · rw [hbody] at helement
    cases helement
  · exact ⟨e, he, .inr hfirst⟩

/-- The slot that an activity holds is the one that its element looks into. -/
theorem Activity.Fits.slot? {i : Instance} {a : Activity} {e : Element} {slot : Slot}
    (h : a.Fits i) (he : i.diagram.elements[a.element]? = some e) (hheld : a.slot? = some slot) :
    e.slot? a.element = some slot := by
  obtain ⟨e', he', hbody, -⟩ := h
  obtain rfl : e = e' := Option.some.inj (he.symm.trans he')
  cases slot with
  | job id =>
      obtain ⟨j, hj, -, rfl⟩ := Activity.slot?_eq_job.mp hheld
      rw [hj] at hbody
      cases hbody with
      | job _ hkind _ hid => rcases hkind with hkind | hkind <;> simp [Element.slot?, hkind, hid]
  | subscription id =>
      obtain ⟨s, hs, -, rfl⟩ := Activity.slot?_eq_subscription.mp hheld
      rw [hs] at hbody
      cases hbody with
      | subscription _ hkind hevent _ _ hid => simp [Element.slot?, hkind, hevent, hid]
  | timer id =>
      obtain ⟨t, ht, -, rfl⟩ := Activity.slot?_eq_timer.mp hheld
      rw [ht] at hbody
      cases hbody with
      | timer _ hkind hevent _ _ _ hid => simp [Element.slot?, hkind, hevent, hid]
  | gateway element =>
      obtain ⟨g, hg, -, rfl⟩ := Activity.slot?_eq_gateway.mp hheld
      rw [hg] at hbody
      cases hbody with
      | gateway _ hkind => simp [Element.slot?, hkind]

/-- Growth by activities that are at home keeps an arena sound. -/
theorem Run.Grows.sound {opened : List Activity} {r r' : Run} (h : Run.Grows opened r r')
    (hr : r.inst.Sound) (hexclusive : r'.inst.Exclusive)
    (hopened : ∀ a ∈ opened, a.Fits r.inst ∧
      ∀ o, a.origin = some o → o < r.inst.activities.length) : r'.inst.Sound where
  fits n b hb := by
    rcases h.cases_activity? hb with ⟨a, ha, hframe⟩ | ⟨_, hnew⟩
    · exact (hr.fits ha).of_frame hframe h.key h.definition
    · have hfits := (hopened _ (List.mem_of_getElem? hnew)).1
      exact hfits.of_frame b.frame_frame.symm h.key h.definition
  origin_lt n b o hb ho := by
    rcases h.cases_activity? hb with ⟨a, ha, hframe⟩ | ⟨hn, hnew⟩
    · exact hr.origin_lt ha (by rw [← Activity.origin_eq_of_frame hframe, ho])
    · have hlt := (hopened _ (List.mem_of_getElem? hnew)).2 o ho
      omega
  exclusive := hexclusive

/-! ## Commands that fit -/

/-- A command speaks of activities that are there and of elements that may be
entered. -/
def Command.Fits (i : Instance) : Command → Prop
  | .takeFlows source _ => source < i.activities.length
  | .enter element origin _ =>
    i.diagram.Enterable element ∧ ∀ o, origin = some o → o < i.activities.length
  | .resume n origin =>
    ∃ a, i.activities[n]? = some a ∧ a.origin = origin ∧ a.body.isElement = false
  | .settleRace _ | .fail _ => True

/-- A command that fits goes on to fit. -/
theorem Command.Fits.grows {opened : List Activity} {r r' : Run} {c : Command}
    (h : c.Fits r.inst) (hgrows : Run.Grows opened r r') : c.Fits r'.inst := by
  have hlength := hgrows.length
  cases c with
  | takeFlows source flows =>
      simp only [Command.Fits] at h ⊢
      omega
  | enter element origin via =>
      refine ⟨by rw [hgrows.diagram]; exact h.1, fun o ho => ?_⟩
      have hlt := h.2 o ho
      omega
  | resume n origin =>
      obtain ⟨a, ha, rfl, hbody⟩ := h
      obtain ⟨b, hb, hframe⟩ := hgrows.activity? ha
      refine ⟨b, hb, Activity.origin_eq_of_frame hframe, ?_⟩
      rwa [ActivityBody.isElement_eq_of_frame (congrArg Activity.body hframe)]
  | settleRace gateway => trivial
  | fail error => trivial

/-- The target of a flow is the first element with its id. -/
theorem enterable_of_findElement? {d : Diagram} {id : String} {n : Nat}
    (h : d.findElement? id = some n) : d.Enterable n := by
  obtain ⟨hlt, htest, _⟩ := List.findIdx?_eq_some_iff_getElem.mp h
  refine ⟨_, List.getElem?_eq_getElem hlt, .inr ?_⟩
  rw [show d.elements[n].id = id by simpa using htest]
  exact h

theorem enterable_of_kind {d : Diagram} {n : Nat} {e : Element} (he : d.elements[n]? = some e)
    (hkind : e.kind = .startEvent) : d.Enterable n :=
  ⟨e, he, .inl ⟨fun m => by simp [Element.slot?, hkind], by simp [hkind]⟩⟩

theorem enterable_of_linkTarget? {d : Diagram} {link : String} {n : Nat}
    (h : Run.linkTarget? d link = some n) : d.Enterable n := by
  unfold Run.linkTarget? at h
  split at h
  · cases h
  · obtain ⟨hlt, htest, _⟩ := List.findIdx?_eq_some_iff_getElem.mp h
    refine ⟨_, List.getElem?_eq_getElem hlt, .inl ⟨fun m => ?_, ?_⟩⟩
    · simp only [Bool.and_eq_true, beq_iff_eq, Element.linkName?] at htest
      unfold Element.slot?
      rw [htest.1]
      split at htest <;> simp_all
    · simp only [Bool.and_eq_true, beq_iff_eq] at htest
      simp [htest.1]

namespace Run

section Sound

variable {element : Nat} {e : Element} {origin : Option Nat} {n : Nat} {r r' : Run}
  {out : Run × List Command}

/-- What is needed of a visit to keep the arena sound. -/
structure Welcome (element : Nat) (e : Element) (origin : Option Nat) (r : Run) : Prop where
  element_at : r.diagram.elements[element]? = some e
  first : e.Plain ∨ r.diagram.findElement? e.id = some element
  origin_lt : ∀ o, origin = some o → o < r.inst.activities.length

/-- Growth keeps a visit welcome. -/
theorem Welcome.grows {opened : List Activity} (h : Welcome element e origin r)
    (hgrows : Grows opened r r') : Welcome element e origin r' := by
  have hdiagram : r'.diagram = r.diagram := hgrows.diagram
  have hlength := hgrows.length
  refine ⟨by rw [hdiagram]; exact h.element_at, by rw [hdiagram]; exact h.first, ?_⟩
  intro o ho
  have hlt := h.origin_lt o ho
  omega

theorem welcome_enter {via : Option String} (hc : (Command.enter element origin via).Fits r.inst)
    (he : r.diagram.elements[element]? = some e) : Welcome element e origin r := by
  obtain ⟨⟨e', he', hfirst⟩, horigin⟩ := hc
  obtain rfl : e = e' := Option.some.inj (he.symm.trans he')
  exact ⟨he, hfirst, horigin⟩

theorem welcome_resume {a : Activity} (hr : r.inst.Sound)
    (hc : (Command.resume n origin).Fits r.inst) (ha : r.activity? n = some a)
    (he : r.diagram.elements[a.element]? = some e) : Welcome a.element e origin r := by
  obtain ⟨a', ha', rfl, hbody⟩ := hc
  obtain rfl : a = a' := Option.some.inj (ha.symm.trans ha')
  obtain ⟨e', he', hfirst⟩ := (hr.fits ha).enterable hbody
  obtain rfl : e = e' := Option.some.inj (he.symm.trans he')
  refine ⟨he, hfirst, fun o ho => ?_⟩
  exact Nat.lt_trans (hr.origin_lt ha ho) (List.getElem?_eq_some_iff.mp ha).1

theorem Moves.sound (h : Moves element e origin n r r') (hr : r.inst.Sound)
    (hwelcome : Welcome element e origin r) : r'.inst.Sound := by
  have hexclusive := h.exclusive hr.exclusive
  rcases h.grows with hstill | ⟨_, body, hfits, hgrows⟩
  · exact hstill.sound hr hexclusive (by simp)
  · refine hgrows.sound hr hexclusive ?_
    intro a ha
    obtain rfl := List.mem_singleton.mp ha
    have hframe : body.frame.frame = body.frame := by cases body <;> rfl
    have hbody := hfits.of_frame hframe rfl rfl
    refine ⟨⟨e, hwelcome.element_at, hbody, ?_⟩, fun o ho => hwelcome.origin_lt o ho⟩
    cases helement : body.frame.isElement with
    | true => exact .inl helement
    | false => exact .inr (hwelcome.first.resolve_left (hbody.not_plain helement))

theorem Breaks.sound (h : Breaks e n r r') (hr : r.inst.Sound) : r'.inst.Sound :=
  h.grows.sound hr (hr.exclusive.of_slotAt h.slotAt) (by simp)

theorem Visits.sound (h : Visits element e origin r out) (hr : r.inst.Sound)
    (hwelcome : Welcome element e origin r) : out.1.inst.Sound := by
  cases h with
  | failed n error h hbreak => exact hbreak.sound (h.sound hr hwelcome)
  | visited h => exact h.sound hr hwelcome

theorem Visits.fits (h : Visits element e origin r out) :
    ∀ c ∈ out.2, c.Fits out.1.inst := by
  intro c hc
  cases h with
  | failed n error =>
      obtain rfl := List.mem_singleton.mp hc
      trivial
  | @visited r' n a extra flows h hfrom ha hadds hflows =>
      have hn : n < r'.inst.activities.length := (List.getElem?_eq_some_iff.mp ha).1
      rcases List.mem_append.mp hc with hc | hc
      · cases hadds with
        | nothing => cases hc
        | race =>
            obtain ⟨_, rfl⟩ := eq_settleRace_of_mem hc
            trivial
        | jump _ htarget =>
            obtain rfl := List.mem_singleton.mp hc
            exact ⟨enterable_of_linkTarget? htarget, fun o ho => by cases ho; exact hn⟩
      · rcases hflows with rfl | ⟨rfl, _⟩
        · cases hc
        · obtain rfl := List.mem_singleton.mp hc
          exact hn

end Sound

/-- A run with its queue is sound if its arena is and all its commands fit. -/
def Work.Sound (work : Work) : Prop :=
  work.1.inst.Sound ∧ ∀ c ∈ work.2, c.Fits work.1.inst

theorem dispatch_sound {r : Run} {c : Command} (hr : r.inst.Sound)
    (hc : c.Fits r.inst) : Work.Sound (r.dispatch c) := by
  have h := dispatch_spec r c
  generalize r.dispatch c = out at h
  cases h with
  | idle => exact ⟨hr, fun _ h => by cases h⟩
  | flows audit hflows =>
      refine ⟨hr, fun c' hc' => ?_⟩
      obtain ⟨f, _, rfl⟩ := List.mem_map.mp hc'
      unfold targetCommand
      split
      · rename_i element htarget
        refine ⟨enterable_of_findElement? htarget, fun o ho => ?_⟩
        cases ho
        exact hc
      · trivial
  | stuck => exact ⟨hr, fun c' hc' => by obtain rfl := List.mem_singleton.mp hc'; trivial⟩
  | enter he h => exact ⟨h.sound hr (welcome_enter hc he), h.fits⟩
  | resume ha he h => exact ⟨h.sound hr (welcome_resume hr hc ha he), h.fits⟩
  | settle gateway =>
      refine ⟨?_, fun _ h => by cases h⟩
      have hgrows := r.settleRace_grows gateway
      exact hgrows.sound hr (hr.exclusive.of_slotAt Instance.slotAt_of_settleRace) (by simp)

theorem Next.sound {work next : Work} (h : Next work next) (hw : Work.Sound work) :
    Work.Sound next := by
  cases h with
  | step r c queue =>
      obtain ⟨opened, hgrows⟩ := dispatch_grows r c
      have hout := dispatch_sound hw.1 (hw.2 c List.mem_cons_self)
      refine ⟨hout.1, fun c' hc' => ?_⟩
      rcases List.mem_append.mp hc' with hold | hnew
      · exact (hw.2 c' (List.mem_cons_of_mem _ hold)).grows hgrows
      · exact hout.2 c' hnew

theorem Reaches.sound {work next : Work} (h : Reaches work next) (hw : Work.Sound work) :
    Work.Sound next := by
  induction h with
  | refl => exact hw
  | tail _ hnext ih => exact hnext.sound ih

/-- **What every command keeps of sound work, all the work that is reached
has.** -/
theorem Reaches.keeps {P : Work → Prop}
    (hstep : ∀ {r c queue}, Work.Sound (r, c :: queue) →
      (∀ c' ∈ (r.dispatch c).2, c'.isFailure = false) → P (r, c :: queue) →
      P ((r.dispatch c).1, queue ++ (r.dispatch c).2))
    {work next : Work} (h : Reaches work next) (hw : Work.Sound work) (hP : P work) : P next := by
  induction h with
  | refl => exact hP
  | tail hreaches hnext ih =>
      have hsound := Reaches.sound hreaches hw
      cases hnext with
      | step r c queue _ hclean => exact hstep hsound hclean ih

/-! ## Whole runs -/

/-- Reports and the state of the instance are no part of its arena. -/
theorem Grows.sound_of_activities {r r' : Run} (h : Grows [] r r')
    (hactivities : r'.inst.activities = r.inst.activities) (hr : r.inst.Sound) :
    r'.inst.Sound := by
  refine h.sound hr (hr.exclusive.of_slotAt fun hheld => ?_) (by simp)
  rwa [Instance.slotAt, hactivities] at hheld

theorem activate_sound {r : Run} (hr : r.inst.Sound) : r.activate.inst.Sound :=
  r.activate_grows.sound_of_activities rfl hr

theorem finish_sound {r : Run} (hr : r.inst.Sound) : r.finish.inst.Sound := by
  rwa [inst_finish]

theorem abort_sound {r : Run} (hr : r.inst.Sound) : r.abort.inst.Sound :=
  r.abort_grows.sound_of_activities rfl hr

theorem mem_positions {i : Instance} {test : Activity → Bool} {n : Nat} :
    n ∈ i.positions test ↔ ∃ a, i.activities[n]? = some a ∧ test a = true := by
  unfold Instance.positions
  rw [List.mem_filter, List.mem_range, Option.any_eq_true]
  constructor
  · exact fun h => h.2
  · rintro ⟨a, ha, htest⟩
    exact ⟨(List.getElem?_eq_some_iff.mp ha).1, a, ha, htest⟩

/-- What is looked at again is a job or a wait that holds a slot. -/
theorem exists_of_mem_continuations {i : Instance} {n : Nat} (h : n ∈ i.continuations) :
    ∃ a slot, i.activities[n]? = some a ∧ a.slot? = some slot ∧ a.body.isElement = false := by
  unfold Instance.continuations at h
  rw [List.mem_append, List.mem_append, mem_positions, mem_positions, mem_positions] at h
  rcases h with (⟨a, ha, htest⟩ | ⟨a, ha, htest⟩) | ⟨a, ha, htest⟩
  · cases hb : a.body <;> simp [Activity.job?, hb] at htest
    rename_i j
    exact ⟨a, .job j.elementId, ha, Activity.slot?_eq_job.mpr
      ⟨j, hb, by simp [htest, ActivityState.terminal, ActivityState.rank], rfl⟩, by rw [hb]; rfl⟩
  · cases hb : a.body <;> simp [Activity.subscription?, hb] at htest
    rename_i s
    exact ⟨a, .subscription s.elementId, ha, Activity.slot?_eq_subscription.mpr
      ⟨s, hb, by simp [htest, ActivityState.terminal, ActivityState.rank], rfl⟩, by rw [hb]; rfl⟩
  · cases hb : a.body <;> simp [Activity.isCreatedTimer, Activity.timer?, hb] at htest
    rename_i t
    exact ⟨a, .timer t.elementId, ha, Activity.slot?_eq_timer.mpr ⟨t, hb, htest, rfl⟩,
      by rw [hb]; rfl⟩

/-- The commands with which a run starts fit. -/
theorem seeds_fit (i : Instance) : ∀ c ∈ seeds i, c.Fits i := by
  intro c hc
  rcases seeds_cases hc with ⟨n, hn, rfl⟩ | ⟨n, hn, rfl⟩
  · obtain ⟨_, htest⟩ := List.mem_filter.mp hn
    obtain ⟨e, he, hkind⟩ := (Option.any_eq_true _ _).mp htest
    exact ⟨enterable_of_kind he (by simpa using hkind), fun o ho => by cases ho⟩
  · obtain ⟨a, slot, ha, _, hbody⟩ := exists_of_mem_continuations hn
    exact ⟨a, ha, by simp [ha], hbody⟩

/-- A run starts with a sound arena and commands that fit. -/
theorem seeds_sound {r : Run} (hr : r.inst.Sound) : Work.Sound (r.activate, seeds r.inst) :=
  ⟨activate_sound hr, fun c hc => (seeds_fit r.inst c hc).grows r.activate_grows⟩

theorem Ends.sound {work : Work} {r : Run} {error? : Option EngineError}
    (h : Ends work r error?) (hw : Work.Sound work) : r.inst.Sound := by
  cases h with
  | empty h => exact finish_sound (h.sound hw).1
  | failed h =>
      have hmid := h.sound hw
      exact abort_sound (dispatch_sound hmid.1 (hmid.2 _ List.mem_cons_self)).1

/-- **Every run keeps the arena of its instance sound.** -/
theorem start?_sound {fuel : Nat} {r r' : Run} {error? : Option EngineError}
    (h : r.start? fuel = some (r', error?)) (hr : r.inst.Sound) : r'.inst.Sound := by
  rcases start?_cases h with ⟨_, rfl, _⟩ | ⟨_, hends⟩
  · exact hr
  · exact hends.sound (seeds_sound hr)

end Run

end ProcessEngine
