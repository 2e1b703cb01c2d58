import ProcessEngine.Proofs.InstanceHistory

/-!
# What waits in a completed instance

An end event completes its instance only if nothing waits at that moment.  The
queue is worked off to its end all the same, so sibling branches can still open
subscriptions and timers, and these are never looked at again.

`Instance.EndedAt` says that an end event was reached at a position and that
what waits was opened behind it, and `Dispatch.CompletesInstance` that a
command enters an end event and completes the instance, finding nothing that
waits.  Such a command brings `EndedAt` about at the activity that it opens,
and since a closed wait is never opened again, every later command keeps it.

Main statement: `waits_of_completed`, for all completed instances.
-/

namespace ProcessEngine

namespace Instance

/-- An end event was reached at a position, and what waits was opened behind
it.  The event is named by its id, as other elements may bear the same one. -/
structure EndedAt (i : Instance) (k : Nat) : Prop where
  reached : ∃ a e f, i.activities[k]? = some a ∧ i.diagram.elements[a.element]? = some f ∧
    e ∈ i.diagram.elements ∧ e.kind = .endEvent ∧ e.id = f.id
  behind : ∀ ⦃n : Nat⦄ ⦃a : Activity⦄, i.activities[n]? = some a → a.isWaiting = true → k < n

/-- What waits is seen from the slots. -/
theorem isWaiting_of_slotAt {i j : Instance} {n : Nat} {b : Activity}
    (hslots : ∀ slot, j.slotAt n = some slot → i.slotAt n = some slot)
    (hb : j.activities[n]? = some b) (hwait : b.isWaiting = true) :
    ∃ a, i.activities[n]? = some a ∧ a.isWaiting = true := by
  rw [Activity.isWaiting_eq_slot?, Option.any_eq_true] at hwait
  obtain ⟨slot, hslot, hwait⟩ := hwait
  obtain ⟨a, ha, hheld⟩ := slotAt_eq_some.mp (hslots slot (slotAt_eq_some.mpr ⟨b, hb, hslot⟩))
  exact ⟨a, ha, by rw [Activity.isWaiting_eq_slot?, hheld]; exact hwait⟩

theorem not_isWaiting_of_quiet {i : Instance} {a : Activity} (h : i.hasPendingEvents = false)
    (ha : a ∈ i.activities) : a.isWaiting = false := by
  have hnone := List.any_eq_false.mp h a ha
  rw [← Activity.isWaiting_eq] at hnone
  simpa using hnone

end Instance

/-- A command that enters an end event, finds nothing that waits, and completes
the instance. -/
structure Dispatch.CompletesInstance (d : Dispatch) : Prop where
  enters : ∃ element e origin via, d.command = .enter element origin via ∧
    d.before.diagram.elements[element]? = some e ∧ e.kind = .endEvent
  uncompleted : d.before.inst.state ≠ .completed
  quiet : ∀ a ∈ d.before.inst.activities, a.isWaiting = false
  completed : d.after.inst.state = .completed

namespace Run

section Steps

variable {element : Nat} {e : Element} {origin : Option Nat} {n k : Nat} {r r' : Run}
  {out : Run × List Command}

/-! ## What is kept -/

/-- What goes on in the arena does not undo the end. -/
theorem EndedAt.grows {opened : List Activity} (h : r.inst.EndedAt k)
    (hgrows : Grows opened r r')
    (hslots : ∀ m slot, m < r.inst.activities.length → r'.inst.slotAt m = some slot →
      r.inst.slotAt m = some slot) : r'.inst.EndedAt k := by
  obtain ⟨⟨a, e, f, ha, hf, he, hkind, hid⟩, hbehind⟩ := h
  constructor
  · obtain ⟨b, hb, hframe⟩ := hgrows.activity? ha
    refine ⟨b, e, f, hb, ?_, ?_, hkind, hid⟩
    · rw [hgrows.diagram, Activity.element_eq_of_frame hframe, hf]
    · rw [hgrows.diagram]
      exact he
  · intro m b hb hwait
    by_cases hm : m < r.inst.activities.length
    · obtain ⟨a, ha, hwait⟩ := Instance.isWaiting_of_slotAt (fun slot => hslots m slot hm) hb hwait
      exact hbehind ha hwait
    · have hk := (List.getElem?_eq_some_iff.mp ha).1
      omega

theorem Move.endedAt (h : Move element e origin n r r') (hend : r.inst.EndedAt k) :
    r'.inst.EndedAt k := by
  obtain ⟨_, hgrows⟩ := h.exists_grows
  exact EndedAt.grows hend hgrows fun _ _ hm => h.slotAt_of_lt hm

theorem Moves.endedAt (h : Moves element e origin n r r') (hend : r.inst.EndedAt k) :
    r'.inst.EndedAt k := by
  induction h with
  | refl => exact hend
  | tail _ hmove ih => exact hmove.endedAt ih

theorem Visits.endedAt (h : Visits element e origin r out) (hend : r.inst.EndedAt k) :
    out.1.inst.EndedAt k := by
  cases h with
  | failed n error h hbreak =>
      exact EndedAt.grows (h.endedAt hend) hbreak.grows fun _ _ _ => hbreak.slotAt
  | visited h => exact h.endedAt hend

/-- **No command undoes the end.** -/
theorem dispatch_endedAt (c : Command) (hend : r.inst.EndedAt k) :
    (r.dispatch c).1.inst.EndedAt k := by
  have h := dispatch_spec r c
  generalize r.dispatch c = out at h
  cases h with
  | idle => exact hend
  | flows => exact hend
  | stuck => exact hend
  | enter _ h => exact h.endedAt hend
  | resume _ _ h => exact h.endedAt hend
  | settle gateway =>
      exact EndedAt.grows hend (r.settleRace_grows gateway)
        fun _ _ _ hheld => Instance.slotAt_of_settleRace hheld

/-! ## What completes -/

theorem state_serveWait (r : Run) (n : Nat) (origin : Option Nat) (id : String) :
    (r.serveWait n origin id).inst.state = r.inst.state := by
  cases origin <;> rfl

theorem receive_state {position : Nat} {caught : CaughtEvent} {error? : Option ExprError}
    (h : r.receive e position caught = (r', error?)) : r'.inst.state = r.inst.state := by
  obtain ⟨vars, rfl⟩ := receive_eq h
  rfl

/-- Only an end event changes the state of the instance: it completes it, where
nothing waits. -/
theorem Move.state (h : Move element e origin n r r') :
    r'.inst.state = r.inst.state ∨
      (r'.inst.state = .completed ∧ e.kind = .endEvent ∧
        r'.inst.activities = r.inst.activities ∧ r.inst.hasPendingEvents = false ∧
        ∃ a, r.activity? n = some a ∧ a.element = element) := by
  cases h with
  | complete hkind ha hat _ _ hquiet => exact .inr ⟨rfl, hkind, rfl, hquiet, _, ha, hat⟩
  | outputs h =>
      unfold writeOutputs at h
      split at h <;> cases h
      exact .inl rfl
  | opened _ hopen =>
      obtain ⟨-, -, rfl⟩ := open?_eq_some hopen
      exact .inl rfl
  | message _ _ _ _ _ _ _ _ hreceive =>
      exact .inl ((state_serveWait _ _ _ _).trans (receive_state hreceive))
  | trigger => exact .inl (state_serveWait _ _ _ _)
  | _ => exact .inl rfl

theorem Move.completes (h : Move element e origin n r r') (hwelcome : Welcome element e origin r)
    (hstate : r.inst.state ≠ .completed) (hcompleted : r'.inst.state = .completed) :
    e.kind = .endEvent ∧ r'.inst.EndedAt n := by
  obtain ⟨_, hgrows⟩ := h.exists_grows
  rcases h.state with hsame | ⟨-, hkind, hactivities, hquiet, a, ha, hat⟩
  · exact absurd (hsame ▸ hcompleted) hstate
  · refine ⟨hkind, ⟨a, e, e, ?_, ?_, ?_, hkind, rfl⟩, ?_⟩
    · rw [hactivities]
      exact ha
    · rw [hgrows.diagram, hat]
      exact hwelcome.element_at
    · rw [hgrows.diagram]
      exact List.mem_of_getElem? hwelcome.element_at
    · intro m b hb hwait
      rw [hactivities] at hb
      have hidle := Instance.not_isWaiting_of_quiet hquiet (List.mem_of_getElem? hb)
      rw [hwait] at hidle
      cases hidle

/-- **Only at an end event does a visit complete the instance**, and what waits
then stands behind the activity of the visit. -/
theorem Moves.completes (h : Moves element e origin n r r')
    (hwelcome : Welcome element e origin r) (hstate : r.inst.state ≠ .completed)
    (hcompleted : r'.inst.state = .completed) : e.kind = .endEvent ∧ r'.inst.EndedAt n := by
  induction h with
  | refl => exact absurd hcompleted hstate
  | @tail r₁ r₂ hmoves hmove ih =>
      by_cases hbefore : r₁.inst.state = .completed
      · obtain ⟨hkind, hend⟩ := ih hbefore
        exact ⟨hkind, hmove.endedAt hend⟩
      · obtain ⟨_, hgrows⟩ := Moves.exists_grows hmoves
        exact hmove.completes (hwelcome.grows hgrows) hbefore hcompleted

/-- A visit of an end event always opens an activity of its own. -/
theorem Visits.completes (h : Visits element e origin r out) (hwelcome : Welcome element e origin r)
    (hclean : ∀ c ∈ out.2, c.isFailure = false) (hstate : r.inst.state ≠ .completed)
    (hcompleted : out.1.inst.state = .completed) :
    e.kind = .endEvent ∧ out.1.inst.EndedAt r.inst.activities.length := by
  cases h with
  | failed n error => cases hclean _ List.mem_cons_self
  | visited h hfrom =>
      obtain ⟨hkind, hend⟩ := h.completes hwelcome hstate hcompleted
      rcases hfrom with rfl | ⟨_, _, _, hslot, _⟩
      · exact ⟨hkind, hend⟩
      · simp [Element.slot?, hkind] at hslot

/-- Nothing has waited where an end event completes the instance. -/
theorem endEvent_quiet (hstate : r.inst.state ≠ .completed)
    (hcompleted : (r.endEvent element e origin).1.inst.state = .completed) :
    ∀ a ∈ r.inst.activities, a.isWaiting = false := by
  intro a ha
  unfold endEvent openElement at hcompleted
  cases hopen : r.open? element origin (.element .completed) with
  | none => exact absurd (by simpa [hopen] using hcompleted) hstate
  | some opened =>
      obtain ⟨r₁, n⟩ := opened
      obtain ⟨-, -, rfl⟩ := open?_eq_some hopen
      simp only [hopen] at hcompleted
      split at hcompleted
      · exact absurd hcompleted hstate
      · rename_i hbusy
        rw [not_or, Bool.not_eq_true] at hbusy
        exact Instance.not_isWaiting_of_quiet hbusy.2 (List.mem_append_left _ ha)

theorem visit_quiet {via : Option String} (hkind : e.kind = .endEvent)
    (hstate : r.inst.state ≠ .completed)
    (hcompleted : (r.visit element e origin via).1.inst.state = .completed) :
    ∀ a ∈ r.inst.activities, a.isWaiting = false := by
  have hhandle : r.handle element e origin via = r.endEvent element e origin := by
    simp [handle, hkind]
  rw [visit, hhandle] at hcompleted
  have hends : (r.endEvent element e origin).1.inst.state = .completed := by
    generalize r.endEvent element e origin = handled at hcompleted
    obtain ⟨r₁, error | step⟩ := handled
    · exact hcompleted
    · simp only [proceed] at hcompleted
      split at hcompleted <;> exact hcompleted
  exact endEvent_quiet hstate hends

/-- What is looked at again is no end event: it holds more than a state. -/
theorem not_endEvent_of_resume {a : Activity} (hr : r.inst.Sound)
    (hc : (Command.resume n origin).Fits r.inst) (ha : r.activity? n = some a)
    (he : r.diagram.elements[a.element]? = some e) : e.kind ≠ .endEvent := by
  intro hkind
  obtain ⟨a', ha', -, hbody⟩ := hc
  obtain rfl : a = a' := Option.some.inj (ha.symm.trans ha')
  obtain ⟨e', he', hfits, -⟩ := hr.fits ha
  obtain rfl : e = e' := Option.some.inj (he.symm.trans he')
  exact hfits.not_plain hbody ⟨fun _ => by simp [Element.slot?, hkind], by simp [hkind]⟩

/-- **A command that completes the instance enters an end event**, where nothing
waits. -/
theorem dispatch_completes {c : Command} (hr : r.inst.Sound) (hc : c.Fits r.inst)
    (hclean : ∀ c' ∈ (r.dispatch c).2, c'.isFailure = false)
    (hstate : r.inst.state ≠ .completed)
    (hcompleted : (r.dispatch c).1.inst.state = .completed) :
    (Dispatch.mk r c).CompletesInstance ∧
      (r.dispatch c).1.inst.EndedAt r.inst.activities.length := by
  have h := dispatch_spec r c
  generalize hout : r.dispatch c = out at h hclean hcompleted
  cases h with
  | idle => exact absurd hcompleted hstate
  | flows => exact absurd hcompleted hstate
  | stuck => exact absurd hcompleted hstate
  | enter he h =>
      obtain ⟨hkind, hend⟩ := h.completes (welcome_enter hc he) hclean hstate hcompleted
      refine ⟨⟨⟨_, _, _, _, rfl, he, hkind⟩, hstate, ?_, ?_⟩, hend⟩
      · rw [← hout, dispatch_enter he] at hcompleted
        exact visit_quiet (r := r.reportElement _ .activated) hkind hstate hcompleted
      · rw [Dispatch.after, hout]
        exact hcompleted
  | resume ha he h =>
      obtain ⟨hkind, -⟩ := h.completes (welcome_resume hr hc ha he) hclean hstate hcompleted
      exact absurd hkind (not_endEvent_of_resume hr hc ha he)
  | settle gateway =>
      refine absurd ?_ hstate
      simp only [modify, Instance.settleRace] at hcompleted
      split at hcompleted <;> exact hcompleted

end Steps

/-! ## Whole runs -/

/-- A trace that completes the instance has the command that does so, and what
waits at its end was opened behind the end event of this command. -/
theorem Traced.completes {work next : Work} {log : List Dispatch} (h : Traced work log next)
    (hw : Work.Sound work) (hclean : ∀ c ∈ next.2, c.isFailure = false)
    (hstate : work.1.inst.state ≠ .completed) (hcompleted : next.1.inst.state = .completed) :
    ∃ d ∈ log, d.CompletesInstance ∧
      work.1.inst.activities.length ≤ d.before.inst.activities.length ∧
      next.1.inst.EndedAt d.before.inst.activities.length := by
  induction h with
  | start => exact absurd hcompleted hstate
  | @step log r c queue h hc ih =>
      have hcs : ∀ c' ∈ (r.dispatch c).2, c'.isFailure = false := fun c' hc' =>
        hclean c' (mem_enqueue.mpr (.inr hc'))
      by_cases hbefore : r.inst.state = .completed
      · have hqueue : ∀ c' ∈ c :: queue, c'.isFailure = false := by
          intro c' hc'
          rcases List.mem_cons.mp hc' with rfl | hold
          · exact hc
          · exact hclean c' (mem_enqueue.mpr (.inl hold))
        obtain ⟨d, hd, hcompletes, hlength, hend⟩ := ih hqueue hbefore
        exact ⟨d, List.mem_append_left _ hd, hcompletes, hlength, dispatch_endedAt c hend⟩
      · have hsound := h.sound hw
        obtain ⟨_, hgrows⟩ := h.grows
        obtain ⟨hcompletes, hend⟩ := dispatch_completes hsound.1
          (hsound.2 c List.mem_cons_self) hcs hbefore hcompleted
        have hlength := hgrows.length
        exact ⟨⟨r, c⟩, by simp, hcompletes, by simp only at hlength ⊢; omega, hend⟩

end Run

/-- Relinking changes no wait, and no id of an element. -/
theorem Instance.EndedAt.relinked {i : Instance} {k : Nat} (h : i.EndedAt k) (hi : i.Sound) :
    i.relinked.EndedAt k := by
  obtain ⟨⟨a, e, f, ha, hf, he, hkind, hid⟩, hbehind⟩ := h
  constructor
  · obtain ⟨hlt, htest, -⟩ := List.findIdx?_eq_some_iff_getElem.mp (hi.fits ha).findElement?
    have hat : i.elementIdAt a.element = f.id := by simp [Instance.elementIdAt, hf]
    refine ⟨i.relinkedActivity a, e, _, by simp [Instance.relinked, ha],
      List.getElem?_eq_getElem hlt, he, hkind, ?_⟩
    rw [hid, ← hat]
    exact (beq_iff_eq.mp htest).symm
  · intro n b hb hwait
    obtain ⟨a, ha, hwait⟩ := Instance.isWaiting_of_slotAt
      (fun slot hheld => by rwa [hi.slotAt_relinked] at hheld) hb hwait
    exact hbehind ha hwait

end ProcessEngine
