import ProcessEngine.Proofs.ArenaSoundness

/-!
# How many branches a race gets

A race gets its branches from the flows of its gateway: each flow that is taken
enters its target once, and an entry opens at most one subscription or timer.
Looking again at an activity that was left open opens nothing, because such
commands stand at the front of the queue and find the activity as it was left.

`Command.brings` is the number of branches of an element id that a command can
still bring about for a race.  With the branches that are there it never grows,
so a race has at most as many branches of an id as flows of its gateway lead to
that id.

Main statement: `start?_bounded`.
-/

namespace ProcessEngine

/-- The position that a command looks at again. -/
def Command.resumed? : Command → Option Nat
  | resume n _ => some n
  | _ => none

/-- Activities are looked at again before anything else is done, each of them
once, and each is open until then. -/
inductive Instance.Queued (i : Instance) : List Command → Prop
  | rest {cs : List Command} (h : ∀ c ∈ cs, c.resumed? = none) : Queued i cs
  | resume {n : Nat} {origin : Option Nat} {slot : Slot} {cs : List Command}
      (hheld : i.slotAt n = some slot) (hnew : ∀ c ∈ cs, c.resumed? ≠ some n)
      (h : Queued i cs) : Queued i (.resume n origin :: cs)

namespace Instance

theorem Queued.append {i : Instance} {cs ds : List Command} (h : i.Queued cs)
    (hds : ∀ c ∈ ds, c.resumed? = none) : i.Queued (cs ++ ds) := by
  induction h with
  | rest h =>
      refine .rest fun c hc => ?_
      rcases List.mem_append.mp hc with hc | hc
      · exact h c hc
      · exact hds c hc
  | resume hheld hnew _ ih =>
      refine .resume hheld (fun c hc => ?_) ih
      rcases List.mem_append.mp hc with hc | hc
      · exact hnew c hc
      · simp [hds c hc]

/-- What is done elsewhere does not matter to the activities in the queue. -/
theorem Queued.of_slotAt {i j : Instance} {cs : List Command} (h : i.Queued cs)
    (hslots : ∀ n, (∃ c ∈ cs, c.resumed? = some n) → j.slotAt n = i.slotAt n) :
    j.Queued cs := by
  induction h with
  | rest h => exact .rest h
  | resume hheld hnew _ ih =>
      refine .resume ((hslots _ ⟨_, List.mem_cons_self, rfl⟩).trans hheld) hnew (ih ?_)
      rintro n ⟨c, hc, hn⟩
      exact hslots n ⟨c, List.mem_cons_of_mem _ hc, hn⟩

theorem queued_map_resume {i : Instance} {ns : List Nat} (hnodup : ns.Nodup)
    (hheld : ∀ n ∈ ns, ∃ slot, i.slotAt n = some slot) (origin : Nat → Option Nat) :
    i.Queued (ns.map fun n => .resume n (origin n)) := by
  induction ns with
  | nil => exact .rest (by simp)
  | cons n ns ih =>
      obtain ⟨hn, hns⟩ := List.nodup_cons.mp hnodup
      obtain ⟨slot, hslot⟩ := hheld n List.mem_cons_self
      refine .resume hslot ?_ (ih hns fun m hm => hheld m (List.mem_cons_of_mem _ hm))
      intro c hc heq
      obtain ⟨m, hm, rfl⟩ := List.mem_map.mp hc
      obtain rfl : m = n := Option.some.inj heq
      exact hn hm

theorem nodup_positions (i : Instance) (test : Activity → Bool) : (i.positions test).Nodup :=
  List.nodup_range.filter _

/-- Nothing is looked at twice. -/
theorem nodup_continuations (i : Instance) : i.continuations.Nodup := by
  have hdisjoint : ∀ {p q : Activity → Bool}, (∀ a, p a = true → q a = false) →
      ∀ m ∈ i.positions p, ∀ n ∈ i.positions q, m ≠ n := by
    rintro p q hpq m hm n hn rfl
    obtain ⟨a, ha, hp⟩ := Run.mem_positions.mp hm
    obtain ⟨b, hb, hq⟩ := Run.mem_positions.mp hn
    obtain rfl : a = b := Option.some.inj (ha.symm.trans hb)
    rw [hpq a hp] at hq
    cases hq
  unfold continuations
  refine List.nodup_append.mpr ⟨List.nodup_append.mpr ⟨i.nodup_positions _, i.nodup_positions _,
    hdisjoint ?_⟩, i.nodup_positions _, ?_⟩
  · intro a ha
    cases hb : a.body <;> simp_all [Activity.job?, Activity.subscription?]
  · intro m hm n hn
    rcases List.mem_append.mp hm with hm | hm
    · refine hdisjoint (fun a ha => ?_) m hm n hn
      cases hb : a.body <;> simp_all [Activity.job?, Activity.isCreatedTimer, Activity.timer?]
    · refine hdisjoint (fun a ha => ?_) m hm n hn
      cases hb : a.body <;>
        simp_all [Activity.subscription?, Activity.isCreatedTimer, Activity.timer?]

end Instance

namespace Run

/-! ## Looking at activities again -/

section Resumes

variable {element : Nat} {e : Element} {origin : Option Nat} {n : Nat} {r : Run}
  {out : Run × List Command}

theorem Adds.resumed? {extra : List Command} (h : Adds e n r extra) :
    ∀ c ∈ extra, c.resumed? = none := by
  intro c hc
  cases h with
  | nothing => cases hc
  | race =>
      obtain ⟨_, rfl⟩ := eq_settleRace_of_mem hc
      rfl
  | jump =>
      obtain rfl := List.mem_singleton.mp hc
      rfl

theorem Visits.resumed? (h : Visits element e origin r out) :
    ∀ c ∈ out.2, c.resumed? = none := by
  intro c hc
  cases h with
  | failed =>
      obtain rfl := List.mem_singleton.mp hc
      rfl
  | visited _ _ _ hadds hflows =>
      rcases List.mem_append.mp hc with hc | hc
      · exact hadds.resumed? c hc
      · rcases hflows with rfl | ⟨rfl, _⟩
        · cases hc
        · obtain rfl := List.mem_singleton.mp hc
          rfl

/-- Nothing that a command leads to is to be looked at again in the same run. -/
theorem dispatch_resumed? (r : Run) (c : Command) :
    ∀ c' ∈ (r.dispatch c).2, c'.resumed? = none := by
  have h := dispatch_spec r c
  generalize r.dispatch c = out at h
  intro c' hc'
  cases h with
  | idle => cases hc'
  | flows =>
      obtain ⟨f, _, rfl⟩ := List.mem_map.mp hc'
      unfold targetCommand
      split <;> rfl
  | stuck =>
      obtain rfl := List.mem_singleton.mp hc'
      rfl
  | enter _ h => exact h.resumed? c' hc'
  | resume _ _ h => exact h.resumed? c' hc'
  | settle => cases hc'

/-- **Looking again at an open activity is work on this very one.** -/
theorem Moves.eq_of_held {r' : Run} {k : Nat} {a c : Activity} {slot : Slot}
    (h : Moves a.element e origin k r r')
    (hfrom : k = r.inst.activities.length ∨ ∃ b, r.activity? k = some b ∧ Reuses a.element e b)
    (hc : r'.activity? k = some c) (hr : r.inst.Sound) (ha : r.activity? n = some a)
    (he : r.diagram.elements[a.element]? = some e) (hheld : r.inst.slotAt n = some slot) :
    k = n := by
  obtain ⟨b, hb, hslot⟩ := Instance.slotAt_eq_some.mp hheld
  obtain rfl : a = b := Option.some.inj (ha.symm.trans hb)
  have hlooks := (hr.fits ha).slot? he hslot
  rcases hfrom with hnew | ⟨b, hb, slot', hlooks', hslot'⟩
  · -- nothing is opened where the slot is held
    have hlength := (h.still_of_held hlooks hheld).length
    have hk := (List.getElem?_eq_some_iff.mp hc).1
    simp only [List.length_nil] at hlength
    omega
  · obtain rfl : slot = slot' := Option.some.inj (hlooks.symm.trans hlooks')
    have hheld' : r.inst.slotAt k = some slot := Instance.slotAt_eq_some.mpr ⟨b, hb, hslot'⟩
    exact hr.exclusive hheld' hheld

/-- Looking again at an open activity leaves the slots of all others alone. -/
theorem Visits.slotAt_ne {a : Activity} {slot : Slot} (h : Visits a.element e origin r out)
    (hr : r.inst.Sound) (ha : r.activity? n = some a)
    (he : r.diagram.elements[a.element]? = some e) (hheld : r.inst.slotAt n = some slot)
    (hclean : ∀ c ∈ out.2, c.isFailure = false) {m : Nat} (hm : m ≠ n) :
    out.1.inst.slotAt m = r.inst.slotAt m := by
  cases h with
  | failed n error => cases hclean _ List.mem_cons_self
  | visited h hfrom hc =>
      obtain rfl := h.eq_of_held hfrom hc hr ha he hheld
      exact h.slotAt_ne hm

end Resumes

/-- Every command keeps the queue in its order. -/
theorem Next.queued {work next : Work} (h : Next work next) (hw : Work.Sound work)
    (hqueued : work.1.inst.Queued work.2) : next.1.inst.Queued next.2 := by
  cases h with
  | step r c queue hc hclean =>
      have hnone := dispatch_resumed? r c
      cases hqueued with
      | rest h =>
          refine .rest fun c' hc' => ?_
          rcases List.mem_append.mp hc' with hc' | hc'
          · exact h c' (List.mem_cons_of_mem _ hc')
          · exact hnone c' hc'
      | @resume n origin slot _ hheld hnew h =>
          refine (h.of_slotAt ?_).append hnone
          rintro m ⟨c', hc', hm⟩
          have hne : m ≠ n := by
            rintro rfl
            exact hnew c' hc' hm
          have hspec := dispatch_spec r (.resume n origin)
          generalize r.dispatch (.resume n origin) = out at hspec hclean
          cases hspec with
          | idle => rfl
          | resume ha he h => exact h.slotAt_ne hw.1 ha he hheld hclean hne

theorem Reaches.queued {work next : Work} (h : Reaches work next) (hw : Work.Sound work)
    (hqueued : work.1.inst.Queued work.2) : next.1.inst.Queued next.2 := by
  induction h with
  | refl => exact hqueued
  | tail hreaches hnext ih => exact hnext.queued (Reaches.sound hreaches hw) ih

theorem seeds_queued (i : Instance) : i.Queued (seeds i) := by
  unfold seeds
  split
  · refine .rest fun c hc => ?_
    obtain ⟨_, _, rfl⟩ := List.mem_map.mp hc
    rfl
  · refine Instance.queued_map_resume i.nodup_continuations (fun n hn => ?_) _
    obtain ⟨a, slot, ha, hslot, _⟩ := exists_of_mem_continuations hn
    exact ⟨slot, Instance.slotAt_eq_some.mpr ⟨a, ha, hslot⟩⟩
  · exact .rest (by simp)
  · exact .rest (by simp)

end Run

/-! ## Branches that are there and branches to come -/

/-- The number of flows among some that lead to an id. -/
def Diagram.flowsTo (d : Diagram) (flowIds : List String) (id : String) : Nat :=
  (d.findFlows flowIds).countP fun f => f.target == id

/-- The number of branches of an element id that a command can still bring
about for a race. -/
def Command.brings (d : Diagram) (g : Nat) (id : String) : Command → Nat
  | takeFlows source flowIds => if source = g then d.flowsTo flowIds id else 0
  | enter element origin _ =>
    if origin = some g ∧ d.elements[element]?.any (fun e => e.id == id) = true then 1 else 0
  | resume _ _ | settleRace _ | fail _ => 0

/-- The branches of an element id that some commands can bring about. -/
def Command.allBring (d : Diagram) (g : Nat) (id : String) (cs : List Command) : Nat :=
  (cs.map (brings d g id)).sum

/-- A branch of an element id behind a gateway. -/
def Activity.isBranch (g : Nat) (id : String) (a : Activity) : Bool :=
  a.isWait && a.origin == some g && a.elementId? == some id

/-- The number of branches of an element id that a race has. -/
def Instance.arrived (i : Instance) (g : Nat) (id : String) : Nat :=
  i.activities.countP (Activity.isBranch g id)

/-- No race has more branches of an id than flows lead there. -/
def Instance.Bounded (i : Instance) : Prop :=
  ∀ ⦃g : Nat⦄ ⦃a : Activity⦄ ⦃race : Race⦄ ⦃f : Element⦄, i.activities[g]? = some a →
    a.body = .race race → i.diagram.elements[a.element]? = some f →
    ∀ id, i.arrived g id ≤ i.diagram.flowsTo f.outgoing id

@[simp] theorem Command.allBring_append (d : Diagram) (g : Nat) (id : String)
    (cs ds : List Command) :
    allBring d g id (cs ++ ds) = allBring d g id cs + allBring d g id ds := by
  simp [allBring]

theorem Command.allBring_eq_zero {d : Diagram} {g : Nat} {id : String} {cs : List Command}
    (h : ∀ c ∈ cs, c.brings d g id = 0) : allBring d g id cs = 0 := by
  induction cs with
  | nil => rfl
  | cons c rest ih =>
      have hrest := ih fun c hc => h c (List.mem_cons_of_mem _ hc)
      have hfirst := h c List.mem_cons_self
      simp only [allBring, List.map_cons, List.sum_cons] at hrest ⊢
      omega

theorem Activity.isBranch_eq_of_frame {a b : Activity} (h : b.frame = a.frame) (g : Nat)
    (id : String) : b.isBranch g id = a.isBranch g id := by
  unfold isBranch
  rw [isWait_eq_of_frame h, origin_eq_of_frame h, elementId?_eq_of_frame h]

theorem Instance.arrived_eq_countP_frames (i : Instance) (g : Nat) (id : String) :
    i.arrived g id = i.frames.countP (Activity.isBranch g id) := by
  rw [arrived, frames, List.countP_map]
  congr 1
  funext a
  exact (Activity.isBranch_eq_of_frame a.frame_frame g id).symm

/-- Growth adds the branches among what is opened. -/
theorem Run.Grows.arrived {opened : List Activity} {r r' : Run} (h : Run.Grows opened r r')
    (g : Nat) (id : String) :
    r'.inst.arrived g id = r.inst.arrived g id + opened.countP (Activity.isBranch g id) := by
  rw [Instance.arrived_eq_countP_frames, Instance.arrived_eq_countP_frames, h.frames,
    List.countP_append]

/-- Commands that fit know only the activities that are there. -/
theorem Command.Fits.brings_eq_zero {i : Instance} {c : Command} (h : c.Fits i) {g : Nat}
    (hg : i.activities.length ≤ g) (d : Diagram) (id : String) : c.brings d g id = 0 := by
  cases c with
  | takeFlows source flows =>
      simp only [Command.Fits] at h
      simp only [Command.brings]
      rw [if_neg (by omega)]
  | enter element origin via =>
      simp only [Command.brings]
      rw [if_neg]
      rintro ⟨rfl, _⟩
      have hlt := h.2 g rfl
      omega
  | _ => rfl

namespace Run

section Brings

variable {element : Nat} {e : Element} {origin : Option Nat} {r : Run}
  {out : Run × List Command} {g : Nat} {id : String}

/-- A flow that is taken brings what it leads to. -/
theorem brings_targetCommand (d : Diagram) (source : Nat) (f : SequenceFlow) (g : Nat)
    (id : String) :
    (targetCommand d source f).brings d g id ≤
      if source = g then (if f.target == id then 1 else 0) else 0 := by
  unfold targetCommand
  split
  · rename_i k hk
    obtain ⟨hlt, htest, -⟩ := List.findIdx?_eq_some_iff_getElem.mp hk
    have hid : d.elements[k].id = f.target := by simpa using htest
    simp only [Command.brings, Option.some.injEq, List.getElem?_eq_getElem hlt, Option.any_some,
      hid]
    by_cases hsource : source = g <;> by_cases htarget : f.target = id <;> simp [hsource, htarget]
  · exact Nat.zero_le _

theorem allBring_targetCommands (d : Diagram) (source : Nat) (flows : List SequenceFlow)
    (g : Nat) (id : String) :
    Command.allBring d g id (flows.map (targetCommand d source)) ≤
      if source = g then flows.countP fun f => f.target == id else 0 := by
  induction flows with
  | nil => simp [Command.allBring]
  | cons f rest ih =>
      have hfirst := brings_targetCommand d source f g id
      simp only [Command.allBring, List.map_cons, List.sum_cons, List.countP_cons] at ih ⊢
      by_cases hsource : source = g
      · simp only [hsource, if_true] at hfirst ih ⊢
        omega
      · simp only [hsource, if_false] at hfirst ih ⊢
        omega

/-- A new activity is a branch only of the race that it comes from, and only of
the id of its element. -/
theorem isBranch_opened {i : Instance} {body : ActivityBody} (hbody : body.Fits i e)
    (key : Int) (element : Nat) (origin : Option Nat)
    (h : (Activity.mk key element origin body).isBranch g id = true) :
    origin = some g ∧ e.id = id := by
  simp only [Activity.isBranch, Bool.and_eq_true, beq_iff_eq] at h
  obtain ⟨⟨hwait, horigin⟩, hid⟩ := h
  refine ⟨horigin, ?_⟩
  cases hbody with
  | timer t _ _ _ _ _ ht => exact ht.symm.trans (Option.some.inj hid)
  | subscription s _ _ _ _ hs => exact hs.symm.trans (Option.some.inj hid)
  | _ => cases hwait

/-- A visit leads nowhere from an activity that is closed already. -/
theorem Visits.brings_eq_zero (h : Visits element e origin r out) {d : Diagram}
    (hg : g < r.inst.activities.length) (hclosed : r.inst.slotAt g = none) :
    Command.allBring d g id out.2 = 0 := by
  cases h with
  | failed n error => rfl
  | @visited r' n a extra flows h hfrom ha hadds hflows =>
      have hne : n ≠ g := by
        rintro rfl
        rcases hfrom with hnew | ⟨b, hb, slot, _, hslot⟩
        · omega
        · rw [Instance.slotAt_eq_some.mpr ⟨b, hb, hslot⟩] at hclosed
          cases hclosed
      refine Command.allBring_eq_zero fun c hc => ?_
      rcases List.mem_append.mp hc with hc | hc
      · cases hadds with
        | nothing => cases hc
        | race =>
            obtain ⟨_, rfl⟩ := eq_settleRace_of_mem hc
            rfl
        | jump =>
            obtain rfl := List.mem_singleton.mp hc
            simp [Command.brings, hne]
      · rcases hflows with rfl | ⟨rfl, _⟩
        · cases hc
        · obtain rfl := List.mem_singleton.mp hc
          simp [Command.brings, hne]

/-- A visit of an event-based gateway takes its flows once. -/
theorem Visits.brings_le (h : Visits element e origin r out) {d : Diagram}
    (hkind : e.kind = .eventBasedGateway) :
    Command.allBring d g id out.2 ≤ d.flowsTo e.outgoing id := by
  cases h with
  | failed n error => exact Nat.zero_le _
  | @visited r' n a extra flows h hfrom ha hadds hflows =>
      have hextra : extra = [] := by
        cases hadds with
        | nothing => rfl
        | race hother => simp [hkind] at hother
        | jump hother => simp [hkind] at hother
      rcases hflows with rfl | ⟨rfl, _⟩
      · simp [hextra, Command.allBring]
      · by_cases hn : n = g <;> simp [hextra, Command.allBring, Command.brings, hn]

/-- Origins lie before, so that nothing comes from the last activity. -/
theorem arrived_eq_zero {i : Instance} (hi : i.Sound) (hg : i.activities.length ≤ g + 1) :
    i.arrived g id = 0 := by
  rw [Instance.arrived, List.countP_eq_zero]
  intro a ha hbranch
  obtain ⟨m, hm⟩ := List.getElem?_of_mem ha
  simp only [Activity.isBranch, Bool.and_eq_true, beq_iff_eq] at hbranch
  have hlt := hi.origin_lt hm hbranch.1.2
  have hm := (List.getElem?_eq_some_iff.mp hm).1
  omega

/-- **A race that a visit opens gets its branches from the flows that the visit
takes.** -/
theorem Visits.opened_race (h : Visits element e origin r out)
    (he : r.diagram.elements[element]? = some e) (hout : out.1.inst.Sound) {a : Activity}
    {race : Race} {f : Element} (hg : r.inst.activities.length ≤ g)
    (ha : out.1.activity? g = some a) (hrace : a.body = .race race)
    (hf : r.diagram.elements[a.element]? = some f) :
    out.1.inst.arrived g id = 0 ∧
      Command.allBring r.diagram g id out.2 ≤ r.diagram.flowsTo f.outgoing id := by
  obtain ⟨hlast, helement, _, hbody⟩ := h.new_activity hg ha
  obtain rfl : e = f := by
    rw [helement, he] at hf
    exact Option.some.inj hf
  refine ⟨arrived_eq_zero hout ?_, h.brings_le ?_⟩
  · rcases h.grows with hstill | ⟨_, _, hgrows⟩
    · rw [hstill.length, List.length_nil]
      omega
    · rw [hgrows.length, List.length_singleton]
      omega
  · rw [hrace] at hbody
    cases hbody with
    | race _ hkind => exact hkind

/-- **A command brings no more than it announces** to a race that is there. -/
theorem dispatch_arrived {c : Command}
    (hheld : ∀ n, c.resumed? = some n → ∃ slot, r.inst.slotAt n = some slot)
    (hr : r.inst.Sound) (hg : g < r.inst.activities.length) (hclosed : r.inst.slotAt g = none)
    (id : String) :
    (r.dispatch c).1.inst.arrived g id + Command.allBring r.diagram g id (r.dispatch c).2 ≤
      r.inst.arrived g id + c.brings r.diagram g id := by
  have h := dispatch_spec r c
  generalize r.dispatch c = out at h
  cases h with
  | idle => exact Nat.le_add_right _ _
  | @flows source flowIds flows audit hflows =>
      have hsum := allBring_targetCommands r.diagram source flows g id
      have hcount := hflows.countP_le (p := fun f => f.target == id)
      simp only [Command.brings, Diagram.flowsTo]
      by_cases hsource : source = g
      · simp only [hsource, if_true] at hsum ⊢
        exact Nat.add_le_add_left (Nat.le_trans hsum hcount) _
      · simp only [hsource, if_false] at hsum ⊢
        exact Nat.add_le_add_left hsum _
  | stuck => exact Nat.le_add_right _ _
  | @enter element e origin via out he h =>
      rw [h.brings_eq_zero hg hclosed]
      rcases h.grows with hstill | ⟨body, hbody, hgrows⟩
      · rw [hstill.arrived]
        simp
      · rw [hgrows.arrived, List.countP_singleton,
          Activity.isBranch_eq_of_frame (Activity.frame_frame _)]
        split
        · rename_i hbranch
          obtain ⟨rfl, rfl⟩ := isBranch_opened hbody _ _ _ hbranch
          simp [Command.brings, he]
        · exact Nat.le_add_right _ _
  | @resume n a e origin out ha he h =>
      rw [h.brings_eq_zero hg hclosed]
      obtain ⟨slot, hslot⟩ := hheld n rfl
      obtain ⟨b, hb, hheld⟩ := Instance.slotAt_eq_some.mp hslot
      obtain rfl : a = b := Option.some.inj (ha.symm.trans hb)
      have hstill := h.still_of_held ((hr.fits ha).slot? he hheld) hslot
      rw [hstill.arrived]
      simp
  | settle gateway =>
      rw [(r.settleRace_grows gateway).arrived]
      simp [Command.allBring]

end Brings

/-- With what the queue can bring, no race gets more branches of an id than
flows lead there. -/
def Work.Bounded (work : Work) : Prop :=
  ∀ ⦃g : Nat⦄ ⦃a : Activity⦄ ⦃race : Race⦄ ⦃f : Element⦄, work.1.activity? g = some a →
    a.body = .race race → work.1.diagram.elements[a.element]? = some f →
    ∀ id, work.1.inst.arrived g id + Command.allBring work.1.diagram g id work.2 ≤
      work.1.diagram.flowsTo f.outgoing id

theorem dispatch_bounded {r : Run} {c : Command} {queue : List Command}
    (hw : Work.Sound (r, c :: queue)) (hqueued : r.inst.Queued (c :: queue))
    (hbounded : Work.Bounded (r, c :: queue)) :
    Work.Bounded ((r.dispatch c).1, queue ++ (r.dispatch c).2) := by
  intro g a race f ha hrace hf id
  obtain ⟨opened, hgrows⟩ := dispatch_grows r c
  have hdiagram : (r.dispatch c).1.diagram = r.diagram := hgrows.diagram
  have hout := dispatch_sound hw.1 (hw.2 c List.mem_cons_self)
  simp only [hdiagram] at ha hf ⊢
  rw [Command.allBring_append]
  rcases hgrows.cases_activity? ha with ⟨b, hb, hframe⟩ | ⟨hg, _⟩
  · -- the race is there already
    have hbody : ∃ race', b.body = .race race' := by
      have hframe' : a.body.frame = b.body.frame := congrArg Activity.body hframe
      rw [hrace] at hframe'
      cases hb' : b.body <;> rw [hb'] at hframe' <;> cases hframe'
      exact ⟨_, rfl⟩
    obtain ⟨race', hb'⟩ := hbody
    rw [Activity.element_eq_of_frame hframe] at hf
    have hclosed : r.inst.slotAt g = none := by
      rw [Instance.slotAt, show r.inst.activities[g]? = some b from hb]
      simp [Activity.slot?, hb']
    have hheld : ∀ n, c.resumed? = some n → ∃ slot, r.inst.slotAt n = some slot := by
      intro n hn
      cases hqueued with
      | rest h => simp [h c List.mem_cons_self] at hn
      | resume hheld =>
          obtain rfl := Option.some.inj hn
          exact ⟨_, hheld⟩
    have hstep := dispatch_arrived hheld hw.1 (List.getElem?_eq_some_iff.mp hb).1 hclosed id
    have hbefore := hbounded hb hb' hf id
    simp only [Command.allBring, List.map_cons, List.sum_cons] at hbefore hstep ⊢
    omega
  · have hqueue : Command.allBring r.diagram g id queue = 0 :=
      Command.allBring_eq_zero fun c' hc' =>
        Command.Fits.brings_eq_zero (hw.2 c' (List.mem_cons_of_mem _ hc')) hg _ _
    have hlt := (List.getElem?_eq_some_iff.mp ha).1
    have hspec := dispatch_spec r c
    generalize r.dispatch c = out at hspec ha hout hlt ⊢
    have hopened : out.1.inst.arrived g id = 0 ∧
        Command.allBring r.diagram g id out.2 ≤ r.diagram.flowsTo f.outgoing id := by
      cases hspec with
      | idle => exact absurd hlt (Nat.not_lt.mpr hg)
      | flows => exact absurd hlt (Nat.not_lt.mpr hg)
      | stuck => exact absurd hlt (Nat.not_lt.mpr hg)
      | enter he h => exact h.opened_race he hout.1 hg ha hrace hf
      | resume _ he h => exact h.opened_race he hout.1 hg ha hrace hf
      | settle gateway =>
          rw [(r.settleRace_grows gateway).length] at hlt
          exact absurd hlt (Nat.not_lt.mpr hg)
    omega

/-- What the queue can still bring does not matter to what is there. -/
theorem Work.Bounded.inst {work : Work} (h : Work.Bounded work) : work.1.inst.Bounded :=
  fun _ _ _ _ ha hrace hf id => Nat.le_trans (Nat.le_add_right _ _) (h ha hrace hf id)

theorem Reaches.bounded {work next : Work} (h : Reaches work next) (hw : Work.Sound work)
    (hqueued : work.1.inst.Queued work.2) (hbounded : Work.Bounded work) :
    Work.Bounded next := by
  induction h with
  | refl => exact hbounded
  | tail hreaches hnext ih =>
      cases hnext with
      | step r c queue =>
          exact dispatch_bounded (Reaches.sound hreaches hw) (Reaches.queued hreaches hw hqueued) ih

/-- The commands with which a run starts bring no branches. -/
theorem seeds_brings (i : Instance) (d : Diagram) (g : Nat) (id : String) :
    Command.allBring d g id (seeds i) = 0 := by
  refine Command.allBring_eq_zero fun c hc => ?_
  rcases seeds_cases hc with ⟨n, -, rfl⟩ | ⟨n, -, rfl⟩ <;> rfl

/-- **No run gives a race more branches of an id than flows lead there.** -/
theorem start?_bounded {fuel : Nat} {r r' : Run} {error? : Option EngineError}
    (h : r.start? fuel = some (r', error?)) (hr : r.inst.Sound) (hbounded : r.inst.Bounded) :
    r'.inst.Bounded := by
  rcases start?_cases h with ⟨_, rfl, _⟩ | ⟨_, hends⟩
  · exact hbounded
  · have hsound := seeds_sound hr
    have hqueued : r.activate.inst.Queued (seeds r.inst) :=
      (seeds_queued r.inst).of_slotAt fun _ _ => rfl
    have hstart : Work.Bounded (r.activate, seeds r.inst) := by
      intro g a race f ha hrace hf id
      rw [seeds_brings]
      exact hbounded ha hrace hf id
    cases hends with
    | empty hreaches =>
        rw [inst_finish]
        exact (hreaches.bounded hsound hqueued hstart).inst
    | failed hreaches =>
        exact (dispatch_bounded (hreaches.sound hsound) (hreaches.queued hsound hqueued)
          (hreaches.bounded hsound hqueued hstart)).inst

end Run

end ProcessEngine
