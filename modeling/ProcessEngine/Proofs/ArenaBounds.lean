import ProcessEngine.Proofs.InstanceHistory

/-!
# Positions stay within their tables

A run finds activities and elements by position, and in most places it does not
ask whether there is anything at that position.  `Run.LooksUp` lists these
places for each command, with the run that the command has come to by then.

A sound arena (`Instance.Sound`) has no position that leads nowhere, but it has
a good deal more: keys that differ, origins that point back, contents that go
with the kind of the element.  Nothing of this is needed here.  The invariant is
`Instance.InRange`, which says of each activity that its element and its origin
are positions, and of nothing else.  One command keeps it, since a visit opens
at most one activity, at the element and from the origin that are visited.

Main statements: `LooksUp.inBounds` for one command, and `Traced.inRange` for
all the commands of a run.
-/

namespace ProcessEngine

/-! ## Positions -/

/-- A look-up that is not tested: of an activity in the arena of an instance, or
of an element in the table of its diagram. -/
inductive LookUp where
  | activity (i : Instance) (n : Nat)
  | element (i : Instance) (n : Nat)

/-- There is something at the position that is looked up. -/
def LookUp.InBounds : LookUp → Prop
  | activity i n => n < i.activities.length
  | element i n => n < i.diagram.elements.length

/-- An element of the table, with an activity of the arena as origin if there is
one. -/
def Instance.Admits (i : Instance) (element : Nat) (origin : Option Nat) : Prop :=
  element < i.diagram.elements.length ∧ ∀ o, origin = some o → o < i.activities.length

/-- Every activity has its element and its origin inside the tables. -/
def Instance.InRange (i : Instance) : Prop :=
  ∀ a ∈ i.activities, i.Admits a.element a.origin

/-- The positions of which a command speaks lie inside the tables. -/
def Command.InRange (i : Instance) : Command → Prop
  | .takeFlows source _ => source < i.activities.length
  | .enter element origin _ => i.Admits element origin
  | .resume n origin =>
    n < i.activities.length ∧ ∀ o, origin = some o → o < i.activities.length
  | .settleRace _ | .fail _ => True

namespace Run

/-- A run with its queue has all its positions inside the tables. -/
def Work.InRange (work : Work) : Prop :=
  work.1.inst.InRange ∧ ∀ c ∈ work.2, c.InRange work.1.inst

theorem lt_of_activity? {r : Run} {n : Nat} {a : Activity} (ha : r.activity? n = some a) :
    n < r.inst.activities.length :=
  (List.getElem?_eq_some_iff.mp ha).1

theorem lt_of_element? {d : Diagram} {n : Nat} {e : Element} (he : d.elements[n]? = some e) :
    n < d.elements.length :=
  (List.getElem?_eq_some_iff.mp he).1

section Growth

variable {opened : List Activity} {r r' : Run} {element : Nat} {origin : Option Nat}

/-- What is admitted goes on to be admitted. -/
theorem Grows.admits (h : Grows opened r r') (ha : r.inst.Admits element origin) :
    r'.inst.Admits element origin := by
  have hlength := h.length
  refine ⟨by rw [h.diagram]; exact ha.1, fun o ho => ?_⟩
  have hlt := ha.2 o ho
  omega

/-- Growth by activities that are admitted keeps the positions in range. -/
theorem Grows.inRange (h : Grows opened r r') (hr : r.inst.InRange)
    (hopened : ∀ a ∈ opened, r.inst.Admits a.element a.origin) : r'.inst.InRange := by
  intro b hb
  obtain ⟨n, hn⟩ := List.getElem?_of_mem hb
  rcases h.cases_activity? hn with ⟨a, ha, hframe⟩ | ⟨-, hnew⟩
  · rw [Activity.element_eq_of_frame hframe, Activity.origin_eq_of_frame hframe]
    exact h.admits (hr a (List.mem_of_getElem? ha))
  · exact h.admits (hopened b.frame (List.mem_of_getElem? hnew))

/-- A command that is in range stays so. -/
theorem Grows.command_inRange (h : Grows opened r r') {c : Command} (hc : c.InRange r.inst) :
    c.InRange r'.inst := by
  have hlength := h.length
  cases c with
  | takeFlows source flows =>
      simp only [Command.InRange] at hc ⊢
      omega
  | enter element origin via => exact h.admits hc
  | resume n origin =>
      refine ⟨by have hlt := hc.1; omega, fun o ho => ?_⟩
      have hlt := hc.2 o ho
      omega
  | settleRace gateway => trivial
  | fail error => trivial

end Growth

/-! ## One command -/

section Visits

variable {element : Nat} {e : Element} {origin : Option Nat} {n : Nat} {r r' : Run}
  {out : Run × List Command}

theorem Moves.inRange (h : Moves element e origin n r r') (hr : r.inst.InRange)
    (hvisit : r.inst.Admits element origin) : r'.inst.InRange := by
  rcases h.grows with hstill | ⟨-, body, -, hgrows⟩
  · exact hstill.inRange hr (by simp)
  · exact hgrows.inRange hr fun a ha => by
      obtain rfl := List.mem_singleton.mp ha
      exact hvisit

theorem Visits.inRange (h : Visits element e origin r out) (hr : r.inst.InRange)
    (hvisit : r.inst.Admits element origin) : Work.InRange out := by
  cases h with
  | failed n error h hbreak =>
      refine ⟨hbreak.grows.inRange (h.inRange hr hvisit) (by simp), fun c hc => ?_⟩
      obtain rfl := List.mem_singleton.mp hc
      trivial
  | @visited r' n a extra flows h _ ha hadds hflows _ =>
      refine ⟨h.inRange hr hvisit, fun c hc => ?_⟩
      have hn := lt_of_activity? ha
      rcases List.mem_append.mp hc with hc | hc
      · cases hadds with
        | nothing => cases hc
        | race =>
            obtain ⟨-, rfl⟩ := eq_settleRace_of_mem hc
            trivial
        | jump _ htarget =>
            obtain rfl := List.mem_singleton.mp hc
            obtain ⟨e, he, -⟩ := enterable_of_linkTarget? htarget
            exact ⟨lt_of_element? he, fun o ho => by cases ho; exact hn⟩
      · rcases hflows with rfl | ⟨rfl, -⟩
        · cases hc
        · obtain rfl := List.mem_singleton.mp hc
          exact hn

/-- **A command keeps all positions in range**, its own and those of the
commands that follow from it. -/
theorem dispatch_inRange {r : Run} {c : Command} (hr : r.inst.InRange)
    (hc : c.InRange r.inst) : Work.InRange (r.dispatch c) := by
  have h := dispatch_spec r c
  generalize r.dispatch c = out at h
  cases h with
  | idle => exact ⟨hr, fun _ h => by cases h⟩
  | flows audit hflows =>
      refine ⟨hr, fun c' hc' => ?_⟩
      obtain ⟨f, -, rfl⟩ := List.mem_map.mp hc'
      unfold targetCommand
      split
      · rename_i target htarget
        obtain ⟨e, he, -⟩ := enterable_of_findElement? htarget
        exact ⟨lt_of_element? he, fun o ho => by cases ho; exact hc⟩
      · trivial
  | stuck => exact ⟨hr, fun c' hc' => by obtain rfl := List.mem_singleton.mp hc'; trivial⟩
  | enter he h => exact h.inRange hr hc
  | resume ha he h => exact h.inRange hr ⟨lt_of_element? he, hc.2⟩
  | settle gateway =>
      exact ⟨(r.settleRace_grows gateway).inRange hr (by simp), fun _ h => by cases h⟩

end Visits

/-! ## Whole runs -/

/-- The commands with which a run starts are in range. -/
theorem seeds_inRange {i : Instance} (hi : i.InRange) : ∀ c ∈ seeds i, c.InRange i := by
  intro c hc
  rcases seeds_cases hc with ⟨n, hn, rfl⟩ | ⟨n, hn, rfl⟩
  · exact ⟨List.mem_range.mp (List.mem_filter.mp hn).1, fun o ho => by cases ho⟩
  · obtain ⟨a, -, ha, -, -⟩ := exists_of_mem_continuations hn
    refine ⟨(List.getElem?_eq_some_iff.mp ha).1, fun o ho => ?_⟩
    rw [ha, Option.bind_some] at ho
    exact (hi a (List.mem_of_getElem? ha)).2 o ho

theorem activate_inRange {r : Run} (hr : r.inst.InRange) :
    Work.InRange (r.activate, seeds r.inst) :=
  ⟨r.activate_grows.inRange hr (by simp),
    fun c hc => r.activate_grows.command_inRange (seeds_inRange hr c hc)⟩

/-- **The commands of a run keep all positions in range**, and each of them
finds them so. -/
theorem Traced.inRange {work next : Work} {log : List Dispatch} (h : Traced work log next)
    (hw : Work.InRange work) : Work.InRange next ∧
      ∀ d ∈ log, d.before.inst.InRange ∧ d.command.InRange d.before.inst := by
  induction h with
  | start => exact ⟨hw, fun d hd => by cases hd⟩
  | @step log r c queue _ _ ih =>
      obtain ⟨⟨hr, hqueue⟩, hlog⟩ := ih
      have hc := hqueue c List.mem_cons_self
      have hout := dispatch_inRange hr hc
      obtain ⟨opened, hgrows⟩ := dispatch_grows r c
      refine ⟨⟨hout.1, fun c' hc' => ?_⟩, fun d hd => ?_⟩
      -- what was queued earlier was in range of a smaller arena
      · rcases mem_enqueue.mp hc' with hold | hnew
        · exact hgrows.command_inRange (hqueue c' (List.mem_cons_of_mem _ hold))
        · exact hout.2 c' hnew
      · rcases List.mem_append.mp hd with hd | hd
        · exact hlog d hd
        · obtain rfl := List.mem_singleton.mp hd
          exact ⟨hr, hc⟩

/-- **A run keeps the positions of its instance in range.** -/
theorem start?_inRange {fuel : Nat} {r r' : Run} {error? : Option EngineError}
    (h : r.start? fuel = some (r', error?)) (hr : r.inst.InRange) : r'.inst.InRange := by
  cases hgo : r.inst.state.terminal with
  | true =>
      rw [start?, if_pos hgo] at h
      cases h
      exact hr
  | false =>
      obtain ⟨r₁, rest, htrace, hend⟩ := start?_traced hgo h
      have hr₁ := (htrace.inRange (activate_inRange hr)).1.1
      rcases hend with ⟨-, rfl, -⟩ | ⟨-, -, -, rfl, -⟩
      · exact r₁.finish_grows.inRange hr₁ (by simp)
      · exact r₁.abort_grows.inRange hr₁ (by simp)

/-! ## Look-ups -/

/-- What handling an element looks up by position, apart from the element.  A
handler takes an activity and looks it up in the arena that it has by then, and
perhaps again after some work.  A parallel gateway that no flow led to looks up
the origin and its element, and a catch event the branch that it may be. -/
inductive HandlingLooksUp (r : Run) (element : Nat) (e : Element) (origin : Option Nat) :
    Option String → LookUp → Prop
  | job {via : Option String} {r' : Run} {n : Nat}
      (hkind : e.kind = .serviceTask ∨ e.kind = .userTask)
      (htake : r.openJob? element e origin = some (r', n)) :
      HandlingLooksUp r element e origin via (.activity r'.inst n)
  | gateway {via : Option String} {r' : Run} {n : Nat} (hkind : e.kind = .parallelGateway)
      (htake : r.openGateway? element origin = some (r', n)) :
      HandlingLooksUp r element e origin via (.activity r'.inst n)
  | source {r' : Run} {n o : Nat} (hkind : e.kind = .parallelGateway)
      (htake : r.openGateway? element origin = some (r', n)) (horigin : origin = some o) :
      HandlingLooksUp r element e origin none (.activity r'.inst o)
  | sourceElement {r' : Run} {n o : Nat} {a : Activity} (hkind : e.kind = .parallelGateway)
      (htake : r.openGateway? element origin = some (r', n)) (horigin : origin = some o)
      (ha : r'.activity? o = some a) :
      HandlingLooksUp r element e origin none (.element r'.inst a.element)
  | message {via ref : Option String} {r' : Run} {n : Nat} (hkind : e.kind = .catchEvent)
      (hevent : e.event = some (.message ref))
      (htake : r.openSubscription? element e origin = some (r', n)) :
      HandlingLooksUp r element e origin via (.activity r'.inst n)
  | timer {via duration : Option String} {r' : Run} {n : Nat} (hkind : e.kind = .catchEvent)
      (hevent : e.event = some (.timer duration))
      (htake : r.openTimer element e duration origin = .ok (r', n)) :
      HandlingLooksUp r element e origin via (.activity r'.inst n)
  | branch {via : Option String} {r' : Run} {step : Step} (hkind : e.kind = .catchEvent)
      (hstep : r.catchBody element e origin = (r', .ok step)) :
      HandlingLooksUp r element e origin via (.activity r'.inst step.activity)
  | again {via : Option String} {r' r'' : Run} {n : Nat} {opened : List Activity}
      (h : HandlingLooksUp r element e origin via (.activity r'.inst n))
      (hgrows : Grows opened r' r'') :
      HandlingLooksUp r element e origin via (.activity r''.inst n)

/-- What a command looks up by position. -/
inductive LooksUp (r : Run) : Command → LookUp → Prop
  | source (n : Nat) (flows : List String) :
      LooksUp r (.takeFlows n flows) (.activity r.inst n)
  | sourceElement {n : Nat} {a : Activity} (flows : List String) (ha : r.activity? n = some a) :
      LooksUp r (.takeFlows n flows) (.element r.inst a.element)
  | entered (element : Nat) (origin : Option Nat) (via : Option String) :
      LooksUp r (.enter element origin via) (.element r.inst element)
  | entering {element : Nat} {e : Element} {origin : Option Nat} {via : Option String}
      {l : LookUp} (he : r.diagram.elements[element]? = some e)
      (h : HandlingLooksUp (r.reportElement e .activated) element e origin via l) :
      LooksUp r (.enter element origin via) l
  | resumed (n : Nat) (origin : Option Nat) :
      LooksUp r (.resume n origin) (.activity r.inst n)
  | resumedElement {n : Nat} {a : Activity} (origin : Option Nat)
      (ha : r.activity? n = some a) : LooksUp r (.resume n origin) (.element r.inst a.element)
  | resuming {n : Nat} {a : Activity} {e : Element} {origin : Option Nat} {l : LookUp}
      (ha : r.activity? n = some a) (he : r.diagram.elements[a.element]? = some e)
      (h : HandlingLooksUp r a.element e origin none l) : LooksUp r (.resume n origin) l

section LookUps

variable {element : Nat} {e : Element} {origin : Option Nat} {r : Run} {l : LookUp}

/-- Taking a gateway leaves the origin where it is. -/
theorem openGateway?_inRange {r' : Run} {n : Nat} (hkind : e.kind = .parallelGateway)
    (htake : r.openGateway? element origin = some (r', n)) (hr : r.inst.InRange)
    (hvisit : r.inst.Admits element origin) :
    r'.inst.InRange ∧ r'.inst.Admits element origin := by
  obtain ⟨a, g, htakes, -⟩ := openGateway?_takes hkind htake
  obtain ⟨opened, hgrows⟩ := htakes.moves.exists_grows
  exact ⟨htakes.moves.inRange hr hvisit, hgrows.admits hvisit⟩

/-- What handling an element looks up is there. -/
theorem HandlingLooksUp.inBounds {via : Option String}
    (h : HandlingLooksUp r element e origin via l) (hr : r.inst.InRange)
    (hvisit : r.inst.Admits element origin) : l.InBounds := by
  induction h with
  | job hkind htake =>
      obtain ⟨a, j, htakes, -⟩ := openJob?_takes hkind htake
      exact lt_of_activity? htakes.activity?
  | gateway hkind htake =>
      obtain ⟨a, g, htakes, -⟩ := openGateway?_takes hkind htake
      exact lt_of_activity? htakes.activity?
  | source hkind htake horigin =>
      exact (openGateway?_inRange hkind htake hr hvisit).2.2 _ horigin
  | sourceElement hkind htake horigin ha =>
      have hrange := (openGateway?_inRange hkind htake hr hvisit).1
      exact (hrange _ (List.mem_of_getElem? ha)).1
  | message hkind hevent htake =>
      obtain ⟨a, s, htakes, -⟩ := openSubscription?_takes hkind hevent htake
      exact lt_of_activity? htakes.activity?
  | timer hkind hevent htake =>
      obtain ⟨a, t, htakes, -⟩ := openTimer_takes hkind hevent htake
      exact lt_of_activity? htakes.activity?
  | branch hkind hstep =>
      have hworks : Works element e origin r (r.catchBody element e origin) :=
        catchBody_works hkind
      rw [hstep] at hworks
      cases hworks with
      | worked _ _ ha => exact lt_of_activity? ha
  | again h hgrows ih =>
      have hlength := hgrows.length
      simp only [LookUp.InBounds] at ih ⊢
      omega

/-- **What a command looks up is there**, if the positions that it finds are in
range. -/
theorem LooksUp.inBounds {c : Command} (h : r.LooksUp c l) (hr : r.inst.InRange)
    (hc : c.InRange r.inst) : l.InBounds := by
  cases h with
  | source => exact hc
  | sourceElement _ ha => exact (hr _ (List.mem_of_getElem? ha)).1
  | entered => exact hc.1
  | entering he h => exact h.inBounds hr hc
  | resumed => exact hc.1
  | resumedElement _ ha => exact (hr _ (List.mem_of_getElem? ha)).1
  | resuming ha he h => exact h.inBounds hr ⟨lt_of_element? he, hc.2⟩

end LookUps

end Run

end ProcessEngine
