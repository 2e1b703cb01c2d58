import ProcessEngine.Proofs.AcceptedSnapshots
import ProcessEngine.Proofs.AuditTrails
import ProcessEngine.Proofs.ElementErrors
import ProcessEngine.Proofs.OutlineReadings

/-!
# Flows lead to elements

A process that was read from a document has an element at both ends of each
flow, and nothing that an engine does changes it.  So every flow that a run
takes leads to an element of the table, as do links and the start events, and
no run ends for want of an element.

`Command.Finds` is what each command of a run keeps: it enters an element, or
fails for another reason than the want of one.

Main statement: `Diagram.ofMarkup_joined`, from the tables of the document to
every operation on an engine.
-/

namespace ProcessEngine

/-! ## Commands that lead to elements -/

/-- An element that a command enters is in the table. -/
def Command.InTable (d : Diagram) : Command → Prop
  | .enter element _ _ => element < d.elements.length
  | _ => True

/-- A command enters an element of the table, or fails for another reason than the want of
one. -/
def Command.Finds (d : Diagram) : Command → Prop
  | .enter element _ _ => element < d.elements.length
  | .fail error => ∀ id, error ≠ .elementNotFound id
  | _ => True

theorem Command.Finds.inTable {d : Diagram} {c : Command} (h : c.Finds d) : c.InTable d := by
  cases c with
  | enter => exact h
  | _ => trivial

theorem Diagram.Joined.exists_target {d : Diagram} (h : d.Joined) {f : SequenceFlow}
    (hf : f ∈ d.flows) : ∃ n, d.findElement? f.target = some n := by
  obtain ⟨e, he, hid⟩ := (h f hf).2
  have hsome : (d.findElement? f.target).isSome = true := by
    rw [Diagram.findElement?, List.findIdx?_isSome, List.any_eq_true]
    exact ⟨e, he, beq_iff_eq.mpr hid⟩
  exact Option.isSome_iff_exists.mp hsome

namespace Run

section Finds

variable {r : Run}

/-- A flow of a joined diagram leads to an element. -/
theorem targetCommand_finds {d : Diagram} (hd : d.Joined) (source : Nat) {f : SequenceFlow}
    (hf : f ∈ d.flows) : (targetCommand d source f).Finds d := by
  obtain ⟨n, hn⟩ := hd.exists_target hf
  obtain ⟨e, he, -⟩ := enterable_of_findElement? hn
  rw [targetCommand, hn]
  exact lt_of_element? he

theorem firstHolding_error {vars : Variables} {flows : List SequenceFlow} {error : EngineError}
    (h : firstHolding vars flows = .error error) :
    ∃ f ∈ flows, ∃ cause, error = .expression f.id f.name cause := by
  induction flows with
  | nil => cases h
  | cons f flows ih =>
      have hrest (h : firstHolding vars flows = .error error) :
          ∃ g ∈ f :: flows, ∃ cause, error = .expression g.id g.name cause := by
        obtain ⟨g, hg, hcause⟩ := ih h
        exact ⟨g, List.mem_cons_of_mem _ hg, hcause⟩
      rw [firstHolding] at h
      split at h
      · exact hrest h
      · split at h
        · rename_i cause _
          cases h
          exact ⟨f, List.mem_cons_self, cause, rfl⟩
        · cases h
        · exact hrest h

/-- The choice of flows fails at the condition of one of them. -/
theorem selectFlows_error {vars : Variables} {source : Element} {flows : List SequenceFlow}
    {error : EngineError} (h : selectFlows vars source flows = .error error) :
    ∃ f ∈ flows, ∃ cause, error = .expression f.id f.name cause := by
  unfold selectFlows selectExclusive at h
  split at h
  · split at h
    · rename_i hchoice
      cases h
      split at hchoice
      · rename_i hholding
        cases hchoice
        exact firstHolding_error hholding
      · cases hchoice
      · cases hchoice
    · cases h
  · cases h

theorem takeFlows_finds (hd : r.diagram.Joined) (source : Nat) (flowIds : List String) :
    ∀ c ∈ (r.takeFlows source flowIds).2, c.Finds r.diagram := by
  intro c hc
  unfold takeFlows at hc
  split at hc
  · cases hc
  · split at hc
    · rename_i hselect
      obtain rfl := List.mem_singleton.mp hc
      obtain ⟨f, -, cause, rfl⟩ := selectFlows_error hselect
      exact fun id h => by cases h
    · rename_i hselect
      obtain ⟨f, hf, rfl⟩ := List.mem_map.mp hc
      exact targetCommand_finds hd source
        (mem_of_mem_findFlows ((selectFlows_sublist hselect).subset hf))

theorem adds_find {n : Nat} {e : Element} {extra : List Command} (h : Adds e n r extra) :
    ∀ c ∈ extra, c.Finds r.diagram := by
  intro c hc
  cases h with
  | nothing => cases hc
  | race =>
      obtain ⟨-, rfl⟩ := eq_settleRace_of_mem hc
      trivial
  | jump _ htarget =>
      obtain rfl := List.mem_singleton.mp hc
      obtain ⟨e, he, -⟩ := enterable_of_linkTarget? htarget
      exact lt_of_element? he

theorem visit_finds (r : Run) (element : Nat) (e : Element) (origin : Option Nat)
    (via : Option String) :
    ∀ c ∈ (r.visit element e origin via).2, c.Finds r.diagram := by
  intro c hc
  have hspec := handle_spec r element e origin via
  have herror {error : EngineError} (h : (r.handle element e origin via).2 = .error error) :=
    handle_error h
  unfold visit at hc
  generalize r.handle element e origin via = out at hspec herror hc
  cases hspec with
  | failed n h hbreak =>
      obtain rfl := List.mem_singleton.mp hc
      exact (herror rfl).ne
  | @handled r' step a h hfrom ha hdone hadds hrest =>
      obtain ⟨opened, hgrows⟩ := h.exists_grows
      have hdiagram : r'.diagram = r.diagram := hgrows.diagram
      have hadd : ∀ c ∈ step.extra, c.Finds r.diagram := hdiagram ▸ adds_find hadds
      simp only [proceed] at hc
      split at hc
      · split at hc
        · exact hadd c hc
        · rcases List.mem_append.mp hc with hc | hc
          · exact hadd c hc
          · obtain rfl := List.mem_singleton.mp hc
            trivial
      · exact hadd c hc

theorem dispatch_finds (hd : r.diagram.Joined) (c : Command) :
    ∀ c' ∈ (r.dispatch c).2, c'.Finds r.diagram := by
  intro c' hc'
  cases c with
  | takeFlows source flowIds => exact takeFlows_finds hd source flowIds c' hc'
  | enter element origin via =>
      simp only [dispatch] at hc'
      split at hc'
      · cases hc'
      · rename_i e he
        exact visit_finds (r.reportElement e .activated) element e origin via c' hc'
  | resume n origin =>
      simp only [dispatch] at hc'
      split at hc'
      · cases hc'
      · split at hc'
        · cases hc'
        · exact visit_finds r _ _ origin none c' hc'
  | settleRace gateway => cases hc'
  | fail error => cases hc'

/-! ## Whole runs -/

theorem seeds_find {i : Instance} : ∀ c ∈ seeds i, c.Finds i.diagram := by
  intro c hc
  rcases seeds_cases hc with ⟨n, hn, rfl⟩ | ⟨n, -, rfl⟩
  · exact List.mem_range.mp (List.mem_filter.mp hn).1
  · trivial

/-- **No command of a run enters anything but an element**, and none fails for the want of
one. -/
theorem Traced.finds {work next : Work} {log : List Dispatch} (h : Traced work log next)
    (hd : work.1.diagram.Joined) (hw : ∀ c ∈ work.2, c.Finds work.1.diagram) :
    next.1.diagram = work.1.diagram ∧ (∀ d ∈ log, d.command.Finds work.1.diagram) ∧
      ∀ c ∈ next.2, c.Finds work.1.diagram := by
  induction h with
  | start => exact ⟨rfl, (fun d hd => by cases hd), hw⟩
  | @step log r c queue _ _ ih =>
      obtain ⟨hsame, hlog, hqueue⟩ := ih
      obtain ⟨opened, hgrows⟩ := dispatch_grows r c
      refine ⟨hgrows.diagram.trans hsame, fun d hmem => ?_, fun c' hc' => ?_⟩
      · rcases List.mem_append.mp hmem with hmem | hmem
        · exact hlog d hmem
        · obtain rfl := List.mem_singleton.mp hmem
          exact hqueue c List.mem_cons_self
      · rcases mem_enqueue.mp hc' with hold | hnew
        · exact hqueue c' (List.mem_cons_of_mem _ hold)
        · exact hsame ▸ dispatch_finds (hsame ▸ hd) c c' hnew

theorem activate_finds (hd : r.diagram.Joined) {log : List Dispatch} {next : Work}
    (h : Traced (r.activate, seeds r.inst) log next) :
    (∀ d ∈ log, d.command.Finds r.diagram) ∧ ∀ c ∈ next.2, c.Finds r.diagram :=
  (h.finds hd seeds_find).2

/-- **A run does not end for the want of an element.** -/
theorem start?_error_ne (hd : r.diagram.Joined) {fuel : Nat} {out : Run × Option EngineError}
    (h : r.start? fuel = some out) (id : String) : out.2 ≠ some (.elementNotFound id) := by
  obtain ⟨r', error?⟩ := out
  cases hgo : r.inst.state.terminal with
  | true =>
      rw [start?, if_pos hgo] at h
      cases h
      exact fun h => by cases h
  | false =>
      obtain ⟨r₁, rest, htrace, ⟨-, -, rfl⟩ | ⟨error, left, rfl, -, rfl⟩⟩ := start?_traced hgo h
      · exact fun h => by cases h
      · have herror := (activate_finds hd htrace).2 _ List.mem_cons_self
        exact fun h => herror id (Option.some.inj h)

end Finds

end Run

/-! ## Engines -/

namespace Engine

/-- The engines that operations lead to, from a fresh engine or from whatever was restored. -/
def InUse (starts : KeySequence → Prop) (e : Engine) : Prop := Reachable starts e ∨ Accepted e

variable {starts : KeySequence → Prop} {e : Engine}

theorem InUse.perform (h : e.InUse starts) {fuel : Nat} {op : Operation} {out : Engine × Answer}
    (hop : e.perform? fuel op = some out) : out.1.InUse starts :=
  h.imp (·.perform hop) (·.perform hop)

/-- What an instance executes is what the source of its definition says. -/
theorem InUse.ofMarkup_source (h : e.InUse starts) {i : Instance} (hi : i ∈ e.instances) :
    Diagram.ofMarkup i.definition.source = .ok i.diagram := by
  rcases h with h | h
  · exact (h.sound.genuine _ (h.sound.instances i hi).2).1
  · exact (h.linked.genuine _ (List.mem_of_find?_eq_some (h.linked.found i hi))).1

/-- A result that does not tell of the want of an element. -/
def Tells {α : Type} (out : Engine × Except EngineError α) : Prop :=
  ∀ id, out.2 ≠ .error (.elementNotFound id)

theorem InUse.run?_tells (h : e.InUse starts) {fuel : Nat} {key : Int}
    {out : Engine × Except EngineError Instance} (hrun : e.run? fuel key = some out) :
    Tells out := by
  intro id
  unfold run? at hrun
  split at hrun
  · cases hrun
    exact fun h => by cases h
  · split at hrun
    · cases hrun
      exact fun h => by cases h
    · rename_i i hi
      split at hrun
      · cases hrun
      · cases hrun
        exact fun h => by cases h
      · rename_i r error hstart
        cases hrun
        have hjoined := joined_of_ofMarkup (h.ofMarkup_source (List.mem_of_getElem? hi))
        have hne := Run.start?_error_ne (r := e.lend i) hjoined hstart id
        exact fun herror => hne (congrArg some (Except.error.inj herror))

/-! ## Operations -/

section Operations

variable {fuel : Nat}

theorem load_tells (e : Engine) (source resourceName : String) :
    Tells (e.load source resourceName) := by
  intro id h
  unfold load at h
  split at h
  · cases h
  · dsimp only at h
    split at h
    · cases h
    · split at h <;> cases h

theorem loadBytes_tells (e : Engine) (source : ByteArray) : Tells (e.loadBytes source) := by
  unfold loadBytes
  split
  · exact e.load_tells _ _
  · exact fun id h => by cases h

theorem loadFile_tells (e : Engine) (name : String) (content : Option String) :
    Tells (e.loadFile name content) := by
  unfold loadFile
  split
  · exact e.load_tells _ _
  · exact fun id h => by cases h

theorem create_tells (e : Engine) (definitionKey : Int) (vars : Variables) :
    Tells (e.create definitionKey vars) := by
  intro id h
  unfold create at h
  split at h
  · cases h
  · split at h <;> cases h

theorem createById_tells (e : Engine) (id : String) (vars : Variables) :
    Tells (e.createById id vars) := by
  unfold createById
  split
  · exact fun id h => by cases h
  · exact e.create_tells _ _

theorem publish_tells (e : Engine) (instanceKey : Int) (name : String) (vars : Variables) :
    Tells (e.publish instanceKey name vars) := by
  intro id h
  unfold publish at h
  split at h <;> cases h

theorem InUse.thenRun?_tells {created out : Engine × Except EngineError Instance}
    (hcreated : created.1.InUse starts) (htells : Tells created)
    (h : thenRun? fuel created = some out) : Tells out := by
  obtain ⟨e, i | error⟩ := created
  · cases h
    exact htells
  · exact hcreated.run?_tells h

/-- An answer that does not tell of the want of an element. -/
theorem ne_of_tells {α : Type} {wrap : α → Answer} {out : Engine × Except EngineError α}
    (hout : Tells out) (hwrap : ∀ a error, wrap a ≠ .error error) (id : String) :
    (answered wrap out).2 ≠ .error (.elementNotFound id) := by
  obtain ⟨e, error | a⟩ := out
  · exact fun h => hout id (congrArg Except.error (Answer.error.inj h))
  · exact hwrap a _

/-- **No operation fails for the want of an element.** -/
theorem InUse.perform?_error_ne (h : e.InUse starts) {op : Operation} {out : Engine × Answer}
    (hop : e.perform? fuel op = some out) (id : String) :
    out.2 ≠ .error (.elementNotFound id) := by
  have hinst (i : Instance) (error : EngineError) : Answer.inst i ≠ .error error :=
    fun h => by cases h
  have hdefinition (d : Definition) (error : EngineError) : Answer.definition d ≠ .error error :=
    fun h => by cases h
  cases op with
  | load source resourceName =>
      cases hop
      exact ne_of_tells (e.load_tells _ _) hdefinition id
  | loadBytes source =>
      cases hop
      exact ne_of_tells (e.loadBytes_tells _) hdefinition id
  | loadFile name content =>
      cases hop
      exact ne_of_tells (e.loadFile_tells _ _) hdefinition id
  | create definitionKey vars =>
      cases hop
      exact ne_of_tells (e.create_tells _ _) hinst id
  | createById name vars =>
      cases hop
      exact ne_of_tells (e.createById_tells _ _) hinst id
  | publish instanceKey name vars =>
      cases hop
      exact ne_of_tells (e.publish_tells _ _ _) (fun _ _ h => by cases h) id
  | run instanceKey =>
      obtain ⟨result, hrun, rfl⟩ := Option.map_eq_some_iff.mp hop
      exact ne_of_tells (h.run?_tells hrun) hinst id
  | createAndRun definitionKey vars =>
      obtain ⟨result, hrun, rfl⟩ := Option.map_eq_some_iff.mp hop
      have hcreated := h.perform (show e.perform? fuel (.create definitionKey vars) = some _ from rfl)
      rw [answered_fst] at hcreated
      exact ne_of_tells (hcreated.thenRun?_tells (e.create_tells _ _) hrun) hinst id
  | createAndRunById name vars =>
      obtain ⟨result, hrun, rfl⟩ := Option.map_eq_some_iff.mp hop
      have hcreated := h.perform (show e.perform? fuel (.createById name vars) = some _ from rfl)
      rw [answered_fst] at hcreated
      exact ne_of_tells (hcreated.thenRun?_tells (e.createById_tells _ _) hrun) hinst id
  | setClock now | advanceClock ms | register accepts handler =>
      cases hop
      exact fun h => by cases h

end Operations

end Engine

/-! ## Processes from documents -/

/-- **A process that is read never dangles.**  Both ends of each flow are elements.  The elements
and the flows stand in the order in which they were completed, and an element that was given no
texts has the flows that end or start at it.  No run of such a process misses an element: it does
not fail for the want of one, each command enters an element of the table, and no operation on an
engine reports a missing one. -/
theorem Diagram.ofMarkup_joined {source : String} {d : Diagram}
    (h : Diagram.ofMarkup source = .ok d) :
    (∀ f ∈ d.flows, (∃ e ∈ d.elements, e.id = f.source) ∧ ∃ e ∈ d.elements, e.id = f.target) ∧
    d.flows = (Diagram.completedFlows source).map SequenceFlow.decoded ∧
    d.elements = (Diagram.completedElements source).map (fun told =>
      { told.1 with
        incoming := Diagram.orElse (Outline.textsOf .incoming told.2)
          ((d.flows.filter fun f => f.target == told.1.id).map SequenceFlow.id),
        outgoing := Diagram.orElse (Outline.textsOf .outgoing told.2)
          ((d.flows.filter fun f => f.source == told.1.id).map SequenceFlow.id) }) ∧
    (∀ r : Run, r.diagram = d →
      (∀ fuel out, r.start? fuel = some out → ∀ id, out.2 ≠ some (.elementNotFound id)) ∧
      ∀ log next, Run.Traced (r.activate, Run.seeds r.inst) log next →
        (∀ dispatched ∈ log, dispatched.command.InTable d) ∧ ∀ c ∈ next.2, c.InTable d) ∧
    ∀ starts e, Engine.InUse starts e →
      (∀ i ∈ e.instances, i.definition.source = source → i.diagram = d) ∧
      ∀ fuel op out, e.perform? fuel op = some out →
        ∀ id, out.2 ≠ .error (.elementNotFound id) := by
  have hjoined := joined_of_ofMarkup h
  obtain ⟨hflows, helements⟩ := elements_of_ofMarkup h
  refine ⟨hjoined, hflows, helements, ?_, fun starts e he => ⟨fun i hi hsource => ?_, ?_⟩⟩
  · rintro r rfl
    refine ⟨fun fuel out hstart => Run.start?_error_ne hjoined hstart, fun log next htrace => ?_⟩
    obtain ⟨hlog, hqueue⟩ := Run.activate_finds hjoined htrace
    exact ⟨fun dispatched hmem => (hlog dispatched hmem).inTable,
      fun c hc => (hqueue c hc).inTable⟩
  · have hread := he.ofMarkup_source hi
    rw [hsource, h] at hread
    exact (Except.ok.inj hread).symm
  · exact fun fuel op out hop => he.perform?_error_ne hop

private def scatteredSource : List String :=
  ["<process id='p'><sequenceFlow id='2' sourceRef='s' targetRef='e'/>", "<process id='q'/>",
    "<endEvent id='e'/><startEvent id='s'><outgoing> 2 </outgoing></startEvent>",
    "<sequenceFlow id='1' sourceRef='s' targetRef='e'/><endEvent id='open'>"]

private def scatteredDiagram : Diagram :=
  { id := "p", name := "",
    elements := [{ Element.bare "e" "" .endEvent with incoming := ["2", "1"] },
      { Element.bare "s" "" .startEvent with outgoing := ["2"] }],
    flows := [{ id := "2", name := "", source := "s", target := "e", conditions := [] },
      { id := "1", name := "", source := "s", target := "e", conditions := [] }],
    messages := [] }

private theorem ofMarkup_scatteredSource :
    Diagram.ofMarkup (String.join scatteredSource) = .ok scatteredDiagram :=
  Engine.ofMarkup_join (by decide +kernel)

/-- A flow in front of its elements, a second process, an element with a text of its own and one
that is never closed. -/
theorem ofMarkup_joined_scattered :
    Diagram.ofMarkup (String.join scatteredSource) = .ok scatteredDiagram ∧
      (∀ f ∈ scatteredDiagram.flows, (∃ e ∈ scatteredDiagram.elements, e.id = f.source) ∧
        ∃ e ∈ scatteredDiagram.elements, e.id = f.target) ∧
      scatteredDiagram.flows =
        (Diagram.completedFlows (String.join scatteredSource)).map SequenceFlow.decoded ∧
      ∀ r : Run, r.diagram = scatteredDiagram → ∀ fuel out, r.start? fuel = some out →
        ∀ id, out.2 ≠ some (.elementNotFound id) := by
  obtain ⟨hjoined, hflows, -, hruns, -⟩ := Diagram.ofMarkup_joined ofMarkup_scatteredSource
  exact ⟨ofMarkup_scatteredSource, hjoined, hflows, fun r hr => (hruns r hr).1⟩

end ProcessEngine
