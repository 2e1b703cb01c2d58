import ProcessEngine.Proofs.RestoreStability

/-!
# Running what was restored

Whatever is restored is safe to run.  The reader of a document finds an element,
an origin and a definition for each name or refuses the document, and that is
all that an engine relies on when it looks something up by position: it never
asks whether an activity holds what its element would have made of it.

`Engine.Linked` is what restoring establishes and every operation keeps, and
`Engine.LooksUp` are the look-ups that a snapshot of an engine makes, or a run
of any of its instances, up to any of its commands.

Main statement: `Accepted.looksUp_inBounds`, for engines that were restored from
any text and then asked to do anything.
-/

namespace ProcessEngine.Engine

/-! ## Linked engines -/

/-- Definitions are what their sources say, and every instance is linked: its
key names its definition, and its activities stay inside the tables. -/
structure Linked (e : Engine) : Prop where
  genuine : ∀ d ∈ e.definitions, d.Genuine
  found : ∀ i ∈ e.instances, e.findDefinition? i.definition.key = some i.definition
  inRange : ∀ i ∈ e.instances, i.InRange

section Linked

variable {e e' : Engine}

/-- **What is restored from a document is linked.** -/
theorem linked_of_rebuild {blank : Engine} {s : Snapshot} (hblank : blank.Blank)
    (h : blank.rebuild s = .ok e) : e.Linked := by
  obtain ⟨-, -, hpairs, -⟩ := (rebuild_eq_ok hblank).mp h
  refine ⟨genuine_of_rebuild hblank h, fun i hi => ?_, fun i hi => ?_⟩
  · obtain ⟨stored, -, hrestore⟩ := exists_of_forall₂_right hpairs hi
    exact (StoredInstance.definition_of_restore hrestore).2
  · obtain ⟨stored, -, hrestore⟩ := exists_of_forall₂_right hpairs hi
    exact StoredInstance.inRange_of_restore hrestore

/-- A further definition changes nothing about those that are found. -/
theorem Linked.addDefinition (he : e.Linked) {d : Definition} (hd : d.Genuine)
    (hdefinitions : e'.definitions = e.definitions ++ [d])
    (hinstances : e'.instances = e.instances) : e'.Linked := by
  refine ⟨fun c hc => ?_, fun i hi => ?_, fun i hi => he.inRange i (hinstances ▸ hi)⟩
  · rw [hdefinitions] at hc
    rcases List.mem_append.mp hc with hc | hc
    · exact he.genuine c hc
    · obtain rfl := List.mem_singleton.mp hc
      exact hd
  · have hfound := he.found i (hinstances ▸ hi)
    rw [findDefinition?] at hfound ⊢
    rw [hdefinitions, List.find?_append, hfound, Option.some_or]

/-- Instances may be added or changed, if they stay linked. -/
theorem Linked.of_instances (he : e.Linked) (hdefinitions : e'.definitions = e.definitions)
    (hinstances : ∀ j ∈ e'.instances, j ∈ e.instances ∨
      (e.findDefinition? j.definition.key = some j.definition ∧ j.InRange)) : e'.Linked := by
  refine ⟨fun d hd => he.genuine d (hdefinitions ▸ hd), fun j hj => ?_, fun j hj => ?_⟩
  · rw [findDefinition?, hdefinitions]
    rcases hinstances j hj with hold | hnew
    · exact he.found j hold
    · exact hnew.1
  · rcases hinstances j hj with hold | hnew
    · exact he.inRange j hold
    · exact hnew.2

theorem Linked.load (he : e.Linked) (source resourceName : String) :
    (e.load source resourceName).1.Linked := by
  unfold Engine.load
  split
  · exact he
  · rename_i diagram hsource
    dsimp only
    split
    · exact he
    · split
      · exact he
      · refine he.addDefinition ?_ rfl rfl
        exact ⟨hsource, rfl⟩

theorem Linked.create (he : e.Linked) (definitionKey : Int) (vars : Variables) :
    (e.create definitionKey vars).1.Linked := by
  unfold Engine.create
  split
  · exact he
  · rename_i d hfind
    split
    · exact he
    · refine he.of_instances rfl fun j hj => ?_
      rcases List.mem_append.mp hj with hj | hj
      · exact .inl hj
      · obtain rfl := List.mem_singleton.mp hj
        -- several definitions may have the key; the one that was found by it is
        -- found by it again
        have hkey : d.key = definitionKey := by simpa using List.find?_some hfind
        exact .inr ⟨hkey ▸ hfind, nofun⟩

theorem Linked.publish (he : e.Linked) (instanceKey : Int) (name : String) (vars : Variables) :
    (e.publish instanceKey name vars).1.Linked := by
  unfold Engine.publish
  split
  · exact he
  · refine he.of_instances rfl fun j hj => ?_
    obtain ⟨i, hi, rfl | rfl⟩ := exists_of_mem_modify hj
    · exact .inl hi
    · exact .inr ⟨he.found i hi, he.inRange i hi⟩

/-- An engine stays linked when it settles a run of one of its instances. -/
theorem Linked.settle (he : e.Linked) {n fuel : Nat} {i : Instance} {r : Run}
    {error? : Option EngineError} (hi : e.instances[n]? = some i)
    (hstart : (e.lend i).start? fuel = some (r, error?)) : (e.settle n r).Linked := by
  have hmem := List.mem_of_getElem? hi
  obtain ⟨opened, hgrows⟩ := Run.start?_grows hstart
  refine he.of_instances rfl fun j hj => ?_
  rcases mem_of_mem_set hj with hj | rfl
  · exact .inl hj
  · rw [hgrows.definition]
    exact .inr ⟨he.found i hmem, Run.start?_inRange hstart (he.inRange i hmem)⟩

theorem Linked.run? (he : e.Linked) {fuel : Nat} {instanceKey : Int}
    {out : Engine × Except EngineError Instance} (h : e.run? fuel instanceKey = some out) :
    out.1.Linked := by
  unfold Engine.run? at h
  split at h
  · cases h
    exact he
  · split at h
    · cases h
      exact he
    · rename_i hi
      split at h
      · cases h
      · rename_i hstart
        cases h
        exact he.settle hi hstart
      · rename_i hstart
        cases h
        exact he.settle hi hstart

/-- **Every operation keeps an engine linked.** -/
theorem kept_linked : KeptByOperations Linked where
  load source resourceName he := he.load source resourceName
  create definitionKey vars he := he.create definitionKey vars
  publish instanceKey name vars he := he.publish instanceKey name vars
  run h he := he.run? h
  clock _ he := he.of_instances rfl fun _ hj => .inl hj
  register _ _ he := he.of_instances rfl fun _ hj => .inl hj

end Linked

/-! ## Accepted documents -/

/-- The engines that come about when any text is restored and operations are
asked for. -/
inductive Accepted : Engine → Prop
  | restore {blank e : Engine} {text : String} (hblank : blank.Blank)
      (h : blank.restore text = .ok e) : Accepted e
  | perform {e : Engine} {fuel : Nat} {op : Operation} {out : Engine × Answer}
      (h : Accepted e) (hop : e.perform? fuel op = some out) : Accepted out.1

theorem Accepted.linked {e : Engine} (h : Accepted e) : e.Linked := by
  induction h with
  | restore hblank h =>
      obtain ⟨s, -, hrebuild⟩ := exists_of_restore h
      exact linked_of_rebuild hblank hrebuild
  | perform _ hop ih => exact kept_linked.perform? hop ih

/-- The look-ups by position that an engine comes to: a snapshot looks up the
element of each activity that does not carry its id itself, and a run looks up
the activities that it resumes and whatever its commands look up. -/
inductive LooksUp (e : Engine) : LookUp → Prop
  | stored {i : Instance} {a : Activity} (hi : i ∈ e.instances) (ha : a ∈ i.activities)
      (hid : a.body.elementId? = none) : LooksUp e (.element i a.element)
  | resumed {i : Instance} {n : Nat} (hi : i ∈ e.instances) (hn : n ∈ i.continuations) :
      LooksUp e (.activity i n)
  | dispatched {i : Instance} {log : List Dispatch} {next : Run.Work} {d : Dispatch}
      {l : LookUp} (hi : i ∈ e.instances)
      (htrace : Run.Traced ((e.lend i).activate, Run.seeds i) log next) (hd : d ∈ log)
      (h : d.before.LooksUp d.command l) : LooksUp e l

theorem Linked.inBounds {e : Engine} (he : e.Linked) {l : LookUp} (h : e.LooksUp l) :
    l.InBounds := by
  cases h with
  | stored hi ha => exact (he.inRange _ hi _ ha).1
  | resumed hi hn =>
      obtain ⟨a, -, ha, -, -⟩ := Run.exists_of_mem_continuations hn
      exact (List.getElem?_eq_some_iff.mp ha).1
  | @dispatched i log next d l hi htrace hd h =>
      have hwork := Run.activate_inRange (r := e.lend i) (he.inRange i hi)
      obtain ⟨hbefore, hcommand⟩ := (htrace.inRange hwork).2 d hd
      exact h.inBounds hbefore hcommand

/-- **Whatever is restored is safe to run.** -/
theorem Accepted.looksUp_inBounds {e : Engine} (h : Accepted e) :
    (∀ i ∈ e.instances, ∃ d, e.findDefinition? i.definition.key = some d ∧ i.definition = d ∧
      d.checksum = Sha256.ofText d.source ∧ Diagram.ofMarkup d.source = .ok d.diagram) ∧
    (∀ i ∈ e.instances, ∀ a ∈ i.activities, a.element < i.definition.diagram.elements.length ∧
      ∀ o, a.origin = some o → o < i.activities.length) ∧
    ∀ l, e.LooksUp l → l.InBounds := by
  have he := h.linked
  refine ⟨fun i hi => ?_, he.inRange, fun l hl => he.inBounds hl⟩
  have hfound := he.found i hi
  obtain ⟨hsource, hchecksum⟩ := he.genuine _ (List.mem_of_find?_eq_some hfound)
  exact ⟨i.definition, hfound, rfl, hchecksum, hsource⟩

/-- The edited document is restored and run: the job of the gateway is resumed,
which opens a gateway whose origin comes after the job. -/
theorem looksUp_inBounds_editedSnapshot :
    ∃ e, Accepted e ∧
      (∃ i ∈ e.instances, e.LooksUp (.activity i 0) ∧
        i.activities.map Activity.origin = [some 2, none, some 2, some 2]) ∧
      (∀ i ∈ e.instances, ∃ d, e.findDefinition? i.definition.key = some d ∧ i.definition = d ∧
        d.checksum = Sha256.ofText d.source ∧ Diagram.ofMarkup d.source = .ok d.diagram) ∧
      (∀ i ∈ e.instances, ∀ a ∈ i.activities, a.element < i.definition.diagram.elements.length ∧
        ∀ o, a.origin = some o → o < i.activities.length) ∧
      ∀ l, e.LooksUp l → l.InBounds := by
  have hblank : (fresh "" .default (.ofMillis 0)).Blank := ⟨rfl, rfl⟩
  have htest : ((editedEngine (fresh "" .default (.ofMillis 0))).perform? 10 (.run 7)).any
      (fun out => out.1.instances.any fun i => i.continuations.contains 0 &&
        i.activities.map Activity.origin == [some 2, none, some 2, some 2]) = true := by
    decide +kernel
  obtain ⟨out, hrun, htest⟩ := (Option.any_eq_true _ _).mp htest
  obtain ⟨i, hi, htest⟩ := List.any_eq_true.mp htest
  obtain ⟨hresumed, horigins⟩ : 0 ∈ i.continuations ∧
      i.activities.map Activity.origin = [some 2, none, some 2, some 2] := by
    simpa using htest
  have haccepted := (Accepted.restore hblank (restore_editedSnapshot hblank)).perform hrun
  exact ⟨out.1, haccepted, ⟨i, hi, .resumed hi hresumed, horigins⟩, haccepted.looksUp_inBounds⟩

end ProcessEngine.Engine
