import ProcessEngine.Proofs.ArenaBounds
import ProcessEngine.Proofs.EngineReachability
import ProcessEngine.Proofs.SnapshotCharacters
import ProcessEngine.Proofs.OutlineSteps

/-!
# Restoring what any document says

A document that is restored need not come from an engine.  Its keys may repeat,
its origins may point forward, and an activity may hold what its element has no
use for.  Still, restoring finds a position for each name, and taking a snapshot
gives back the name from which the position was found.  So what is stored of a
restored instance is the stored instance itself (`stored_of_restore`); only a
source may have been packed in another way.

Restoring it again then goes through the same look-ups and past the same keys.

Main statements: `rebuild_eq_ok`, which tells all that a document can be
restored to, and `restore_again`, by which the snapshot of a restored engine is
restored to the same engine.
-/

namespace ProcessEngine

section Pairs

variable {α β γ : Type} {R : α → β → Prop} {xs : List α} {ys : List β}

theorem map_eq_map_of_forall₂ {f : β → γ} {g : α → γ} (h : List.Forall₂ R xs ys)
    (hR : ∀ x y, R x y → f y = g x) : ys.map f = xs.map g := by
  induction h with
  | nil => rfl
  | cons hhead _ ih => rw [List.map_cons, List.map_cons, hR _ _ hhead, ih]

theorem exists_of_forall₂_right (h : List.Forall₂ R xs ys) {y : β} (hy : y ∈ ys) :
    ∃ x ∈ xs, R x y := by
  induction h with
  | nil => cases hy
  | @cons x y' _ _ hhead _ ih =>
      rcases List.mem_cons.mp hy with rfl | hy
      · exact ⟨x, List.mem_cons_self, hhead⟩
      · obtain ⟨x, hx, hR⟩ := ih hy
        exact ⟨x, List.mem_cons_of_mem _ hx, hR⟩

end Pairs

/-! ## Definitions -/

/-- A definition that is restored is what its source says, and keeps the rest. -/
theorem StoredDefinition.genuine_of_restore {d : StoredDefinition} {c : Definition}
    (h : d.restore = .ok c) : c.Genuine ∧ c.key = d.key := by
  unfold restore at h
  split at h
  · cases h
  · cases h
  · dsimp only at h
    split at h
    · split at h
      · cases h
      · rename_i diagram hdiagram
        cases h
        exact ⟨⟨hdiagram, rfl⟩, rfl⟩
    · cases h

/-! ## Activities -/

/-- A key is found where an activity has it. -/
theorem exists_of_lastPosition? {key : Int} {stored : List StoredActivity} {n : Nat}
    (h : lastPosition? key stored = some n) : ∃ a, stored[n]? = some a ∧ a.key = key := by
  induction stored generalizing n with
  | nil => cases h
  | cons a rest ih =>
      rw [lastPosition?] at h
      split at h
      · rename_i m hm
        cases h
        simpa using ih hm
      · split at h
        · rename_i hkey
          cases h
          exact ⟨a, rfl, hkey⟩
        · cases h

namespace StoredInstance

variable {i : StoredInstance} {diagram : Diagram} {s : StoredActivity} {a : Activity}
  {stored : List StoredActivity} {activities : List Activity}

/-- The element that is found has the id. -/
theorem findElement_eq_ok {id : String} {n : Nat} (h : i.findElement diagram id = .ok n) :
    ∃ e, diagram.elements[n]? = some e ∧ e.id = id := by
  unfold findElement at h
  split at h
  · rename_i element hfind
    cases h
    obtain ⟨hlt, htest, -⟩ := List.findIdx?_eq_some_iff_getElem.mp hfind
    exact ⟨_, List.getElem?_eq_getElem hlt, by simpa using htest⟩
  · cases h

/-- The origin that is found has the key. -/
theorem findOrigin_eq_ok {key? : Option Int} {origin : Option Nat}
    (h : i.findOrigin key? = .ok origin) :
    (∀ o, origin = some o → o < i.activities.length) ∧
      origin.bind (fun o => i.activities[o]?.map StoredActivity.key) = key? := by
  unfold findOrigin at h
  split at h
  · cases h
    exact ⟨nofun, rfl⟩
  · rename_i key
    split at h
    · rename_i n hlast
      cases h
      obtain ⟨a, ha, hkey⟩ := exists_of_lastPosition? hlast
      refine ⟨fun o ho => ?_, by simp [ha, hkey]⟩
      cases ho
      exact lastPosition?_lt hlast
    · cases h

/-- What an activity is restored to. -/
theorem relink_eq_ok (h : i.relink diagram s = .ok a) :
    a.key = s.key ∧ i.findElement diagram s.elementId = .ok a.element ∧
      i.findOrigin s.originKey = .ok a.origin ∧ a.body = i.body s.elementId s.body := by
  unfold relink at h
  split at h
  · cases h
  · rename_i element helement
    split at h
    · cases h
    · rename_i origin horigin
      cases h
      exact ⟨rfl, helement, horigin, rfl⟩

/-- Activities are restored one by one. -/
theorem relinkAll_forall₂ (h : i.relinkAll diagram stored = .ok activities) :
    List.Forall₂ (fun s a => i.relink diagram s = .ok a) stored activities := by
  induction stored generalizing activities with
  | nil =>
      cases h
      exact .nil
  | cons s rest ih =>
      rw [relinkAll] at h
      split at h
      · cases h
      · rename_i a ha
        split at h
        · cases h
        · rename_i later hlater
          cases h
          exact .cons ha (ih hlater)

/-- What is stored of a body is that from which it was restored. -/
theorem stored_body (id : String) (b : StoredBody) : (i.body id b).stored = b := by
  cases b <;> rfl

/-- A body carries the element id with which it was restored, or none. -/
theorem elementId?_body (id : String) (b : StoredBody) :
    (i.body id b).elementId? = none ∨ (i.body id b).elementId? = some id := by
  cases b <;> simp [body, ActivityBody.elementId?]

/-- An activity that was restored in an instance is stored there as it was. -/
theorem storedActivity_of_relink {inst : Instance} (h : i.relink inst.diagram s = .ok a)
    (hkeys : inst.activities.map Activity.key = i.activities.map StoredActivity.key) :
    inst.storedActivity a = s := by
  obtain ⟨hkey, helement, horigin, hbody⟩ := relink_eq_ok h
  obtain ⟨e, he, hid⟩ := findElement_eq_ok helement
  have helementId : a.body.elementId?.getD (inst.elementIdAt a.element) = s.elementId := by
    rw [hbody]
    rcases elementId?_body (i := i) s.elementId s.body with hnone | hsome
    · simp [hnone, Instance.elementIdAt, he, hid]
    · simp [hsome]
  -- an origin was found by its key and is stored by it, so that it does not
  -- matter which of several activities with that key has been found
  have hkeyAt : inst.activityKeyAt? = fun o => i.activities[o]?.map StoredActivity.key := by
    funext o
    rw [Instance.activityKeyAt?, ← List.getElem?_map, hkeys, List.getElem?_map]
  have horiginKey : a.origin.bind inst.activityKeyAt? = s.originKey := by
    rw [hkeyAt]
    exact (findOrigin_eq_ok horigin).2
  rw [Instance.storedActivity, hkey, helementId, horiginKey, hbody, stored_body]

/-! ## Instances -/

/-- What an instance is restored to. -/
theorem restore_eq_ok {definitions : List Definition} {inst : Instance}
    (h : i.restore definitions = .ok inst) :
    definitions.find? (fun d => d.key == i.definitionKey) = some inst.definition ∧
      i.relinkAll inst.diagram i.activities = .ok inst.activities ∧
      inst.key = i.key ∧ inst.createdAt = i.createdAt ∧ inst.state = i.state ∧
      inst.vars = i.vars ∧ inst.caught = i.caught := by
  unfold restore at h
  split at h
  · cases h
  · rename_i definition hfind
    split at h
    · cases h
    · rename_i activities hall
      cases h
      exact ⟨hfind, hall, rfl, rfl, rfl, rfl, rfl⟩

/-- A restored instance is found by its key as an instance of its definition. -/
theorem definition_of_restore {definitions : List Definition} {inst : Instance}
    (h : i.restore definitions = .ok inst) :
    inst.definition.key = i.definitionKey ∧
      definitions.find? (fun d => d.key == inst.definition.key) = some inst.definition := by
  have hfind := (restore_eq_ok h).1
  have hkey : inst.definition.key = i.definitionKey := by simpa using List.find?_some hfind
  rw [hkey]
  exact ⟨rfl, hfind⟩

/-- **A restored instance is stored as it was.** -/
theorem stored_of_restore {definitions : List Definition} {inst : Instance}
    (h : i.restore definitions = .ok inst) : inst.stored = i := by
  obtain ⟨-, hall, hkey, hcreatedAt, hstate, hvars, hcaught⟩ := restore_eq_ok h
  have hpairs := relinkAll_forall₂ hall
  have hkeys : inst.activities.map Activity.key = i.activities.map StoredActivity.key :=
    map_eq_map_of_forall₂ hpairs fun s a hlink => (relink_eq_ok hlink).1
  have hactivities : inst.activities.map inst.storedActivity = i.activities := by
    rw [map_eq_map_of_forall₂ hpairs fun s a hlink => storedActivity_of_relink hlink hkeys,
      List.map_id']
  rw [Instance.stored, hactivities, hkey, hcreatedAt, hstate, hvars, hcaught,
    (definition_of_restore h).1]

/-- **A restored instance has its positions inside the tables.** -/
theorem inRange_of_restore {definitions : List Definition} {inst : Instance}
    (h : i.restore definitions = .ok inst) : inst.InRange := by
  obtain ⟨-, hall, -⟩ := restore_eq_ok h
  have hpairs := relinkAll_forall₂ hall
  intro a ha
  obtain ⟨s, -, hlink⟩ := exists_of_forall₂_right hpairs ha
  obtain ⟨-, helement, horigin, -⟩ := relink_eq_ok hlink
  obtain ⟨e, he, -⟩ := findElement_eq_ok helement
  refine ⟨Run.lt_of_element? he, fun o ho => ?_⟩
  rw [← hpairs.length_eq]
  exact (findOrigin_eq_ok horigin).1 o ho

end StoredInstance

/-! ## Whole documents -/

/-- The keys of a document, in the order in which restoring comes to them. -/
def Snapshot.keys (s : Snapshot) : List Int :=
  s.definitions.map StoredDefinition.key ++ s.instances.flatMap StoredInstance.keys

namespace Engine

variable {blank e e' : Engine}

theorem addDefinition_eq_ok {d : StoredDefinition} :
    e.addDefinition d = .ok e' ↔ ∃ c, d.restore = .ok c ∧ e' = { e with
      definitions := e.definitions ++ [c]
      keys := e.keys.advancePast d.key } := by
  unfold addDefinition
  cases d.restore with
  | error error => simp
  | ok c => simp [skipKeys, eq_comm]

theorem addInstance_eq_ok {i : StoredInstance} :
    e.addInstance i = .ok e' ↔ ∃ inst, i.restore e.definitions = .ok inst ∧ e' = { e with
      instances := e.instances ++ [inst]
      keys := i.keys.foldl KeySequence.advancePast e.keys } := by
  unfold addInstance
  cases i.restore e.definitions with
  | error error => simp
  | ok inst => simp [skipKeys, eq_comm]

theorem foldlM_addDefinition_eq_ok {stored : List StoredDefinition} :
    stored.foldlM addDefinition e = .ok e' ↔
      ∃ definitions, List.Forall₂ (fun d c => d.restore = .ok c) stored definitions ∧
        e' = { e with
          definitions := e.definitions ++ definitions
          keys := (stored.map StoredDefinition.key).foldl KeySequence.advancePast e.keys } := by
  induction stored generalizing e with
  | nil => simp [pure, Except.pure, eq_comm]
  | cons d rest ih =>
      rw [List.foldlM_cons]
      constructor
      · intro h
        obtain ⟨middle, hfirst, hrest⟩ := bind_eq_ok.mp h
        obtain ⟨c, hc, rfl⟩ := addDefinition_eq_ok.mp hfirst
        obtain ⟨definitions, hpairs, rfl⟩ := ih.mp hrest
        exact ⟨c :: definitions, .cons hc hpairs, by simp⟩
      · rintro ⟨_, hpairs, rfl⟩
        cases hpairs with
        | @cons _ c _ definitions hc hpairs =>
            refine bind_eq_ok.mpr ⟨_, addDefinition_eq_ok.mpr ⟨c, hc, rfl⟩, ?_⟩
            exact ih.mpr ⟨definitions, hpairs, by simp⟩

theorem foldlM_addInstance_eq_ok {stored : List StoredInstance} :
    stored.foldlM addInstance e = .ok e' ↔
      ∃ instances, List.Forall₂ (fun i inst => i.restore e.definitions = .ok inst) stored
          instances ∧
        e' = { e with
          instances := e.instances ++ instances
          keys := (stored.flatMap StoredInstance.keys).foldl KeySequence.advancePast e.keys } := by
  induction stored generalizing e with
  | nil => simp [pure, Except.pure, eq_comm]
  | cons i rest ih =>
      rw [List.foldlM_cons]
      constructor
      · intro h
        obtain ⟨middle, hfirst, hrest⟩ := bind_eq_ok.mp h
        obtain ⟨inst, hinst, rfl⟩ := addInstance_eq_ok.mp hfirst
        obtain ⟨instances, hpairs, rfl⟩ := ih.mp hrest
        exact ⟨inst :: instances, .cons hinst hpairs, by simp⟩
      · rintro ⟨_, hpairs, rfl⟩
        cases hpairs with
        | @cons _ inst _ instances hinst hpairs =>
            refine bind_eq_ok.mpr ⟨_, addInstance_eq_ok.mpr ⟨inst, hinst, rfl⟩, ?_⟩
            exact ih.mpr ⟨instances, hpairs, by simp⟩

/-- **All that a document can be restored to.** -/
theorem rebuild_eq_ok {s : Snapshot} (hblank : blank.Blank) :
    blank.rebuild s = .ok e ↔ s.version = snapshotVersion ∧
      List.Forall₂ (fun d c => d.restore = .ok c) s.definitions e.definitions ∧
      List.Forall₂ (fun i inst => i.restore e.definitions = .ok inst) s.instances e.instances ∧
      e = { blank with
        name := s.name
        definitions := e.definitions
        instances := e.instances
        keys := s.keys.foldl KeySequence.advancePast blank.keys } := by
  obtain ⟨hdefinitions, hinstances⟩ := hblank
  unfold rebuild
  split
  · rename_i hversion
    constructor
    · intro h
      obtain ⟨middle, hfirst, hrest⟩ := bind_eq_ok.mp h
      obtain ⟨definitions, hpairs, rfl⟩ := foldlM_addDefinition_eq_ok.mp hfirst
      obtain ⟨instances, hpairs', rfl⟩ := foldlM_addInstance_eq_ok.mp hrest
      simp only [hdefinitions, hinstances, List.nil_append] at hpairs' ⊢
      exact ⟨hversion, hpairs, hpairs', by simp [Snapshot.keys]⟩
    · rintro ⟨-, hpairs, hpairs', he⟩
      refine bind_eq_ok.mpr ⟨_, foldlM_addDefinition_eq_ok.mpr ⟨_, hpairs, rfl⟩, ?_⟩
      refine foldlM_addInstance_eq_ok.mpr ⟨e.instances, ?_, ?_⟩
      · simpa [hdefinitions] using hpairs'
      · refine he.trans ?_
        simp [hdefinitions, hinstances, Snapshot.keys]
  · rename_i hversion
    simp [hversion]

/-! ## Restoring again -/

/-- A text that is restored reads as a document. -/
theorem exists_of_restore {text : String} (h : blank.restore text = .ok e) :
    ∃ s, Snapshot.parse? text = some s ∧ blank.rebuild s = .ok e := by
  unfold Engine.restore at h
  split at h
  · cases h
  · rename_i s hparse
    exact ⟨s, hparse, h⟩

/-- The definitions of a restored engine are what their sources say. -/
theorem genuine_of_rebuild {s : Snapshot} (hblank : blank.Blank)
    (h : blank.rebuild s = .ok e) : ∀ d ∈ e.definitions, d.Genuine := by
  obtain ⟨-, hpairs, -⟩ := (rebuild_eq_ok hblank).mp h
  intro d hd
  obtain ⟨stored, -, hrestore⟩ := exists_of_forall₂_right hpairs hd
  exact (StoredDefinition.genuine_of_restore hrestore).1

/-- The snapshot of a restored engine has the instances and the keys of the
document. -/
theorem snapshot_of_rebuild {s : Snapshot} (hblank : blank.Blank)
    (h : blank.rebuild s = .ok e) : e.snapshot.instances = s.instances ∧
      e.snapshot.keys = s.keys := by
  obtain ⟨-, hpairs, hpairs', -⟩ := (rebuild_eq_ok hblank).mp h
  have hinstances : e.snapshot.instances = s.instances := by
    refine (map_eq_map_of_forall₂ hpairs' fun i inst hrestore => ?_).trans (List.map_id' _)
    exact StoredInstance.stored_of_restore hrestore
  have hkeys : e.definitions.map Definition.key = s.definitions.map StoredDefinition.key :=
    map_eq_map_of_forall₂ hpairs fun d c hrestore =>
      (StoredDefinition.genuine_of_restore hrestore).2
  have hstored : e.snapshot.definitions.map StoredDefinition.key =
      s.definitions.map StoredDefinition.key := by
    rw [← hkeys, snapshot, List.map_map]
    rfl
  exact ⟨hinstances, by rw [Snapshot.keys, Snapshot.keys, hinstances, hstored]⟩

/-- **Restoring is stable.**  The snapshot of an engine that was restored from
any text is restored to the same engine; only clock, handlers and reports are
those of the blank engine. -/
theorem restore_again {again : Engine} {text : String} (hblank : blank.Blank)
    (h : blank.restore text = .ok e)
    (hcodec : Snapshot.parse? e.snapshot.text = some e.snapshot)
    (hagain : again.Blank) (hkeys : again.keys = blank.keys) :
    ∃ e', again.restore e.snapshot.text = .ok e' ∧ e'.name = e.name ∧
      e'.definitions = e.definitions ∧ e'.instances = e.instances ∧ e'.keys = e.keys ∧
      (again = blank → e' = e) := by
  obtain ⟨s, -, hrebuild⟩ := exists_of_restore h
  obtain ⟨hinstances, hsame⟩ := snapshot_of_rebuild hblank hrebuild
  have hgenuine := genuine_of_rebuild hblank hrebuild
  obtain ⟨-, -, hpairs, he⟩ := (rebuild_eq_ok hblank).mp hrebuild
  have hekeys : e.keys = s.keys.foldl KeySequence.advancePast blank.keys := by rw [he]
  refine ⟨{ again with name := e.name, definitions := e.definitions, instances := e.instances,
                       keys := e.keys }, ?_, rfl, rfl, rfl, rfl, ?_⟩
  · rw [restore_eq_rebuild hcodec]
    refine (rebuild_eq_ok hagain).mpr ⟨rfl, ?_, ?_, ?_⟩
    · refine List.forall₂_map_left_iff.mpr (List.forall₂_same.mpr fun d hd => ?_)
      exact Definition.restore_stored (hgenuine d hd)
    · rw [hinstances]
      exact hpairs
    · rw [hsame, hkeys, ← hekeys]
      rfl
  · rintro rfl
    exact he.symm ▸ rfl

/-- A gateway that no flow leads to. -/
def editedSource : List String :=
  ["<process id='p'>", "<parallelGateway id='g'/>", "</process>"]

def editedDiagram : Diagram :=
  { id := "p", name := "", elements := [.bare "g" "" .parallelGateway], flows := []
    messages := [] }

theorem ofMarkup_editedSource :
    Diagram.ofMarkup (String.join editedSource) = .ok editedDiagram :=
  ofMarkup_join (by decide +kernel)

def editedDefinition : Definition :=
  { key := 7, id := "p", version := 4, checksum := Sha256.ofText (String.join editedSource)
    source := String.join editedSource, resourceName := "", loadedAt := .ofMillis 0
    diagram := editedDiagram }

/-- An instance as no engine writes it: keys repeat, one origin points forward
and one to its own activity, and a gateway has a job. -/
def editedInstance : StoredInstance :=
  { key := 7, definitionKey := 7, createdAt := .ofMillis 0, state := .active, vars := []
    caught := []
    activities :=
      [⟨9, "g", some 3, .job .active (.ofMillis 0) none⟩, ⟨3, "g", none, .element .ready⟩,
       ⟨3, "g", some 3, .race ⟨.failed, none⟩⟩] }

def editedSnapshot : Snapshot :=
  ⟨snapshotVersion, "e", [editedDefinition.stored], [editedInstance]⟩

theorem readsBack_editedSnapshot : editedSnapshot.readsBack = true := by decide +kernel

/-- What the edited document is restored to. -/
def editedEngine (blank : Engine) : Engine :=
  { blank with
    name := "e"
    definitions := [editedDefinition]
    instances :=
      [{ key := 7, definition := editedDefinition, vars := [], createdAt := .ofMillis 0
         state := .active, caught := []
         activities :=
           [⟨9, 0, some 2, .job ⟨7, "g", .active, .ofMillis 0, none⟩⟩,
            ⟨3, 0, none, .element .ready⟩, ⟨3, 0, some 2, .race ⟨.failed, none⟩⟩] }]
    keys := editedSnapshot.keys.foldl KeySequence.advancePast blank.keys }

theorem restore_editedSnapshot {blank : Engine} (hblank : blank.Blank) :
    blank.restore editedSnapshot.text = .ok (editedEngine blank) := by
  have hgenuine : editedDefinition.Genuine := ⟨ofMarkup_editedSource, rfl⟩
  rw [restore_eq_rebuild (Snapshot.parse?_text_of_readsBack readsBack_editedSnapshot)]
  refine (rebuild_eq_ok hblank).mpr ⟨rfl, ?_, ?_, rfl⟩
  · exact .cons (Definition.restore_stored hgenuine) .nil
  · exact .cons rfl .nil

/-- The edited document is restored, and its snapshot once more. -/
theorem restore_again_editedSnapshot :
    ∃ e e', (fresh "" .default (.ofMillis 0)).restore editedSnapshot.text = .ok e ∧
      (fresh "" .default (.ofMillis 5)).restore e.snapshot.text = .ok e' ∧
      e'.name = e.name ∧ e'.definitions = e.definitions ∧ e'.instances = e.instances ∧
      e'.keys = e.keys ∧ e.keys = ⟨10⟩ := by
  have hblank : ∀ now, (fresh "" .default now).Blank := fun now => ⟨rfl, rfl⟩
  have hrestore := restore_editedSnapshot (hblank (.ofMillis 0))
  obtain ⟨e', hagain, hname, hdefinitions, hinstances, hkeys, -⟩ := restore_again (hblank _)
    hrestore (Snapshot.parse?_text_of_readsBack readsBack_editedSnapshot) (hblank (.ofMillis 5)) rfl
  exact ⟨_, e', hrestore, hagain, hname, hdefinitions, hinstances, hkeys, by decide +kernel⟩

end Engine

end ProcessEngine
