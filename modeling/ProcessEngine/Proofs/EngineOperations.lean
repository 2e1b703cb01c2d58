import Mathlib.Logic.Relation
import ProcessEngine.Engine.Basic

/-!
# Operations on an engine

Everything that can be asked of an engine is an `Operation`, and
`Engine.perform?` does it.  Beneath the operations there are only six ways in
which an engine changes, listed by `Engine.Change`; to create an instance and
run it at once is two of them.

Main statement: `perform?_changes`, by which an operation is a chain of
changes.  What every change keeps, every operation keeps.  Where it matters how
an operation has found what it works on, `KeptByOperations` asks for less: that
the six operations of which all others consist keep the property.
-/

namespace ProcessEngine

/-- A request to an engine. -/
inductive Operation where
  | load (source resourceName : String)
  | loadBytes (source : ByteArray)
  | loadFile (name : String) (content : Option String)
  | create (definitionKey : Int) (vars : Variables)
  | createById (id : String) (vars : Variables)
  | publish (instanceKey : Int) (name : String) (vars : Variables)
  | run (instanceKey : Int)
  | createAndRun (definitionKey : Int) (vars : Variables)
  | createAndRunById (id : String) (vars : Variables)
  | setClock (now : Instant)
  | advanceClock (ms : Int)
  | register (accepts : TaskMatcher) (handler : Handler)

/-- What an engine gives back. -/
inductive Answer where
  | done
  | definition (d : Definition)
  | inst (i : Instance)
  | error (error : EngineError)

namespace Engine

/-- The engine after an operation, with its result as an answer. -/
def answered {α : Type} (wrap : α → Answer) : Engine × Except EngineError α → Engine × Answer
  | (e, .ok a) => (e, wrap a)
  | (e, .error error) => (e, .error error)

/-- Do an operation; a run may take `fuel` commands, and `none` says that these
did not suffice. -/
def perform? (fuel : Nat) (e : Engine) : Operation → Option (Engine × Answer)
  | .load source resourceName => some (answered .definition (e.load source resourceName))
  | .loadBytes source => some (answered .definition (e.loadBytes source))
  | .loadFile name content => some (answered .definition (e.loadFile name content))
  | .create definitionKey vars => some (answered .inst (e.create definitionKey vars))
  | .createById id vars => some (answered .inst (e.createById id vars))
  | .publish instanceKey name vars =>
    some (answered (fun _ => .done) (e.publish instanceKey name vars))
  | .run instanceKey => (e.run? fuel instanceKey).map (answered .inst)
  | .createAndRun definitionKey vars =>
    (e.createAndRun? fuel definitionKey vars).map (answered .inst)
  | .createAndRunById id vars => (e.createAndRunById? fuel id vars).map (answered .inst)
  | .setClock now => some (e.setClock now, .done)
  | .advanceClock ms => some (e.advanceClock ms, .done)
  | .register accepts handler => some (e.register accepts handler, .done)

/-- Do operations one after another. -/
def performAll? (fuel : Nat) : Engine → List Operation → Option (Engine × List Answer)
  | e, [] => some (e, [])
  | e, op :: rest =>
    match e.perform? fuel op with
    | none => none
    | some (e, answer) => (performAll? fuel e rest).map fun out => (out.1, answer :: out.2)

/-! ## Changes -/

/-- The definition that a new source becomes. -/
def newDefinition (e : Engine) (source resourceName : String) (diagram : Diagram) :
    Definition :=
  { key := e.keys.next, id := diagram.id, version := nextVersion (e.versionsOf diagram.id),
    checksum := Sha256.ofText source, source, resourceName, loadedAt := e.now, diagram }

/-- One change that an operation makes to an engine. -/
inductive Change : Engine → Engine → Prop
  | load {e : Engine} {source : String} {diagram : Diagram} (resourceName : String)
      (hsource : Diagram.ofMarkup source = .ok diagram)
      (hnew : e.definitions.find? (fun d => d.id == diagram.id &&
        d.checksum == Sha256.ofText source) = none)
      (hroom : e.keys.next < greatestKey) :
      Change e ({ e with
        keys := ⟨e.keys.next + 1⟩
        definitions := e.definitions ++ [e.newDefinition source resourceName diagram]
        }.report (loadedEvent (e.newDefinition source resourceName diagram)))
  | create {e : Engine} {d : Definition} (vars : Variables) (hd : d ∈ e.definitions)
      (hroom : e.keys.next < greatestKey) :
      Change e ({ e with
        keys := ⟨e.keys.next + 1⟩
        instances := e.instances ++ [Instance.fresh e.keys.next d vars e.now]
        }.report (Instance.fresh e.keys.next d vars e.now).createdEvent)
  | publish (e : Engine) (n : Nat) (name : String) (vars : Variables) :
      Change e { e with
        instances := e.instances.modify n fun i => i.recordEvent ⟨name, e.now, vars, false⟩ }
  | run {e : Engine} {n fuel : Nat} {i : Instance} {r : Run} {error? : Option EngineError}
      (hi : e.instances[n]? = some i) (hrun : (e.lend i).start? fuel = some (r, error?)) :
      Change e (e.settle n r)
  | clock (e : Engine) (now : Instant) : Change e (e.setClock now)
  | register (e : Engine) (accepts : TaskMatcher) (handler : Handler) :
      Change e (e.register accepts handler)

/-- Some changes one after another. -/
abbrev Changes : Engine → Engine → Prop := Relation.ReflTransGen Change

theorem load_changes (e : Engine) (source resourceName : String) :
    e.Changes (e.load source resourceName).1 := by
  unfold load
  split
  · exact .refl
  · rename_i diagram hsource
    dsimp only
    split
    · exact .refl
    · rename_i hnew
      split
      · exact .refl
      · rename_i key keys hissue
        obtain ⟨hroom, rfl, rfl⟩ := KeySequence.issue_eq_some hissue
        exact .single (.load resourceName hsource hnew hroom)

theorem loadBytes_changes (e : Engine) (source : ByteArray) :
    e.Changes (e.loadBytes source).1 := by
  unfold loadBytes
  split
  · exact e.load_changes _ _
  · exact .refl

theorem loadFile_changes (e : Engine) (name : String) (content : Option String) :
    e.Changes (e.loadFile name content).1 := by
  unfold loadFile
  split
  · exact e.load_changes _ _
  · exact .refl

theorem create_changes (e : Engine) (definitionKey : Int) (vars : Variables) :
    e.Changes (e.create definitionKey vars).1 := by
  unfold create
  split
  · exact .refl
  · rename_i d hfind
    split
    · exact .refl
    · rename_i key keys hissue
      obtain ⟨hroom, rfl, rfl⟩ := KeySequence.issue_eq_some hissue
      exact .single (.create vars (List.mem_of_find?_eq_some hfind) hroom)

theorem createById_changes (e : Engine) (id : String) (vars : Variables) :
    e.Changes (e.createById id vars).1 := by
  unfold createById
  split
  · exact .refl
  · exact e.create_changes _ vars

theorem publish_changes (e : Engine) (instanceKey : Int) (name : String) (vars : Variables) :
    e.Changes (e.publish instanceKey name vars).1 := by
  unfold publish
  split
  · exact .refl
  · exact .single (.publish e _ name vars)

theorem run?_changes {fuel : Nat} {e : Engine} {instanceKey : Int}
    {out : Engine × Except EngineError Instance} (h : e.run? fuel instanceKey = some out) :
    e.Changes out.1 := by
  unfold run? at h
  split at h
  · cases h
    exact .refl
  · split at h
    · cases h
      exact .refl
    · rename_i hi
      split at h
      · cases h
      · rename_i hrun
        cases h
        exact .single (.run hi hrun)
      · rename_i hrun
        cases h
        exact .single (.run hi hrun)

theorem thenRun?_changes {fuel : Nat} {created out : Engine × Except EngineError Instance}
    (h : thenRun? fuel created = some out) : created.1.Changes out.1 := by
  unfold thenRun? at h
  split at h
  · exact run?_changes h
  · cases h
    exact .refl

/-- An answer tells nothing about the engine that gives it. -/
theorem answered_fst {α : Type} (wrap : α → Answer) (out : Engine × Except EngineError α) :
    (answered wrap out).1 = out.1 := by
  obtain ⟨e, result⟩ := out
  cases result <;> rfl

theorem Changes.answered {α : Type} {e : Engine} {out : Engine × Except EngineError α}
    (h : e.Changes out.1) (wrap : α → Answer) : e.Changes (answered wrap out).1 := by
  rwa [answered_fst]

/-- **An operation is a chain of changes.** -/
theorem perform?_changes {fuel : Nat} {e : Engine} {op : Operation} {out : Engine × Answer}
    (h : e.perform? fuel op = some out) : e.Changes out.1 := by
  cases op with
  | load source resourceName =>
      cases h
      exact (e.load_changes source resourceName).answered _
  | loadBytes source =>
      cases h
      exact (e.loadBytes_changes source).answered _
  | loadFile name content =>
      cases h
      exact (e.loadFile_changes name content).answered _
  | create definitionKey vars =>
      cases h
      exact (e.create_changes definitionKey vars).answered _
  | createById id vars =>
      cases h
      exact (e.createById_changes id vars).answered _
  | publish instanceKey name vars =>
      cases h
      exact (e.publish_changes instanceKey name vars).answered _
  | run instanceKey =>
      obtain ⟨ran, hrun, rfl⟩ := Option.map_eq_some_iff.mp h
      exact (run?_changes hrun).answered _
  | createAndRun definitionKey vars =>
      obtain ⟨ran, hrun, rfl⟩ := Option.map_eq_some_iff.mp h
      exact Changes.answered ((e.create_changes definitionKey vars).trans (thenRun?_changes hrun)) _
  | createAndRunById id vars =>
      obtain ⟨ran, hrun, rfl⟩ := Option.map_eq_some_iff.mp h
      exact Changes.answered ((e.createById_changes id vars).trans (thenRun?_changes hrun)) _
  | setClock now =>
      cases h
      exact .single (.clock e now)
  | advanceClock ms =>
      cases h
      exact .single (.clock e _)
  | register accepts handler =>
      cases h
      exact .single (.register e accepts handler)

/-! ## Properties of engines -/

/-- A property of engines that the operations of which all others consist
keep. -/
structure KeptByOperations (P : Engine → Prop) : Prop where
  load : ∀ {e} source resourceName, P e → P (e.load source resourceName).1
  create : ∀ {e} definitionKey vars, P e → P (e.create definitionKey vars).1
  publish : ∀ {e} instanceKey name vars, P e → P (e.publish instanceKey name vars).1
  run : ∀ {fuel e instanceKey out}, e.run? fuel instanceKey = some out → P e → P out.1
  clock : ∀ {e} now, P e → P (e.setClock now)
  register : ∀ {e} accepts handler, P e → P (e.register accepts handler)

section KeptByOperations

variable {P : Engine → Prop} {e : Engine} {fuel : Nat}

theorem KeptByOperations.createById (hP : KeptByOperations P) (id : String) (vars : Variables)
    (he : P e) : P (e.createById id vars).1 := by
  unfold Engine.createById
  split
  · exact he
  · exact hP.create _ vars he

theorem KeptByOperations.thenRun? (hP : KeptByOperations P)
    {created out : Engine × Except EngineError Instance} (he : P created.1)
    (h : Engine.thenRun? fuel created = some out) : P out.1 := by
  unfold Engine.thenRun? at h
  split at h
  · exact hP.run h he
  · cases h
    exact he

/-- **What the parts of an operation keep, the operation keeps.** -/
theorem KeptByOperations.perform? (hP : KeptByOperations P) {op : Operation}
    {out : Engine × Answer} (h : e.perform? fuel op = some out) (he : P e) : P out.1 := by
  cases op with
  | load source resourceName =>
      cases h
      rw [answered_fst]
      exact hP.load source resourceName he
  | loadBytes source =>
      cases h
      rw [answered_fst]
      unfold loadBytes
      split
      · exact hP.load _ _ he
      · exact he
  | loadFile name content =>
      cases h
      rw [answered_fst]
      unfold loadFile
      split
      · exact hP.load _ _ he
      · exact he
  | create definitionKey vars =>
      cases h
      rw [answered_fst]
      exact hP.create definitionKey vars he
  | createById id vars =>
      cases h
      rw [answered_fst]
      exact hP.createById id vars he
  | publish instanceKey name vars =>
      cases h
      rw [answered_fst]
      exact hP.publish instanceKey name vars he
  | run instanceKey =>
      obtain ⟨ran, hrun, rfl⟩ := Option.map_eq_some_iff.mp h
      rw [answered_fst]
      exact hP.run hrun he
  | createAndRun definitionKey vars =>
      obtain ⟨ran, hrun, rfl⟩ := Option.map_eq_some_iff.mp h
      rw [answered_fst]
      exact hP.thenRun? (hP.create definitionKey vars he) hrun
  | createAndRunById id vars =>
      obtain ⟨ran, hrun, rfl⟩ := Option.map_eq_some_iff.mp h
      rw [answered_fst]
      exact hP.thenRun? (hP.createById id vars he) hrun
  | setClock now =>
      cases h
      exact hP.clock now he
  | advanceClock ms =>
      cases h
      exact hP.clock _ he
  | register accepts handler =>
      cases h
      exact hP.register accepts handler he

end KeptByOperations

/-- What every single operation keeps, operations one after another keep. -/
theorem performAll?_induction {P : Engine → Prop} {fuel : Nat}
    (hstep : ∀ {e op out}, e.perform? fuel op = some out → P e → P out.1) {e : Engine}
    {ops : List Operation} {out : Engine × List Answer} (h : e.performAll? fuel ops = some out)
    (he : P e) : P out.1 := by
  induction ops generalizing e out with
  | nil =>
      cases h
      exact he
  | cons op rest ih =>
      rw [performAll?] at h
      split at h
      · cases h
      · rename_i hop
        obtain ⟨later, hrest, rfl⟩ := Option.map_eq_some_iff.mp h
        have hlater := ih hrest (hstep hop he)
        exact hlater

end Engine

end ProcessEngine
