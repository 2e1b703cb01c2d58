import ProcessEngine.Proofs.InstanceEnds

/-!
# Operations on other instances

An operation is about one instance if it publishes to it or runs it.  All others
leave that instance as it is, whatever they do to the rest of the engine; what it
meets afterwards is the clock, which some of them set, and the handlers, of which
they may add one.  Conversely an operation on an instance touches no other one and
no definition.

Main statements: `Sound.perform?_foreign` and `Sound.perform?_addressed`.
-/

namespace ProcessEngine

namespace Operation

/-- The key of the instance that an operation is addressed to. -/
def addressee? : Operation → Option Int
  | publish key _ _ => some key
  | run key => some key
  | _ => none

/-- What the clock reads after an operation. -/
def clock (now : Instant) : Operation → Instant
  | setClock later => later
  | advanceClock ms => now.addMillis ms
  | _ => now

/-- The handler that an operation registers. -/
def handlers : Operation → List (TaskMatcher × Handler)
  | register accepts handler => [(accepts, handler)]
  | _ => []

end Operation

namespace Engine

/-- The handlers that are registered, whatever calls they have had. -/
def handlers (e : Engine) : List (TaskMatcher × Handler) :=
  e.registrations.map fun g => (g.accepts, g.handler)

/-- An instance is left as it is, at the same time and with the same handlers. -/
structure Spares (n : Nat) (i : Instance) (e e' : Engine) : Prop where
  inst : e'.instances[n]? = some i
  now : e'.now = e.now
  handlers : e'.handlers = e.handlers

section Foreign

variable {e : Engine} {n : Nat} {i : Instance}

theorem Spares.refl (hi : e.instances[n]? = some i) : Spares n i e e := ⟨hi, rfl, rfl⟩

theorem Spares.trans {e₁ e₂ : Engine} (h : Spares n i e e₁) (h' : Spares n i e₁ e₂) :
    Spares n i e e₂ :=
  ⟨h'.inst, h'.now.trans h.now, h'.handlers.trans h.handlers⟩

theorem load_spares (hi : e.instances[n]? = some i) (source resourceName : String) :
    Spares n i e (e.load source resourceName).1 := by
  unfold load
  split
  · exact .refl hi
  · dsimp only
    split
    · exact .refl hi
    · split
      · exact .refl hi
      · exact ⟨hi, rfl, rfl⟩

theorem loadBytes_spares (hi : e.instances[n]? = some i) (source : ByteArray) :
    Spares n i e (e.loadBytes source).1 := by
  unfold loadBytes
  split
  · exact load_spares hi _ _
  · exact .refl hi

theorem loadFile_spares (hi : e.instances[n]? = some i) (name : String) (content : Option String) :
    Spares n i e (e.loadFile name content).1 := by
  unfold loadFile
  split
  · exact load_spares hi _ _
  · exact .refl hi

theorem create_spares (hi : e.instances[n]? = some i) (definitionKey : Int) (vars : Variables) :
    Spares n i e (e.create definitionKey vars).1 := by
  have hlt := (List.getElem?_eq_some_iff.mp hi).1
  unfold create
  split
  · exact .refl hi
  · split
    · exact .refl hi
    · exact ⟨(List.getElem?_append_left hlt).trans hi, rfl, rfl⟩

theorem createById_spares (hi : e.instances[n]? = some i) (id : String) (vars : Variables) :
    Spares n i e (e.createById id vars).1 := by
  unfold createById
  split
  · exact .refl hi
  · exact create_spares hi _ vars

/-- A key other than that of an instance is found elsewhere. -/
theorem findIndex?_ne {m : Nat} {key : Int} (hi : e.instances[n]? = some i)
    (hfind : e.findIndex? key = some m) (hkey : key ≠ i.key) : m ≠ n := by
  rintro rfl
  obtain ⟨hlt, hat, -⟩ := List.findIdx?_eq_some_iff_getElem.mp hfind
  obtain ⟨_, rfl⟩ := List.getElem?_eq_some_iff.mp hi
  exact hkey (beq_iff_eq.mp hat).symm

theorem publish_spares (hi : e.instances[n]? = some i) {key : Int} (hkey : key ≠ i.key)
    (name : String) (vars : Variables) : Spares n i e (e.publish key name vars).1 := by
  unfold publish
  split
  · exact .refl hi
  · rename_i m hfind
    exact ⟨by simp [findIndex?_ne hi hfind hkey, hi], rfl, rfl⟩

/-- What a run leaves alone besides its own instance. -/
theorem settle_spares {m fuel : Nat} {j : Instance} {r : Run} {error? : Option EngineError}
    (hi : e.instances[n]? = some i) (hm : m ≠ n)
    (hstart : (e.lend j).start? fuel = some (r, error?)) : Spares n i e (e.settle m r) := by
  obtain ⟨opened, hgrows⟩ := Run.start?_grows hstart
  exact ⟨(List.getElem?_set_ne hm).trans hi, rfl, hgrows.handlers⟩

theorem run?_spares (hi : e.instances[n]? = some i) {key : Int} (hkey : key ≠ i.key) {fuel : Nat}
    {out : Engine × Except EngineError Instance} (hrun : e.run? fuel key = some out) :
    Spares n i e out.1 := by
  cases hfind : e.findIndex? key with
  | none =>
      rw [Engine.run?, hfind] at hrun
      cases hrun
      exact .refl hi
  | some m =>
      obtain ⟨j, r, error?, -, hstart, hout⟩ := run?_eq_some hrun hfind
      rw [hout]
      exact settle_spares hi (findIndex?_ne hi hfind hkey) hstart

/-- A created instance has the key that is issued next. -/
theorem create_key {definitionKey : Int} {vars : Variables} {created : Engine} {j : Instance}
    (h : e.create definitionKey vars = (created, .ok j)) : j.key = e.keys.next := by
  unfold create at h
  split at h
  · cases h
  · split at h
    · cases h
    · rename_i key keys hissue
      obtain ⟨-, rfl, rfl⟩ := KeySequence.issue_eq_some hissue
      cases h
      rfl

theorem createById_key {id : String} {vars : Variables} {created : Engine} {j : Instance}
    (h : e.createById id vars = (created, .ok j)) : j.key = e.keys.next := by
  unfold createById at h
  split at h
  · cases h
  · exact create_key h

/-- To run what has just been created is to run another instance. -/
theorem thenRun?_spares {fuel : Nat} {created out : Engine × Except EngineError Instance}
    (h : Spares n i e created.1) (hkey : ∀ j, created.2 = .ok j → j.key ≠ i.key)
    (hrun : thenRun? fuel created = some out) : Spares n i e out.1 := by
  obtain ⟨e₁, result⟩ := created
  cases result with
  | error error =>
      cases hrun
      exact h
  | ok j => exact h.trans (run?_spares h.inst (hkey j rfl) hrun)

/-- **An operation that is not about an instance leaves it as it is.** -/
theorem Sound.perform?_foreign (he : e.Sound) (hi : e.instances[n]? = some i) {op : Operation}
    (hop : op.addressee? ≠ some i.key) {fuel : Nat} {out : Engine × Answer}
    (h : e.perform? fuel op = some out) :
    out.1.instances[n]? = some i ∧ out.1.now = op.clock e.now ∧
      out.1.handlers = e.handlers ++ op.handlers := by
  have hnew := he.key_ne (List.mem_of_getElem? hi)
  have hspares : ∀ {α : Type} (wrap : α → Answer) (answer : Engine × Except EngineError α),
      Spares n i e answer.1 → (answered wrap answer).1.instances[n]? = some i ∧
        (answered wrap answer).1.now = e.now ∧
        (answered wrap answer).1.handlers = e.handlers ++ [] := by
    intro α wrap answer hspares
    rw [answered_fst, List.append_nil]
    exact ⟨hspares.inst, hspares.now, hspares.handlers⟩
  cases op with
  | load source resourceName =>
      cases h
      exact hspares _ _ (load_spares hi source resourceName)
  | loadBytes source =>
      cases h
      exact hspares _ _ (loadBytes_spares hi source)
  | loadFile name content =>
      cases h
      exact hspares _ _ (loadFile_spares hi name content)
  | create definitionKey vars =>
      cases h
      exact hspares _ _ (create_spares hi definitionKey vars)
  | createById id vars =>
      cases h
      exact hspares _ _ (createById_spares hi id vars)
  | publish key name vars =>
      cases h
      exact hspares _ _ (publish_spares hi (fun heq => hop (congrArg some heq)) name vars)
  | run key =>
      obtain ⟨ran, hrun, rfl⟩ := Option.map_eq_some_iff.mp h
      exact hspares _ _ (run?_spares hi (fun heq => hop (congrArg some heq)) hrun)
  | createAndRun definitionKey vars =>
      obtain ⟨ran, hrun, rfl⟩ := Option.map_eq_some_iff.mp h
      refine hspares _ _ (thenRun?_spares (create_spares hi definitionKey vars) ?_ hrun)
      intro j hj heq
      exact hnew (heq.symm.trans (create_key (Prod.ext rfl hj)))
  | createAndRunById id vars =>
      obtain ⟨ran, hrun, rfl⟩ := Option.map_eq_some_iff.mp h
      refine hspares _ _ (thenRun?_spares (createById_spares hi id vars) ?_ hrun)
      intro j hj heq
      exact hnew (heq.symm.trans (createById_key (Prod.ext rfl hj)))
  | setClock now =>
      cases h
      exact ⟨hi, rfl, (List.append_nil _).symm⟩
  | advanceClock ms =>
      cases h
      exact ⟨hi, rfl, (List.append_nil _).symm⟩
  | register accepts handler =>
      cases h
      exact ⟨hi, rfl, List.map_append⟩

/-! ## Operations on an instance -/

/-- What is answered to a run. -/
def runAnswer : Run × Option EngineError → Answer
  | (r, none) => .inst r.inst
  | (_, some error) => .error error

/-- What it comes to to publish an event to an instance. -/
theorem Sound.perform?_publish (he : e.Sound) (hi : e.instances[n]? = some i) (fuel : Nat)
    (name : String) (vars : Variables) :
    e.perform? fuel (.publish i.key name vars) = some
      ({ e with
        instances := e.instances.modify n fun i => i.recordEvent ⟨name, e.now, vars, false⟩ },
        .done) := by
  rw [perform?, publish, he.findIndex? hi]
  rfl

/-- What it comes to to run an instance. -/
theorem Sound.perform?_run (he : e.Sound) (hi : e.instances[n]? = some i) (fuel : Nat) :
    e.perform? fuel (.run i.key) = ((e.lend i).start? fuel).map fun ran =>
      (e.settle n ran.1, runAnswer ran) := by
  rw [perform?, he.run?_eq hi, Option.map_map]
  congr 1
  funext ran
  obtain ⟨r, error?⟩ := ran
  cases error? <;> rfl

/-- **An operation on an instance leaves definitions and other instances as they
are.** -/
theorem Sound.perform?_addressed (he : e.Sound) (hi : e.instances[n]? = some i) {op : Operation}
    (hop : op.addressee? = some i.key) {fuel : Nat} {out : Engine × Answer}
    (h : e.perform? fuel op = some out) :
    out.1.definitions = e.definitions ∧
      ∀ m, m ≠ n → out.1.instances[m]? = e.instances[m]? := by
  cases op with
  | publish key name vars =>
      obtain rfl := Option.some.inj hop
      rw [he.perform?_publish hi] at h
      cases h
      exact ⟨rfl, fun m hm => by simp [hm.symm]⟩
  | run key =>
      obtain rfl := Option.some.inj hop
      rw [he.perform?_run hi] at h
      obtain ⟨ran, -, rfl⟩ := Option.map_eq_some_iff.mp h
      exact ⟨rfl, fun m hm => List.getElem?_set_ne hm.symm⟩
  | _ => cases hop

end Foreign

end Engine

end ProcessEngine
