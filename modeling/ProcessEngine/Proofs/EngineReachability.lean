import ProcessEngine.Proofs.SnapshotRelinking

/-!
# Reachable engines

An engine is reached from a fresh one by operations, and by bringing its own
snapshot into a blank engine.  A stored text counts as the snapshot if reading
it gives the snapshot back; the blank engine may have any clock and any
handlers of its own.

Main statements: reachable engines are sound, and what holds of every fresh
instance and is kept by publishing, running and relinking holds of every
instance that is ever stored (`Reachable.forall_instances`).
-/

namespace ProcessEngine.Engine

/-- The engines that can come about where key sources start as `starts` says. -/
inductive Reachable (starts : KeySequence → Prop) : Engine → Prop
  | fresh (name : String) {keys : KeySequence} (now : Instant) (hkeys : starts keys) :
      Reachable starts (Engine.fresh name keys now)
  | perform {e : Engine} {fuel : Nat} {op : Operation} {out : Engine × Answer}
      (h : Reachable starts e) (hop : e.perform? fuel op = some out) : Reachable starts out.1
  | restore {e blank e' : Engine} {text : String} (h : Reachable starts e)
      (hblank : blank.Blank) (hkeys : starts blank.keys)
      (hparse : Snapshot.parse? text = some e.snapshot)
      (hrestore : blank.restore text = .ok e') : Reachable starts e'

/-- A text that reads as a snapshot is restored by rebuilding it. -/
theorem restore_eq_rebuild {blank : Engine} {text : String} {s : Snapshot}
    (h : Snapshot.parse? text = some s) : blank.restore text = blank.rebuild s := by
  rw [Engine.restore, h]

theorem Reachable.sound {starts : KeySequence → Prop} {e : Engine} (h : Reachable starts e) :
    e.Sound := by
  induction h with
  | fresh name now => exact sound_fresh name _ now
  | perform _ hop ih => exact (perform?_changes hop).sound ih
  | restore _ hblank _ hparse hrestore ih =>
      rw [restore_eq_rebuild hparse] at hrestore
      exact ih.rebuild hblank hrestore

theorem Reachable.performAll {starts : KeySequence → Prop} {e : Engine} {fuel : Nat}
    {ops : List Operation} {out : Engine × List Answer} (h : Reachable starts e)
    (hops : e.performAll? fuel ops = some out) : Reachable starts out.1 :=
  performAll?_induction (fun hop h => h.perform hop) hops h

/-- A source in pieces, whose characters are found piece by piece. -/
theorem ofMarkup_join {pieces : List String} {diagram : Diagram}
    (h : (Diagram.ofDocument (Markup.tokensFrom ((pieces.flatMap String.toList).length + 1) []
      (Markup.dropByteOrderMark (pieces.flatMap String.toList)))).toOption = some diagram) :
    Diagram.ofMarkup (String.join pieces) = .ok diagram := by
  rw [← String.toList_join] at h
  change (Diagram.ofMarkup (String.join pieces)).toOption = some diagram at h
  cases hread : Diagram.ofMarkup (String.join pieces) with
  | error error => simp [hread, Except.toOption] at h
  | ok read => simpa [hread, Except.toOption] using h

/-- A fresh engine with one source loaded. -/
def loaded (source resourceName : String) (diagram : Diagram) : Engine :=
  let e := fresh defaultEngineName .default (.ofMillis 0)
  let d := e.newDefinition source resourceName diagram
  { e with keys := ⟨2⟩, definitions := [d], audit := [loadedEvent d] }

/-- A fresh engine with given keys and one source loaded. -/
def loadedFrom (keys : KeySequence) (source resourceName : String) (diagram : Diagram) : Engine :=
  let e := fresh defaultEngineName keys (.ofMillis 0)
  let d := e.newDefinition source resourceName diagram
  { e with keys := ⟨keys.next + 1⟩, definitions := [d], audit := [loadedEvent d] }

/-- A first source that can be read is loaded. -/
theorem perform?_load {keys : KeySequence} (hkeys : keys.next < greatestKey) {source : String}
    {diagram : Diagram} (hsource : Diagram.ofMarkup source = .ok diagram) (resourceName : String) :
    ∃ answer, (fresh defaultEngineName keys (.ofMillis 0)).perform? 0 (.load source resourceName) =
      some (loadedFrom keys source resourceName diagram, answer) := by
  have hissue : keys.issue = some (keys.next, ⟨keys.next + 1⟩) := if_pos hkeys
  have hload : (fresh defaultEngineName keys (.ofMillis 0)).load source resourceName =
      (loadedFrom keys source resourceName diagram,
        .ok ((fresh defaultEngineName keys (.ofMillis 0)).newDefinition source resourceName
          diagram)) := by
    simp only [load, hsource, fresh, List.find?_nil, hissue]
    rfl
  refine ⟨.definition ((fresh defaultEngineName keys (.ofMillis 0)).newDefinition source
    resourceName diagram), ?_⟩
  rw [perform?, hload]
  rfl

theorem reachable_loaded {starts : KeySequence → Prop} {source : String} {diagram : Diagram}
    (hsource : Diagram.ofMarkup source = .ok diagram) (hstarts : starts .default)
    (resourceName : String) : Reachable starts (loaded source resourceName diagram) := by
  have hkeys : KeySequence.default.next < greatestKey := by decide
  obtain ⟨answer, hperform⟩ := perform?_load hkeys hsource resourceName
  exact (Reachable.fresh defaultEngineName (.ofMillis 0) hstarts).perform hperform

/-- An engine that passes a test after some operations on a loaded source. -/
theorem exists_reachable {pieces : List String} {diagram : Diagram}
    (hsource : Diagram.ofMarkup (String.join pieces) = .ok diagram)
    (fuel : Nat) (ops : List Operation) (test : Engine → Bool)
    (htest : ((loaded (String.join pieces) "" diagram).performAll? fuel ops).any
      (fun out => test out.1) = true) : ∃ e, Reachable (· = .default) e ∧ test e = true := by
  obtain ⟨out, hout, htest⟩ := (Option.any_eq_true _ _).mp htest
  have hloaded : Reachable (· = .default) (loaded (String.join pieces) "" diagram) :=
    reachable_loaded hsource (by rfl) ""
  exact ⟨out.1, hloaded.performAll hout, htest⟩

section Induction

variable {P : Instance → Prop}

/-- What every change keeps of its instances. -/
theorem Change.forall_instances {e e' : Engine} (h : Change e e') (he : e.Sound)
    (fresh : ∀ key d vars now, P (Instance.fresh key d vars now))
    (event : ∀ i c, c.consumed = false → P i → P (i.recordEvent c))
    (run : ∀ {fuel r r' error?}, r.inst.Sound → P r.inst →
      Run.start? fuel r = some (r', error?) → P r'.inst)
    (hP : ∀ i ∈ e.instances, P i) : ∀ i ∈ e'.instances, P i := by
  intro j hj
  cases h with
  | load => exact hP j hj
  | @create d vars hd hroom =>
      rcases List.mem_append.mp hj with hj | hj
      · exact hP j hj
      · obtain rfl := List.mem_singleton.mp hj
        exact fresh _ _ _ _
  | publish n name vars =>
      obtain ⟨i, hi, rfl | rfl⟩ := exists_of_mem_modify hj
      · exact hP _ hi
      · exact event i _ rfl (hP i hi)
  | @run n fuel i r error? hi hrun =>
      have hmem := List.mem_of_getElem? hi
      rcases mem_of_mem_set hj with hj | rfl
      · exact hP j hj
      · exact run (r := e.lend i) (he.instances i hmem).1 (hP i hmem) hrun
  | clock => exact hP j hj
  | register => exact hP j hj

theorem Changes.forall_instances {e e' : Engine} (h : Changes e e') (he : e.Sound)
    (fresh : ∀ key d vars now, P (Instance.fresh key d vars now))
    (event : ∀ i c, c.consumed = false → P i → P (i.recordEvent c))
    (run : ∀ {fuel r r' error?}, r.inst.Sound → P r.inst →
      Run.start? fuel r = some (r', error?) → P r'.inst)
    (hP : ∀ i ∈ e.instances, P i) : ∀ i ∈ e'.instances, P i := by
  induction h with
  | refl => exact hP
  | tail hsteps hchange ih =>
      exact hchange.forall_instances (Changes.sound hsteps he) fresh event run ih

/-- **What a fresh instance has, and publishing, running and relinking keep,
every stored instance has.** -/
theorem Reachable.forall_instances {starts : KeySequence → Prop} {e : Engine}
    (h : Reachable starts e)
    (fresh : ∀ key d vars now, P (Instance.fresh key d vars now))
    (event : ∀ i c, c.consumed = false → P i → P (i.recordEvent c))
    (run : ∀ {fuel r r' error?}, r.inst.Sound → P r.inst →
      Run.start? fuel r = some (r', error?) → P r'.inst)
    (relinked : ∀ i : Instance, i.Sound → P i → P i.relinked) : ∀ i ∈ e.instances, P i := by
  induction h with
  | fresh name now => intro i hi; cases hi
  | perform h hop ih => exact (perform?_changes hop).forall_instances h.sound fresh event run ih
  | @restore e blank e' text h hblank _ hparse hrestore ih =>
      rw [restore_eq_rebuild hparse, rebuild_snapshot h.sound hblank] at hrestore
      obtain rfl := Except.ok.inj hrestore
      intro j hj
      obtain ⟨i, hi, rfl⟩ := List.mem_map.mp hj
      exact relinked i (h.sound.instances i hi).1 (ih i hi)

end Induction

end ProcessEngine.Engine
