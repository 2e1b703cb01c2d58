import Mathlib.Data.List.Forall2
import ProcessEngine.Proofs.EngineSoundness
import ProcessEngine.Proofs.RecastRuns

/-!
# Engines with another past

Two engines are alike (`Engine.Alike`) if nothing that can be asked of them
tells them apart: they may have come about differently, and activities that
hold nothing but a state may stand at different elements of one id.
`Engine.recast` puts a past before an engine and moves the old activities of
each instance home.  All operations do the same to an engine and to the recast
one, so two recasts of one engine stay alike for ever.

Main statement: `performAll?_recast`, by which any operations come to the same
on two recasts of one engine.
-/

namespace ProcessEngine

/-! ## What cannot be told apart -/

/-- Activities that agree in all but their elements, and in the id of these. -/
structure Activity.Alike (d : Diagram) (a b : Activity) : Prop where
  key : b.key = a.key
  origin : b.origin = a.origin
  body : b.body = a.body
  elementId : d.elements[b.element]?.map Element.id = d.elements[a.element]?.map Element.id

/-- Instances that agree, position by position in their activities. -/
structure Instance.Alike (i j : Instance) : Prop where
  key : j.key = i.key
  definition : j.definition = i.definition
  createdAt : j.createdAt = i.createdAt
  state : j.state = i.state
  vars : j.vars = i.vars
  caught : j.caught = i.caught
  activities : List.Forall₂ (Activity.Alike i.diagram) i.activities j.activities

/-- Registrations for the same tasks whose handlers do the same from now on. -/
structure Registration.Alike (g h : Registration) : Prop where
  accepts : h.accepts = g.accepts
  handler : ∀ n, h.handler (h.calls + n) = g.handler (g.calls + n)

/-- Engines that agree in all but their past. -/
structure Engine.Alike (e f : Engine) : Prop where
  name : f.name = e.name
  definitions : f.definitions = e.definitions
  instances : List.Forall₂ Instance.Alike e.instances f.instances
  keys : f.keys = e.keys
  now : f.now = e.now
  registrations : List.Forall₂ Registration.Alike e.registrations f.registrations

/-- Answers that agree. -/
inductive Answer.Alike : Answer → Answer → Prop
  | done : Answer.Alike .done .done
  | definition (d : Definition) : Answer.Alike (.definition d) (.definition d)
  | inst {i j : Instance} (h : i.Alike j) : Answer.Alike (.inst i) (.inst j)
  | error (error : EngineError) : Answer.Alike (.error error) (.error error)

theorem forall₂_mapIdx {α β : Type} {R : β → β → Prop} {xs : List α} {f g : Nat → α → β}
    (h : ∀ n a, R (f n a) (g n a)) : List.Forall₂ R (xs.mapIdx f) (xs.mapIdx g) := by
  induction xs generalizing f g with
  | nil => exact .nil
  | cons x xs ih =>
      rw [List.mapIdx_cons, List.mapIdx_cons]
      exact .cons (h 0 x) (ih fun n a => h (n + 1) a)

/-- However far activities are moved home, an instance is alike. -/
theorem Instance.alike_homed (i : Instance) (m n : Nat) : (i.homed m).Alike (i.homed n) where
  key := rfl
  definition := rfl
  createdAt := rfl
  state := rfl
  vars := rfl
  caught := rfl
  activities := by
    refine forall₂_mapIdx fun k a => ⟨?_, ?_, ?_, ?_⟩ <;> split <;> split <;>
      simp [Activity.id_homed]

theorem Registration.alike_behind (g earlier other : Registration) :
    (g.behind earlier).Alike (g.behind other) where
  accepts := rfl
  handler n := by
    have hpast : ∀ k : Nat, ¬ k + g.calls + n < k := by omega
    have hsub : ∀ k : Nat, k + g.calls + n - k = g.calls + n := by omega
    simp [behind, hpast, hsub]

/-- An answer with the activities of an instance moved home. -/
def Answer.homed (base : Nat) : Answer → Answer
  | .inst i => .inst (i.homed base)
  | answer => answer

theorem Answer.alike_homed (answer : Answer) (m n : Nat) :
    (answer.homed m).Alike (answer.homed n) := by
  cases answer with
  | done => exact .done
  | definition d => exact .definition d
  | inst i => exact .inst (i.alike_homed m n)
  | error error => exact .error error

namespace Engine

/-! ## Recasting -/

/-- The engine with a past, and with the activities of each instance before a
position moved home. -/
def recast (bases : Nat → Nat) (past : Past) (e : Engine) : Engine :=
  { e with
    instances := e.instances.mapIdx fun n i => i.homed (bases n)
    registrations := e.registrations.mapIdx fun n g => g.behind (past.registration n)
    audit := past.audit ++ e.audit
    calls := past.calls ++ e.calls }

/-- The positions lie within the arenas, and nothing lies behind registrations
that are still to come. -/
structure Within (bases : Nat → Nat) (past : Past) (e : Engine) : Prop where
  arenas : ∀ n, bases n ≤ (e.instances[n]?.map fun i => i.activities.length).getD 0
  registrations : ∀ n, e.registrations.length ≤ n → (past.registration n).calls = 0

theorem alike_recast (e : Engine) (bases bases' : Nat → Nat) (past past' : Past) :
    (e.recast bases past).Alike (e.recast bases' past') where
  name := rfl
  definitions := rfl
  instances := forall₂_mapIdx fun n i => i.alike_homed (bases n) (bases' n)
  keys := rfl
  now := rfl
  registrations := forall₂_mapIdx fun _ g => g.alike_behind _ _

variable {bases : Nat → Nat} {past : Past} {e : Engine}

/-- Arenas grow and registrations are kept, so a position stays within. -/
theorem Change.within {e' : Engine} (h : Change e e') (hw : e.Within bases past) :
    e'.Within bases past := by
  cases h with
  | load => exact ⟨hw.arenas, hw.registrations⟩
  | create vars hd =>
      refine ⟨fun n => ?_, hw.registrations⟩
      have hn := hw.arenas n
      by_cases hlt : n < e.instances.length
      · simpa [report, List.getElem?_append_left hlt] using hn
      · rw [List.getElem?_eq_none (by omega)] at hn
        simp only [Option.map_none, Option.getD_none] at hn
        omega
  | publish n name vars =>
      refine ⟨fun m => ?_, hw.registrations⟩
      have hm := hw.arenas m
      rw [List.getElem?_modify]
      cases hi : e.instances[m]? with
      | none => simpa [hi] using hm
      | some i => by_cases hnm : n = m <;> simpa [hi, hnm, Instance.recordEvent] using hm
  | @run n fuel i r error? hi hrun =>
      obtain ⟨opened, hgrows⟩ := Run.start?_grows hrun
      have hlength := hgrows.length
      have hhandlers := congrArg List.length hgrows.handlers
      simp only [Run.handlers, List.length_map] at hhandlers
      refine ⟨fun m => ?_, fun m hm => hw.registrations m ?_⟩
      · have hm := hw.arenas m
        rw [settle, List.getElem?_set]
        by_cases hnm : n = m
        · subst hnm
          have hlt := (List.getElem?_eq_some_iff.mp hi).1
          rw [hi] at hm
          simp only [Option.map_some, Option.getD_some, lend, if_pos hlt, if_true] at hm hlength ⊢
          omega
        · simpa [hnm] using hm
      · simpa [settle, hhandlers, lend] using hm
  | clock now => exact ⟨hw.arenas, hw.registrations⟩
  | register accepts handler =>
      refine ⟨hw.arenas, fun n hn => hw.registrations n ?_⟩
      simp only [Engine.register, List.length_append, List.length_singleton] at hn
      omega

theorem Changes.within {e' : Engine} (h : Changes e e') (hw : e.Within bases past) :
    e'.Within bases past := by
  induction h with
  | refl => exact hw
  | tail _ hchange ih => exact hchange.within ih

/-! ## Operations -/

theorem load_recast (source resourceName : String) :
    (e.recast bases past).load source resourceName =
      (e.load source resourceName).map (recast bases past) id := by
  unfold load
  cases Diagram.ofMarkup source with
  | error error => rfl
  | ok diagram =>
      simp only [recast]
      split
      · rfl
      · split
        · rfl
        · simp [report, recast, versionsOf, List.append_assoc]

theorem loadBytes_recast (source : ByteArray) :
    (e.recast bases past).loadBytes source =
      (e.loadBytes source).map (recast bases past) id := by
  unfold loadBytes
  split
  · exact load_recast _ _
  · rfl

theorem loadFile_recast (name : String) (content : Option String) :
    (e.recast bases past).loadFile name content =
      (e.loadFile name content).map (recast bases past) id := by
  unfold loadFile
  split
  · exact load_recast _ _
  · rfl

/-- A new instance has no activities that could be moved. -/
theorem create_recast (definitionKey : Int) (vars : Variables) :
    (e.recast bases past).create definitionKey vars =
      (e.create definitionKey vars).map (recast bases past) id := by
  unfold create
  rw [show (e.recast bases past).findDefinition? definitionKey =
    e.findDefinition? definitionKey from rfl]
  split
  · rfl
  · simp only [recast]
    split
    · rfl
    · simp [report, recast, List.append_assoc, Instance.homed, Instance.fresh]

theorem createById_recast (definitionId : String) (vars : Variables) :
    (e.recast bases past).createById definitionId vars =
      (e.createById definitionId vars).map (recast bases past) id := by
  unfold createById
  rw [show (e.recast bases past).latest? definitionId = e.latest? definitionId from rfl]
  split
  · rfl
  · exact create_recast _ vars

theorem findIndex?_recast (instanceKey : Int) :
    (e.recast bases past).findIndex? instanceKey = e.findIndex? instanceKey :=
  findIdx?_mapIdx fun _ _ => rfl

theorem publish_recast (instanceKey : Int) (name : String) (vars : Variables) :
    (e.recast bases past).publish instanceKey name vars =
      (e.publish instanceKey name vars).map (recast bases past) id := by
  unfold publish
  rw [findIndex?_recast]
  split
  · rfl
  · refine congrArg (·, _) ?_
    unfold recast
    congr 1
    exact modify_mapIdx _ fun _ => rfl

/-- A run takes its instance from the engine and puts it back. -/
theorem run?_recast (hw : e.Within bases past) (he : e.Sound) (fuel : Nat) (instanceKey : Int) :
    ∃ base, (e.recast bases past).run? fuel instanceKey =
      (e.run? fuel instanceKey).map
        (Prod.map (recast bases past) (Except.map (Instance.homed base))) := by
  unfold run?
  rw [findIndex?_recast]
  cases e.findIndex? instanceKey with
  | none => exact ⟨0, rfl⟩
  | some n =>
      refine ⟨bases n, ?_⟩
      have hget : (e.recast bases past).instances[n]? =
          e.instances[n]?.map fun i => i.homed (bases n) := List.getElem?_mapIdx
      simp only [hget]
      cases hi : e.instances[n]? with
      | none => rfl
      | some i =>
          have hbase := hw.arenas n
          rw [hi] at hbase
          have hsettle : ∀ r : Run, (e.recast bases past).settle n (r.recast (bases n) past) =
              (e.settle n r).recast bases past := by
            intro r
            simp [settle, recast, Run.recast, List.mapIdx_set]
          have hrun := Run.start?_recast (r := e.lend i) past fuel
            (he.instances i (List.mem_of_getElem? hi)).1 hbase
          simp only [Option.map_some]
          rw [show (e.recast bases past).lend (i.homed (bases n)) =
            (e.lend i).recast (bases n) past from rfl, hrun]
          cases Run.start? fuel (e.lend i) with
          | none => rfl
          | some out =>
              obtain ⟨r, error?⟩ := out
              cases error? <;> simp [hsettle, Except.map]

theorem thenRun?_recast {created : Engine × Except EngineError Instance}
    (hw : created.1.Within bases past) (he : created.1.Sound) (fuel : Nat) :
    ∃ base, thenRun? fuel (created.map (recast bases past) id) =
      (thenRun? fuel created).map
        (Prod.map (recast bases past) (Except.map (Instance.homed base))) := by
  obtain ⟨e, result⟩ := created
  cases result with
  | ok i => exact run?_recast hw he fuel i.key
  | error error => exact ⟨0, rfl⟩

theorem answered_recast {α : Type} (wrap : α → Answer) (out : Engine × Except EngineError α)
    (hwrap : ∀ a, (wrap a).homed 0 = wrap a) :
    answered wrap (out.map (recast bases past) id) =
      (answered wrap out).map (recast bases past) (Answer.homed 0) := by
  obtain ⟨e, result⟩ := out
  cases result with
  | ok a => exact congrArg (_, ·) (hwrap a).symm
  | error error => rfl

theorem answered_inst_recast (base : Nat) (out : Engine × Except EngineError Instance) :
    answered .inst (out.map (recast bases past) (Except.map (Instance.homed base))) =
      (answered .inst out).map (recast bases past) (Answer.homed base) := by
  obtain ⟨e, result⟩ := out
  cases result <;> rfl

/-- **Every operation does the same to a recast engine.** -/
theorem perform?_recast (hw : e.Within bases past) (he : e.Sound) (fuel : Nat)
    (op : Operation) :
    ∃ base, (e.recast bases past).perform? fuel op =
      (e.perform? fuel op).map (Prod.map (recast bases past) (Answer.homed base)) := by
  cases op with
  | load source resourceName =>
      refine ⟨0, congrArg some ?_⟩
      rw [load_recast]
      exact answered_recast .definition _ fun _ => rfl
  | loadBytes source =>
      refine ⟨0, congrArg some ?_⟩
      rw [loadBytes_recast]
      exact answered_recast .definition _ fun _ => rfl
  | loadFile name content =>
      refine ⟨0, congrArg some ?_⟩
      rw [loadFile_recast]
      exact answered_recast .definition _ fun _ => rfl
  | create definitionKey vars =>
      refine ⟨0, congrArg some ?_⟩
      rw [create_recast]
      exact answered_recast .inst _ fun i => congrArg _ i.homed_zero
  | createById id vars =>
      refine ⟨0, congrArg some ?_⟩
      rw [createById_recast]
      exact answered_recast .inst _ fun i => congrArg _ i.homed_zero
  | publish instanceKey name vars =>
      refine ⟨0, congrArg some ?_⟩
      rw [publish_recast]
      exact answered_recast _ _ fun _ => rfl
  | run instanceKey =>
      obtain ⟨base, hrun⟩ := run?_recast hw he fuel instanceKey
      refine ⟨base, ?_⟩
      simp only [perform?, hrun, Option.map_map]
      congr 1
      funext out
      exact answered_inst_recast base out
  | createAndRun definitionKey vars =>
      have hsteps := e.create_changes definitionKey vars
      obtain ⟨base, hrun⟩ := thenRun?_recast (hsteps.within hw) (hsteps.sound he) fuel
      refine ⟨base, ?_⟩
      simp only [perform?, createAndRun?, create_recast, hrun, Option.map_map]
      congr 1
      funext out
      exact answered_inst_recast base out
  | createAndRunById definitionId vars =>
      have hsteps := e.createById_changes definitionId vars
      obtain ⟨base, hrun⟩ := thenRun?_recast (hsteps.within hw) (hsteps.sound he) fuel
      refine ⟨base, ?_⟩
      simp only [perform?, createAndRunById?, createById_recast, hrun, Option.map_map]
      congr 1
      funext out
      exact answered_inst_recast base out
  | setClock now => exact ⟨0, rfl⟩
  | advanceClock ms => exact ⟨0, rfl⟩
  | register accepts handler =>
      have hnone := hw.registrations e.registrations.length (Nat.le_refl _)
      exact ⟨0, by simp [perform?, Engine.register, recast, Registration.behind, hnone,
        Answer.homed]⟩

/-- **Two recasts of one engine come to recasts of one engine**, with answers
that agree, whatever they are asked. -/
theorem performAll?_recast {bases' : Nat → Nat} {past' : Past} (hw : e.Within bases past)
    (hw' : e.Within bases' past') (he : e.Sound) (fuel : Nat) (ops : List Operation) :
    Option.Rel (fun out out' => (∃ last : Engine,
        out.1 = last.recast bases past ∧ out'.1 = last.recast bases' past') ∧
        List.Forall₂ Answer.Alike out.2 out'.2)
      ((e.recast bases past).performAll? fuel ops)
      ((e.recast bases' past').performAll? fuel ops) := by
  induction ops generalizing e with
  | nil => exact .some ⟨⟨e, rfl, rfl⟩, .nil⟩
  | cons op rest ih =>
      obtain ⟨base, hop⟩ := perform?_recast hw he fuel op
      obtain ⟨base', hop'⟩ := perform?_recast hw' he fuel op
      rw [performAll?, performAll?, hop, hop']
      cases hnext : e.perform? fuel op with
      | none => exact .none
      | some next =>
          have hsteps := perform?_changes hnext
          have hrest := ih (hsteps.within hw) (hsteps.within hw') (hsteps.sound he)
          simp only [Option.map_some, Prod.map_fst, Prod.map_snd]
          generalize performAll? fuel (next.1.recast bases past) rest = out at hrest ⊢
          generalize performAll? fuel (next.1.recast bases' past') rest = out' at hrest ⊢
          cases hrest with
          | none => exact .none
          | some h => exact .some ⟨h.1, .cons (next.2.alike_homed base base') h.2⟩

end Engine

end ProcessEngine
