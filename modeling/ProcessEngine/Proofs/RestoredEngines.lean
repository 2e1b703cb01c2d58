import ProcessEngine.Proofs.EngineReachability
import ProcessEngine.Proofs.RecastEngines
import ProcessEngine.Proofs.SnapshotCharacters

/-!
# Restored engines

A snapshot keeps neither the key source nor the place of an activity.  The key
source is found again because a reachable engine has issued no key that it does
not store, so that its next key follows the greatest one in the snapshot.  An
activity comes back at the first element with its id, and this is where all
stand that hold more than a state.

An engine and the one that its snapshot gives back are thus recasts of one
engine, the same one without a past.

Main statement: `Reachable.restore_alike`, by which nothing that is asked of
the two engines tells them apart.
-/

namespace ProcessEngine

/-! ## The key source -/

/-- Moving a key source past keys moves it no further than it must. -/
theorem foldl_advancePast_le {keys : KeySequence} {stored : List Int} {bound : Int}
    (hkeys : keys.next ≤ bound) (hstored : ∀ key ∈ stored, key < bound) :
    (stored.foldl KeySequence.advancePast keys).next ≤ bound := by
  induction stored generalizing keys with
  | nil => exact hkeys
  | cons key rest ih =>
      have hkey := hstored key List.mem_cons_self
      refine ih ?_ fun k hk => hstored k (List.mem_cons_of_mem _ hk)
      unfold KeySequence.advancePast
      split
      · dsimp only
        omega
      · exact hkeys

namespace Engine

/-- The key before the next one is stored, unless no key was ever issued. -/
structure Tight (e : Engine) : Prop where
  first : 1 ≤ e.keys.next
  last : e.keys.next = 1 ∨ e.keys.next - 1 ∈ e.storedKeys

theorem Change.tight {e e' : Engine} (h : Change e e') (ht : e.Tight) : e'.Tight := by
  obtain ⟨count, hissued⟩ := h.issued
  have hkeys := hissued.keys
  have hfirst := ht.first
  refine ⟨by omega, ?_⟩
  rw [hissued.stored.mem_iff, List.mem_append]
  cases count with
  | zero =>
      have hsame : e'.keys.next = e.keys.next := by simpa using hkeys
      rw [hsame]
      exact ht.last.imp id .inl
  | succ count =>
      refine .inr (.inr (List.mem_map.mpr ⟨count, List.mem_range.mpr (by omega), ?_⟩))
      omega

theorem Changes.tight {e e' : Engine} (h : Changes e e') (ht : e.Tight) : e'.Tight := by
  induction h with
  | refl => exact ht
  | tail _ hchange ih => exact hchange.tight ih

/-- **The key source comes back from the keys that are stored.** -/
theorem Tight.foldl_storedKeys {e : Engine} (ht : e.Tight) (he : e.Sound) :
    e.storedKeys.foldl KeySequence.advancePast .default = e.keys := by
  have hone : KeySequence.default.next ≤ e.keys.next := ht.first
  have hle := foldl_advancePast_le hone fun key hkey => (he.behind key hkey).1
  obtain ⟨hfirst, hlast⟩ := le_foldl_advancePast .default fun key hkey => (he.behind key hkey).2
  have hnext : (e.storedKeys.foldl KeySequence.advancePast .default).next = e.keys.next := by
    rcases ht.last with hnone | hstored
    · have hdefault : KeySequence.default.next = 1 := rfl
      omega
    · have hlt := hlast _ hstored
      omega
  exact congrArg KeySequence.mk hnext

/-- What a snapshot of an engine gives back in a blank one. -/
def restored (e blank : Engine) : Engine :=
  { blank with
    name := e.name
    definitions := e.definitions
    instances := e.instances.map Instance.relinked
    keys := e.keys }

theorem Tight.rebuild {e blank : Engine} (ht : e.Tight) (he : e.Sound) (hblank : blank.Blank)
    (hkeys : blank.keys = .default) :
    blank.rebuild e.snapshot = .ok (e.restored blank) := by
  rw [rebuild_snapshot he hblank, hkeys, ht.foldl_storedKeys he]
  rfl

theorem Reachable.tight {e : Engine} (h : Reachable (· = .default) e) : e.Tight := by
  induction h with
  | fresh name now hkeys =>
      subst hkeys
      exact ⟨Int.le_refl 1, .inl rfl⟩
  | perform _ hop ih => exact (perform?_changes hop).tight ih
  | @restore e blank e' text h hblank hkeys hparse hrestore ih =>
      rw [restore_eq_rebuild hparse, ih.rebuild h.sound hblank hkeys] at hrestore
      obtain rfl := Except.ok.inj hrestore
      have hstored : (e.restored blank).storedKeys = e.storedKeys := by
        simp [storedKeys, restored, List.flatMap_map]
      exact ⟨ih.first, by rw [hstored]; exact ih.last⟩

end Engine

/-! ## The past -/

/-- The registration as if it had never been called. -/
def Registration.anew (g : Registration) : Registration :=
  { g with handler := fun n => g.handler (g.calls + n), calls := 0 }

/-- Registrations that are alike differ in their past only. -/
theorem Registration.Alike.behind_anew {g h : Registration} (halike : g.Alike h) :
    g.anew.behind h = h := by
  obtain ⟨accepts, handler, calls⟩ := h
  have haccepts : accepts = g.accepts := halike.accepts
  have hhandler : ∀ n, handler (calls + n) = g.handler (g.calls + n) := halike.handler
  unfold anew behind
  simp only [haccepts, Registration.mk.injEq, Nat.add_zero, true_and, and_true]
  funext n
  split
  · rfl
  · rename_i hn
    rw [← hhandler, Nat.add_sub_cancel' (by omega)]

theorem mapIdx_behind_anew {gs hs : List Registration}
    (h : List.Forall₂ Registration.Alike gs hs) (absent : Registration) :
    ((gs.map Registration.anew).mapIdx fun n g => g.behind (hs[n]?.getD absent)) = hs := by
  induction h with
  | nil => rfl
  | cons hhead _ ih =>
      rw [List.map_cons, List.mapIdx_cons]
      exact congrArg₂ List.cons hhead.behind_anew ih

/-- The past of an engine, with a registration that was never called wherever
there is none. -/
def Engine.past (e : Engine) : Past where
  audit := e.audit
  calls := e.calls
  registration n := e.registrations[n]?.getD ⟨.id "", fun _ _ => [], 0⟩

/-- An instance of a sound arena comes back with all its activities at home. -/
theorem Instance.Sound.relinked_eq {i : Instance} (hi : i.Sound) :
    i.relinked = i.homed i.activities.length := by
  unfold Instance.relinked Instance.homed
  congr 1
  refine List.ext_getElem? fun n => ?_
  rw [List.getElem?_map, List.getElem?_mapIdx]
  cases ha : i.activities[n]? with
  | none => rfl
  | some a =>
      obtain ⟨hn, -⟩ := List.getElem?_eq_some_iff.mp ha
      have hfits := hi.fits ha
      simp only [Option.map_some, if_pos hn, Option.some.injEq]
      cases hbody : a.body.isElement with
      | false => rw [hfits.relinkedActivity hbody, Activity.homed_of_not_isElement hbody]
      | true =>
          obtain ⟨e, he, -⟩ := hfits
          simp [Activity.homed, hbody, Instance.relinkedActivity, Instance.elementIdAt,
            Diagram.home, he]

namespace Engine

/-- The engine as if nothing had been reported or called. -/
def anew (e : Engine) : Engine :=
  { e with registrations := e.registrations.map Registration.anew, audit := [], calls := [] }

/-- An engine whose registrations are alike and whose instances are homed is a
recast of the engine without a past. -/
theorem recast_anew {e f : Engine} {bases : Nat → Nat} (hname : f.name = e.name)
    (hdefinitions : f.definitions = e.definitions)
    (hinstances : f.instances = e.instances.mapIdx fun n i => i.homed (bases n))
    (hkeys : f.keys = e.keys) (hnow : f.now = e.now)
    (hregistrations : List.Forall₂ Registration.Alike e.registrations f.registrations) :
    f = e.anew.recast bases f.past := by
  obtain ⟨name, definitions, instances, keys, now, registrations, audit, calls⟩ := f
  have hbehind := mapIdx_behind_anew hregistrations ⟨.id "", fun _ _ => [], 0⟩
  simp only [recast, anew, past, mk.injEq, List.append_nil]
  exact ⟨hname, hdefinitions, hinstances, hkeys, hnow, hbehind.symm, trivial, trivial⟩

/-- The positions of restored activities lie within the arenas. -/
theorem within_anew {e f : Engine} (bases : Nat → Nat)
    (hbases : ∀ n, bases n ≤ (e.instances[n]?.map fun i => i.activities.length).getD 0)
    (hregistrations : List.Forall₂ Registration.Alike e.registrations f.registrations) :
    e.anew.Within bases f.past := by
  refine ⟨hbases, fun n hn => ?_⟩
  have hlength : f.registrations.length ≤ n := by
    rw [← hregistrations.length_eq]
    simpa [anew] using hn
  simp [past, List.getElem?_eq_none hlength]

/-! ## Progress -/

/-- Two engines come to the same: they give answers that agree, report and call
the same, and remain alike. -/
structure SameProgress (e f : Engine) (out out' : Engine × List Answer) : Prop where
  engines : out.1.Alike out'.1
  answers : List.Forall₂ Answer.Alike out.2 out'.2
  reports : ∃ reports, out.1.audit = e.audit ++ reports ∧ out'.1.audit = f.audit ++ reports
  calls : ∃ calls, out.1.calls = e.calls ++ calls ∧ out'.1.calls = f.calls ++ calls

/-- Recasts of one engine without a past come to the same. -/
theorem Sound.sameProgress {e : Engine} {bases bases' : Nat → Nat} {past past' : Past}
    (he : e.anew.Sound) (hw : e.anew.Within bases past) (hw' : e.anew.Within bases' past')
    (fuel : Nat) (ops : List Operation) :
    Option.Rel (SameProgress (e.anew.recast bases past) (e.anew.recast bases' past'))
      ((e.anew.recast bases past).performAll? fuel ops)
      ((e.anew.recast bases' past').performAll? fuel ops) := by
  have hrel := performAll?_recast hw hw' he fuel ops
  generalize performAll? fuel (e.anew.recast bases past) ops = out at hrel ⊢
  generalize performAll? fuel (e.anew.recast bases' past') ops = out' at hrel ⊢
  cases hrel with
  | none => exact .none
  | @some out out' h =>
      obtain ⟨⟨last, hout, hout'⟩, hanswers⟩ := h
      refine .some ⟨?_, hanswers, ⟨last.audit, ?_, ?_⟩, ⟨last.calls, ?_, ?_⟩⟩
      · rw [hout, hout']
        exact last.alike_recast bases bases' past past'
      all_goals simp [hout, hout', recast, anew]

/-- **Taking a snapshot and restoring it cannot be observed.** -/
theorem Reachable.restore_alike {e blank : Engine} (h : Reachable (· = .default) e)
    (hcodec : Snapshot.parse? e.snapshot.text = some e.snapshot) (hblank : blank.Blank)
    (hkeys : blank.keys = .default) (hnow : blank.now = e.now) :
    ∃ e', blank.restore e.snapshot.text = .ok e' ∧
      ∀ again, List.Forall₂ Registration.Alike e.registrations again →
        e.Alike { e' with registrations := again } ∧
        ∀ fuel ops, Option.Rel (SameProgress e { e' with registrations := again })
          (e.performAll? fuel ops)
          (performAll? fuel { e' with registrations := again } ops) := by
  have he := h.sound
  refine ⟨e.restored blank, ?_, fun again hagain => ?_⟩
  · rw [restore_eq_rebuild hcodec, h.tight.rebuild he hblank hkeys]
  have hsame : List.Forall₂ Registration.Alike e.registrations e.registrations :=
    List.forall₂_same.mpr fun g _ => ⟨rfl, fun _ => rfl⟩
  -- the activities of `e` stay where they are, those of the other engine are at home
  let bases : Nat → Nat := fun n => (e.instances[n]?.map fun i => i.activities.length).getD 0
  have hself : e = e.anew.recast (fun _ => 0) e.past := by
    refine recast_anew rfl rfl ?_ rfl rfl hsame
    exact (List.mapIdx_eq_iff.mpr fun n => by simp).symm
  have hrestored : { e.restored blank with registrations := again } =
      e.anew.recast bases (past { e.restored blank with registrations := again }) := by
    refine recast_anew rfl rfl ?_ rfl hnow hagain
    refine List.ext_getElem? fun n => ?_
    simp only [restored, List.getElem?_map, List.getElem?_mapIdx]
    cases hi : e.instances[n]? with
    | none => rfl
    | some i =>
        have hsound := (he.instances i (List.mem_of_getElem? hi)).1
        simp [bases, hi, hsound.relinked_eq]
  have hw := within_anew (fun _ => 0) (fun n => Nat.zero_le _) hsame
  have hw' := within_anew (f := { e.restored blank with registrations := again }) bases
    (fun n => Nat.le_refl _) hagain
  generalize { e.restored blank with registrations := again } = f at hrestored hw' ⊢
  have hanew : e.anew.Sound := ⟨he.genuine, he.instances, he.nodup, he.behind⟩
  have halike := e.anew.alike_recast (fun _ => 0) bases e.past f.past
  have hprogress := Sound.sameProgress hanew hw hw'
  rw [← hself, ← hrestored] at halike hprogress
  exact ⟨halike, hprogress⟩

/-- Two start events of one id lead to a task that somebody has to do. -/
def sharedSource : List String :=
  ["<process id='p'>", "<startEvent id='s'/>", "<startEvent id='s'/>", "<userTask id='t'/>",
   "<sequenceFlow id='f' ", "sourceRef='s' targetRef='t'/>", "</process>"]

def sharedDiagram : Diagram :=
  { id := "p", name := ""
    elements :=
      [{ Element.bare "s" "" .startEvent with outgoing := ["f"] },
       { Element.bare "s" "" .startEvent with outgoing := ["f"] },
       { Element.bare "t" "" .userTask with incoming := ["f"] }]
    flows := [⟨"f", "", "s", "t", []⟩]
    messages := [] }

theorem ofMarkup_sharedSource :
    Diagram.ofMarkup (String.join sharedSource) = .ok sharedDiagram :=
  ofMarkup_join (by decide +kernel)

/-- The engine while the task is open; the second start event is one that comes
back at the first. -/
theorem restore_alike_open_task :
    ∃ e e', Reachable (· = .default) e ∧
      (∃ i ∈ e.instances, i.state = .active ∧ i.activities.map Activity.element = [0, 1, 2]) ∧
      (fresh "" .default e.now).restore e.snapshot.text = .ok e' ∧
      ∀ again, List.Forall₂ Registration.Alike e.registrations again →
        e.Alike { e' with registrations := again } ∧
        ∀ fuel ops, Option.Rel (SameProgress e { e' with registrations := again })
          (e.performAll? fuel ops)
          (performAll? fuel { e' with registrations := again } ops) := by
  obtain ⟨e, hreachable, htest⟩ := exists_reachable ofMarkup_sharedSource 100
    [.create 1 [], .run 2]
    (fun e => e.snapshot.readsBack && e.instances.any fun i =>
      i.state == .active && i.activities.map Activity.element == [0, 1, 2]) (by decide +kernel)
  simp only [Bool.and_eq_true, List.any_eq_true, beq_iff_eq] at htest
  have hblank : (fresh "" .default e.now).Blank := ⟨rfl, rfl⟩
  obtain ⟨e', hrestore, halike⟩ := hreachable.restore_alike
    (Snapshot.parse?_text_of_readsBack htest.1) hblank rfl rfl
  exact ⟨e, e', hreachable, htest.2, hrestore, halike⟩

end Engine

end ProcessEngine
