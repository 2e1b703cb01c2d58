import Mathlib.Data.List.Nodup
import ProcessEngine.Proofs.ArenaSoundness
import ProcessEngine.Proofs.EngineOperations

/-!
# Sound engines

All that an engine stores under a key got that key from the engine's one key
source, so no key is stored twice and all of them lie behind the source.  Every
definition is what its source says, every instance executes one of the
definitions, and its arena is in order.

Main statement: `Change.sound`, by which every change of an engine keeps this.
-/

namespace ProcessEngine

/-- The keys of an instance and of its activities. -/
def Instance.keys (i : Instance) : List Int := i.key :: i.activities.map Activity.key

/-- A definition is what its source says. -/
def Definition.Genuine (d : Definition) : Prop :=
  Diagram.ofMarkup d.source = .ok d.diagram ∧ d.checksum = Sha256.ofText d.source

/-- Soundness is a matter of what is executed and of the activities. -/
theorem Instance.Sound.of_eq {i j : Instance} (h : i.Sound) (hkey : j.key = i.key)
    (hdefinition : j.definition = i.definition) (hactivities : j.activities = i.activities) :
    j.Sound where
  fits n a ha := (h.fits (hactivities ▸ ha)).of_frame rfl hkey hdefinition
  origin_lt n a o ha := h.origin_lt (hactivities ▸ ha)
  exclusive := by
    refine h.exclusive.of_slotAt fun hheld => ?_
    rwa [Instance.slotAt, hactivities] at hheld

theorem Instance.sound_fresh (key : Int) (d : Definition) (vars : Variables) (now : Instant) :
    (Instance.fresh key d vars now).Sound where
  fits n a ha := by cases ha
  origin_lt n a o ha := by cases ha
  exclusive m n slot hm := by cases hm

/-- The keys of an instance grow with its activities. -/
theorem Run.Grows.instance_keys {opened : List Activity} {r r' : Run}
    (h : Run.Grows opened r r') :
    r'.inst.keys = r.inst.keys ++
      (List.range opened.length).map fun k : Nat => r.keys.next + k := by
  have hkeys : ∀ i : Instance, i.activities.map Activity.key = i.frames.map Activity.key := by
    intro i
    simp [Instance.frames, Function.comp_def]
  rw [Instance.keys, Instance.keys, h.key, hkeys, hkeys, h.frames, List.map_append, h.issued,
    List.cons_append]

namespace Engine

/-- All keys that an engine has given out. -/
def storedKeys (e : Engine) : List Int :=
  e.definitions.map Definition.key ++ e.instances.flatMap Instance.keys

/-- An engine is in order. -/
structure Sound (e : Engine) : Prop where
  genuine : ∀ d ∈ e.definitions, d.Genuine
  instances : ∀ i ∈ e.instances, i.Sound ∧ i.definition ∈ e.definitions
  nodup : e.storedKeys.Nodup
  behind : ∀ key ∈ e.storedKeys, key < e.keys.next ∧ key < greatestKey

/-! ## Keys -/

/-- An engine after some keys were issued and stored. -/
structure Issued (count : Nat) (e e' : Engine) : Prop where
  stored : e'.storedKeys.Perm
    (e.storedKeys ++ (List.range count).map fun k : Nat => e.keys.next + k)
  keys : e'.keys.next = e.keys.next + count
  room : count = 0 ∨ e'.keys.next ≤ greatestKey

/-- Keys that are issued next are new. -/
theorem Issued.nodup {count : Nat} {e e' : Engine} (h : Issued count e e') (he : e.Sound) :
    e'.storedKeys.Nodup := by
  rw [h.stored.nodup_iff]
  refine List.nodup_append.mpr ⟨he.nodup, ?_, ?_⟩
  · refine List.Nodup.map (fun a b hab => ?_) List.nodup_range
    omega
  · intro a ha b hb hab
    obtain ⟨k, _, rfl⟩ := List.mem_map.mp hb
    have hlt := (he.behind a ha).1
    omega

theorem Issued.behind {count : Nat} {e e' : Engine} (h : Issued count e e') (he : e.Sound) :
    ∀ key ∈ e'.storedKeys, key < e'.keys.next ∧ key < greatestKey := by
  intro key hkey
  have hkeys := h.keys
  rcases List.mem_append.mp (h.stored.mem_iff.mp hkey) with hold | hnew
  · have hlt := he.behind key hold
    omega
  · obtain ⟨k, hk, rfl⟩ := List.mem_map.mp hnew
    have hk := List.mem_range.mp hk
    have hroom := h.room
    omega

/-- Keys at one place of a list are keys of the whole list. -/
theorem flatMap_set_perm {instances : List Instance} {n : Nat} {i j : Instance}
    {issued : List Int} (hi : instances[n]? = some i) (hj : j.keys = i.keys ++ issued) :
    ((instances.set n j).flatMap Instance.keys).Perm
      (instances.flatMap Instance.keys ++ issued) := by
  induction instances generalizing n with
  | nil => cases hi
  | cons first rest ih =>
      cases n with
      | zero =>
          cases hi
          simp only [List.set_cons_zero, List.flatMap_cons, hj, List.append_assoc]
          exact List.perm_append_comm.append_left _
      | succ n =>
          simp only [List.set_cons_succ, List.flatMap_cons, List.append_assoc]
          exact (ih (by simpa using hi)).append_left _

theorem flatMap_modify (instances : List Instance) (n : Nat) {f : Instance → Instance}
    (hf : ∀ i, (f i).keys = i.keys) :
    (instances.modify n f).flatMap Instance.keys = instances.flatMap Instance.keys := by
  induction instances generalizing n with
  | nil => simp
  | cons first rest ih => cases n <;> simp [hf, ih]

/-- What stands in a list after a change at one place. -/
theorem exists_of_mem_modify {instances : List Instance} {n : Nat} {f : Instance → Instance}
    {j : Instance} (h : j ∈ instances.modify n f) : ∃ i ∈ instances, j = i ∨ j = f i := by
  obtain ⟨m, hm⟩ := List.getElem?_of_mem h
  rw [List.getElem?_modify, Option.map_eq_map, Option.map_eq_some_iff] at hm
  obtain ⟨i, hi, rfl⟩ := hm
  refine ⟨i, List.mem_of_getElem? hi, ?_⟩
  split
  · exact .inr rfl
  · exact .inl rfl

theorem mem_of_mem_set {instances : List Instance} {n : Nat} {i j : Instance}
    (h : j ∈ instances.set n i) : j ∈ instances ∨ j = i :=
  List.mem_or_eq_of_mem_set h

/-! ## Changes -/

theorem sound_fresh (name : String) (keys : KeySequence) (now : Instant) :
    (fresh name keys now).Sound where
  genuine d hd := by cases hd
  instances i hi := by cases hi
  nodup := List.nodup_nil
  behind key hkey := by cases hkey

/-- **Every key that a change issues is stored.** -/
theorem Change.issued {e e' : Engine} (h : Change e e') : ∃ count, Issued count e e' := by
  cases h with
  | @load source diagram resourceName hsource hnew hroom =>
      refine ⟨1, ?_, rfl, .inr hroom⟩
      have hone : (List.range 1).map (fun k : Nat => e.keys.next + k) = [e.keys.next] := by simp
      rw [hone]
      simp only [storedKeys, report, List.map_append, List.append_assoc]
      exact List.perm_append_comm.append_left _
  | @create d vars hd hroom =>
      refine ⟨1, ?_, rfl, .inr hroom⟩
      simp [storedKeys, report, Instance.keys, Instance.fresh]
  | publish n name vars =>
      refine ⟨0, ?_, by simp, .inl rfl⟩
      have hkeys := flatMap_modify e.instances n
        (f := fun i => i.recordEvent ⟨name, e.now, vars, false⟩) fun i => rfl
      simp only [storedKeys, hkeys, List.range_zero, List.map_nil, List.append_nil]
      exact .refl _
  | @run n fuel i r error? hi hrun =>
      obtain ⟨opened, hgrows⟩ := Run.start?_grows hrun
      refine ⟨opened.length, ?_, hgrows.keys, hgrows.room.imp (by rintro rfl; rfl) id⟩
      simp only [storedKeys, settle]
      rw [List.append_assoc]
      exact (flatMap_set_perm hi hgrows.instance_keys).append_left _
  | clock now => exact ⟨0, by simp [storedKeys, setClock], by simp [setClock], .inl rfl⟩
  | register =>
      exact ⟨0, by simp [storedKeys, Engine.register], by simp [Engine.register], .inl rfl⟩

/-- **Every change keeps an engine sound.** -/
theorem Change.sound {e e' : Engine} (h : Change e e') (he : e.Sound) : e'.Sound := by
  obtain ⟨count, hissued⟩ := h.issued
  have hnodup := hissued.nodup he
  have hbehind := hissued.behind he
  cases h with
  | @load source diagram resourceName hsource hnew hroom =>
      refine ⟨fun d hd => ?_, fun i hi => ?_, hnodup, hbehind⟩
      · rcases List.mem_append.mp hd with hd | hd
        · exact he.genuine d hd
        · obtain rfl := List.mem_singleton.mp hd
          exact ⟨hsource, rfl⟩
      · exact ⟨(he.instances i hi).1, List.mem_append_left _ (he.instances i hi).2⟩
  | @create d vars hd hroom =>
      refine ⟨he.genuine, fun i hi => ?_, hnodup, hbehind⟩
      rcases List.mem_append.mp hi with hi | hi
      · exact he.instances i hi
      · obtain rfl := List.mem_singleton.mp hi
        exact ⟨Instance.sound_fresh _ _ _ _, hd⟩
  | publish n name vars =>
      refine ⟨he.genuine, fun j hj => ?_, hnodup, hbehind⟩
      obtain ⟨i, hi, rfl | rfl⟩ := exists_of_mem_modify hj
      · exact he.instances _ hi
      · exact ⟨(he.instances i hi).1.of_eq rfl rfl rfl, (he.instances i hi).2⟩
  | @run n fuel i r error? hi hrun =>
      obtain ⟨opened, hgrows⟩ := Run.start?_grows hrun
      have hmem := he.instances i (List.mem_of_getElem? hi)
      refine ⟨he.genuine, fun j hj => ?_, hnodup, hbehind⟩
      rcases mem_of_mem_set hj with hj | rfl
      · exact he.instances j hj
      · exact ⟨Run.start?_sound hrun hmem.1, by rw [hgrows.definition]; exact hmem.2⟩
  | clock now => exact ⟨he.genuine, he.instances, hnodup, hbehind⟩
  | register accepts handler => exact ⟨he.genuine, he.instances, hnodup, hbehind⟩

theorem Changes.sound {e e' : Engine} (h : Changes e e') (he : e.Sound) : e'.Sound := by
  induction h with
  | refl => exact he
  | tail _ hchange ih => exact hchange.sound ih

end Engine

end ProcessEngine
