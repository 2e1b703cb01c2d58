import ProcessEngine.Proofs.EngineSoundness
import ProcessEngine.Snapshot.Restore

/-!
# Restoring one's own snapshot

A snapshot names elements by id and origins by key.  Restoring it finds both
again by searching: the first element with the id and the last activity with
the key.  For the snapshot of a sound engine the search never fails.  It gives
back every origin, and every element but those that share their id with an
earlier one; only an activity that holds nothing but a state can stand at such
an element.

Main statement: `rebuild_snapshot`, the engine that comes out, in closed form.
-/

namespace ProcessEngine

/-! ## Activities -/

namespace Instance

/-- An activity at the first element that has the id of its own. -/
def relinkedActivity (i : Instance) (a : Activity) : Activity :=
  { a with element := (i.diagram.findElement? (i.elementIdAt a.element)).getD a.element }

/-- The instance that comes back from a snapshot. -/
def relinked (i : Instance) : Instance :=
  { i with activities := i.activities.map i.relinkedActivity }

end Instance

/-- Where keys occur once, the last position of a key is the only one. -/
theorem lastPosition?_of_nodup {stored : List StoredActivity} {n : Nat} {a : StoredActivity}
    (hnodup : (stored.map StoredActivity.key).Nodup) (ha : stored[n]? = some a) :
    lastPosition? a.key stored = some n := by
  induction stored generalizing n with
  | nil => cases ha
  | cons b rest ih =>
      rw [List.map_cons, List.nodup_cons] at hnodup
      rw [lastPosition?]
      cases n with
      | zero =>
          obtain rfl : b = a := by simpa using ha
          have hnone : lastPosition? b.key rest = none := by
            cases hlast : lastPosition? b.key rest with
            | none => rfl
            | some m => exact absurd (mem_keys_of_lastPosition? hlast) hnodup.1
          simp [hnone]
      | succ n => simp [ih hnodup.2 (by simpa using ha)]
where
  mem_keys_of_lastPosition? {key : Int} {stored : List StoredActivity} {n : Nat}
      (h : lastPosition? key stored = some n) : key ∈ stored.map StoredActivity.key := by
    induction stored generalizing n with
    | nil => cases h
    | cons b rest ih =>
        rw [lastPosition?] at h
        split at h
        · rename_i hlast
          exact List.mem_cons_of_mem _ (ih hlast)
        · split at h
          · rename_i heq
            simp [heq]
          · cases h

section Relinking

variable {i : Instance} {a : Activity}

/-- The id that an activity is stored with is that of its element. -/
theorem Activity.Fits.elementId (h : a.Fits i) :
    (i.storedActivity a).elementId = i.elementIdAt a.element := by
  obtain ⟨e, he, hbody, -⟩ := h
  have hid : i.elementIdAt a.element = e.id := by simp [Instance.elementIdAt, he]
  rw [Instance.storedActivity, hid]
  generalize a.body = body at hbody
  cases hbody <;> simp_all [ActivityBody.elementId?]

/-- An element with the id of one's own is found. -/
theorem Activity.Fits.findElement? (h : a.Fits i) :
    i.diagram.findElement? (i.elementIdAt a.element) =
      some (i.relinkedActivity a).element := by
  obtain ⟨e, he, -, -⟩ := h
  have hid : i.elementIdAt a.element = e.id := by simp [Instance.elementIdAt, he]
  have hfound : (i.diagram.findElement? e.id).isSome := by
    rw [Diagram.findElement?, List.findIdx?_isSome, List.any_eq_true]
    exact ⟨e, List.mem_of_getElem? he, by simp⟩
  obtain ⟨n, hn⟩ := Option.isSome_iff_exists.mp hfound
  simp [Instance.relinkedActivity, hid, hn]

/-- The body of an activity comes back as it was. -/
theorem Activity.Fits.body (h : a.Fits i) :
    i.stored.body (i.storedActivity a).elementId a.body.stored = a.body := by
  rw [h.elementId]
  obtain ⟨e, he, hbody, -⟩ := h
  have hid : i.elementIdAt a.element = e.id := by simp [Instance.elementIdAt, he]
  rw [hid]
  generalize a.body = body at hbody
  cases hbody with
  | element state => rfl
  | gateway g => rfl
  | race race => rfl
  | job j _ hinstance hid =>
      simp only [ActivityBody.stored, StoredInstance.body, Instance.stored, ← hinstance, ← hid]
  | timer t _ _ _ hinstance hdefinition hid =>
      simp only [ActivityBody.stored, StoredInstance.body, Instance.stored, ← hinstance,
        ← hdefinition, ← hid]
  | subscription s _ _ hinstance hdefinition hid =>
      simp only [ActivityBody.stored, StoredInstance.body, Instance.stored, ← hinstance,
        ← hdefinition, ← hid]

/-- The origin of an activity comes back as it was. -/
theorem findOrigin_stored (hi : i.Sound) (hkeys : (i.activities.map Activity.key).Nodup)
    {n : Nat} (ha : i.activities[n]? = some a) :
    i.stored.findOrigin (i.storedActivity a).originKey = .ok a.origin := by
  cases horigin : a.origin with
  | none => simp [Instance.storedActivity, horigin, StoredInstance.findOrigin]
  | some o =>
      have ho := hi.origin_lt ha horigin
      have hn := (List.getElem?_eq_some_iff.mp ha).1
      obtain ⟨b, hb⟩ : ∃ b, i.activities[o]? = some b :=
        ⟨_, List.getElem?_eq_getElem (by omega)⟩
      have hlast : lastPosition? b.key i.stored.activities = some o := by
        refine lastPosition?_of_nodup (a := i.storedActivity b) ?_ ?_
        · simpa [Instance.stored, Function.comp_def, Instance.storedActivity] using hkeys
        · simp [Instance.stored, hb]
      simp [Instance.storedActivity, horigin, Instance.activityKeyAt?, hb,
        StoredInstance.findOrigin, hlast]

theorem relink_stored (hi : i.Sound) (hkeys : (i.activities.map Activity.key).Nodup)
    {n : Nat} (ha : i.activities[n]? = some a) :
    i.stored.relink i.diagram (i.storedActivity a) = .ok (i.relinkedActivity a) := by
  have hfits := hi.fits ha
  have helement : i.stored.findElement i.diagram (i.storedActivity a).elementId =
      .ok (i.relinkedActivity a).element := by
    rw [hfits.elementId, StoredInstance.findElement, hfits.findElement?]
  have hbody := hfits.body
  rw [StoredInstance.relink, helement, findOrigin_stored hi hkeys ha]
  simp only [Except.ok.injEq]
  rw [show (i.storedActivity a).body = a.body.stored from rfl, hbody]
  rfl

end Relinking

/-- Relinking activities one by one is relinking all of them. -/
theorem relinkAll_eq_ok {i : StoredInstance} {diagram : Diagram} {f : Activity → StoredActivity}
    {g : Activity → Activity} {activities : List Activity}
    (h : ∀ a ∈ activities, i.relink diagram (f a) = .ok (g a)) :
    i.relinkAll diagram (activities.map f) = .ok (activities.map g) := by
  induction activities with
  | nil => rfl
  | cons a rest ih =>
      have hrest := ih fun b hb => h b (List.mem_cons_of_mem _ hb)
      simp [StoredInstance.relinkAll, h a List.mem_cons_self, hrest]

/-- **An instance comes back from its stored form relinked.** -/
theorem Instance.restore_stored {i : Instance} (hi : i.Sound)
    (hkeys : (i.activities.map Activity.key).Nodup) {definitions : List Definition}
    (hdefinition : definitions.find? (fun d => d.key == i.definition.key) = some i.definition) :
    i.stored.restore definitions = .ok i.relinked := by
  have hall : i.stored.relinkAll i.definition.diagram i.stored.activities =
      .ok (i.activities.map i.relinkedActivity) := by
    refine relinkAll_eq_ok fun a ha => ?_
    obtain ⟨n, hn⟩ := List.getElem?_of_mem ha
    exact relink_stored hi hkeys hn
  rw [StoredInstance.restore, show i.stored.definitionKey = i.definition.key from rfl,
    hdefinition]
  simp only [hall]
  rfl

/-- A definition comes back from its stored form as it was. -/
theorem Definition.restore_stored {d : Definition} (hd : d.Genuine) :
    d.stored.restore = .ok d := by
  obtain ⟨hsource, hchecksum⟩ := hd
  rw [StoredDefinition.restore]
  simp only [Definition.stored, PackedSource.unpack_pack, hchecksum, if_true, hsource]
  rw [← hchecksum]

/-! ## Soundness -/

/-- Only an activity that holds nothing but a state may find itself at another
element. -/
theorem Activity.Fits.relinkedActivity {i : Instance} {a : Activity} (h : a.Fits i)
    (hbody : a.body.isElement = false) : i.relinkedActivity a = a := by
  obtain ⟨e, he, -, helement | hfirst⟩ := h
  · rw [hbody] at helement
    cases helement
  · have hid : i.elementIdAt a.element = e.id := by simp [Instance.elementIdAt, he]
    rw [Instance.relinkedActivity, hid, hfirst]
    rfl

/-- An activity is at home where it finds itself. -/
theorem Activity.Fits.relinked {i : Instance} {a : Activity} (h : a.Fits i) :
    (i.relinkedActivity a).Fits i.relinked := by
  cases hbody : a.body.isElement with
  | false =>
      rw [h.relinkedActivity hbody]
      exact h.of_frame rfl rfl rfl
  | true =>
      obtain ⟨hlt, -, -⟩ := List.findIdx?_eq_some_iff_getElem.mp h.findElement?
      refine ⟨_, List.getElem?_eq_getElem hlt, ?_, .inl hbody⟩
      show a.body.Fits i.relinked _
      cases hb : a.body <;> simp [hb, ActivityBody.isElement] at hbody
      exact .element _

theorem Instance.Sound.slotAt_relinked {i : Instance} (hi : i.Sound) (n : Nat) :
    i.relinked.slotAt n = i.slotAt n := by
  simp only [Instance.slotAt, Instance.relinked, List.getElem?_map]
  cases ha : i.activities[n]? with
  | none => rfl
  | some a =>
      cases hbody : a.body.isElement with
      | false => simp [(hi.fits ha).relinkedActivity hbody]
      | true =>
          cases hb : a.body <;> simp [hb, ActivityBody.isElement] at hbody
          simp [Instance.relinkedActivity, Activity.slot?, hb]

theorem Instance.Sound.relinked {i : Instance} (hi : i.Sound) : i.relinked.Sound where
  fits n b hb := by
    simp only [Instance.relinked, List.getElem?_map, Option.map_eq_some_iff] at hb
    obtain ⟨a, ha, rfl⟩ := hb
    exact (hi.fits ha).relinked
  origin_lt n b o hb ho := by
    simp only [Instance.relinked, List.getElem?_map, Option.map_eq_some_iff] at hb
    obtain ⟨a, ha, rfl⟩ := hb
    exact hi.origin_lt ha ho
  exclusive := hi.exclusive.of_slotAt fun hheld => by rwa [hi.slotAt_relinked] at hheld

@[simp] theorem Instance.keys_relinked (i : Instance) : i.relinked.keys = i.keys := by
  simp [Instance.keys, Instance.relinked, Function.comp_def, Instance.relinkedActivity]

/-! ## Engines -/

namespace Engine

/-- An engine that stores nothing. -/
def Blank (e : Engine) : Prop := e.definitions = [] ∧ e.instances = []

theorem addDefinition_stored {d : Definition} (hd : d.Genuine) (e : Engine) :
    e.addDefinition d.stored = .ok { e with
      definitions := e.definitions ++ [d]
      keys := e.keys.advancePast d.key } := by
  simp only [addDefinition, Definition.restore_stored hd]
  rfl

theorem addInstance_stored {i : Instance} {e : Engine} (hi : i.Sound)
    (hkeys : (i.activities.map Activity.key).Nodup)
    (hdefinition : e.definitions.find? (fun d => d.key == i.definition.key) =
      some i.definition) :
    e.addInstance i.stored = .ok { e with
      instances := e.instances ++ [i.relinked]
      keys := i.keys.foldl KeySequence.advancePast e.keys } := by
  have hstored : i.stored.keys = i.keys := by
    simp [StoredInstance.keys, Instance.stored, Instance.keys, Function.comp_def,
      Instance.storedActivity]
  simp only [addInstance, Instance.restore_stored hi hkeys hdefinition, hstored]
  rfl

theorem foldlM_addDefinition {definitions : List Definition}
    (hgenuine : ∀ d ∈ definitions, d.Genuine) (e : Engine) :
    (definitions.map Definition.stored).foldlM addDefinition e = .ok { e with
      definitions := e.definitions ++ definitions
      keys := (definitions.map Definition.key).foldl KeySequence.advancePast e.keys } := by
  induction definitions generalizing e with
  | nil => simp [pure, Except.pure]
  | cons d rest ih =>
      rw [List.map_cons, List.foldlM_cons, addDefinition_stored (hgenuine d List.mem_cons_self)]
      refine (ih (fun c hc => hgenuine c (List.mem_cons_of_mem _ hc)) _).trans ?_
      simp

theorem foldlM_addInstance {instances : List Instance} {e : Engine}
    (hinstances : ∀ i ∈ instances, i.Sound ∧ (i.activities.map Activity.key).Nodup ∧
      e.definitions.find? (fun d => d.key == i.definition.key) = some i.definition) :
    (instances.map Instance.stored).foldlM addInstance e = .ok { e with
      instances := e.instances ++ instances.map Instance.relinked
      keys := (instances.flatMap Instance.keys).foldl KeySequence.advancePast e.keys } := by
  induction instances generalizing e with
  | nil => simp [pure, Except.pure]
  | cons i rest ih =>
      obtain ⟨hi, hkeys, hdefinition⟩ := hinstances i List.mem_cons_self
      rw [List.map_cons, List.foldlM_cons, addInstance_stored hi hkeys hdefinition]
      have hrest := ih (e := { e with
        instances := e.instances ++ [i.relinked]
        keys := i.keys.foldl KeySequence.advancePast e.keys })
        fun j hj => hinstances j (List.mem_cons_of_mem _ hj)
      exact hrest.trans (by simp)

/-- In a sound engine a definition is found by its key. -/
theorem Sound.find?_definition {e : Engine} (he : e.Sound) {d : Definition}
    (hd : d ∈ e.definitions) : e.definitions.find? (fun c => c.key == d.key) = some d := by
  have hkeys : (e.definitions.map Definition.key).Nodup := he.nodup.of_append_left
  cases hfind : e.definitions.find? (fun c => c.key == d.key) with
  | none => simpa using List.find?_eq_none.mp hfind d hd
  | some c =>
      have hkey : c.key = d.key := by simpa using List.find?_some hfind
      rw [List.inj_on_of_nodup_map hkeys (List.mem_of_find?_eq_some hfind) hd hkey]

/-- In a sound engine the activities of an instance have keys of their own. -/
theorem Sound.nodup_activities {e : Engine} (he : e.Sound) {i : Instance}
    (hi : i ∈ e.instances) : (i.activities.map Activity.key).Nodup :=
  ((List.nodup_flatMap.mp he.nodup.of_append_right).1 i hi).of_cons

/-- **The engine that a snapshot of a sound engine gives back.** -/
theorem rebuild_snapshot {e blank : Engine} (he : e.Sound) (hblank : blank.Blank) :
    blank.rebuild e.snapshot = .ok { blank with
      name := e.name
      definitions := e.definitions
      instances := e.instances.map Instance.relinked
      keys := e.storedKeys.foldl KeySequence.advancePast blank.keys } := by
  obtain ⟨hdefinitions, hinstances⟩ := hblank
  have hversion : e.snapshot.version = snapshotVersion := rfl
  have hfirst : (e.definitions.map Definition.stored).foldlM addDefinition
      { blank with name := e.name } = .ok { blank with
        name := e.name
        definitions := e.definitions
        keys := (e.definitions.map Definition.key).foldl KeySequence.advancePast blank.keys } := by
    rw [foldlM_addDefinition he.genuine]
    simp [hdefinitions]
  have hsecond := foldlM_addInstance (e := { blank with
    name := e.name
    definitions := e.definitions
    keys := (e.definitions.map Definition.key).foldl KeySequence.advancePast blank.keys })
    fun i hi => ⟨(he.instances i hi).1, he.nodup_activities hi,
      he.find?_definition (he.instances i hi).2⟩
  rw [rebuild, if_pos hversion]
  refine (congrArg
    (· >>= fun e' => List.foldlM addInstance e' e.snapshot.instances) hfirst).trans ?_
  refine hsecond.trans ?_
  simp [hinstances, storedKeys]

/-! ## Keys after restoring -/

theorem le_foldl_advancePast (keys : KeySequence) {stored : List Int}
    (hroom : ∀ key ∈ stored, key < greatestKey) :
    keys.next ≤ (stored.foldl KeySequence.advancePast keys).next ∧
      ∀ key ∈ stored, key < (stored.foldl KeySequence.advancePast keys).next := by
  induction stored generalizing keys with
  | nil => simp
  | cons key rest ih =>
      have hkey := hroom key List.mem_cons_self
      obtain ⟨hle, hlt⟩ := ih (keys.advancePast key) fun k hk => hroom k (List.mem_cons_of_mem _ hk)
      have hstep : keys.next ≤ (keys.advancePast key).next ∧
          key < (keys.advancePast key).next := by
        unfold KeySequence.advancePast
        split
        · dsimp only
          omega
        · omega
      rw [List.foldl_cons]
      refine ⟨by omega, fun k hk => ?_⟩
      rcases List.mem_cons.mp hk with rfl | hk
      · omega
      · exact hlt k hk

/-- **Restoring the snapshot of a sound engine gives a sound engine.** -/
theorem Sound.rebuild {e blank e' : Engine} (he : e.Sound) (hblank : blank.Blank)
    (h : blank.rebuild e.snapshot = .ok e') : e'.Sound := by
  rw [rebuild_snapshot he hblank] at h
  obtain rfl := (Except.ok.inj h).symm
  have hstored : ∀ keys : KeySequence, ({ blank with
      name := e.name, definitions := e.definitions,
      instances := e.instances.map Instance.relinked, keys } : Engine).storedKeys =
        e.storedKeys := by
    intro keys
    simp [storedKeys, List.flatMap_map]
  refine ⟨he.genuine, fun j hj => ?_, ?_, fun key hkey => ?_⟩
  · obtain ⟨i, hi, rfl⟩ := List.mem_map.mp hj
    exact ⟨(he.instances i hi).1.relinked, (he.instances i hi).2⟩
  · rw [hstored]
    exact he.nodup
  · rw [hstored] at hkey
    have hroom := fun k hk => (he.behind k hk).2
    exact ⟨(le_foldl_advancePast blank.keys hroom).2 key hkey, (he.behind key hkey).2⟩

end Engine

end ProcessEngine
